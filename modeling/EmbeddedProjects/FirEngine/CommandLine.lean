import EmbeddedProjects.Lib.Decimal
import EmbeddedProjects.FirEngine.StringMatchStream

namespace FirEngine

open StringMatchStream

abbrev Arg := List Char

-- the variables of getopt.cpp; `place` points into an element of argv, and opterr and optreset
-- keep their initial 1 and 0
structure Getopt where
  optind : Nat := 1
  optopt : Char := Char.ofNat 0
  optarg : Option Arg := none
  place : List Char := []

def strchr (s : List Char) (c : Char) : Option (List Char) :=
  match s.dropWhile (· != c) with
  | [] => none
  | oli => some oli

namespace Getopt

variable (argv : List Arg) (ostr : List Char) (g : Getopt)

def updateScanningPointer : Except Getopt Getopt :=
  if g.place = [] then
    match argv[g.optind]? with
    | some ['-'] => .ok { g with place := ['-'] }
    | some ('-' :: '-' :: _) => .error { g with optind := g.optind + 1 }
    | some ('-' :: rest) => .ok { g with place := rest }
    | _ => .error g
  else .ok g

def illegalOption (c : Char) : String :=
  "illegal option -- " ++ String.singleton c ++ "\n"

def optionRequiresArgument (c : Char) : String :=
  "option requires an argument -- " ++ String.singleton c ++ "\n"

def skipElement : Getopt := if g.place = [] then { g with optind := g.optind + 1 } else g

def takeArgument (c : Char) : Option Char × Option String × Getopt :=
  if g.place ≠ [] then
    (some c, none, { g with optarg := some g.place, optind := g.optind + 1, place := [] })
  else
    match argv[g.optind + 1]? with
    | some arg => (some c, none, { g with optarg := some arg, optind := g.optind + 2 })
    | none =>
      let g := { g with optind := g.optind + 1 }
      if ostr.head? = some ':' then (some ':', none, g)
      else (some '?', some (optionRequiresArgument c), g)

def letter (c : Char) : Option Char × Option String × Getopt :=
  match if c = ':' then none else strchr ostr c with
  | none =>
    if c = '-' then (none, none, g)
    else (some '?', if ostr.head? ≠ some ':' then some (illegalOption c) else none, g.skipElement)
  | some oli =>
    if oli[1]? ≠ some ':' then (some c, none, { g with optarg := none }.skipElement)
    else g.takeArgument argv ostr c

def getopt : Option Char × Option String × Getopt :=
  match g.updateScanningPointer argv with
  | .error g => (none, none, g)
  | .ok g =>
    match g.place with
    | [] => (none, none, g)
    | c :: place => { g with optopt := c, place := place }.letter argv ostr c

end Getopt

namespace Getopt

variable {argv : List Arg} {ostr : List Char} {g g' : Getopt} {c d : Char}
  {printed : Option String}

def Advances (g g' : Getopt) : Prop :=
  (g.optind < g'.optind ∧ g'.place = []) ∨
    (g'.optind = g.optind ∧ g'.place = g.place ∧ g.place ≠ [])

theorem advances_skipElement (g : Getopt) : Advances g g.skipElement := by
  rw [skipElement]
  split
  · next hnil => exact .inl ⟨Nat.lt_succ_self _, hnil⟩
  · next hne => exact .inr ⟨rfl, rfl, hne⟩

theorem advances_takeArgument (h : g.takeArgument argv ostr c = (some d, printed, g')) :
    Advances g g' := by
  rw [takeArgument] at h
  split at h
  · cases h
    exact .inl ⟨Nat.lt_succ_self _, rfl⟩
  · next hnil =>
    have hplace : g.place = [] := not_not.mp hnil
    split at h
    · cases h
      exact .inl ⟨Nat.lt_add_of_pos_right (by decide), hplace⟩
    · dsimp only at h
      split at h
      · cases h
        exact .inl ⟨Nat.lt_succ_self _, hplace⟩
      · cases h
        exact .inl ⟨Nat.lt_succ_self _, hplace⟩

theorem advances_letter (h : g.letter argv ostr c = (some d, printed, g')) : Advances g g' := by
  rw [letter] at h
  split at h
  · split at h
    · cases h
    · cases h
      exact advances_skipElement g
  · split at h
    · cases h
      exact advances_skipElement { g with optarg := none }
    · exact advances_takeArgument h

def pending (argv : List Arg) (g : Getopt) : Nat :=
  if g.place = [] then (argv[g.optind]?.map (·.length)).getD 0 else g.place.length

theorem updateScanningPointer_ok (h : g.updateScanningPointer argv = .ok g') :
    g'.optind = g.optind ∧ g'.place ≠ [] ∧ g'.place.length ≤ pending argv g ∧
      (g.place = [] → g.optind < argv.length) := by
  rw [updateScanningPointer] at h
  rw [pending]
  split at h
  · next hnil =>
    rw [if_pos hnil]
    have hlt : ∀ {a : Arg}, argv[g.optind]? = some a → g.optind < argv.length :=
      fun ha => (List.getElem?_eq_some_iff.mp ha).1
    split at h
    · next ha =>
      cases h
      rw [ha]
      exact ⟨rfl, List.cons_ne_nil _ _, Nat.le_refl _, fun _ => hlt ha⟩
    · cases h
    · next rest hdash _ ha =>
      cases h
      rw [ha]
      exact ⟨rfl, hdash, Nat.le_succ _, fun _ => hlt ha⟩
    · cases h
  · next hne =>
    cases h
    rw [if_neg hne]
    exact ⟨rfl, hne, Nat.le_refl _, fun hnil => absurd hnil hne⟩

theorem getopt_decreases (h : g.getopt argv ostr = (some c, printed, g')) :
    argv.length - g'.optind < argv.length - g.optind ∨
      argv.length - g'.optind = argv.length - g.optind ∧ pending argv g' < pending argv g := by
  rw [getopt] at h
  split at h
  · cases h
  · next g₁ hg₁ =>
    obtain ⟨hoptind, -, hlen, hlt⟩ := updateScanningPointer_ok hg₁
    split at h
    · cases h
    · next d place hplace =>
      rw [hplace, List.length_cons] at hlen
      rcases advances_letter h with ⟨hnext, hnil⟩ | ⟨hsame, hrest, hne⟩
      · change g₁.optind < g'.optind at hnext
        by_cases hin : g.optind < argv.length
        · exact .inl (by omega)
        · refine .inr ⟨by omega, ?_⟩
          have hout : argv[g'.optind]? = none := List.getElem?_eq_none (by omega)
          have hzero : pending argv g' = 0 := by rw [pending, if_pos hnil, hout]; rfl
          omega
      · change g'.optind = g₁.optind at hsame
        change g'.place = place at hrest
        change place ≠ [] at hne
        refine .inr ⟨by omega, ?_⟩
        have hleft : pending argv g' = place.length := by
          rw [pending, if_neg (by rw [hrest]; exact hne), hrest]
        omega

end Getopt

inductive Ended where
  | exit (stdout stderr : List String)
  | uncaught
  deriving DecidableEq, Repr

structure FirEngineGlobals where
  firEngineName : List Char := "unknown".toList
  clockFreq : ℚ := 400000000
  numTimeSlices : Nat := 16
  deriving DecidableEq, Repr

-- no digits and a value out of the range of int both throw
def stoi (s : List Char) : Option Int :=
  let sign := Decimal.readSign (s.dropWhile isspace)
  let digits := sign.2.takeWhile Char.isDigit
  let value := Decimal.signed sign.1 (Nat.ofDigitChars 10 digits 0 : Int)
  if digits ≠ [] ∧ -2 ^ 31 ≤ value ∧ value < 2 ^ 31 then some value else none

namespace FirEngineGlobals

variable (stod : List Char → Option ℚ)

def usage (argv0 : Arg) : String :=
  "usage: " ++ String.ofList argv0 ++ " [-f ClockFreq] [-t timeSlices] firEngineName"

def optionLetters : List Char := "-f:-t:".toList

def setClockFreq (m : FirEngineGlobals) (optarg : Option Arg) : Except Ended FirEngineGlobals :=
  match optarg.bind stod with
  | some clockFreq => .ok { m with clockFreq }
  | none => .error .uncaught

def setNumTimeSlices (m : FirEngineGlobals) (optarg : Option Arg) : Except Ended FirEngineGlobals :=
  match optarg.bind stoi with
  | some value => .ok { m with numTimeSlices := (value % 2 ^ 32).toNat }
  | none => .error .uncaught

def setOption (argv0 : Arg) (m : FirEngineGlobals) (c : Char) (printed : Option String)
    (optarg : Option Arg) : Except Ended FirEngineGlobals :=
  if c = 'f' then m.setClockFreq stod optarg
  else if c = 't' then m.setNumTimeSlices optarg
  else if c = '?' then .error (.exit printed.toList [usage argv0])
  else .ok m

-- while ((c = getopt(argc, argv, "-f:-t:")) != -1)
def parseOptions (argv : List Arg) (m : FirEngineGlobals) (g : Getopt) :
    Except Ended (FirEngineGlobals × Getopt) :=
  match _h : g.getopt argv optionLetters with
  | (none, _, g') => .ok (m, g')
  | (some c, printed, g') =>
    match setOption stod (argv.headD []) m c printed g'.optarg with
    | .ok m => parseOptions argv m g'
    | .error ended => .error ended
termination_by (argv.length - g.optind, Getopt.pending argv g)
decreasing_by
  rcases Getopt.getopt_decreases _h with hlt | ⟨heq, hlt⟩
  · exact Prod.Lex.left _ _ hlt
  · rw [heq]
    exact Prod.Lex.right _ hlt

def moreThanOneName (argv0 : Arg) : String :=
  String.ofList argv0 ++ " has more than one firEngineName\n"

def missingName (argv0 : Arg) : String := String.ofList argv0 ++ " missing firEngineName\n"

def setName (argv : List Arg) (m : FirEngineGlobals) (g : Getopt) :
    Except Ended FirEngineGlobals :=
  let argv0 := argv.headD []
  if g.optind + 1 > argv.length then .error (.exit [] [moreThanOneName argv0, usage argv0])
  else if g.optind + 1 < argv.length then .error (.exit [] [missingName argv0, usage argv0])
  else .ok { m with firEngineName := argv.getD g.optind [] }

def parseArgs (argv : List Arg) : Except Ended FirEngineGlobals := do
  let (m, g) ← parseOptions stod argv {} {}
  setName argv m g

inductive Written : List Arg → List (Char × Arg) → List Arg → Prop
  | operands {args : List Arg} : (∀ a ∈ args.head?, a.head? ≠ some '-') → Written args [] args
  | dashes (v : Arg) (rest : List Arg) : Written (('-' :: '-' :: v) :: rest) [] rest
  | dash {rest : List Arg} {opts : List (Char × Arg)} {names : List Arg} :
      Written rest opts names → Written (['-'] :: rest) opts names
  | attached {c : Char} {v : Arg} {rest : List Arg} {opts : List (Char × Arg)}
      {names : List Arg} : c ∈ ['f', 't'] → v ≠ [] → Written rest opts names →
      Written (('-' :: c :: v) :: rest) ((c, v) :: opts) names
  | separate {c : Char} {v : Arg} {rest : List Arg} {opts : List (Char × Arg)}
      {names : List Arg} : c ∈ ['f', 't'] → Written rest opts names →
      Written (['-', c] :: v :: rest) ((c, v) :: opts) names

def Converts (o : Char × Arg) : Prop :=
  if o.1 = 'f' then (stod o.2).isSome = true else (stoi o.2).isSome = true

def lastArgument (c : Char) (opts : List (Char × Arg)) : Option Arg :=
  (opts.reverse.find? (·.1 == c)).map Prod.snd

def after (m : FirEngineGlobals) (opts : List (Char × Arg)) : FirEngineGlobals :=
  { m with
    clockFreq := ((lastArgument 'f' opts).bind stod).getD m.clockFreq
    numTimeSlices := (((lastArgument 't' opts).bind stoi).map
      fun value => (value % 2 ^ 32).toNat).getD m.numTimeSlices }

section Calls

variable {argv : List Arg} {g : Getopt} {a v : Arg} {c : Char}

theorem getopt_operand (hnil : g.place = []) (h : ∀ a ∈ argv[g.optind]?, a.head? ≠ some '-') :
    g.getopt argv optionLetters = (none, none, g) := by
  rw [Getopt.getopt, Getopt.updateScanningPointer, if_pos hnil]
  cases ha : argv[g.optind]? with
  | none => rfl
  | some a =>
    have hdash := h a ha
    cases a with
    | nil => rfl
    | cons d a =>
      have hne : d ≠ '-' := fun hd => hdash (congrArg some hd)
      simp [hne]

theorem getopt_dashes (hnil : g.place = []) (h : argv[g.optind]? = some ('-' :: '-' :: v)) :
    g.getopt argv optionLetters = (none, none, { g with optind := g.optind + 1 }) := by
  rw [Getopt.getopt, Getopt.updateScanningPointer, if_pos hnil, h]
  rfl

theorem getopt_dash (hnil : g.place = []) (h : argv[g.optind]? = some ['-']) :
    g.getopt argv optionLetters =
      (some '-', none, ⟨g.optind + 1, '-', none, []⟩) := by
  rw [Getopt.getopt, Getopt.updateScanningPointer, if_pos hnil, h]
  rfl

theorem getopt_attached (hnil : g.place = []) (hc : c ∈ ['f', 't']) (hv : v ≠ [])
    (h : argv[g.optind]? = some ('-' :: c :: v)) : g.getopt argv optionLetters =
      (some c, none, ⟨g.optind + 1, c, some v, []⟩) := by
  obtain ⟨d, v, rfl⟩ := List.exists_cons_of_ne_nil hv
  rw [Getopt.getopt, Getopt.updateScanningPointer, if_pos hnil, h]
  simp only [List.mem_cons, List.not_mem_nil, or_false] at hc
  rcases hc with rfl | rfl <;> rfl

theorem getopt_separate (hnil : g.place = []) (hc : c ∈ ['f', 't'])
    (h : argv[g.optind]? = some ['-', c]) (hv : argv[g.optind + 1]? = some v) :
    g.getopt argv optionLetters = (some c, none, ⟨g.optind + 2, c, some v, []⟩) := by
  rw [Getopt.getopt, Getopt.updateScanningPointer, if_pos hnil, h]
  simp only [List.mem_cons, List.not_mem_nil, or_false] at hc
  rcases hc with rfl | rfl
  · change Getopt.takeArgument argv optionLetters ⟨g.optind, 'f', g.optarg, []⟩ 'f' = _
    simp [Getopt.takeArgument, hv]
  · change Getopt.takeArgument argv optionLetters ⟨g.optind, 't', g.optarg, []⟩ 't' = _
    simp [Getopt.takeArgument, hv]

theorem getopt_missing (hnil : g.place = []) (hc : c ∈ ['f', 't'])
    (h : argv[g.optind]? = some ['-', c]) (hv : argv[g.optind + 1]? = none) :
    ∃ g', g.getopt argv optionLetters =
      (some '?', some (Getopt.optionRequiresArgument c), g') := by
  rw [Getopt.getopt, Getopt.updateScanningPointer, if_pos hnil, h]
  simp only [List.mem_cons, List.not_mem_nil, or_false] at hc
  rcases hc with rfl | rfl
  · refine ⟨⟨g.optind + 1, 'f', g.optarg, []⟩, ?_⟩
    change Getopt.takeArgument argv optionLetters ⟨g.optind, 'f', g.optarg, []⟩ 'f' = _
    simp [Getopt.takeArgument, hv, optionLetters]
  · refine ⟨⟨g.optind + 1, 't', g.optarg, []⟩, ?_⟩
    change Getopt.takeArgument argv optionLetters ⟨g.optind, 't', g.optarg, []⟩ 't' = _
    simp [Getopt.takeArgument, hv, optionLetters]

theorem strchr_optionLetters (hc : c ∉ ['-', 'f', 't', ':']) : strchr optionLetters c = none := by
  simp only [List.mem_cons, List.not_mem_nil, or_false, not_or] at hc
  obtain ⟨hdash, hf, ht, hcolon⟩ := hc
  have hletters : optionLetters = ['-', 'f', ':', '-', 't', ':'] := rfl
  simp [strchr, hletters, Ne.symm hdash, Ne.symm hf, Ne.symm ht, Ne.symm hcolon]

theorem getopt_illegal (hnil : g.place = []) (hc : c ∉ ['-', 'f', 't'])
    (h : argv[g.optind]? = some ('-' :: c :: v)) :
    ∃ g', g.getopt argv optionLetters = (some '?', some (Getopt.illegalOption c), g') := by
  have hdash : c ≠ '-' := fun hd => hc (by simp [hd])
  have hfound : (if c = ':' then none else strchr optionLetters c) = none := by
    split
    · rfl
    · next hcolon =>
      refine strchr_optionLetters ?_
      simp only [List.mem_cons, List.not_mem_nil, or_false, not_or] at hc ⊢
      exact ⟨hc.1, hc.2.1, hc.2.2, hcolon⟩
  have hpointer : g.updateScanningPointer argv = .ok { g with place := c :: v } := by
    rw [Getopt.updateScanningPointer, if_pos hnil, h]
    simp [hdash]
  have hhead : optionLetters.head? ≠ some ':' := by decide
  rw [Getopt.getopt, hpointer]
  simp only [Getopt.letter, hfound, if_neg hdash, if_pos hhead]
  exact ⟨_, rfl⟩

end Calls

def Readable (args : List Arg) : Prop :=
  ∃ opts names, Written args opts names ∧ ∀ o ∈ opts, Converts stod o

def Refused (argv0 : Arg) (ended : Ended) : Prop :=
  ended = .uncaught ∨ ∃ c, ended = .exit [Getopt.illegalOption c] [usage argv0] ∨
    ended = .exit [Getopt.optionRequiresArgument c] [usage argv0]

def RefusedAt (argv : List Arg) (m : FirEngineGlobals) (g : Getopt) : Prop :=
  ∃ ended, parseOptions stod argv m g = .error ended ∧ Refused (argv.headD []) ended

section Options

variable {stod} {argv args names : List Arg} {g g' : Getopt} {a v : Arg} {c : Char}
  {m m' : FirEngineGlobals} {opts : List (Char × Arg)} {o : Char × Arg}
  {printed : Option String} {ended : Ended}

theorem parseOptions_done (h : g.getopt argv optionLetters = (none, printed, g')) :
    parseOptions stod argv m g = .ok (m, g') := by
  rw [parseOptions]
  split
  · next h' =>
    obtain rfl := (Prod.mk.inj (Prod.mk.inj (h'.symm.trans h)).2).2
    rfl
  · next h' => cases (Prod.mk.inj (h'.symm.trans h)).1

theorem parseOptions_letter (h : g.getopt argv optionLetters = (some c, printed, g'))
    (hset : setOption stod (argv.headD []) m c printed g'.optarg = .ok m') :
    parseOptions stod argv m g = parseOptions stod argv m' g' := by
  rw [parseOptions]
  split
  · next h' => cases (Prod.mk.inj (h'.symm.trans h)).1
  · next h' =>
    cases h'.symm.trans h
    rw [hset]

theorem parseOptions_error (h : g.getopt argv optionLetters = (some c, printed, g'))
    (hset : setOption stod (argv.headD []) m c printed g'.optarg = .error ended) :
    parseOptions stod argv m g = .error ended := by
  rw [parseOptions]
  split
  · next h' => cases (Prod.mk.inj (h'.symm.trans h)).1
  · next h' =>
    cases h'.symm.trans h
    rw [hset]

theorem lastArgument_cons (c : Char) (o : Char × Arg) (opts : List (Char × Arg)) :
    lastArgument c (o :: opts) =
      (lastArgument c opts).or (if o.1 = c then some o.2 else none) := by
  rw [lastArgument, List.reverse_cons, List.find?_append, lastArgument]
  cases opts.reverse.find? (·.1 == c) with
  | some p => rfl
  | none =>
    by_cases hc : o.1 = c
    · simp [hc]
    · simp [hc]

theorem mem_of_lastArgument (h : lastArgument c opts = some v) : (c, v) ∈ opts := by
  obtain ⟨o, ho, rfl⟩ := Option.map_eq_some_iff.mp h
  have hc : o.1 = c := by simpa using List.find?_some ho
  rw [← hc]
  exact List.mem_reverse.mp (List.mem_of_find?_eq_some ho)

theorem after_cons (hopts : ∀ o ∈ opts, Converts stod o) :
    after stod m (o :: opts) = after stod (after stod m [o]) opts := by
  have hf : ((lastArgument 'f' (o :: opts)).bind stod).getD m.clockFreq =
      ((lastArgument 'f' opts).bind stod).getD
        (((lastArgument 'f' [o]).bind stod).getD m.clockFreq) := by
    rw [lastArgument_cons, lastArgument_cons _ o []]
    cases hlast : lastArgument 'f' opts with
    | none => rfl
    | some v =>
      have hconv : (stod v).isSome = true := hopts _ (mem_of_lastArgument hlast)
      obtain ⟨q, hq⟩ := Option.isSome_iff_exists.mp hconv
      simp [hq]
  have ht : (((lastArgument 't' (o :: opts)).bind stoi).map
        fun value => (value % 2 ^ 32).toNat).getD m.numTimeSlices =
      (((lastArgument 't' opts).bind stoi).map fun value => (value % 2 ^ 32).toNat).getD
        ((((lastArgument 't' [o]).bind stoi).map
          fun value => (value % 2 ^ 32).toNat).getD m.numTimeSlices) := by
    rw [lastArgument_cons, lastArgument_cons _ o []]
    cases hlast : lastArgument 't' opts with
    | none => rfl
    | some v =>
      have hconv : (stoi v).isSome = true := hopts _ (mem_of_lastArgument hlast)
      obtain ⟨q, hq⟩ := Option.isSome_iff_exists.mp hconv
      simp [hq]
  rw [after, after, after, hf, ht]

theorem setOption_letter (hc : c ∈ ['f', 't']) (h : Converts stod (c, v)) :
    setOption stod a m c none (some v) = .ok (after stod m [(c, v)]) := by
  simp only [List.mem_cons, List.not_mem_nil, or_false] at hc
  rcases hc with rfl | rfl
  · obtain ⟨q, hq⟩ := Option.isSome_iff_exists.mp (show (stod v).isSome = true from h)
    simp [setOption, setClockFreq, after, lastArgument, hq]
  · obtain ⟨q, hq⟩ := Option.isSome_iff_exists.mp (show (stoi v).isSome = true from h)
    simp [setOption, setNumTimeSlices, after, lastArgument, hq]

theorem setOption_uncaught (hc : c ∈ ['f', 't']) (h : ¬ Converts stod (c, v)) :
    setOption stod a m c none (some v) = .error .uncaught := by
  simp only [List.mem_cons, List.not_mem_nil, or_false] at hc
  rcases hc with rfl | rfl
  · have hq : stod v = none := Option.not_isSome_iff_eq_none.mp h
    simp [setOption, setClockFreq, hq]
  · have hq : stoi v = none := Option.not_isSome_iff_eq_none.mp h
    simp [setOption, setNumTimeSlices, hq]

theorem getElem?_of_drop {i : Nat} (h : argv.drop i = args) (k : Nat) :
    argv[i + k]? = args[k]? := by
  rw [← h, List.getElem?_drop]

theorem drop_of_drop {i : Nat} (h : argv.drop i = args) (k : Nat) :
    argv.drop (i + k) = args.drop k := by
  rw [← h, List.drop_drop]

-- the pointer stands at EMSG between two calls, so the elements left are all there is to know
theorem parseOptions_written (h : Written args opts names)
    (hopts : ∀ o ∈ opts, Converts stod o) (hnil : g.place = [])
    (hargs : argv.drop g.optind = args) :
    ∃ g', parseOptions stod argv m g = .ok (after stod m opts, g') ∧
      argv.drop g'.optind = names := by
  induction h generalizing m g with
  | @operands args hhead =>
    have hat := getElem?_of_drop hargs 0
    refine ⟨g, parseOptions_done (getopt_operand hnil ?_), hargs⟩
    rw [Nat.add_zero] at hat
    rwa [hat, ← List.head?_eq_getElem?]
  | dashes v rest =>
    exact ⟨_, parseOptions_done (getopt_dashes hnil (getElem?_of_drop hargs 0)),
      drop_of_drop hargs 1⟩
  | dash hrest ih =>
    have hcall := getopt_dash hnil (getElem?_of_drop hargs 0)
    obtain ⟨g', hparse, hnames⟩ :=
      ih (g := ⟨g.optind + 1, '-', none, []⟩) hopts rfl (drop_of_drop hargs 1)
    exact ⟨g', (parseOptions_letter hcall rfl).trans hparse, hnames⟩
  | @attached c v rest opts names hc hv hrest ih =>
    obtain ⟨hconv, hopts⟩ := List.forall_mem_cons.mp hopts
    have hcall := getopt_attached hnil hc hv (getElem?_of_drop hargs 0)
    obtain ⟨g', hparse, hnames⟩ :=
      ih (g := ⟨g.optind + 1, c, some v, []⟩) hopts rfl (drop_of_drop hargs 1)
    rw [after_cons hopts]
    exact ⟨g', (parseOptions_letter hcall (setOption_letter hc hconv)).trans hparse, hnames⟩
  | @separate c v rest opts names hc hrest ih =>
    obtain ⟨hconv, hopts⟩ := List.forall_mem_cons.mp hopts
    have hcall := getopt_separate hnil hc (getElem?_of_drop hargs 0) (getElem?_of_drop hargs 1)
    obtain ⟨g', hparse, hnames⟩ :=
      ih (g := ⟨g.optind + 2, c, some v, []⟩) hopts rfl (drop_of_drop hargs 2)
    rw [after_cons hopts]
    exact ⟨g', (parseOptions_letter hcall (setOption_letter hc hconv)).trans hparse, hnames⟩

theorem refusedAt_message {message : String}
    (hcall : g.getopt argv optionLetters = (some '?', some message, g'))
    (h : ∃ c, message = Getopt.illegalOption c ∨ message = Getopt.optionRequiresArgument c) :
    RefusedAt stod argv m g := by
  refine ⟨_, parseOptions_error hcall rfl, .inr ?_⟩
  obtain ⟨c, rfl | rfl⟩ := h
  · exact ⟨c, .inl rfl⟩
  · exact ⟨c, .inr rfl⟩

theorem RefusedAt.of_eq (h : RefusedAt stod argv m' g')
    (heq : parseOptions stod argv m g = parseOptions stod argv m' g') :
    RefusedAt stod argv m g := by
  obtain ⟨ended, hended, hrefused⟩ := h
  exact ⟨ended, heq.trans hended, hrefused⟩

theorem refusedAt_or_letter {rest : List Arg} (hc : c ∈ ['f', 't'])
    (hcall : g.getopt argv optionLetters = (some c, none, g')) (harg : g'.optarg = some v)
    (hrest : ∀ m, RefusedAt stod argv m g' ∨ Readable stod rest)
    (hwritten : ∀ opts names, Written rest opts names → Written args ((c, v) :: opts) names) :
    RefusedAt stod argv m g ∨ Readable stod args := by
  by_cases hconv : Converts stod (c, v)
  · have heq := parseOptions_letter (m := m) hcall (by rw [harg]; exact setOption_letter hc hconv)
    rcases hrest (after stod m [(c, v)]) with hrefused | ⟨opts, names, hrest, hopts⟩
    · exact .inl (hrefused.of_eq heq)
    · exact .inr ⟨_, _, hwritten opts names hrest, List.forall_mem_cons.mpr ⟨hconv, hopts⟩⟩
  · refine .inl ⟨.uncaught, parseOptions_error hcall ?_, .inl rfl⟩
    rw [harg]
    exact setOption_uncaught hc hconv

theorem refusedAt_or_readable (m : FirEngineGlobals) (hnil : g.place = [])
    (hargs : argv.drop g.optind = args) : RefusedAt stod argv m g ∨ Readable stod args := by
  induction hn : args.length using Nat.strongRecOn generalizing args m g with
  | ind n ih =>
    have hat := getElem?_of_drop hargs
    have hnext : ∀ k optopt optarg rest, args.drop k = rest → rest.length < args.length →
        ∀ m, RefusedAt stod argv m ⟨g.optind + k, optopt, optarg, []⟩ ∨ Readable stod rest := by
      rintro k optopt optarg rest rfl hlt m
      exact ih _ (hn ▸ hlt) m rfl (drop_of_drop hargs k) rfl
    have hstop : (∀ a ∈ args.head?, a.head? ≠ some '-') → Readable stod args := fun hhead =>
      ⟨[], args, .operands hhead, by simp⟩
    rcases args with _ | ⟨_ | ⟨d, a⟩, rest⟩
    · exact .inr (hstop (by simp))
    · exact .inr (hstop (by simp))
    by_cases hd : d = '-'
    · subst hd
      rcases a with _ | ⟨c, v⟩
      · have hcall := getopt_dash hnil (hat 0)
        rcases hnext 1 '-' none rest rfl (Nat.lt_succ_self _) m with
          hrefused | ⟨opts, names, hrest, hopts⟩
        · exact .inl (hrefused.of_eq (parseOptions_letter hcall rfl))
        · exact .inr ⟨opts, names, .dash hrest, hopts⟩
      · by_cases hdash : c = '-'
        · subst hdash
          exact .inr ⟨[], rest, .dashes v rest, by simp⟩
        by_cases hc : c ∈ ['f', 't']
        · by_cases hv : v = []
          · subst hv
            rcases rest with _ | ⟨v, rest⟩
            · obtain ⟨g', hcall⟩ := getopt_missing hnil hc (hat 0) (hat 1)
              exact .inl (refusedAt_message hcall ⟨c, .inr rfl⟩)
            · exact refusedAt_or_letter hc (getopt_separate hnil hc (hat 0) (hat 1)) rfl
                (hnext 2 c (some v) rest rfl (by simp only [List.length_cons]; omega))
                fun opts names hrest => .separate hc hrest
          · exact refusedAt_or_letter hc (getopt_attached hnil hc hv (hat 0)) rfl
              (hnext 1 c (some v) rest rfl (Nat.lt_succ_self _))
              fun opts names hrest => .attached hc hv hrest
        · obtain ⟨g', hcall⟩ := getopt_illegal hnil (by simp_all) (hat 0)
          exact .inl (refusedAt_message hcall ⟨c, .inl rfl⟩)
    · exact .inr (hstop (by simpa using hd))

end Options

section Line

variable {stod} {prog : Arg} {args names : List Arg} {opts : List (Char × Arg)}
  {m : FirEngineGlobals}

def countNames (prog : Arg) (m : FirEngineGlobals) : List Arg → Except Ended FirEngineGlobals
  | [] => .error (.exit [] [moreThanOneName prog, usage prog])
  | [name] => .ok { m with firEngineName := name }
  | _ :: _ :: _ => .error (.exit [] [missingName prog, usage prog])

theorem setName_eq {argv : List Arg} {g : Getopt} (h : argv.drop g.optind = names) :
    setName argv m g = countNames (argv.headD []) m names := by
  have hlen : argv.length - g.optind = names.length := by rw [← h, List.length_drop]
  have hat := getElem?_of_drop h 0
  rw [setName]
  rcases names with _ | ⟨name, _ | ⟨name', names⟩⟩
  · rw [List.length_nil] at hlen
    rw [if_pos (by omega)]
    rfl
  · rw [List.length_singleton] at hlen
    rw [if_neg (by omega), if_neg (by omega), List.getD_eq_getElem?_getD]
    rw [Nat.add_zero] at hat
    rw [hat]
    rfl
  · rw [List.length_cons, List.length_cons] at hlen
    rw [if_neg (by omega), if_pos (by omega)]
    rfl

theorem parseArgs_written (h : Written args opts names) (hopts : ∀ o ∈ opts, Converts stod o) :
    parseArgs stod (prog :: args) = countNames prog (after stod {} opts) names := by
  have hread : ∃ g', parseOptions stod (prog :: args) {} {} = .ok (after stod {} opts, g') ∧
      (prog :: args).drop g'.optind = names := parseOptions_written h hopts rfl rfl
  obtain ⟨g', hparse, hnames⟩ := hread
  rw [parseArgs, hparse]
  exact setName_eq hnames

theorem parseArgs_refused (h : ¬ Readable stod args) :
    ∃ ended, parseArgs stod (prog :: args) = .error ended ∧ Refused prog ended := by
  have hor : RefusedAt stod (prog :: args) {} {} ∨ Readable stod args :=
    refusedAt_or_readable {} rfl rfl
  rcases hor with ⟨ended, hended, hrefused⟩ | hread
  · refine ⟨ended, ?_, hrefused⟩
    rw [parseArgs, hended]
    rfl
  · exact absurd hread h

end Line

end FirEngineGlobals

open FirEngineGlobals

theorem parseArgs_reads_the_line (stod : List Char → Option ℚ) (prog : Arg) (args : List Arg) :
    (∀ m, parseArgs stod (prog :: args) = .ok m ↔
      ∃ opts name, Written args opts [name] ∧ (∀ o ∈ opts, Converts stod o) ∧
        m = { after stod {} opts with firEngineName := name }) ∧
    (∀ opts names, Written args opts names → (∀ o ∈ opts, Converts stod o) →
      parseArgs stod (prog :: args) = countNames prog (after stod {} opts) names) ∧
    (¬ Readable stod args →
      ∃ ended, parseArgs stod (prog :: args) = .error ended ∧ Refused prog ended) := by
  refine ⟨fun m => ⟨fun h => ?_, ?_⟩, fun opts names => parseArgs_written, parseArgs_refused⟩
  · by_cases hread : Readable stod args
    · obtain ⟨opts, names, hwritten, hopts⟩ := hread
      rw [parseArgs_written hwritten hopts] at h
      rcases names with _ | ⟨name, _ | ⟨name', names⟩⟩
      · cases h
      · exact ⟨opts, name, hwritten, hopts, (Except.ok.inj h).symm⟩
      · cases h
    · have hrefused : ∃ ended, parseArgs stod (prog :: args) = .error ended ∧ Refused prog ended :=
        parseArgs_refused hread
      obtain ⟨ended, hended, -⟩ := hrefused
      rw [hended] at h
      cases h
  · rintro ⟨opts, name, hwritten, hopts, rfl⟩
    rw [parseArgs_written hwritten hopts]
    rfl

end FirEngine
