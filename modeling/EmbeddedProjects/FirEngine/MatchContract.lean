import EmbeddedProjects.FirEngine.SpecGrammar

namespace FirEngine

open Scan SpecGrammar

namespace StringMatchStream

inductive Matcher where
  | text (pText : String)
  | char (charRequired : Char)
  | charInRange (chLower chUpper : Char)
  | charInSet (charSet : List Char)
  | whitespace
  | whitespaceInto (pOut : List Char)
  | ident (pString : Option (List Char))
  | floatingPointNumber (pIsFloat : Option Bool) (pDouble : Option ℚ)
  | hexDigit (pUInt : Nat)
  | hexDigits (numDigits : Nat)
  | int
  | uInt

def isHexDigit (c : Char) : Bool :=
  charInRange '0' '9' c || charInRange 'a' 'f' c || charInRange 'A' 'F' c

def ident : Language Char := one isIdentStart * span isIdentPart

def hexNumber (numDigits : Nat) : Language Char :=
  {w | w.length = numDigits ∧ ∀ c ∈ w, isHexDigit c = true}

namespace Matcher

def run (strtod : List Char → ℚ) :
    Matcher → StringMatchStream → Except Fault (Bool × StringMatchStream)
  | text pText, s => matchText pText s
  | char charRequired, s => .ok (matchChar charRequired s)
  | charInRange chLower chUpper, s => .ok (matchCharInRange chLower chUpper s)
  | charInSet charSet, s => .ok (matchCharInSet charSet s)
  | whitespace, s => .ok (matchWhitespace s)
  | whitespaceInto pOut, s => .ok ((matchWhitespaceInto pOut s).1, (matchWhitespaceInto pOut s).2.2)
  | ident pString, s => .ok ((matchIdent pString s).1, (matchIdent pString s).2.2)
  | floatingPointNumber pIsFloat pDouble, s =>
    let result := matchFloatingPointNumberInto strtod pIsFloat pDouble s
    .ok (result.1, result.2.2.2)
  | hexDigit pUInt, s => .ok ((matchHexDigit pUInt s).1, (matchHexDigit pUInt s).2.2)
  | hexDigits numDigits, s => .ok ((matchHexDigits numDigits s).1, (matchHexDigits numDigits s).2.2)
  | int, s => .ok ((matchInt s).1, (matchInt s).2.2)
  | uInt, s => .ok ((matchUInt s).1, (matchUInt s).2.2)

def texts : Matcher → Language Char
  | text pText => Scan.text pText.toList
  | char charRequired => SpecGrammar.char charRequired
  | charInRange chLower chUpper => one (StringMatchStream.charInRange chLower chUpper)
  | charInSet charSet => one charSet.contains
  | whitespace => spanWhere isspace (· ≠ [])
  | whitespaceInto _ => spanWhere isspace (· ≠ [])
  | ident _ => StringMatchStream.ident
  | floatingPointNumber none _ => number
  | floatingPointNumber (some _) _ => number * (1 + one ['f', 'F'].contains)
  | hexDigit _ => one isHexDigit
  | hexDigits numDigits => hexNumber numDigits
  | int => (1 + SpecGrammar.char '-') * digits
  | uInt => digits

def LosesMinus : Matcher → StringMatchStream → Prop
  | int, '-' :: s => (s.takeWhile isDigit).length % 2 ^ 32 = 0
  | _, _ => False

end Matcher

-- advance the Iterator only if a complete match is made
structure AdvancesOnMatch (texts : Language Char) (s : StringMatchStream)
    (result : Bool × StringMatchStream) : Prop where
  unmatched : result.1 = false → result.2 = s
  matched : result.1 = true → Munch texts s (some result.2)

section Matchers

variable {s r : StringMatchStream} {L : Language Char} {p : Char → Bool}

theorem advancesOnMatch_false : AdvancesOnMatch L s (false, s) :=
  ⟨fun _ => rfl, fun htrue => Bool.noConfusion htrue⟩

theorem advancesOnMatch_true (h : Munch L s (some r)) : AdvancesOnMatch L s (true, r) :=
  ⟨fun hfalse => Bool.noConfusion hfalse, fun _ => h⟩

theorem munch_one {c : Char} (hc : p c = true) : Munch (one p) (c :: r) (some r) := by
  refine munch_longest (w := [c]) ⟨c, hc, rfl⟩ ?_
  rintro _ ⟨d, -, rfl⟩
  exact le_rfl

theorem advancesOnMatch_matchIf (p : Char → Bool) (s : StringMatchStream) :
    AdvancesOnMatch (one p) s (matchIf p s) := by
  rcases matchIf_cases p s with ⟨c, r, rfl, hc, hmatch⟩ | ⟨-, hmatch⟩
  · rw [hmatch]
    exact advancesOnMatch_true (munch_one hc)
  · rw [hmatch]
    exact advancesOnMatch_false

theorem advancesOnMatch_matchWhitespace (s : StringMatchStream) :
    AdvancesOnMatch (spanWhere isspace (· ≠ [])) s (s.head?.any isspace, s.dropWhile isspace) := by
  cases s with
  | nil => exact advancesOnMatch_false
  | cons c s =>
    cases hc : isspace c with
    | true =>
      rw [List.head?_cons, Option.any_some, hc, List.dropWhile_cons_of_pos hc]
      exact advancesOnMatch_true (munch_span1 hc s)
    | false =>
      have hno : ¬ isspace c = true := by simp [hc]
      rw [List.head?_cons, Option.any_some, hc, List.dropWhile_cons_of_neg hno]
      exact advancesOnMatch_false

theorem advancesOnMatch_matchText {t : String} (hnul : '\x00' ∉ s) :
    ∃ result, matchText t s = .ok result ∧ AdvancesOnMatch (Scan.text t.toList) s result := by
  rcases matchText_cases t hnul with ⟨r, rfl, hmatch⟩ | ⟨-, hmatch⟩
  · refine ⟨_, hmatch, advancesOnMatch_true (munch_longest rfl ?_)⟩
    rintro _ rfl
    exact le_rfl
  · exact ⟨_, hmatch, advancesOnMatch_false⟩

theorem advancesOnMatch_matchIdent (pString : Option (List Char)) (s : StringMatchStream) :
    AdvancesOnMatch ident s ((matchIdent pString s).1, (matchIdent pString s).2.2) := by
  rw [matchIdent]
  rcases matchIf_cases isIdentStart s with ⟨c, r, rfl, hc, hmatch⟩ | ⟨-, hmatch⟩
  · rw [hmatch]
    exact advancesOnMatch_true (munch_one_mul hc (munch_span isIdentPart r))
  · rw [hmatch]
    exact advancesOnMatch_false

theorem number_within : Within number fun c => !(['f', 'F'].contains c) := by
  have hmarks : ∀ c ∈ ['f', 'F'], isDigit c = false := List.all_iff_forall_prop.mp (by decide)
  have hdigit : ∀ c, isDigit c = true → (!(['f', 'F'].contains c)) = true := by
    intro c hc
    rw [digit_notMem_set hmarks hc]
    rfl
  have hset : ∀ set : List Char, (∀ c ∈ set, (!(['f', 'F'].contains c)) = true) →
      Within (one set.contains) fun c => !(['f', 'F'].contains c) :=
    fun set h => within_one fun c hc => h c (List.contains_iff_mem.mp hc)
  have hchar : ∀ d, (!(['f', 'F'].contains d)) = true →
      Within (char d) fun c => !(['f', 'F'].contains c) :=
    fun d h => within_one fun c hc => by rwa [eq_of_beq hc]
  have hexponent : Within exponent fun c => !(['f', 'F'].contains c) :=
    within_mul (hset _ (List.all_iff_forall_prop.mp (by decide)))
      (within_mul (within_add within_empty (hset _ (List.all_iff_forall_prop.mp (by decide))))
        (within_spanWhere hdigit))
  exact within_mul (within_add within_empty (hchar '+' (by decide)))
    (within_mul (within_add within_empty (hchar '-' (by decide)))
      (within_mul (within_spanWhere hdigit) (within_mul (hchar '.' (by decide))
        (within_mul (within_spanWhere hdigit) (within_add within_empty hexponent)))))

theorem advancesOnMatch_matchFloatingPointNumber (strtod : List Char → ℚ) (pIsFloat : Option Bool)
    (pDouble : Option ℚ) (s : StringMatchStream) :
    AdvancesOnMatch (Matcher.floatingPointNumber pIsFloat pDouble).texts s
      ((matchFloatingPointNumberInto strtod pIsFloat pDouble s).1,
        (matchFloatingPointNumberInto strtod pIsFloat pDouble s).2.2.2) := by
  rw [matchFloatingPointNumberInto]
  rcases scan_cases s with ⟨r, hscan, hmunch⟩ | ⟨hscan, -⟩
  · rw [hscan]
    cases pIsFloat with
    | none => exact advancesOnMatch_true hmunch
    | some isFloat =>
      refine advancesOnMatch_true (munch_mul_opt number_within hmunch ?_)
      rcases matchIf_cases ['f', 'F'].contains r with ⟨c, t, rfl, hc, hmatch⟩ | ⟨hno, hmatch⟩
      · exact .inr ⟨c, hc, congrArg (c :: ·) (congrArg Prod.snd hmatch).symm⟩
      · exact .inl ⟨(congrArg Prod.snd hmatch).symm, hno⟩
  · have hfail : scanFloatingPointNumber s = (false, (scanFloatingPointNumber s).2) :=
      Prod.ext hscan rfl
    rw [hfail]
    exact advancesOnMatch_false

theorem matchHexDigit_cases (pUInt : Nat) (s : StringMatchStream) :
    (∃ c r value, s = c :: r ∧ isHexDigit c = true ∧ matchHexDigit pUInt s = (true, value, r)) ∨
      matchHexDigit pUInt s = (false, pUInt, s) := by
  cases s with
  | nil => exact .inr rfl
  | cons c r =>
    have hyes : ∀ lo hi, charInRange lo hi c = true → matchCharInRange lo hi (c :: r) = (true, r) :=
      fun _ _ h => matchIf_cons h
    have hno : ∀ lo hi, charInRange lo hi c = false →
        matchCharInRange lo hi (c :: r) = (false, c :: r) :=
      fun _ _ h => matchIf_false fun d hd => Option.some.inj hd ▸ h
    simp only [matchHexDigit, isHexDigit]
    cases hdigit : charInRange '0' '9' c with
    | true =>
      rw [hyes _ _ hdigit]
      exact .inl ⟨c, r, _, rfl, by simp [hdigit], rfl⟩
    | false =>
      rw [hno _ _ hdigit]
      cases hlower : charInRange 'a' 'f' c with
      | true =>
        rw [hyes _ _ hlower]
        exact .inl ⟨c, r, _, rfl, by simp [hlower], rfl⟩
      | false =>
        rw [hno _ _ hlower]
        cases hupper : charInRange 'A' 'F' c with
        | true =>
          rw [hyes _ _ hupper]
          exact .inl ⟨c, r, _, rfl, by simp [hupper], rfl⟩
        | false =>
          rw [hno _ _ hupper]
          exact .inr rfl

theorem matchHexDigits'_true {rounds value : Nat} {value' : Nat}
    (h : matchHexDigits' rounds value s = (true, value', r)) :
    ∃ w ∈ hexNumber rounds, s = w ++ r := by
  induction rounds generalizing value s with
  | zero =>
    obtain rfl : s = r := (Prod.mk.inj (Prod.mk.inj h).2).2
    exact ⟨[], ⟨rfl, by simp⟩, rfl⟩
  | succ rounds ih =>
    rw [matchHexDigits'] at h
    rcases matchHexDigit_cases 0 s with ⟨c, t, v, rfl, hc, hmatch⟩ | hmatch
    · rw [hmatch] at h
      obtain ⟨w, ⟨hlen, hw⟩, rfl⟩ := ih h
      exact ⟨c :: w, ⟨by simp [hlen], List.forall_mem_cons.mpr ⟨hc, hw⟩⟩, rfl⟩
    · rw [hmatch] at h
      cases h

theorem advancesOnMatch_matchHexDigit (pUInt : Nat) (s : StringMatchStream) :
    AdvancesOnMatch (one isHexDigit) s
      ((matchHexDigit pUInt s).1, (matchHexDigit pUInt s).2.2) := by
  rcases matchHexDigit_cases pUInt s with ⟨c, r, value, rfl, hc, hmatch⟩ | hmatch
  · rw [hmatch]
    exact advancesOnMatch_true (munch_one hc)
  · rw [hmatch]
    exact advancesOnMatch_false

theorem advancesOnMatch_matchHexDigits (numDigits : Nat) (s : StringMatchStream) :
    AdvancesOnMatch (hexNumber numDigits) s
      ((matchHexDigits numDigits s).1, (matchHexDigits numDigits s).2.2) := by
  rw [matchHexDigits]
  cases hmatch : matchHexDigits' numDigits 0 s with
  | mk matched result =>
    cases matched with
    | false => exact advancesOnMatch_false
    | true =>
      obtain ⟨w, hw, rfl⟩ := matchHexDigits'_true hmatch
      refine advancesOnMatch_true (munch_longest hw fun y hy => ?_)
      rw [hy.1, hw.1]

theorem munch_digits (h : s.takeWhile isDigit ≠ []) :
    Munch digits s (some (s.dropWhile isDigit)) := by
  cases s with
  | nil => exact absurd rfl h
  | cons c s =>
    cases hc : isDigit c with
    | true =>
      rw [List.dropWhile_cons_of_pos hc]
      exact munch_span1 hc s
    | false => simp [hc] at h

theorem ne_nil_of_counted (h : (s.takeWhile isDigit).length % 2 ^ 32 ≠ 0) :
    s.takeWhile isDigit ≠ [] := by
  intro hnil
  rw [hnil] at h
  exact h rfl

theorem advancesOnMatch_matchUInt (s : StringMatchStream) :
    AdvancesOnMatch digits s ((matchUInt s).1, (matchUInt s).2.2) := by
  rcases matchUInt_cases s with ⟨hcount, value, hmatch⟩ | ⟨-, value, hmatch⟩
  · rw [hmatch]
    exact advancesOnMatch_true (munch_digits (ne_nil_of_counted hcount))
  · rw [hmatch]
    exact advancesOnMatch_false

theorem losesMinus_int_iff : Matcher.LosesMinus .int s ↔
    ∃ r, s = '-' :: r ∧ (r.takeWhile isDigit).length % 2 ^ 32 = 0 := by
  constructor
  · intro h
    rw [Matcher.LosesMinus.eq_def] at h
    split at h
    · next r _ => exact ⟨r, rfl, h⟩
    · exact h.elim
  · rintro ⟨r, rfl, h⟩
    exact h

theorem matchInt_minus (s : StringMatchStream) :
    ((matchInt ('-' :: s)).1, (matchInt ('-' :: s)).2.2) =
      ((matchUInt s).1, (matchUInt s).2.2) := rfl

theorem matchInt_plain (h : ∀ c ∈ s.head?, (c == '-') = false) :
    ((matchInt s).1, (matchInt s).2.2) = ((matchUInt s).1, (matchUInt s).2.2) := by
  have hno : matchChar '-' s = (false, s) := matchIf_false h
  rw [matchInt, hno]

theorem advancesOnMatch_matchInt_iff (s : StringMatchStream) :
    AdvancesOnMatch ((1 + char '-') * digits) s ((matchInt s).1, (matchInt s).2.2) ↔
      ¬ Matcher.LosesMinus .int s := by
  have havoid : Avoids digits (· == '-') := avoids_spanWhere fun c hc => digit_ne hc (by decide)
  rcases matchChar_cases '-' s with ⟨r, rfl, -⟩ | ⟨hno, -⟩
  · rw [matchInt_minus]
    rcases matchUInt_cases r with ⟨hcount, value, hmatch⟩ | ⟨hcount, value, hmatch⟩
    · rw [hmatch]
      refine iff_of_true (advancesOnMatch_true ?_) hcount
      exact munch_opt_mul_cons (by decide) havoid (munch_digits (ne_nil_of_counted hcount))
    · rw [hmatch]
      refine iff_of_false (fun h => ?_) (not_not_intro hcount)
      exact List.cons_ne_self '-' r (h.unmatched rfl).symm
  · rw [matchInt_plain hno, losesMinus_int_iff]
    refine iff_of_true ?_ ?_
    · rcases matchUInt_cases s with ⟨hcount, value, hmatch⟩ | ⟨-, value, hmatch⟩
      · rw [hmatch]
        exact advancesOnMatch_true (munch_opt_mul hno (munch_digits (ne_nil_of_counted hcount)))
      · rw [hmatch]
        exact advancesOnMatch_false
    · rintro ⟨r, rfl, -⟩
      exact absurd (hno '-' rfl) (by decide)

end Matchers

theorem matchers_advance_on_match_iff (strtod : List Char → ℚ) (m : Matcher)
    {s : StringMatchStream} (hnul : '\x00' ∉ s) :
    (∃ result, m.run strtod s = .ok result ∧ AdvancesOnMatch m.texts s result) ↔
      ¬ m.LosesMinus s := by
  have hok : ∀ {result : Bool × StringMatchStream}, AdvancesOnMatch m.texts s result →
      m.run strtod s = .ok result →
        (∃ result, m.run strtod s = .ok result ∧ AdvancesOnMatch m.texts s result) :=
    fun h hrun => ⟨_, hrun, h⟩
  cases m with
  | text pText => exact iff_of_true (advancesOnMatch_matchText hnul) id
  | char charRequired => exact iff_of_true (hok (advancesOnMatch_matchIf _ s) rfl) id
  | charInRange chLower chUpper => exact iff_of_true (hok (advancesOnMatch_matchIf _ s) rfl) id
  | charInSet charSet => exact iff_of_true (hok (advancesOnMatch_matchIf _ s) rfl) id
  | whitespace => exact iff_of_true (hok (advancesOnMatch_matchWhitespace s) rfl) id
  | whitespaceInto pOut => exact iff_of_true (hok (advancesOnMatch_matchWhitespace s) rfl) id
  | ident pString => exact iff_of_true (hok (advancesOnMatch_matchIdent pString s) rfl) id
  | floatingPointNumber pIsFloat pDouble =>
    exact iff_of_true
      (hok (advancesOnMatch_matchFloatingPointNumber strtod pIsFloat pDouble s) rfl) id
  | hexDigit pUInt => exact iff_of_true (hok (advancesOnMatch_matchHexDigit pUInt s) rfl) id
  | hexDigits numDigits =>
    exact iff_of_true (hok (advancesOnMatch_matchHexDigits numDigits s) rfl) id
  | int =>
    rw [← advancesOnMatch_matchInt_iff]
    constructor
    · rintro ⟨_, hrun, h⟩
      cases hrun
      exact h
    · exact fun h => hok h rfl
  | uInt => exact iff_of_true (hok (advancesOnMatch_matchUInt s) rfl) id

theorem matchers_advance_on_match_iff_minus_five :
    ∃ result, Matcher.int.run (fun _ => 0) "-5;".toList = .ok result ∧
      AdvancesOnMatch Matcher.int.texts "-5;".toList result := by
  have hdigit : ¬ ("5;".toList.takeWhile isDigit).length % 2 ^ 32 = 0 := by decide
  exact (matchers_advance_on_match_iff (fun _ => 0) .int (s := "-5;".toList) (by decide)).mpr hdigit

theorem minus_read_without_number : ∃ result,
    Matcher.int.run (fun _ => 0) "-x".toList = .ok result ∧ result = (false, ['x']) ∧
      ¬ AdvancesOnMatch Matcher.int.texts "-x".toList result := by
  refine ⟨_, rfl, by decide, fun h => ?_⟩
  exact absurd (h.unmatched (by decide)) (by decide)

section Keyword

structure MatchesInside (pText : String) (s : StringMatchStream)
    (result : Except Fault (Bool × StringMatchStream)) : Prop where
  no_read_behind : result ≠ .error .outOfRange
  returns : ∃ matched rest, result = .ok (matched, rest) ∧
    (matched = true ↔ pText.toList <+: s) ∧
    (matched = true → rest = s.drop pText.toList.length)

theorem keyword_match_stays_inside_iff (pText : String) (s : StringMatchStream) :
    MatchesInside pText s (matchText pText s) ↔ ¬ pText.toList ++ ['\x00'] <+: s := by
  rcases matchText_all_cases pText s with ⟨hnul, hmatch⟩ | ⟨hnul, ⟨r, rfl, hmatch⟩ | ⟨hno, hmatch⟩⟩
  · exact iff_of_false (fun h => h.no_read_behind hmatch) (not_not_intro hnul)
  · refine iff_of_true ?_ hnul
    rw [hmatch]
    exact ⟨by simp, true, r, rfl, by simp, by simp⟩
  · refine iff_of_true ?_ hnul
    rw [hmatch]
    exact ⟨by simp, false, s, rfl, by simp [hno], by simp⟩

theorem nul_matches_terminator :
    ¬ MatchesInside "FIR" "FIR\x00".toList (matchText "FIR" "FIR\x00".toList) ∧
    FirEngineSpec.readFromFile (fun _ => 0) { clockFreq := 1 } { rest := "#\nFIR\x00".toList } =
      .error .outOfRange := by
  refine ⟨fun h => h.no_read_behind (by decide), by decide +kernel⟩

end Keyword

end StringMatchStream

end FirEngine
