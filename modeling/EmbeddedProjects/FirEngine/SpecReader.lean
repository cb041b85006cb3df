import EmbeddedProjects.FirEngine.StringMatchStream

namespace FirEngine

open StringMatchStream

structure IStream where
  rest : List Char
  eofbit : Bool := false
  failbit : Bool := false
  deriving DecidableEq, Repr

-- sbumpc up to the end of the line; the last component says that it met the end of the file
def takeLine : List Char → List Char × List Char × Bool
  | [] => ([], [], true)
  | c :: s =>
    if c = '\n' then ([], s, false)
    else if c = '\r' then ([], if s.head? = some '\n' then s.tail else s, false)
    else (c :: (takeLine s).1, (takeLine s).2)

-- the sentry sets failbit when eofbit is set, and the loop reads on all the same
def safeGetline (is : IStream) : List Char × IStream :=
  let (t, rest, eof) := takeLine is.rest
  (t, { rest := rest
        eofbit := is.eofbit || (eof && t.isEmpty)
        failbit := is.failbit || is.eofbit })

def skipWhitespace (s : StringMatchStream) : StringMatchStream := (matchWhitespace s).2

def expectChar (charRequired : Char) (s : StringMatchStream) : Except Fault StringMatchStream :=
  match matchChar charRequired s with
  | (true, s) => .ok s
  | (false, _) =>
    .error (.thrown ("Syntax Error: Expected '" ++ String.singleton charRequired ++ "'"))

def expectUInt (what : String) (s : StringMatchStream) : Except Fault (Nat × StringMatchStream) :=
  match matchUInt s with
  | (true, value, s) => .ok (value, s)
  | (false, _) => .error (.thrown ("Syntax Error: Expected " ++ what))

def readFirIndex (s : StringMatchStream) : Except Fault (Nat × StringMatchStream) := do
  let s ← expectChar '[' (skipWhitespace s)
  let (firIdx, s) ← expectUInt "FIR-Index" (skipWhitespace s)
  let s ← expectChar ']' (skipWhitespace s)
  let s ← expectChar '.' (skipWhitespace s)
  .ok (firIdx, s)

def readSampleRate (firSpec : FirSpec) (s : StringMatchStream) :
    Except Fault (FirSpec × StringMatchStream) := do
  let s ← expectChar '=' (skipWhitespace s)
  let (sampleFreq, s) ← expectUInt "Unsigned-Integer sample rate" (skipWhitespace s)
  let s ← expectChar ';' (skipWhitespace s)
  .ok ({ firSpec with sampleFreq := sampleFreq }, s)

def skipComma (s : StringMatchStream) : StringMatchStream :=
  skipWhitespace (matchChar ',' (skipWhitespace s)).2

theorem length_matchIf_le (p : Char → Bool) (s : StringMatchStream) :
    (matchIf p s).2.length ≤ s.length := by
  rcases matchIf_cases p s with ⟨c, r, rfl, _, h⟩ | ⟨_, h⟩
  · simp [h]
  · simp [h]

theorem length_skipWhitespace_le (s : StringMatchStream) :
    (skipWhitespace s).length ≤ s.length := (List.dropWhile_suffix isspace).length_le

theorem length_skipComma_le (s : StringMatchStream) : (skipComma s).length ≤ s.length :=
  calc (skipComma s).length ≤ (matchChar ',' (skipWhitespace s)).2.length :=
        length_skipWhitespace_le _
    _ ≤ (skipWhitespace s).length := length_matchIf_le _ _
    _ ≤ s.length := length_skipWhitespace_le s

theorem length_matchExponent_le (s : StringMatchStream) :
    (matchExponent s).2.length ≤ s.length :=
  calc (matchExponent s).2.length ≤ (matchCharInSet ['+', '-'] s).2.length :=
        (List.dropWhile_suffix isDigit).length_le
    _ ≤ s.length := length_matchIf_le _ _

def skipSigns (s : StringMatchStream) : StringMatchStream :=
  (matchChar '-' (matchChar '+' s).2).2

theorem scanFloatingPointNumber_eq (s : StringMatchStream) : scanFloatingPointNumber s =
    if (matchChar '.' (matchDigits (skipSigns s))).1 then
      let mark := matchCharInSet ['E', 'e']
        (matchDigits (matchChar '.' (matchDigits (skipSigns s))).2)
      if mark.1 then matchExponent mark.2 else (true, mark.2)
    else (false, (matchChar '.' (matchDigits (skipSigns s))).2) := rfl

theorem length_matchDigits_le (s : StringMatchStream) : (matchDigits s).length ≤ s.length :=
  (List.dropWhile_suffix isDigit).length_le

theorem length_skipSigns_le (s : StringMatchStream) : (skipSigns s).length ≤ s.length :=
  (length_matchIf_le _ _).trans (length_matchIf_le _ _)

theorem length_scanFloatingPointNumber_lt {s rest : StringMatchStream}
    (h : scanFloatingPointNumber s = (true, rest)) : rest.length < s.length := by
  have hsigns := (length_matchDigits_le (skipSigns s)).trans (length_skipSigns_le s)
  rw [scanFloatingPointNumber_eq] at h
  rcases matchChar_cases '.' (matchDigits (skipSigns s)) with ⟨r, hr, hpoint⟩ | ⟨_, hpoint⟩
  · have hlen : r.length + 1 = (matchDigits (skipSigns s)).length := by rw [hr, List.length_cons]
    have hmark : (matchCharInSet ['E', 'e'] (matchDigits r)).2.length ≤ r.length :=
      (length_matchIf_le _ _).trans (length_matchDigits_le r)
    simp only [hpoint, if_true] at h
    split at h
    · have hle := length_matchExponent_le (matchCharInSet ['E', 'e'] (matchDigits r)).2
      rw [h] at hle
      dsimp only at hle
      omega
    · obtain rfl := (Prod.mk.inj h).2
      omega
  · simp [hpoint] at h

theorem length_matchFloatingPointNumber_lt {strtod : List Char → ℚ} {old c : ℚ}
    {s rest : StringMatchStream} (h : matchFloatingPointNumber strtod old s = (true, c, rest)) :
    rest.length < s.length := by
  rw [matchFloatingPointNumber] at h
  split at h
  · next rest' hscan =>
    cases h
    exact length_scanFloatingPointNumber_lt hscan
  · cases h

def readCoeffs (strtod : List Char → ℚ) (coeff : List ℚ) (s : StringMatchStream) :
    Except Fault (List ℚ × StringMatchStream) :=
  match matchChar ']' s with
  | (true, s) => .ok (coeff, s)
  | (false, _) =>
    match _h : matchFloatingPointNumber strtod 0 s with
    | (true, c, rest) => readCoeffs strtod (coeff ++ [c]) (skipComma rest)
    | (false, _) => .error (.thrown "Syntax Error: Expected floating point number")
termination_by s.length
decreasing_by
  exact (length_skipComma_le rest).trans_lt (length_matchFloatingPointNumber_lt _h)

-- m_vCoeff is cleared before anything else is read
def readCoeff (strtod : List Char → ℚ) (firSpec : FirSpec) (s : StringMatchStream) :
    Except Fault (FirSpec × StringMatchStream) := do
  let s ← expectChar '=' (skipWhitespace s)
  let s ← expectChar '[' (skipWhitespace s)
  let (coeff, s) ← readCoeffs strtod [] (skipWhitespace s)
  let s ← expectChar ';' s
  .ok ({ firSpec with coeff := coeff }, s)

def readField (strtod : List Char → ℚ) (firSpec : FirSpec) (s : StringMatchStream) :
    Except Fault (FirSpec × StringMatchStream) := do
  let sampleRate ← matchText "sampleRate" s
  if sampleRate.1 then readSampleRate firSpec sampleRate.2 else do
    let coeff ← matchText "coeff" s
    if coeff.1 then readCoeff strtod firSpec coeff.2 else
      .error (.thrown ("Unrecognized field '" ++ String.ofList s ++ "'"))

def readEnd (s : StringMatchStream) : Except Fault Unit :=
  let s := skipWhitespace s
  if s.isEmpty || (matchChar '#' s).1 then .ok () else
    .error (.thrown ("Unexpected tokens '" ++ String.ofList s ++ "'"))

-- while (m_vFirSpec.size() <= firIdx) m_vFirSpec.push_back(FirSpec());
def growTo (firIdx : Nat) (firSpecs : List FirSpec) : List FirSpec :=
  firSpecs ++ List.replicate (firIdx + 1 - firSpecs.length) ({} : FirSpec)

def readCommand (strtod : List Char → ℚ) (firSpecs : List FirSpec) (s : StringMatchStream) :
    Except Fault (List FirSpec) := do
  let (firIdx, s) ← readFirIndex s
  let firSpecs := growTo firIdx firSpecs
  let (firSpec, s) ← readField strtod (firSpecs.getD firIdx ({} : FirSpec)) s
  readEnd s
  .ok (firSpecs.set firIdx firSpec)

def readLine (strtod : List Char → ℚ) (firSpecs : List FirSpec) (lineStr : List Char) :
    Except Fault (List FirSpec) :=
  let s := skipWhitespace lineStr
  if s.isEmpty || s.head? == some '#' then .ok firSpecs else do
    let fir ← matchText "FIR" s
    if fir.1 then readCommand strtod firSpecs fir.2 else
      .error (.thrown ("Unrecognized command: '" ++ String.ofList s ++ "'"))

def onLine (lineNum : Nat) : Fault → Fault
  | .thrown str => .thrown ("Syntax Error on line " ++ toString lineNum ++ ": " ++ str)
  | fault => fault

def endOfFileRounds (is : IStream) : Nat := 2 * is.rest.length + if is.eofbit then 0 else 1

theorem length_takeLine_le (s : List Char) : (takeLine s).2.1.length ≤ s.length := by
  induction s with
  | nil => simp [takeLine]
  | cons c s ih =>
    rw [takeLine]
    split
    · simp
    · split
      · split
        · simp
          omega
        · simp
      · exact ih.trans (Nat.le_succ _)

theorem length_takeLine_lt (c : Char) (s : List Char) :
    (takeLine (c :: s)).2.1.length < s.length + 1 := by
  rw [takeLine]
  split
  · exact Nat.lt_succ_self _
  · split
    · refine Nat.lt_succ_of_le ?_
      split
      · exact List.length_tail ▸ Nat.sub_le _ _
      · exact le_rfl
    · exact Nat.lt_succ_of_le (length_takeLine_le s)

theorem endOfFileRounds_lt (is : IStream) (h : (safeGetline is).2.failbit = false) :
    endOfFileRounds (safeGetline is).2 < endOfFileRounds is := by
  have heof : is.eofbit = false := (Bool.or_eq_false_iff.mp h).2
  have hrest : (safeGetline is).2.rest = (takeLine is.rest).2.1 := rfl
  have heof' : (safeGetline is).2.eofbit =
      (is.eofbit || ((takeLine is.rest).2.2 && (takeLine is.rest).1.isEmpty)) := rfl
  rw [endOfFileRounds, endOfFileRounds, hrest, heof', heof]
  cases is.rest with
  | nil => simp [takeLine]
  | cons c s =>
    have hlt := length_takeLine_lt c s
    simp only [Bool.false_or, Bool.false_eq_true, if_false, List.length_cons]
    split <;> omega

def readLines (strtod : List Char → ℚ) (lineNum : Nat) (firSpecs : List FirSpec) (is : IStream) :
    Except Fault (List FirSpec) :=
  if _h : (safeGetline is).2.failbit = true then .ok firSpecs else
    let lineStr := (safeGetline is).1
    match if lineStr.isEmpty then .ok firSpecs else readLine strtod firSpecs lineStr with
    | .ok firSpecs => readLines strtod ((lineNum + 1) % 2 ^ 32) firSpecs (safeGetline is).2
    | .error fault => .error (onLine lineNum fault)
termination_by endOfFileRounds is
decreasing_by exact endOfFileRounds_lt is (by simpa using _h)

def FirEngineSpec.readFromFile (strtod : List Char → ℚ) (spec : FirEngineSpec) (is : IStream) :
    Except Fault FirEngineSpec := do
  let firSpecs ← readLines strtod 1 spec.firSpec is
  .ok { spec with firSpec := firSpecs }

end FirEngine
