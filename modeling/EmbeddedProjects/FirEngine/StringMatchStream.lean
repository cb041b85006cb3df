import EmbeddedProjects.Lib.Scan
import EmbeddedProjects.FirEngine.Spec

namespace FirEngine

open Scan

abbrev StringMatchStream := List Char

namespace StringMatchStream

def isspace (c : Char) : Bool := [' ', '\t', '\n', '\x0b', '\x0c', '\r'].contains c

def charInRange (chLower chUpper c : Char) : Bool := chLower ≤ c && c ≤ chUpper

def isDigit (c : Char) : Bool := charInRange '0' '9' c

def matchIf (p : Char → Bool) : StringMatchStream → Bool × StringMatchStream
  | [] => (false, [])
  | c :: s => if p c then (true, s) else (false, c :: s)

def matchChar (charRequired : Char) : StringMatchStream → Bool × StringMatchStream :=
  matchIf (· == charRequired)

def matchCharInRange (chLower chUpper : Char) : StringMatchStream → Bool × StringMatchStream :=
  matchIf (charInRange chLower chUpper)

-- a NUL-terminated set: the search stops at the terminator, so NUL is never in it
def matchCharInSet (charSet : List Char) : StringMatchStream → Bool × StringMatchStream :=
  matchIf charSet.contains

def matchWhitespace (s : StringMatchStream) : Bool × StringMatchStream :=
  (s.head?.any isspace, s.dropWhile isspace)

def matchWhitespaceInto (out : List Char) (s : StringMatchStream) :
    Bool × List Char × StringMatchStream :=
  (s.head?.any isspace, out ++ s.takeWhile isspace, s.dropWhile isspace)

def matchDigits (s : StringMatchStream) : StringMatchStream := s.dropWhile isDigit

-- the loop tests the pointer, not the character: behind the text it matches NUL, and reads on
def matchText' : List Char → StringMatchStream → Except Fault (Bool × StringMatchStream)
  | [], [] => .ok (true, [])
  | [], c :: s => if c = '\x00' then .error .outOfRange else .ok (true, c :: s)
  | _ :: _, [] => .ok (false, [])
  | p :: ps, c :: s => if c = p then matchText' ps s else .ok (false, c :: s)

def matchText (text : String) (s : StringMatchStream) :
    Except Fault (Bool × StringMatchStream) := do
  let matched ← matchText' text.toList s
  .ok (if matched.1 then matched else (false, s))

def isIdentStart (c : Char) : Bool := charInRange 'a' 'z' c || charInRange 'A' 'Z' c || c == '_'

def isIdentPart (c : Char) : Bool := charInRange '0' '9' c || isIdentStart c

def matchIdent (pString : Option (List Char)) (s : StringMatchStream) :
    Bool × Option (List Char) × StringMatchStream :=
  let start := matchIf isIdentStart s
  if start.1 then
    let rest := start.2.dropWhile isIdentPart
    (true, pString.map fun _ => s.take (s.length - rest.length), rest)
  else (false, pString, start.2)

def matchExponent (s : StringMatchStream) : Bool × StringMatchStream :=
  let signed := (matchCharInSet ['+', '-'] s).2
  ((matchCharInRange '0' '9' signed).1, matchDigits signed)

def scanFloatingPointNumber (s : StringMatchStream) : Bool × StringMatchStream :=
  let s := (matchChar '+' s).2
  let s := (matchChar '-' s).2
  let point := matchChar '.' (matchDigits s)
  if point.1 then
    let mark := matchCharInSet ['E', 'e'] (matchDigits point.2)
    if mark.1 then matchExponent mark.2 else (true, mark.2)
  else (false, point.2)

-- pIsFloat is 0; `strtod` sees the consumed text
def matchFloatingPointNumber (strtod : List Char → ℚ) (old : ℚ) (s : StringMatchStream) :
    Bool × ℚ × StringMatchStream :=
  match scanFloatingPointNumber s with
  | (true, rest) => (true, strtod (s.take (s.length - rest.length)), rest)
  | (false, _) => (false, old, s)

def matchFloatingPointNumberInto (strtod : List Char → ℚ) (pIsFloat : Option Bool)
    (pDouble : Option ℚ) (s : StringMatchStream) :
    Bool × Option Bool × Option ℚ × StringMatchStream :=
  match scanFloatingPointNumber s with
  | (true, rest) =>
    let suffix := if pIsFloat.isSome then matchCharInSet ['f', 'F'] rest else (false, rest)
    (true, pIsFloat.map fun _ => suffix.1,
      pDouble.map fun _ => strtod (s.take (s.length - suffix.2.length)), suffix.2)
  | (false, _) => (false, pIsFloat, pDouble, s)

def scanUInt : Nat → Nat → StringMatchStream → Nat × Nat × StringMatchStream
  | numDigits, value, [] => (numDigits, value, [])
  | numDigits, value, ch :: s =>
    if isDigit ch then
      scanUInt ((numDigits + 1) % 2 ^ 32) ((value * 10 + (ch.toNat - '0'.toNat)) % 2 ^ 32) s
    else (numDigits, value, ch :: s)

def matchUInt (s : StringMatchStream) : Bool × Nat × StringMatchStream :=
  let (numDigits, value, rest) := scanUInt 0 0 s
  if numDigits = 0 then (false, value, s) else (true, value, rest)

-- no TRYTOMATCH here; -(int)uval wraps where it overflows
def matchInt (s : StringMatchStream) : Bool × BitVec 32 × StringMatchStream :=
  let minus := matchChar '-' s
  let (success, uval, rest) := matchUInt minus.2
  (success, if minus.1 then -BitVec.ofNat 32 uval else BitVec.ofNat 32 uval, rest)

def matchHexDigit (pUInt : Nat) (s : StringMatchStream) : Bool × Nat × StringMatchStream :=
  match s with
  | [] => (false, pUInt, [])
  | ch :: _ =>
    let digit := matchCharInRange '0' '9' s
    if digit.1 then (true, ch.toNat - '0'.toNat, digit.2) else
    let lower := matchCharInRange 'a' 'f' digit.2
    if lower.1 then (true, ch.toNat - 'a'.toNat + 10, lower.2) else
    let upper := matchCharInRange 'A' 'F' lower.2
    if upper.1 then (true, ch.toNat - 'A'.toNat + 10, upper.2) else (false, pUInt, upper.2)

def matchHexDigits' : Nat → Nat → StringMatchStream → Bool × Nat × StringMatchStream
  | 0, value, s => (true, value, s)
  | rounds + 1, value, s =>
    match matchHexDigit 0 s with
    | (true, hexDigit, s) => matchHexDigits' rounds ((value * 2 ^ 4 + hexDigit) % 2 ^ 32) s
    | (false, _, s) => (false, value, s)

def matchHexDigits (numDigits : Nat) (s : StringMatchStream) : Bool × Nat × StringMatchStream :=
  let (matched, value, rest) := matchHexDigits' numDigits 0 s
  if matched then (true, value, rest) else (false, value, s)

section Spec

variable {s : StringMatchStream} {p : Char → Bool}

theorem matchIf_cons {c : Char} (h : p c = true) : matchIf p (c :: s) = (true, s) := by
  simp [matchIf, h]

theorem matchIf_false (h : ∀ c ∈ s.head?, p c = false) : matchIf p s = (false, s) := by
  cases s with
  | nil => rfl
  | cons c s => simp [matchIf, h c rfl]

theorem matchIf_cases (p : Char → Bool) (s : StringMatchStream) :
    (∃ c r, s = c :: r ∧ p c = true ∧ matchIf p s = (true, r)) ∨
      ((∀ c ∈ s.head?, p c = false) ∧ matchIf p s = (false, s)) := by
  cases s with
  | nil => exact .inr ⟨by simp, rfl⟩
  | cons c r =>
    cases hp : p c with
    | true => exact .inl ⟨c, r, rfl, hp, matchIf_cons hp⟩
    | false =>
      have hhead : ∀ d ∈ (c :: r).head?, p d = false := by simpa using hp
      exact .inr ⟨hhead, matchIf_false hhead⟩

theorem matchChar_cases (c : Char) (s : StringMatchStream) :
    (∃ r, s = c :: r ∧ matchChar c s = (true, r)) ∨
      ((∀ d ∈ s.head?, (d == c) = false) ∧ matchChar c s = (false, s)) := by
  rcases matchIf_cases (· == c) s with ⟨d, r, rfl, hd, hmatch⟩ | ⟨hno, hmatch⟩
  · obtain rfl : d = c := eq_of_beq hd
    exact .inl ⟨r, rfl, hmatch⟩
  · exact .inr ⟨hno, hmatch⟩

theorem matchText'_cases (t s : List Char) :
    (t ++ ['\x00'] <+: s ∧ matchText' t s = .error .outOfRange) ∨
      (¬ t ++ ['\x00'] <+: s ∧
        ∃ r, matchText' t s = .ok (decide (t <+: s), r) ∧ (t <+: s → s = t ++ r)) := by
  induction t generalizing s with
  | nil =>
    cases s with
    | nil => exact .inr ⟨by simp, [], by simp [matchText'], by simp⟩
    | cons c s =>
      by_cases hc : c = '\x00'
      · exact .inl ⟨by simp [hc], by simp [matchText', hc]⟩
      · exact .inr ⟨by simpa using Ne.symm hc, c :: s, by simp [matchText', hc], by simp⟩
  | cons p ps ih =>
    cases s with
    | nil => exact .inr ⟨by simp, [], by simp [matchText'], by simp⟩
    | cons c s =>
      by_cases hpc : c = p
      · subst hpc
        rcases ih s with ⟨hnul, hfault⟩ | ⟨hnul, r, hr, hsplit⟩
        · exact .inl ⟨List.cons_prefix_cons.mpr ⟨rfl, hnul⟩, by simpa [matchText'] using hfault⟩
        · refine .inr ⟨fun h => hnul (List.cons_prefix_cons.mp h).2, r, ?_, fun h => ?_⟩
          · simpa [matchText', List.cons_prefix_cons] using hr
          · rw [hsplit (List.cons_prefix_cons.mp h).2, List.cons_append]
      · have hno : ¬ p :: ps <+: c :: s := fun h => hpc (List.cons_prefix_cons.mp h).1.symm
        have hno' : ¬ p :: ps ++ ['\x00'] <+: c :: s :=
          fun h => hno ((List.prefix_append _ _).trans h)
        exact .inr ⟨hno', c :: s, by simp [matchText', hpc, hno], fun h => absurd h hno⟩

theorem matchText_all_cases (t : String) (s : StringMatchStream) :
    (t.toList ++ ['\x00'] <+: s ∧ matchText t s = .error .outOfRange) ∨
      (¬ t.toList ++ ['\x00'] <+: s ∧
        ((∃ r, s = t.toList ++ r ∧ matchText t s = .ok (true, r)) ∨
          (¬ t.toList <+: s ∧ matchText t s = .ok (false, s)))) := by
  rcases matchText'_cases t.toList s with ⟨hnul, hfault⟩ | ⟨hnul, r, hr, hsplit⟩
  · refine .inl ⟨hnul, ?_⟩
    rw [matchText, hfault]
    rfl
  · refine .inr ⟨hnul, ?_⟩
    by_cases h : t.toList <+: s
    · refine .inl ⟨r, hsplit h, ?_⟩
      rw [matchText, hr]
      simp [h, bind, Except.bind]
    · refine .inr ⟨h, ?_⟩
      rw [matchText, hr]
      simp [h, bind, Except.bind]

theorem matchText_cases (t : String) (hnul : '\x00' ∉ s) :
    (∃ r, s = t.toList ++ r ∧ matchText t s = .ok (true, r)) ∨
      (¬ t.toList <+: s ∧ matchText t s = .ok (false, s)) := by
  rcases matchText_all_cases t s with ⟨hfault, _⟩ | ⟨_, h⟩
  · exact absurd (hfault.subset (by simp)) hnul
  · exact h

theorem matchFloatingPointNumberInto_none (strtod : List Char → ℚ) (old : ℚ)
    (s : StringMatchStream) : matchFloatingPointNumberInto strtod none (some old) s =
      ((matchFloatingPointNumber strtod old s).1, none,
        some (matchFloatingPointNumber strtod old s).2.1,
        (matchFloatingPointNumber strtod old s).2.2) := by
  rw [matchFloatingPointNumberInto, matchFloatingPointNumber]
  cases scanFloatingPointNumber s with
  | mk matched rest =>
    cases matched with
    | true => rfl
    | false => rfl

theorem ofDigitChars_mod (m : Nat) (digits : List Char) (value : Nat) :
    Nat.ofDigitChars 10 digits (value % m) % m = Nat.ofDigitChars 10 digits value % m := by
  have hfrom : ∀ v, Nat.ofDigitChars 10 digits v =
      10 ^ digits.length * v + Nat.ofDigitChars 10 digits 0 :=
    fun _ => Nat.ofDigitChars_eq_ofDigitChars_zero
  rw [hfrom, hfrom value, Nat.add_mod, Nat.mul_mod, Nat.mod_mod, ← Nat.mul_mod, ← Nat.add_mod]

theorem scanUInt_eq (numDigits value : Nat) (hn : numDigits < 2 ^ 32) (hv : value < 2 ^ 32) :
    scanUInt numDigits value s = ((numDigits + (s.takeWhile isDigit).length) % 2 ^ 32,
      Nat.ofDigitChars 10 (s.takeWhile isDigit) value % 2 ^ 32, s.dropWhile isDigit) := by
  induction s generalizing numDigits value with
  | nil =>
    rw [scanUInt, List.takeWhile_nil, List.length_nil, Nat.add_zero, Nat.mod_eq_of_lt hn,
      Nat.ofDigitChars_nil, Nat.mod_eq_of_lt hv]
    rfl
  | cons c s ih =>
    cases hc : isDigit c with
    | false =>
      have hneg : ¬ isDigit c = true := by simp [hc]
      rw [scanUInt, if_neg hneg, List.takeWhile_cons_of_neg hneg, List.dropWhile_cons_of_neg hneg,
        List.length_nil, Nat.add_zero, Nat.mod_eq_of_lt hn, Nat.ofDigitChars_nil,
        Nat.mod_eq_of_lt hv]
    | true =>
      have hrest := ih ((numDigits + 1) % 2 ^ 32)
        ((value * 10 + (c.toNat - '0'.toNat)) % 2 ^ 32) (Nat.mod_lt _ (by decide))
        (Nat.mod_lt _ (by decide))
      have hcount : numDigits + 1 + (s.takeWhile isDigit).length =
          numDigits + ((c :: s).takeWhile isDigit).length := by
        rw [List.takeWhile_cons_of_pos hc, List.length_cons]
        omega
      rw [scanUInt, if_pos hc, hrest, Nat.mod_add_mod, hcount, ofDigitChars_mod,
        List.dropWhile_cons_of_pos hc, List.takeWhile_cons_of_pos hc, Nat.ofDigitChars_cons,
        Nat.mul_comm]

theorem matchUInt_eq (s : StringMatchStream) : matchUInt s =
    if (s.takeWhile isDigit).length % 2 ^ 32 = 0 then
      (false, Nat.ofDigitChars 10 (s.takeWhile isDigit) 0 % 2 ^ 32, s)
    else
      (true, Nat.ofDigitChars 10 (s.takeWhile isDigit) 0 % 2 ^ 32, s.dropWhile isDigit) := by
  rw [matchUInt, scanUInt_eq 0 0 (by decide) (by decide), Nat.zero_add]

-- the counter of digits wraps: a run of 2^32 digits counts as none
theorem matchUInt_cases (s : StringMatchStream) :
    ((s.takeWhile isDigit).length % 2 ^ 32 ≠ 0 ∧
        ∃ value, matchUInt s = (true, value, s.dropWhile isDigit)) ∨
      ((s.takeWhile isDigit).length % 2 ^ 32 = 0 ∧ ∃ value, matchUInt s = (false, value, s)) := by
  rw [matchUInt_eq]
  by_cases hz : (s.takeWhile isDigit).length % 2 ^ 32 = 0
  · exact .inr ⟨hz, _, if_pos hz⟩
  · exact .inl ⟨hz, _, if_neg hz⟩

end Spec

end StringMatchStream

end FirEngine
