import Mathlib.Algebra.Order.Field.Rat
import EmbeddedProjects.Lib.Scan

namespace Decimal

open Scan

def signed {α : Type} [Neg α] (sign : Option Char) (v : α) : α :=
  if sign = some '-' then -v else v

structure Exponent where
  mark : Char
  sign : Option Char
  digits : List Char
  mark_mem : mark ∈ ['e', 'E']
  sign_mem : ∀ c ∈ sign, c ∈ ['+', '-']
  isDigit : ∀ c ∈ digits, c.isDigit = true
  ne_nil : digits ≠ []

def Exponent.text (e : Exponent) : List Char := e.mark :: (e.sign.toList ++ e.digits)

def Exponent.value (e : Exponent) : ℤ := signed e.sign (Nat.ofDigitChars 10 e.digits 0 : ℤ)

structure Numeral where
  sign : Option Char
  whole : List Char
  frac : Option (List Char)
  exponent : Option Exponent
  sign_mem : ∀ c ∈ sign, c ∈ ['+', '-']
  isDigit : ∀ c ∈ whole ++ frac.getD [], c.isDigit = true
  ne_nil : whole ++ frac.getD [] ≠ []

def fracText : Option (List Char) → List Char
  | none => []
  | some digits => '.' :: digits

def exponentText : Option Exponent → List Char
  | none => []
  | some e => e.text

def exponentValue : Option Exponent → ℤ
  | none => 0
  | some e => e.value

namespace Numeral

variable {x : Numeral} {r : List Char}

def text (x : Numeral) : List Char :=
  x.sign.toList ++ (x.whole ++ (fracText x.frac ++ exponentText x.exponent))

def value (x : Numeral) : ℚ :=
  signed x.sign ((Nat.ofDigitChars 10 (x.whole ++ x.frac.getD []) 0 : ℚ) /
    10 ^ (x.frac.getD []).length) * 10 ^ exponentValue x.exponent

def Longest (x : Numeral) (r : List Char) : Prop :=
  ∀ y : Numeral, y.text <+: x.text ++ r → y.text.length ≤ x.text.length

end Numeral

structure ConvertsLongest (convert : List Char → ℚ) : Prop where
  value : ∀ (x : Numeral) (r : List Char), x.Longest r → convert (x.text ++ r) = x.value
  zero : ∀ s, (∀ y : Numeral, ¬ y.text <+: s) → convert s = 0

def readSign : List Char → Option Char × List Char
  | [] => (none, [])
  | c :: s => if c ∈ ['+', '-'] then (some c, s) else (none, c :: s)

def readFrac : List Char → Option (List Char) × List Char
  | [] => (none, [])
  | c :: s =>
    if c = '.' then (some (s.takeWhile Char.isDigit), s.dropWhile Char.isDigit) else (none, c :: s)

-- an exponent without digits counts as none
def readExponent : List Char → ℤ
  | [] => 0
  | c :: s =>
    if c ∈ ['e', 'E'] then
      signed (readSign s).1 (Nat.ofDigitChars 10 ((readSign s).2.takeWhile Char.isDigit) 0 : ℤ)
    else 0

def read (s : List Char) : ℚ :=
  let sign := readSign s
  let whole := sign.2.takeWhile Char.isDigit
  let frac := readFrac (sign.2.dropWhile Char.isDigit)
  signed sign.1 ((Nat.ofDigitChars 10 (whole ++ frac.1.getD []) 0 : ℚ) /
    10 ^ (frac.1.getD []).length) * 10 ^ readExponent frac.2

section Longest

variable {x : Numeral} {r : List Char}

theorem Numeral.Longest.eq_nil (h : x.Longest r) {y : Numeral} {w : List Char}
    (hy : y.text = x.text ++ w) (hw : w <+: r) : w = [] := by
  have hprefix : y.text <+: x.text ++ r := hy ▸ (List.prefix_append_right_inj x.text).mpr hw
  have hlen := h y hprefix
  rw [hy, List.length_append] at hlen
  exact List.length_eq_zero_iff.mp (by omega)

theorem Numeral.Longest.no_digit (h : x.Longest r) : ∀ c ∈ r.head?, c.isDigit = false := by
  intro c hc
  obtain ⟨t, rfl⟩ := List.head?_eq_some_iff.mp hc
  refine Bool.eq_false_iff.mpr fun hdigit => ?_
  have hone : ∀ ds : List Char, (∀ d ∈ ds, d.isDigit = true) →
      ∀ d ∈ ds ++ [c], d.isDigit = true := by
    intro ds hds d hd
    rcases List.mem_append.mp hd with hd | hd
    · exact hds d hd
    · rwa [List.mem_singleton.mp hd]
  have hlonger : ∃ y : Numeral, y.text = x.text ++ [c] := by
    obtain ⟨sign, whole, frac, exponent, hsign, hdigits, hne⟩ := x
    cases exponent with
    | some e =>
      refine ⟨⟨sign, whole, frac, some ⟨e.mark, e.sign, e.digits ++ [c], e.mark_mem, e.sign_mem,
        hone _ e.isDigit, by simp⟩, hsign, hdigits, hne⟩, ?_⟩
      simp [Numeral.text, exponentText, Exponent.text]
    | none =>
      cases frac with
      | some ds =>
        have hall := hone _ hdigits
        rw [List.append_assoc] at hall
        refine ⟨⟨sign, whole, some (ds ++ [c]), none, hsign, hall, by simp⟩, ?_⟩
        simp [Numeral.text, exponentText, fracText]
      | none =>
        have hall := hone whole (by simpa using hdigits)
        refine ⟨⟨sign, whole ++ [c], none, none, hsign, by simpa using hall, by simp⟩, ?_⟩
        simp [Numeral.text, exponentText, fracText]
  obtain ⟨y, hy⟩ := hlonger
  exact absurd (h.eq_nil hy (by simp)) (by simp)

theorem Numeral.Longest.no_point (h : x.Longest r) (hfrac : x.frac = none)
    (hexponent : x.exponent = none) : ∀ c ∈ r.head?, c ≠ '.' := by
  rintro c hc rfl
  obtain ⟨t, rfl⟩ := List.head?_eq_some_iff.mp hc
  obtain ⟨sign, whole, frac, exponent, hsign, hdigits, hne⟩ := x
  obtain rfl : frac = none := hfrac
  obtain rfl : exponent = none := hexponent
  have hlonger := h.eq_nil (y := ⟨sign, whole, some [], none, hsign, hdigits, hne⟩) (w := ['.'])
    (by simp [Numeral.text, exponentText, fracText]) (by simp)
  cases hlonger

theorem readSign_cases (s : List Char) : ∃ sign, (∀ c ∈ sign, c ∈ ['+', '-']) ∧
    s = Option.toList sign ++ (readSign s).2 ∧ (readSign s).1 = sign := by
  cases s with
  | nil => exact ⟨none, by simp, rfl, rfl⟩
  | cons c s =>
    rw [readSign]
    split
    · next hc => exact ⟨some c, by simpa using hc, rfl, rfl⟩
    · exact ⟨none, by simp, rfl, rfl⟩

theorem takeWhile_isDigit (s : List Char) : ∀ c ∈ s.takeWhile Char.isDigit, c.isDigit = true :=
  fun _ hc => List.mem_takeWhile_imp hc

theorem Numeral.Longest.readExponent_eq (h : x.Longest r) (hexponent : x.exponent = none) :
    readExponent r = 0 := by
  cases r with
  | nil => rfl
  | cons c s =>
    rw [readExponent]
    split
    · next hmark =>
      obtain ⟨sign, hsign, hs, hread⟩ := readSign_cases s
      have hnone : (readSign s).2.takeWhile Char.isDigit = [] := by
        by_contra hne
        obtain ⟨xsign, whole, frac, exponent, hxsign, hdigits, hxne⟩ := x
        obtain rfl : exponent = none := hexponent
        have hprefix : sign.toList ++ (readSign s).2.takeWhile Char.isDigit <+: s := by
          conv_rhs => rw [hs]
          exact (List.prefix_append_right_inj _).mpr (List.takeWhile_prefix _)
        have hlonger := h.eq_nil
          (y := ⟨xsign, whole, frac, some ⟨c, sign, _, hmark, hsign, takeWhile_isDigit _, hne⟩,
            hxsign, hdigits, hxne⟩)
          (w := c :: (sign.toList ++ (readSign s).2.takeWhile Char.isDigit))
          (by simp [Numeral.text, exponentText, Exponent.text])
          (List.cons_prefix_cons.mpr ⟨rfl, hprefix⟩)
        cases hlonger
      rw [hnone, Nat.ofDigitChars_nil, signed]
      split
      · rfl
      · rfl
    · rfl

end Longest

section Read

variable {r s : List Char}

theorem readSign_append {sign : Option Char} (hsign : ∀ c ∈ sign, c ∈ ['+', '-'])
    (hs : ∀ c ∈ s.head?, c ∉ ['+', '-']) : readSign (sign.toList ++ s) = (sign, s) := by
  cases sign with
  | some c => exact if_pos (hsign c rfl)
  | none =>
    cases s with
    | nil => rfl
    | cons c s => exact if_neg (hs c rfl)

theorem digit_not_sign {c : Char} (h : c.isDigit = true) : c ∉ ['+', '-'] := by
  intro hc
  rcases List.mem_cons.mp hc with rfl | hc
  · cases h
  · rw [List.mem_singleton.mp hc] at h
    cases h

theorem readFrac_append {frac : Option (List Char)} (hfrac : ∀ c ∈ frac.getD [], c.isDigit = true)
    (hs : ∀ c ∈ s.head?, c.isDigit = false) (hpoint : frac = none → ∀ c ∈ s.head?, c ≠ '.') :
    readFrac (fracText frac ++ s) = (frac, s) := by
  cases frac with
  | some ds =>
    obtain ⟨htake, hdrop⟩ := dropWhile_append_of_avoids (p := Char.isDigit) hfrac hs
    rw [fracText, List.cons_append, readFrac, if_pos rfl]
    exact Prod.ext (congrArg some htake) hdrop
  | none =>
    cases s with
    | nil => rfl
    | cons c s => exact if_neg (hpoint rfl c rfl)

theorem readExponent_append (e : Exponent) (hr : ∀ c ∈ r.head?, c.isDigit = false) :
    readExponent (e.text ++ r) = e.value := by
  obtain ⟨htake, -⟩ := dropWhile_append_of_avoids (p := Char.isDigit) e.isDigit hr
  have hdigit : ∀ c ∈ (e.digits ++ r).head?, c ∉ ['+', '-'] := by
    intro c hc
    cases hd : e.digits with
    | nil => exact absurd hd e.ne_nil
    | cons d ds =>
      rw [hd] at hc
      obtain rfl : d = c := Option.some.inj hc
      exact digit_not_sign (e.isDigit d (hd ▸ List.mem_cons_self))
  rw [Exponent.text, List.cons_append, List.append_assoc, readExponent, if_pos e.mark_mem,
    readSign_append e.sign_mem hdigit, htake, Exponent.value]

theorem mark_not_digit {c : Char} (h : c ∈ ['e', 'E']) : c.isDigit = false ∧ c ≠ '.' := by
  rcases List.mem_cons.mp h with rfl | h
  · exact ⟨rfl, by decide⟩
  · rw [List.mem_singleton.mp h]
    exact ⟨rfl, by decide⟩

theorem exponent_head {x : Numeral} (h : x.Longest r) :
    ∀ c ∈ (exponentText x.exponent ++ r).head?, c.isDigit = false ∧ (x.frac = none → c ≠ '.') := by
  intro c hc
  cases he : x.exponent with
  | none =>
    rw [he] at hc
    exact ⟨h.no_digit c hc, fun hfrac => h.no_point hfrac he c hc⟩
  | some e =>
    rw [he] at hc
    obtain rfl : e.mark = c := Option.some.inj hc
    exact ⟨(mark_not_digit e.mark_mem).1, fun _ => (mark_not_digit e.mark_mem).2⟩

theorem frac_head (frac : Option (List Char)) (hs : ∀ c ∈ s.head?, c.isDigit = false) :
    ∀ c ∈ (fracText frac ++ s).head?, c.isDigit = false := by
  intro c hc
  cases frac with
  | none => exact hs c hc
  | some ds =>
    obtain rfl : '.' = c := Option.some.inj hc
    rfl

theorem whole_head (x : Numeral) (s : List Char) :
    ∀ c ∈ (x.whole ++ (fracText x.frac ++ s)).head?, c ∉ ['+', '-'] := by
  intro c hc
  cases hwhole : x.whole with
  | cons d ds =>
    rw [hwhole] at hc
    obtain rfl : d = c := Option.some.inj hc
    exact digit_not_sign (x.isDigit d (List.mem_append_left _ (hwhole ▸ List.mem_cons_self)))
  | nil =>
    cases hfrac : x.frac with
    | none => exact absurd (by rw [hwhole, hfrac]; rfl) x.ne_nil
    | some ds =>
      rw [hwhole, hfrac] at hc
      obtain rfl : '.' = c := Option.some.inj hc
      decide

theorem read_append {x : Numeral} (h : x.Longest r) : read (x.text ++ r) = x.value := by
  have hdigits : ∀ c ∈ x.whole, c.isDigit = true := fun c hc =>
    x.isDigit c (List.mem_append_left _ hc)
  have htail := exponent_head h
  have hassoc : x.text ++ r = x.sign.toList ++
      (x.whole ++ (fracText x.frac ++ (exponentText x.exponent ++ r))) := by
    simp only [Numeral.text, List.append_assoc]
  have hsign := readSign_append x.sign_mem (whole_head x (exponentText x.exponent ++ r))
  obtain ⟨htake, hdrop⟩ := dropWhile_append_of_avoids (p := Char.isDigit) hdigits
    (frac_head x.frac fun c hc => (htail c hc).1)
  have hfrac : readFrac (fracText x.frac ++ (exponentText x.exponent ++ r)) =
      (x.frac, exponentText x.exponent ++ r) :=
    readFrac_append (fun c hc => x.isDigit c (List.mem_append_right _ hc))
      (fun c hc => (htail c hc).1) fun hnone c hc => (htail c hc).2 hnone
  have hexponent : readExponent (exponentText x.exponent ++ r) = exponentValue x.exponent := by
    cases he : x.exponent with
    | none => exact h.readExponent_eq he
    | some e => exact readExponent_append e h.no_digit
  simp only [read, hassoc, hsign, htake, hdrop, hfrac, hexponent]
  rfl

theorem readFrac_prefix_of (s : List Char) : fracText (readFrac s).1 <+: s ∧
    ∀ c ∈ (readFrac s).1.getD [], c.isDigit = true := by
  cases s with
  | nil => exact ⟨List.nil_prefix, by simp [readFrac]⟩
  | cons c s =>
    rw [readFrac]
    split
    · next hc =>
      exact ⟨List.cons_prefix_cons.mpr ⟨hc.symm, List.takeWhile_prefix _⟩, takeWhile_isDigit s⟩
    · exact ⟨List.nil_prefix, by simp⟩

theorem read_eq_zero (h : ∀ y : Numeral, ¬ y.text <+: s) : read s = 0 := by
  obtain ⟨sign, hsign, hs, hread⟩ := readSign_cases s
  obtain ⟨hfrac, hdigits⟩ := readFrac_prefix_of ((readSign s).2.dropWhile Char.isDigit)
  have hnone : (readSign s).2.takeWhile Char.isDigit ++
      (readFrac ((readSign s).2.dropWhile Char.isDigit)).1.getD [] = [] := by
    by_contra hne
    refine h ⟨sign, (readSign s).2.takeWhile Char.isDigit,
      (readFrac ((readSign s).2.dropWhile Char.isDigit)).1, none, hsign, ?_, hne⟩ ?_
    · intro c hc
      rcases List.mem_append.mp hc with hc | hc
      · exact takeWhile_isDigit _ c hc
      · exact hdigits c hc
    · simp only [Numeral.text, exponentText, List.append_nil]
      conv_rhs => rw [hs]
      refine (List.prefix_append_right_inj _).mpr ?_
      conv_rhs => rw [← List.takeWhile_append_dropWhile (p := Char.isDigit) (l := (readSign s).2)]
      exact (List.prefix_append_right_inj _).mpr hfrac
  simp [read, hnone, signed]

theorem read_convertsLongest : ConvertsLongest read :=
  ⟨fun _ _ h => read_append h, fun _ h => read_eq_zero h⟩

end Read

end Decimal
