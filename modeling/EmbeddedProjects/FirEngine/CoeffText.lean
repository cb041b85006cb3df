import EmbeddedProjects.Lib.Decimal
import EmbeddedProjects.FirEngine.SpecGrammar

namespace FirEngine

open Scan SpecGrammar Decimal

namespace StringMatchStream

def consumed (s rest : StringMatchStream) : List Char := s.take (s.length - rest.length)

def ReadsAsWritten (text : List Char) (d : ℚ) : Prop :=
  ∃ x : Numeral, x.frac.isSome = true ∧ x.text = text ∧ x.value = d

def TwoSigns (s : StringMatchStream) : Prop := ['+', '-'] <+: s

instance (s : StringMatchStream) : Decidable (TwoSigns s) :=
  inferInstanceAs (Decidable (['+', '-'] <+: s))

def BarePoint (s : StringMatchStream) : Prop :=
  ∃ r, skipSigns s = '.' :: r ∧ ∀ c ∈ r.head?, isDigit c = false

section Text

variable {s r text : List Char} {c : Char}

theorem isDigit_eq : isDigit = Char.isDigit := rfl

theorem exists_exponent {t : List Char} (h : t ∈ 1 + exponent) :
    ∃ e : Option Exponent, t = exponentText e := by
  rcases h with rfl | ⟨_, ⟨mark, hmark, rfl⟩, _, ⟨u, hu, ds, hds, rfl⟩, rfl⟩
  · exact ⟨none, rfl⟩
  · have hmark' : mark ∈ ['e', 'E'] := by
      rcases List.mem_cons.mp (List.contains_iff_mem.mp hmark) with rfl | hmark
      · decide
      · rw [List.mem_singleton.mp hmark]
        decide
    rcases hu with rfl | ⟨sign, hsign, rfl⟩
    · exact ⟨some ⟨mark, none, ds, hmark', by simp, hds.1, hds.2⟩, rfl⟩
    · have hsign' : ∀ c ∈ some sign, c ∈ ['+', '-'] := by
        intro c hc
        rw [← Option.some.inj hc]
        exact List.contains_iff_mem.mp hsign
      exact ⟨some ⟨mark, some sign, ds, hmark', hsign', hds.1, hds.2⟩, rfl⟩

theorem number_parts (h : text ∈ number) : ∃ plus minus whole frac, ∃ e : Option Exponent,
    plus ∈ [[], ['+']] ∧ minus ∈ [[], ['-']] ∧ (∀ c ∈ whole, c.isDigit = true) ∧
      (∀ c ∈ frac, c.isDigit = true) ∧
        text = plus ++ (minus ++ (whole ++ ('.' :: (frac ++ exponentText e)))) := by
  obtain ⟨plus, hplus, _, ⟨minus, hminus, _, ⟨whole, hwhole, _, ⟨_, ⟨c, hc, rfl⟩, _,
    ⟨frac, hfrac, t, ht, rfl⟩, rfl⟩, rfl⟩, rfl⟩, rfl⟩ := h
  obtain ⟨e, rfl⟩ := exists_exponent ht
  obtain rfl : c = '.' := eq_of_beq hc
  have hone : ∀ {sign : List Char} {d : Char}, sign ∈ 1 + char d → sign ∈ [[], [d]] := by
    rintro sign d (rfl | ⟨d', hd, rfl⟩)
    · exact List.mem_cons_self
    · rw [eq_of_beq hd]
      exact List.mem_cons_of_mem _ List.mem_cons_self
  exact ⟨plus, minus, whole, frac, e, hone hplus, hone hminus, hwhole.1, hfrac.1, rfl⟩

theorem skipSigns_append {plus minus : List Char} (hplus : plus ∈ [[], ['+']])
    (hminus : minus ∈ [[], ['-']]) (hs : ∀ c ∈ s.head?, c ∉ ['+', '-']) :
    skipSigns (plus ++ (minus ++ s)) = s := by
  have hno : ∀ d ∈ ['+', '-'], matchChar d s = (false, s) := by
    intro d hd
    refine matchIf_false fun c hc => beq_eq_false_iff_ne.mpr ?_
    rintro rfl
    exact hs c hc hd
  have hminus' : (matchChar '-' (minus ++ s)).2 = s := by
    rcases List.mem_cons.mp hminus with rfl | hminus
    · rw [List.nil_append, hno '-' (by decide)]
    · rw [List.mem_singleton.mp hminus]
      rfl
  have hplus' : (matchChar '+' (plus ++ (minus ++ s))).2 = minus ++ s := by
    rcases List.mem_cons.mp hplus with rfl | hplus
    · rcases List.mem_cons.mp hminus with rfl | hminus
      · exact congrArg Prod.snd (hno '+' (by decide))
      · rw [List.mem_singleton.mp hminus]
        rfl
    · rw [List.mem_singleton.mp hplus]
      rfl
  rw [skipSigns, hplus', hminus']

theorem digits_point_head {whole : List Char} (h : ∀ c ∈ whole, c.isDigit = true) :
    ∀ c ∈ (whole ++ '.' :: r).head?, c ∉ ['+', '-'] := by
  intro c hc
  cases whole with
  | nil =>
    obtain rfl : '.' = c := Option.some.inj hc
    decide
  | cons d ds =>
    obtain rfl : d = c := Option.some.inj hc
    exact digit_not_sign (h d List.mem_cons_self)

theorem consumed_append (text rest : List Char) : consumed (text ++ rest) rest = text := by
  simp [consumed]

theorem sign_parts {sign : Option Char} (h : ∀ c ∈ sign, c ∈ ['+', '-']) :
    ∃ plus minus, plus ∈ [[], ['+']] ∧ minus ∈ [[], ['-']] ∧ sign.toList = plus ++ minus := by
  cases sign with
  | none => exact ⟨[], [], by simp, by simp, rfl⟩
  | some c =>
    rcases List.mem_cons.mp (h c rfl) with rfl | hc
    · exact ⟨['+'], [], by simp, by simp, rfl⟩
    · rw [List.mem_singleton.mp hc]
      exact ⟨[], ['-'], by simp, by simp, rfl⟩

theorem skipSigns_text {x : Numeral} {frac : List Char} (hfrac : x.frac = some frac) :
    skipSigns (x.text ++ r) =
      x.whole ++ '.' :: (frac ++ (exponentText x.exponent ++ r)) := by
  obtain ⟨plus, minus, hplus, hminus, hsign⟩ := sign_parts x.sign_mem
  have hdigits : ∀ c ∈ x.whole, c.isDigit = true := fun c hc =>
    x.isDigit c (List.mem_append_left _ hc)
  have htext : x.text ++ r =
      plus ++ (minus ++ (x.whole ++ '.' :: (frac ++ (exponentText x.exponent ++ r)))) := by
    simp [Numeral.text, fracText, hfrac, hsign]
  rw [htext, skipSigns_append hplus hminus (digits_point_head hdigits)]

theorem not_bare_of_text {x : Numeral} (hpoint : x.frac.isSome = true) :
    ¬ BarePoint (x.text ++ r) := by
  obtain ⟨frac, hfrac⟩ := Option.isSome_iff_exists.mp hpoint
  rintro ⟨t, ht, hno⟩
  rw [skipSigns_text hfrac] at ht
  cases hwhole : x.whole with
  | cons d ds =>
    rw [hwhole] at ht
    have hd := x.isDigit d (List.mem_append_left _ (hwhole ▸ List.mem_cons_self))
    rw [(List.cons.inj ht).1] at hd
    cases hd
  | nil =>
    rw [hwhole] at ht
    obtain rfl := (List.cons.inj ht).2
    cases hds : frac with
    | nil => exact x.ne_nil (by rw [hwhole, hfrac, hds]; rfl)
    | cons d ds =>
      have hd := x.isDigit d (by rw [hwhole, hfrac, hds]; exact List.mem_cons_self)
      have hnone := hno d (by rw [hds]; rfl)
      rw [isDigit_eq, hd] at hnone
      cases hnone

theorem not_twoSigns_of_text {x : Numeral} (hpoint : x.frac.isSome = true) :
    ¬ TwoSigns (x.text ++ r) := by
  obtain ⟨frac, hfrac⟩ := Option.isSome_iff_exists.mp hpoint
  have hhead : ∀ t, ∀ c ∈ (x.whole ++ '.' :: t).head?, c ∉ ['+', '-'] := fun t =>
    digits_point_head fun c hc => x.isDigit c (List.mem_append_left _ hc)
  have htext : x.text ++ r =
      x.sign.toList ++ (x.whole ++ '.' :: (frac ++ (exponentText x.exponent ++ r))) := by
    simp [Numeral.text, fracText, hfrac]
  intro h
  rw [TwoSigns, htext] at h
  obtain ⟨t, ht⟩ := h
  cases hsign : x.sign with
  | none =>
    rw [hsign] at ht
    have hplus : '+' :: '-' :: t =
        x.whole ++ '.' :: (frac ++ (exponentText x.exponent ++ r)) := ht
    exact hhead _ '+' (by rw [← hplus]; rfl) (by decide)
  | some c =>
    rw [hsign] at ht
    have hminus : '-' :: t = x.whole ++ '.' :: (frac ++ (exponentText x.exponent ++ r)) :=
      (List.cons.inj ht).2
    exact hhead _ '-' (by rw [← hminus]; rfl) (by decide)

theorem munch_number_no_digit {s r : List Char} (h : Munch number s (some r))
    {plus minus whole frac : List Char} (hplus : plus ∈ [[], ['+']]) (hminus : minus ∈ [[], ['-']])
    (hwhole : ∀ c ∈ whole, c.isDigit = true) (hfrac : ∀ c ∈ frac, c.isDigit = true)
    (hs : s = plus ++ (minus ++ (whole ++ ('.' :: (frac ++ r))))) :
    ∀ c ∈ r.head?, isDigit c = false := by
  intro c hc
  obtain ⟨t, rfl⟩ := List.head?_eq_some_iff.mp hc
  refine Bool.eq_false_iff.mpr fun hdigit => ?_
  obtain ⟨x, -, hx, hmax⟩ := h
  have hone : ∀ {sign : List Char} {d : Char}, sign ∈ [[], [d]] → sign ∈ 1 + char d := by
    intro sign d hsign
    rcases List.mem_cons.mp hsign with rfl | hsign
    · exact .inl rfl
    · rw [List.mem_singleton.mp hsign]
      exact .inr ⟨d, by simp, rfl⟩
  have hlonger : plus ++ (minus ++ (whole ++ ('.' :: (frac ++ [c])))) ∈ number := by
    refine ⟨plus, hone hplus, _, ⟨minus, hone hminus, _, ⟨whole, ⟨hwhole, trivial⟩, _,
      ⟨['.'], ⟨'.', by decide, rfl⟩, _, ⟨frac ++ [c], ⟨?_, trivial⟩, [], .inl rfl, rfl⟩, rfl⟩, rfl⟩,
      rfl⟩, by simp⟩
    intro d hd
    rcases List.mem_append.mp hd with hd | hd
    · exact hfrac d hd
    · rwa [List.mem_singleton.mp hd]
  have hprefix : plus ++ (minus ++ (whole ++ ('.' :: (frac ++ [c])))) <+: s :=
    ⟨t, by simp [hs]⟩
  have hlen := hmax _ hlonger hprefix
  have htotal := congrArg List.length (hx.trans hs)
  simp at hlen htotal
  omega

theorem exists_sign {plus minus : List Char} (hplus : plus ∈ [[], ['+']])
    (hminus : minus ∈ [[], ['-']]) (hboth : ¬ (plus = ['+'] ∧ minus = ['-'])) :
    ∃ sign : Option Char, (∀ c ∈ sign, c ∈ ['+', '-']) ∧ sign.toList = plus ++ minus := by
  rcases List.mem_cons.mp hplus with rfl | hplus
  · rcases List.mem_cons.mp hminus with rfl | hminus
    · exact ⟨none, by simp, rfl⟩
    · rw [List.mem_singleton.mp hminus]
      exact ⟨some '-', by simp, rfl⟩
  · obtain rfl := List.mem_singleton.mp hplus
    rcases List.mem_cons.mp hminus with rfl | hminus
    · exact ⟨some '+', by simp, rfl⟩
    · exact absurd ⟨rfl, List.mem_singleton.mp hminus⟩ hboth

theorem exists_numeral {s r : List Char} (h : Munch number s (some r)) (hsigns : ¬ TwoSigns s)
    (hbare : ¬ BarePoint s) :
    ∃ x : Numeral, x.frac.isSome = true ∧ x.text ++ r = s := by
  obtain ⟨text, htext, rfl, -⟩ := id h
  obtain ⟨plus, minus, whole, frac, e, hplus, hminus, hwhole, hfrac, rfl⟩ := number_parts htext
  obtain ⟨sign, hsign, hparts⟩ := exists_sign hplus hminus fun hboth =>
    hsigns ⟨whole ++ ('.' :: (frac ++ exponentText e)) ++ r, by simp [hboth.1, hboth.2]⟩
  have hdigits : ∀ c ∈ whole ++ frac, c.isDigit = true := by
    intro c hc
    rcases List.mem_append.mp hc with hc | hc
    · exact hwhole c hc
    · exact hfrac c hc
  have hne : whole ++ frac ≠ [] := by
    intro hnil
    obtain ⟨rfl, rfl⟩ := List.append_eq_nil_iff.mp hnil
    refine hbare ⟨exponentText e ++ r, ?_, ?_⟩
    · have hpoint : ∀ c ∈ ('.' :: (exponentText e ++ r)).head?, c ∉ ['+', '-'] :=
        digits_point_head hwhole
      simpa using skipSigns_append hplus hminus hpoint
    · cases e with
      | none => exact munch_number_no_digit h hplus hminus hwhole hfrac (by simp [exponentText])
      | some e =>
        intro c hc
        obtain rfl : e.mark = c := Option.some.inj hc
        exact (mark_not_digit e.mark_mem).1
  refine ⟨⟨sign, whole, some frac, e, hsign, hdigits, hne⟩, rfl, ?_⟩
  simp [Numeral.text, fracText, hparts]

theorem matchFloatingPointNumber_value {strtod : List Char → ℚ} {old d : ℚ}
    (h : matchFloatingPointNumber strtod old s = (true, d, r)) : d = strtod (consumed s r) := by
  rw [matchFloatingPointNumber] at h
  split at h
  · next rest _ =>
    obtain ⟨hd, rfl⟩ := Prod.mk.inj (Prod.mk.inj h).2
    exact hd.symm
  · cases h

theorem longest_nil (x : Numeral) : x.Longest [] := by
  intro y hy
  rw [List.append_nil] at hy
  exact hy.length_le

end Text

theorem coefficient_read_as_written_iff {strtod : List Char → ℚ} (hstrtod : ConvertsLongest strtod)
    {old d : ℚ} {s rest : StringMatchStream}
    (h : matchFloatingPointNumber strtod old s = (true, d, rest)) :
    ReadsAsWritten (consumed s rest) d ↔ ¬ TwoSigns s ∧ ¬ BarePoint s := by
  have hmunch := matchFloatingPointNumber_true h
  constructor
  · rintro ⟨x, hpoint, htext, -⟩
    obtain ⟨text, -, hs, -⟩ := hmunch
    rw [← hs, consumed_append] at htext
    rw [← hs, ← htext]
    exact ⟨not_twoSigns_of_text hpoint, not_bare_of_text hpoint⟩
  · rintro ⟨hsigns, hbare⟩
    obtain ⟨x, hpoint, hs⟩ := exists_numeral hmunch hsigns hbare
    have hvalue := matchFloatingPointNumber_value h
    rw [← hs, consumed_append] at hvalue ⊢
    refine ⟨x, hpoint, rfl, ?_⟩
    rw [hvalue, ← hstrtod.value x [] (longest_nil x), List.append_nil]

theorem coefficient_read_as_written_iff_fifteen :
    ReadsAsWritten (consumed "-1.5e1, 2.".toList ", 2.".toList) (read "-1.5e1".toList) := by
  have hbare : ¬ BarePoint "-1.5e1, 2.".toList := by
    rintro ⟨r, hr, -⟩
    exact absurd (List.cons.inj hr).1 (by decide)
  have hmatch : matchFloatingPointNumber read 0 "-1.5e1, 2.".toList =
      (true, read "-1.5e1".toList, ", 2.".toList) := rfl
  exact (coefficient_read_as_written_iff read_convertsLongest hmatch).mpr ⟨by decide, hbare⟩

theorem signs_and_point_read_as_zero :
    matchFloatingPointNumber read 0 "+-1.0;".toList = (true, 0, [';']) ∧
      ¬ ReadsAsWritten "+-1.0".toList 0 ∧
    matchFloatingPointNumber read 0 ".;".toList = (true, 0, [';']) ∧
      ¬ ReadsAsWritten ".".toList 0 := by
  refine ⟨by decide +kernel, ?_, by decide +kernel, ?_⟩
  · rintro ⟨x, hpoint, htext, -⟩
    exact not_twoSigns_of_text (r := []) hpoint (by rw [htext]; decide)
  · rintro ⟨x, hpoint, htext, -⟩
    exact not_bare_of_text (r := []) hpoint (by rw [htext]; exact ⟨[], rfl, by simp⟩)

end StringMatchStream

end FirEngine
