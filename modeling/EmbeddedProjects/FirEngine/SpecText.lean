import EmbeddedProjects.FirEngine.CoeffText
import EmbeddedProjects.FirEngine.IntegerText
import EmbeddedProjects.FirEngine.LineEndings

namespace FirEngine

open Scan StringMatchStream SpecGrammar SpecLines SpecOrder SpecSyntax Decimal

namespace SpecText

inductive Entry where
  | nothing
  | sampleRate (firIdx value : Nat)
  | coeff (firIdx : Nat) (values : List Numeral)

def numeral (n : Nat) : Language Char :=
  spanWhere isDigit fun d => d.length % 2 ^ 32 ≠ 0 ∧ IntegerText.decimal d = n

inductive Listed (k : Language Char) : List Numeral → List Char → Prop
  | close {r : List Char} : r ∈ k → Listed k [] (']' :: r)
  | number {x : Numeral} {xs : List Numeral} {w c v r : List Char} : x.frac.isSome = true →
      w ∈ ws → c ∈ 1 + char ',' → v ∈ ws → (w ++ (c ++ v) = [] → xs = []) → Listed k xs r →
      Listed k (x :: xs) (x.text ++ (w ++ (c ++ (v ++ r))))

def listed (xs : List Numeral) (k : Language Char) : Language Char := {s | Listed k xs s}

def Entry.field : Entry → Language Char
  | .nothing => 1
  | .sampleRate _ value => sampleRateField (numeral value) lineEnd
  | .coeff _ values => text "coeff".toList *
      (ws * (char '=' * (ws * (char '[' * (ws * listed values (char ';' * lineEnd))))))

def Entry.texts : Entry → Language Char
  | .nothing => ws * (1 + char '#' * anything)
  | .sampleRate firIdx value => ws * (text "FIR".toList *
      firIndex (numeral firIdx) (Entry.sampleRate firIdx value).field)
  | .coeff firIdx values => ws * (text "FIR".toList *
      firIndex (numeral firIdx) (Entry.coeff firIdx values).field)

def Entry.Fits : Entry → Prop
  | .nothing => True
  | .sampleRate firIdx value => firIdx < 2 ^ 32 ∧ value < 2 ^ 32
  | .coeff firIdx values => firIdx < 2 ^ 32 ∧ ∀ x ∈ values, x.frac.isSome = true

def Entry.apply (value : Numeral → ℚ) : Entry → List FirSpec → List FirSpec
  | .nothing, firSpecs => firSpecs
  | .sampleRate firIdx rate, firSpecs => assign firIdx (.sampleRate rate) firSpecs
  | .coeff firIdx values, firSpecs => assign firIdx (.coeff (values.map value)) firSpecs

def asConverted (strtod : List Char → ℚ) (x : Numeral) : ℚ := strtod x.text

section Numbers

variable {x : Numeral} {r : List Char} {strtod : List Char → ℚ}

def StopsNumber (r : List Char) : Prop :=
  ∀ c ∈ r.head?, isDigit c = false ∧ ['E', 'e'].contains c = false

theorem matchDigits_append {d : List Char} (hd : ∀ c ∈ d, c.isDigit = true)
    (hr : ∀ c ∈ r.head?, isDigit c = false) : matchDigits (d ++ r) = r :=
  (dropWhile_append_of_avoids hd hr).2

theorem matchExponent_text (e : Exponent) (hr : ∀ c ∈ r.head?, isDigit c = false) :
    matchExponent (e.sign.toList ++ (e.digits ++ r)) = (true, r) := by
  obtain ⟨d, ds, hds⟩ := List.exists_cons_of_ne_nil e.ne_nil
  have hdigit : isDigit d = true := e.isDigit d (hds ▸ List.mem_cons_self)
  have hsign : (matchCharInSet ['+', '-'] (e.sign.toList ++ (e.digits ++ r))).2 =
      e.digits ++ r := by
    cases hs : e.sign with
    | none =>
      have hno : ∀ c ∈ (e.digits ++ r).head?, ['+', '-'].contains c = false := by
        intro c hc
        rw [hds] at hc
        obtain rfl : d = c := Option.some.inj hc
        exact digit_notMem_set (List.all_iff_forall_prop.mp (by decide)) hdigit
      exact congrArg Prod.snd (matchIf_false hno)
    | some c =>
      have hyes : ['+', '-'].contains c = true := List.contains_iff_mem.mpr (e.sign_mem c hs)
      exact congrArg Prod.snd (matchIf_cons hyes)
  have hfirst : (matchCharInRange '0' '9' (e.digits ++ r)).1 = true := by
    rw [hds]
    exact congrArg Prod.fst (matchIf_cons hdigit)
  rw [matchExponent, hsign, matchDigits_append e.isDigit hr]
  exact congrArg (·, r) hfirst

theorem scan_text (hpoint : x.frac.isSome = true) (hr : StopsNumber r) :
    scanFloatingPointNumber (x.text ++ r) = (true, r) := by
  obtain ⟨frac, hfrac⟩ := Option.isSome_iff_exists.mp hpoint
  have hdigits : ∀ c ∈ x.whole ++ frac, c.isDigit = true := by
    have h := x.isDigit
    rwa [hfrac] at h
  have hwhole : matchDigits (skipSigns (x.text ++ r)) =
      '.' :: (frac ++ (exponentText x.exponent ++ r)) := by
    rw [skipSigns_text hfrac]
    refine matchDigits_append (fun c hc => hdigits c (List.mem_append_left _ hc)) fun c hc => ?_
    obtain rfl : '.' = c := Option.some.inj hc
    decide
  have hyes : matchChar '.' ('.' :: (frac ++ (exponentText x.exponent ++ r))) =
      (true, frac ++ (exponentText x.exponent ++ r)) := matchIf_cons (by decide)
  have htail : matchDigits (frac ++ (exponentText x.exponent ++ r)) =
      exponentText x.exponent ++ r := by
    refine matchDigits_append (fun c hc => hdigits c (List.mem_append_right _ hc)) fun c hc => ?_
    cases hexp : x.exponent with
    | none =>
      rw [hexp] at hc
      exact (hr c hc).1
    | some e =>
      rw [hexp] at hc
      obtain rfl : e.mark = c := Option.some.inj hc
      exact (mark_not_digit e.mark_mem).1
  rw [scanFloatingPointNumber_eq]
  simp only [hwhole, hyes, htail, if_true]
  cases hexp : x.exponent with
  | none =>
    have hno : matchCharInSet ['E', 'e'] r = (false, r) := matchIf_false fun c hc => (hr c hc).2
    simp only [exponentText, List.nil_append, hno, Bool.false_eq_true, if_false]
  | some e =>
    have hmark : ['E', 'e'].contains e.mark = true := by
      have hmem := e.mark_mem
      simp only [List.mem_cons, List.not_mem_nil, or_false] at hmem
      rcases hmem with heq | heq <;> rw [heq] <;> decide
    have hyes : matchCharInSet ['E', 'e'] (e.text ++ r) =
        (true, e.sign.toList ++ (e.digits ++ r)) := by
      rw [Exponent.text, List.cons_append, List.append_assoc]
      exact matchIf_cons hmark
    simp only [exponentText, hyes, if_true]
    exact matchExponent_text e fun c hc => (hr c hc).1

theorem matchFloatingPointNumber_text (strtod : List Char → ℚ) (hpoint : x.frac.isSome = true)
    (hr : StopsNumber r) :
    matchFloatingPointNumber strtod 0 (x.text ++ r) = (true, asConverted strtod x, r) := by
  have hvalue : strtod (consumed (x.text ++ r) r) = strtod x.text := by rw [consumed_append]
  rw [matchFloatingPointNumber, scan_text hpoint hr]
  exact congrArg (fun d => (true, d, r)) hvalue

theorem asConverted_eq_value (hstrtod : ConvertsLongest strtod) :
    asConverted strtod = Numeral.value := by
  funext x
  have hlongest := hstrtod.value x [] (longest_nil x)
  rwa [List.append_nil] at hlongest

end Numbers

section List

variable {strtod : List Char → ℚ} {k : Language Char} {xs : List Numeral} {s r : List Char}

theorem text_head {x : Numeral} (hpoint : x.frac.isSome = true) (r : List Char) :
    ∀ c ∈ (x.text ++ r).head?, c ∈ ['+', '-', '.'] ∨ c.isDigit = true := by
  obtain ⟨frac, hfrac⟩ := Option.isSome_iff_exists.mp hpoint
  intro c hc
  rw [Numeral.text, hfrac] at hc
  cases hsign : x.sign with
  | some d =>
    rw [hsign] at hc
    obtain rfl : d = c := Option.some.inj hc
    have hmem := x.sign_mem d hsign
    simp only [List.mem_cons, List.not_mem_nil, or_false] at hmem ⊢
    tauto
  | none =>
    rw [hsign] at hc
    cases hwhole : x.whole with
    | cons d ds =>
      rw [hwhole] at hc
      obtain rfl : d = c := Option.some.inj hc
      exact .inr (x.isDigit d (List.mem_append_left _ (hwhole ▸ List.mem_cons_self)))
    | nil =>
      rw [hwhole] at hc
      obtain rfl : '.' = c := Option.some.inj hc
      exact .inl (by simp)

theorem number_start {p : Char → Bool} (hp : NoNumberStart p) {c : Char}
    (hc : c ∈ ['+', '-', '.'] ∨ c.isDigit = true) : p c = false := by
  rcases hc with hc | hc
  · simp only [List.mem_cons, List.not_mem_nil, or_false] at hc
    rcases hc with rfl | rfl | rfl
    · exact hp.plus
    · exact hp.minus
    · exact hp.point
  · exact hp.digit c hc

theorem Listed.avoids {p : Char → Bool} (hp : NoNumberStart p) (hclose : p ']' = false)
    (h : Listed k xs s) : ∀ c ∈ s.head?, p c = false := by
  intro c hc
  cases h with
  | close hr =>
    obtain rfl : ']' = c := Option.some.inj hc
    exact hclose
  | number hpoint hw hc' hv hsep hr =>
    exact number_start hp (text_head hpoint _ c hc)

theorem space_not_mark :
    ∀ d ∈ [' ', '\t', '\n', '\x0b', '\x0c', '\r'], ['E', 'e'].contains d = false :=
  List.all_iff_forall_prop.mp (by decide)

theorem stopsNumber_space {d : Char} (hd : isspace d = true) (r : List Char) :
    StopsNumber (d :: r) := by
  intro c hc
  obtain rfl : d = c := Option.some.inj hc
  have hmem := List.contains_iff_mem.mp hd
  exact ⟨space_not_digit d hmem, space_not_mark d hmem⟩

theorem stopsNumber_char {d : Char} (hd : d ∈ [',', ']']) (r : List Char) :
    StopsNumber (d :: r) := by
  intro c hc
  obtain rfl : d = c := Option.some.inj hc
  simp only [List.mem_cons, List.not_mem_nil, or_false] at hd
  rcases hd with rfl | rfl <;> decide

theorem stopsNumber_separator {w c v r : List Char} (hw : w ∈ ws) (hc : c ∈ 1 + char ',')
    (hv : v ∈ ws) (hsep : w ++ (c ++ v) = [] → xs = []) (h : Listed k xs r) :
    StopsNumber (w ++ (c ++ (v ++ r))) := by
  rcases w with _ | ⟨d, w⟩
  · rcases hc with rfl | ⟨d, hd, rfl⟩
    · rcases v with _ | ⟨d, v⟩
      · obtain rfl := hsep rfl
        cases h with
        | close hr => exact stopsNumber_char (by decide) _
      · exact stopsNumber_space (mem_ws.mp hv d List.mem_cons_self) _
    · obtain rfl : d = ',' := eq_of_beq hd
      exact stopsNumber_char (by decide) _
  · exact stopsNumber_space (mem_ws.mp hw d List.mem_cons_self) _

theorem readCoeffs_listed (strtod : List Char → ℚ) (h : Listed k xs s) (coeff : List ℚ) :
    ∃ r ∈ k, readCoeffs strtod coeff s = .ok (coeff ++ xs.map (asConverted strtod), r) := by
  induction h generalizing coeff with
  | @close r hr =>
    have hyes : matchChar ']' (']' :: r) = (true, r) := matchIf_cons (by decide)
    refine ⟨r, hr, ?_⟩
    rw [readCoeffs, hyes, List.map_nil, List.append_nil]
  | @number x xs w c v r hpoint hw hc hv hsep hr ih =>
    have hopen : matchChar ']' (x.text ++ (w ++ (c ++ (v ++ r)))) = (false, _) :=
      matchIf_false fun d hd => number_start (char_noNumberStart (d := ']') (by decide) (by decide))
        (text_head hpoint _ d hd)
    have hnumber := matchFloatingPointNumber_text strtod hpoint
      (stopsNumber_separator hw hc hv hsep hr)
    have hskip : skipComma (w ++ (c ++ (v ++ r))) = r :=
      skipComma_append hw hc hv (hr.avoids space_noNumberStart (by decide))
        (hr.avoids (char_noNumberStart (d := ',') (by decide) (by decide)) (by decide))
    obtain ⟨t, ht, hread⟩ := ih (coeff ++ [asConverted strtod x])
    refine ⟨t, ht, ?_⟩
    rw [readCoeffs_number hopen hnumber, hskip, hread, List.map_cons, List.append_assoc]
    rfl

end List

section Readers

variable {strtod : List Char → ℚ} {L k : Language Char} {s : List Char} {n i : Nat}

theorem expectChar_mem {c : Char} (h : s ∈ char c * L) : ∃ r ∈ L, expectChar c s = .ok r := by
  obtain ⟨r, hr, rfl⟩ := mem_char_mul.mp h
  have hyes : matchChar c (c :: r) = (true, r) := matchIf_cons (beq_self_eq_true c)
  exact ⟨r, hr, by rw [expectChar, hyes]⟩

theorem skip_expectChar_mem {c : Char} (hc : isspace c = false) (h : s ∈ ws * (char c * L)) :
    ∃ r ∈ L, expectChar c (skipWhitespace s) = .ok r :=
  expectChar_mem ((mem_ws_mul (avoids_char_mul hc)).mp h)

theorem skip_expectUInt_mem (what : String) (hL : Avoids L isDigit) (hn : n < 2 ^ 32)
    (h : s ∈ ws * (numeral n * L)) : ∃ r ∈ L, expectUInt what (skipWhitespace s) = .ok (n, r) := by
  have havoid : Avoids (numeral n * L) isspace := by
    refine avoids_mul_of_ne_nil (avoids_spanWhere fun c hc => ?_) ?_
    · exact digit_notMem_set space_not_digit hc
    · rintro w hw rfl
      exact hw.2.1 rfl
  obtain ⟨d, hd, r, hr, hs⟩ := (mem_ws_mul havoid).mp h
  obtain ⟨hdigits, hcount, hvalue⟩ := mem_spanWhere.mp hd
  have hs' : skipWhitespace s = d ++ r := hs.symm
  obtain ⟨htake, hdrop⟩ := dropWhile_append_of_avoids hdigits (hL r hr)
  have hmod : Nat.ofDigitChars 10 d 0 % 2 ^ 32 = n := by
    change IntegerText.decimal d % 2 ^ 32 = n
    rw [hvalue, Nat.mod_eq_of_lt hn]
  refine ⟨r, hr, ?_⟩
  rw [expectUInt, hs', matchUInt_eq, htake, hdrop, if_neg hcount, hmod]

theorem readFirIndex_mem (hi : i < 2 ^ 32) (h : s ∈ firIndex (numeral i) k) :
    ∃ r ∈ k, readFirIndex s = .ok (i, r) := by
  obtain ⟨a, ha, hopen⟩ := skip_expectChar_mem (by decide) h
  obtain ⟨b, hb, hindex⟩ := skip_expectUInt_mem "FIR-Index" (space_char_mul (by decide)) hi ha
  obtain ⟨c, hc, hclose⟩ := skip_expectChar_mem (by decide) hb
  obtain ⟨d, hd, hpoint⟩ := skip_expectChar_mem (by decide) hc
  refine ⟨d, hd, ?_⟩
  simp only [readFirIndex, hopen, hindex, hclose, hpoint, bind, Except.bind]

theorem readSampleRate_mem (hn : n < 2 ^ 32)
    (h : s ∈ ws * (char '=' * (ws * (numeral n * (ws * (char ';' * k)))))) :
    ∃ r ∈ k, ∀ firSpec, readSampleRate firSpec s =
      .ok ((Setting.sampleRate n).apply firSpec, r) := by
  obtain ⟨a, ha, hequals⟩ := skip_expectChar_mem (by decide) h
  obtain ⟨b, hb, hvalue⟩ := skip_expectUInt_mem "Unsigned-Integer sample rate"
    (space_char_mul (by decide)) hn ha
  obtain ⟨c, hc, hend⟩ := skip_expectChar_mem (by decide) hb
  refine ⟨c, hc, fun firSpec => ?_⟩
  simp only [readSampleRate, hequals, hvalue, hend, bind, Except.bind]
  rfl

theorem readCoeff_mem {xs : List Numeral}
    (h : s ∈ ws * (char '=' * (ws * (char '[' * (ws * listed xs (char ';' * k)))))) :
    ∃ r ∈ k, ∀ firSpec, readCoeff strtod firSpec s =
      .ok ((Setting.coeff (xs.map (asConverted strtod))).apply firSpec, r) := by
  obtain ⟨a, ha, hequals⟩ := skip_expectChar_mem (by decide) h
  obtain ⟨b, hb, hopen⟩ := skip_expectChar_mem (by decide) ha
  have havoid : Avoids (listed xs (char ';' * k)) isspace := fun t ht =>
    Listed.avoids space_noNumberStart (by decide) ht
  obtain ⟨c, hc, hlist⟩ := readCoeffs_listed strtod ((mem_ws_mul havoid).mp hb) []
  obtain ⟨d, hd, hend⟩ := expectChar_mem hc
  refine ⟨d, hd, fun firSpec => ?_⟩
  simp only [readCoeff, hequals, hopen, hlist, hend, bind, Except.bind]
  rfl

theorem readEnd_mem (h : s ∈ lineEnd) : readEnd s = .ok () := by
  obtain ⟨u, hu⟩ := (decides_readEnd s).isOk_iff.mpr h
  exact hu

theorem matchText_mem {t : String} (hL : Avoids L (· == '\x00'))
    (h : s ∈ text t.toList * L) : ∃ r ∈ L, matchText t s = .ok (true, r) := by
  obtain ⟨r, hr, rfl⟩ := mem_text_mul.mp h
  rcases matchText_all_cases t (t.toList ++ r) with ⟨hnul, -⟩ | ⟨-, ⟨r', hr', hmatch⟩ | ⟨hno, -⟩⟩
  · obtain ⟨u, hu⟩ := hnul
    rw [List.append_assoc] at hu
    have hhead := hL r hr '\x00' (by rw [← List.append_cancel_left hu]; rfl)
    exact absurd hhead (by decide)
  · obtain rfl := List.append_cancel_left hr'
    exact ⟨r, hr, hmatch⟩
  · exact absurd (List.prefix_append _ _) hno

theorem readCommand_mem {r r' : List Char} {set : Setting} (hindex : readFirIndex s = .ok (i, r))
    (hfield : ∀ firSpec, readField strtod firSpec r = .ok (set.apply firSpec, r'))
    (hend : readEnd r' = .ok ()) (firSpecs : List FirSpec) :
    readCommand strtod firSpecs s = .ok (assign i set firSpecs) := by
  simp only [readCommand, hindex, hfield, hend, bind, Except.bind]
  rfl

end Readers

section Lines

variable {strtod : List Char → ℚ} {l : List Char} {firIdx : Nat} {set : Setting} {e : Entry}

theorem avoids_ws {k : Language Char} {p : Char → Bool}
    (hspace : ∀ c, isspace c = true → p c = false) (hk : Avoids k p) : Avoids (ws * k) p :=
  avoids_mul (avoids_spanWhere hspace) hk

theorem space_not_nul (c : Char) (hc : isspace c = true) : (c == '\x00') = false := by
  have h : ∀ c ∈ [' ', '\t', '\n', '\x0b', '\x0c', '\r'], (c == '\x00') = false :=
    List.all_iff_forall_prop.mp (by decide)
  exact h c (List.contains_iff_mem.mp hc)

theorem readField_sampleRate {s : List Char} {k : Language Char} {n : Nat} (hn : n < 2 ^ 32)
    (h : s ∈ sampleRateField (numeral n) k) :
    ∃ r ∈ k, ∀ firSpec, readField strtod firSpec s =
      .ok ((Setting.sampleRate n).apply firSpec, r) := by
  obtain ⟨a, ha, hmatch⟩ :=
    matchText_mem (avoids_ws space_not_nul (avoids_char_mul (by decide))) h
  obtain ⟨r, hr, hread⟩ := readSampleRate_mem hn ha
  refine ⟨r, hr, fun firSpec => ?_⟩
  rw [readField, hmatch, Outcome.ok_bind, if_pos rfl, hread]

theorem readField_coeff {s : List Char} {k : Language Char} {xs : List Numeral}
    (h : s ∈ text "coeff".toList *
      (ws * (char '=' * (ws * (char '[' * (ws * listed xs (char ';' * k))))))) :
    ∃ r ∈ k, ∀ firSpec, readField strtod firSpec s =
      .ok ((Setting.coeff (xs.map (asConverted strtod))).apply firSpec, r) := by
  obtain ⟨a, ha, hmatch⟩ :=
    matchText_mem (avoids_ws space_not_nul (avoids_char_mul (by decide))) h
  obtain ⟨r, hr, hread⟩ := readCoeff_mem ha
  have hrate : matchText "sampleRate" s = .ok (false, s) := by
    obtain ⟨t, -, rfl⟩ := mem_text_mul.mp h
    rfl
  refine ⟨r, hr, fun firSpec => ?_⟩
  rw [readField, hrate, Outcome.ok_bind, if_neg Bool.false_ne_true, hmatch, Outcome.ok_bind,
    if_pos rfl, hread]

theorem readLine_command {field : Language Char} (hi : firIdx < 2 ^ 32)
    (hfield : ∀ s ∈ field, ∃ r ∈ lineEnd, ∀ firSpec, readField strtod firSpec s =
      .ok (set.apply firSpec, r))
    (h : l ∈ ws * (text "FIR".toList * firIndex (numeral firIdx) field))
    (firSpecs : List FirSpec) :
    readLine strtod firSpecs l = .ok (assign firIdx set firSpecs) := by
  have hline : skipWhitespace l ∈ text "FIR".toList * firIndex (numeral firIdx) field :=
    (mem_ws_mul (avoids_text_mul (by decide))).mp h
  have hblank : ((skipWhitespace l).isEmpty || (skipWhitespace l).head? == some '#') = false := by
    obtain ⟨t, -, ht⟩ := mem_text_mul.mp hline
    rw [ht]
    rfl
  obtain ⟨s, hs, hmatch⟩ :=
    matchText_mem (avoids_ws space_not_nul (avoids_char_mul (c := '[') (by decide))) hline
  obtain ⟨r, hr, hindex⟩ := readFirIndex_mem hi hs
  obtain ⟨t, ht, hset⟩ := hfield r hr
  rw [readLine]
  simp only [hblank, Bool.false_eq_true, if_false, hmatch, Outcome.ok_bind, if_true]
  exact readCommand_mem hindex hset (readEnd_mem ht) firSpecs

theorem readLine_nothing (h : l ∈ Entry.nothing.texts) (firSpecs : List FirSpec) :
    readLine strtod firSpecs l = .ok firSpecs := by
  have hline := (mem_ws_mul (avoids_add avoids_empty (avoids_char_mul (by decide)))).mp h
  rw [readLine]
  refine if_pos ?_
  rcases hline with hnil | hcomment
  · rw [hnil]
    rfl
  · obtain ⟨r, -, hr⟩ := mem_char_mul.mp hcomment
    rw [hr]
    rfl

theorem readLine_entry (h : l ∈ e.texts) (hfits : e.Fits) (firSpecs : List FirSpec) :
    readLine strtod firSpecs l = .ok (e.apply (asConverted strtod) firSpecs) := by
  cases e with
  | nothing => exact readLine_nothing h firSpecs
  | sampleRate firIdx value =>
    exact readLine_command hfits.1 (fun s hs => readField_sampleRate hfits.2 hs) h firSpecs
  | coeff firIdx values =>
    exact readLine_command hfits.1 (fun s hs => readField_coeff hs) h firSpecs

theorem readAll_entries {entries : List Entry} {ls : List (List Char)}
    (h : List.Forall₂ (fun e l => l ∈ Entry.texts e) entries ls)
    (hfits : ∀ e ∈ entries, e.Fits) (lineNum : Nat) (firSpecs : List FirSpec) :
    readAll strtod lineNum firSpecs ls =
      .ok (entries.foldl (fun firSpecs e => e.apply (asConverted strtod) firSpecs)
        firSpecs) := by
  induction h generalizing lineNum firSpecs with
  | nil => rfl
  | cons hl hrest ih =>
    obtain ⟨he, hfits⟩ := List.forall_mem_cons.mp hfits
    rw [readAll, readLine_entry hl he firSpecs]
    exact ih hfits _ _

end Lines

def Entry.index : Entry → Option Nat
  | .nothing => none
  | .sampleRate firIdx _ => some firIdx
  | .coeff firIdx _ => some firIdx

def Entry.rateOf (f : Nat) : Entry → Option Nat
  | .sampleRate firIdx value => if f = firIdx then some value else none
  | _ => none

def Entry.coeffsOf (value : Numeral → ℚ) (f : Nat) : Entry → Option (List ℚ)
  | .coeff firIdx values => if f = firIdx then some (values.map value) else none
  | _ => none

def numFirs (entries : List Entry) : Nat :=
  ((entries.filterMap Entry.index).map (· + 1)).foldl max 0

def firOf (value : Numeral → ℚ) (entries : List Entry) (f : Nat) : FirSpec where
  sampleFreq := (entries.filterMap (Entry.rateOf f)).getLast?.getD 16000000
  coeff := (entries.filterMap (Entry.coeffsOf value f)).getLast?.getD []

def firsOf (value : Numeral → ℚ) (entries : List Entry) : List FirSpec :=
  (List.range (numFirs entries)).map (firOf value entries)

section Meaning

variable {value : Numeral → ℚ} {e : Entry} {entries : List Entry} {firSpecs : List FirSpec}
  {f : Nat}

theorem length_apply (e : Entry) (firSpecs : List FirSpec) :
    (e.apply value firSpecs).length = max firSpecs.length ((e.index.map (· + 1)).getD 0) := by
  cases e with
  | nothing => exact (Nat.max_zero _).symm
  | sampleRate firIdx rate => exact Growing.length_update
  | coeff firIdx values => exact Growing.length_update

theorem sampleFreq_apply (e : Entry) (firSpecs : List FirSpec) (f : Nat) :
    ((e.apply value firSpecs).getD f {}).sampleFreq =
      (e.rateOf f).getD (firSpecs.getD f {}).sampleFreq := by
  cases e with
  | nothing => rfl
  | sampleRate firIdx rate =>
    rw [Entry.apply, assign, Growing.getD_update, Entry.rateOf]
    split <;> rfl
  | coeff firIdx values =>
    rw [Entry.apply, assign, Growing.getD_update]
    split
    · next hf =>
      rw [hf]
      rfl
    · rfl

theorem coeff_apply (e : Entry) (firSpecs : List FirSpec) (f : Nat) :
    ((e.apply value firSpecs).getD f {}).coeff =
      (e.coeffsOf value f).getD (firSpecs.getD f {}).coeff := by
  cases e with
  | nothing => rfl
  | sampleRate firIdx rate =>
    rw [Entry.apply, assign, Growing.getD_update]
    split
    · next hf =>
      rw [hf]
      rfl
    · rfl
  | coeff firIdx values =>
    rw [Entry.apply, assign, Growing.getD_update, Entry.coeffsOf]
    split <;> rfl

theorem getLast_filterMap_cons {α β : Type} (g : α → Option β) (a : α) (l : List α) (d : β) :
    ((a :: l).filterMap g).getLast?.getD d = (l.filterMap g).getLast?.getD ((g a).getD d) := by
  cases h : g a with
  | none => rw [List.filterMap_cons_none h, Option.getD_none]
  | some b =>
    rw [List.filterMap_cons_some h, List.getLast?_cons, Option.getD_some, Option.getD_some]

def applyAll (value : Numeral → ℚ) (entries : List Entry) (firSpecs : List FirSpec) :
    List FirSpec :=
  entries.foldl (fun firSpecs e => e.apply value firSpecs) firSpecs

theorem length_applyAll (entries : List Entry) (firSpecs : List FirSpec) :
    (applyAll value entries firSpecs).length =
      ((entries.filterMap Entry.index).map (· + 1)).foldl max firSpecs.length := by
  induction entries generalizing firSpecs with
  | nil => rfl
  | cons e entries ih =>
    refine (ih (e.apply value firSpecs)).trans ?_
    rw [length_apply]
    cases h : e.index with
    | none => rw [List.filterMap_cons_none h, Option.map_none, Option.getD_none, Nat.max_zero]
    | some i => rw [List.filterMap_cons_some h]; rfl

theorem sampleFreq_applyAll (value : Numeral → ℚ) (entries : List Entry)
    (firSpecs : List FirSpec) (f : Nat) :
    ((applyAll value entries firSpecs).getD f {}).sampleFreq =
      (entries.filterMap (Entry.rateOf f)).getLast?.getD (firSpecs.getD f {}).sampleFreq := by
  induction entries generalizing firSpecs with
  | nil => rfl
  | cons e entries ih =>
    rw [getLast_filterMap_cons, ← sampleFreq_apply]
    exact ih (e.apply value firSpecs)

theorem coeff_applyAll (value : Numeral → ℚ) (entries : List Entry)
    (firSpecs : List FirSpec) (f : Nat) :
    ((applyAll value entries firSpecs).getD f {}).coeff =
      (entries.filterMap (Entry.coeffsOf value f)).getLast?.getD (firSpecs.getD f {}).coeff := by
  induction entries generalizing firSpecs with
  | nil => rfl
  | cons e entries ih =>
    rw [getLast_filterMap_cons, ← coeff_apply]
    exact ih (e.apply value firSpecs)

theorem applyAll_nil (entries : List Entry) : applyAll value entries [] = firsOf value entries := by
  have hlen : (applyAll value entries []).length = numFirs entries := length_applyAll entries []
  refine List.ext_getElem ?_ fun f hf hf' => ?_
  · rw [hlen, firsOf, List.length_map, List.length_range]
  · have hget : (applyAll value entries [])[f] = (applyAll value entries []).getD f {} := by
      rw [List.getD_eq_getElem?_getD, List.getElem?_eq_getElem hf, Option.getD_some]
    have hfir : (applyAll value entries []).getD f {} = firOf value entries f := by
      have hrate := sampleFreq_applyAll value entries [] f
      have hcoeff := coeff_applyAll value entries [] f
      generalize (applyAll value entries []).getD f {} = firSpec at hrate hcoeff
      cases firSpec
      exact congrArg₂ FirSpec.mk hrate hcoeff
    simp only [firsOf, List.getElem_map, List.getElem_range, hget, hfir]

end Meaning

theorem readFromFile_entries (strtod : List Char → ℚ) (clockFreq : ℚ) {entries : List Entry}
    {s : List Char}
    (hs : List.Forall₂ (fun e l => l ∈ Entry.texts e) entries (splitLines s))
    (hfits : ∀ e ∈ entries, e.Fits) :
    FirEngineSpec.readFromFile strtod { clockFreq } (fresh s) =
      .ok { clockFreq, firSpec := firsOf (asConverted strtod) entries } := by
  rw [readFromFile_eq, readAll_entries hs hfits, Outcome.ok_bind]
  change Except.ok (FirEngineSpec.mk clockFreq (applyAll (asConverted strtod) entries [])) = _
  rw [applyAll_nil]

theorem readFromFile_entries_exact {strtod : List Char → ℚ} (hstrtod : ConvertsLongest strtod)
    (clockFreq : ℚ) {entries : List Entry} {s : List Char}
    (hs : List.Forall₂ (fun e l => l ∈ Entry.texts e) entries (splitLines s))
    (hfits : ∀ e ∈ entries, e.Fits) :
    FirEngineSpec.readFromFile strtod { clockFreq } (fresh s) =
      .ok { clockFreq, firSpec := firsOf Numeral.value entries } := by
  rw [readFromFile_entries strtod clockFreq hs hfits, asConverted_eq_value hstrtod]

def renderList (values : List Numeral) : List Char := values.flatMap fun x => x.text ++ [',']

def Entry.render : Entry → List Char
  | .nothing => []
  | .sampleRate firIdx value => "FIR".toList ++ ('[' :: (Nat.toDigits 10 firIdx ++
      (']' :: '.' :: ("sampleRate".toList ++ ('=' :: (Nat.toDigits 10 value ++ [';']))))))
  | .coeff firIdx values => "FIR".toList ++ ('[' :: (Nat.toDigits 10 firIdx ++
      (']' :: '.' :: ("coeff".toList ++ ('=' :: '[' :: (renderList values ++ [']', ';']))))))

def document (entries : List Entry) : List Char := entries.flatMap fun e => e.render ++ ['\n']

section Render

variable {e : Entry} {entries : List Entry} {k : Language Char} {r : List Char} {n : Nat}

theorem toDigits_mem_numeral (hn : n < 2 ^ 32) : Nat.toDigits 10 n ∈ numeral n := by
  have hlen : (Nat.toDigits 10 n).length ≤ 10 :=
    (Nat.length_toDigits_le_iff (by decide) (by decide)).mpr (by omega)
  have hpos : 0 < (Nat.toDigits 10 n).length := Nat.length_toDigits_pos
  refine mem_spanWhere.mpr ⟨fun c hc => ?_, ?_, Nat.ofDigitChars_ten_toDigits⟩
  · exact Nat.isDigit_of_mem_toDigits (by decide) (by decide) hc
  · rw [Nat.mod_eq_of_lt (by omega)]
    omega

theorem ws_nil_mul (h : r ∈ k) : r ∈ ws * k := mem_ws_mul_of_mem h

theorem append_mem_numeral_mul (hn : n < 2 ^ 32) (h : r ∈ k) :
    Nat.toDigits 10 n ++ r ∈ numeral n * k :=
  ⟨_, toDigits_mem_numeral hn, r, h, rfl⟩

theorem listed_renderList {values : List Numeral} (hpoint : ∀ x ∈ values, x.frac.isSome = true)
    (h : r ∈ k) : renderList values ++ ']' :: r ∈ listed values k := by
  induction values with
  | nil => exact .close h
  | cons x values ih =>
    obtain ⟨hx, hpoint⟩ := List.forall_mem_cons.mp hpoint
    have hrest := ih hpoint
    have hcomma : [','] ∈ 1 + char ',' := .inr ⟨',', by decide, rfl⟩
    have hnil : ([] : List Char) ∈ ws := mem_ws.mpr (by simp)
    have hwritten := Listed.number hx hnil hcomma hnil (by simp) hrest
    rwa [List.nil_append, List.nil_append, ← List.append_assoc, ← List.append_assoc] at hwritten

theorem mem_firIndex (hn : n < 2 ^ 32) (h : r ∈ k) :
    '[' :: (Nat.toDigits 10 n ++ (']' :: '.' :: r)) ∈ firIndex (numeral n) k :=
  ws_nil_mul (cons_mem_char_mul '[' (ws_nil_mul (append_mem_numeral_mul hn
    (ws_nil_mul (cons_mem_char_mul ']' (ws_nil_mul (cons_mem_char_mul '.' h)))))))

theorem nil_mem_lineEnd : [] ∈ lineEnd := ws_nil_mul (.inl rfl)

theorem render_mem (h : e.Fits) : e.render ∈ e.texts := by
  cases e with
  | nothing => exact nil_mem_lineEnd
  | sampleRate firIdx value =>
    have hvalue := append_mem_numeral_mul h.2 (ws_nil_mul (cons_mem_char_mul ';' nil_mem_lineEnd))
    have hfield : "sampleRate".toList ++ _ ∈ (Entry.sampleRate firIdx value).field :=
      append_mem_text_mul.mpr (ws_nil_mul (cons_mem_char_mul '=' (ws_nil_mul hvalue)))
    exact ws_nil_mul (append_mem_text_mul.mpr (mem_firIndex h.1 hfield))
  | coeff firIdx values =>
    have hlist := listed_renderList h.2 (cons_mem_char_mul ';' nil_mem_lineEnd)
    have hfield : "coeff".toList ++ _ ∈ (Entry.coeff firIdx values).field :=
      append_mem_text_mul.mpr (ws_nil_mul (cons_mem_char_mul '='
        (ws_nil_mul (cons_mem_char_mul '[' (ws_nil_mul hlist)))))
    exact ws_nil_mul (append_mem_text_mul.mpr (mem_firIndex h.1 hfield))

theorem isDigit_not_break {c : Char} (hc : c.isDigit = true) : ¬ IsBreak c := by
  rintro (rfl | rfl) <;> cases hc

theorem sign_not_break {sign : Option Char} (h : ∀ c ∈ sign, c ∈ ['+', '-']) :
    ∀ c ∈ sign.toList, ¬ IsBreak c := by
  have hnone : ∀ c ∈ ['+', '-'], ¬ IsBreak c := by
    rintro c hc (rfl | rfl) <;> simp at hc
  exact fun c hc => hnone c (h c (Option.mem_toList.mp hc))

theorem exponentText_not_break (e : Option Exponent) : ∀ c ∈ exponentText e, ¬ IsBreak c := by
  cases e with
  | none => simp [exponentText]
  | some e =>
    have hmark : ¬ IsBreak e.mark := by
      have hmem := e.mark_mem
      rintro (h | h) <;> simp [h] at hmem
    intro c hc
    rcases List.mem_cons.mp hc with rfl | hc
    · exact hmark
    · rcases List.mem_append.mp hc with hc | hc
      · exact sign_not_break e.sign_mem c hc
      · exact isDigit_not_break (e.isDigit c hc)

theorem text_not_break {x : Numeral} (hpoint : x.frac.isSome = true) :
    ∀ c ∈ x.text, ¬ IsBreak c := by
  obtain ⟨frac, hfrac⟩ := Option.isSome_iff_exists.mp hpoint
  have hdigits := x.isDigit
  rw [hfrac, Option.getD_some] at hdigits
  intro c hc
  rw [Numeral.text, hfrac] at hc
  simp only [fracText, List.mem_append, List.mem_cons] at hc hdigits
  rcases hc with hc | hc | (rfl | hc) | hc
  · exact sign_not_break x.sign_mem c hc
  · exact isDigit_not_break (hdigits c (.inl hc))
  · rintro (h | h) <;> cases h
  · exact isDigit_not_break (hdigits c (.inr hc))
  · exact exponentText_not_break x.exponent c hc

theorem toDigits_not_break (n : Nat) : ∀ c ∈ Nat.toDigits 10 n, ¬ IsBreak c :=
  fun c hc => isDigit_not_break (Nat.isDigit_of_mem_toDigits (by decide) (by decide) hc)

theorem renderList_not_break {values : List Numeral}
    (hpoint : ∀ x ∈ values, x.frac.isSome = true) : ∀ c ∈ renderList values, ¬ IsBreak c := by
  intro c hc
  obtain ⟨x, hx, hc⟩ := List.mem_flatMap.mp hc
  rcases List.mem_append.mp hc with hc | hc
  · exact text_not_break (hpoint x hx) c hc
  · rw [List.mem_singleton.mp hc]
    rintro (h | h) <;> cases h

theorem word_not_break {t : List Char} (h : t.all (fun c => c != '\n' && c != '\r') = true) :
    ∀ c ∈ t, ¬ IsBreak c := by
  intro c hc hbreak
  have hne := List.all_eq_true.mp h c hc
  rcases hbreak with rfl | rfl <;> cases hne

theorem append_not_break {s t : List Char} (hs : ∀ c ∈ s, ¬ IsBreak c)
    (ht : ∀ c ∈ t, ¬ IsBreak c) : ∀ c ∈ s ++ t, ¬ IsBreak c :=
  List.forall_mem_append.mpr ⟨hs, ht⟩

theorem render_not_break (h : e.Fits) : ∀ c ∈ e.render, ¬ IsBreak c := by
  cases e with
  | nothing => simp [Entry.render]
  | sampleRate firIdx value =>
    have hopen : ∀ c ∈ "FIR[".toList, ¬ IsBreak c := word_not_break (by decide)
    have hname : ∀ c ∈ "].sampleRate=".toList, ¬ IsBreak c := word_not_break (by decide)
    have hend : ∀ c ∈ [';'], ¬ IsBreak c := word_not_break (by decide)
    change ∀ c ∈ "FIR[".toList ++ (Nat.toDigits 10 firIdx ++
      ("].sampleRate=".toList ++ (Nat.toDigits 10 value ++ [';']))), ¬ IsBreak c
    exact append_not_break hopen (append_not_break (toDigits_not_break firIdx)
      (append_not_break hname (append_not_break (toDigits_not_break value) hend)))
  | coeff firIdx values =>
    have hopen : ∀ c ∈ "FIR[".toList, ¬ IsBreak c := word_not_break (by decide)
    have hname : ∀ c ∈ "].coeff=[".toList, ¬ IsBreak c := word_not_break (by decide)
    have hend : ∀ c ∈ [']', ';'], ¬ IsBreak c := word_not_break (by decide)
    change ∀ c ∈ "FIR[".toList ++ (Nat.toDigits 10 firIdx ++
      ("].coeff=[".toList ++ (renderList values ++ [']', ';']))), ¬ IsBreak c
    exact append_not_break hopen (append_not_break (toDigits_not_break firIdx)
      (append_not_break hname (append_not_break (renderList_not_break h.2) hend)))

theorem splitLines_append_lf {l : List Char} (h : ∀ c ∈ l, ¬ IsBreak c) (s : List Char) :
    splitLines (l ++ '\n' :: s) = l :: splitLines s := by
  induction l with
  | nil => rfl
  | cons c l ih =>
    obtain ⟨hc, hl⟩ := List.forall_mem_cons.mp h
    rw [List.cons_append, splitLines_other hc, ih hl, consLine]

theorem splitLines_document (h : ∀ e ∈ entries, e.Fits) :
    splitLines (document entries) = entries.map Entry.render := by
  induction entries with
  | nil => rfl
  | cons e entries ih =>
    obtain ⟨he, hentries⟩ := List.forall_mem_cons.mp h
    have hsplit : document (e :: entries) = e.render ++ '\n' :: document entries := by
      rw [document, List.flatMap_cons, List.append_assoc, List.singleton_append]
      rfl
    rw [hsplit, splitLines_append_lf (render_not_break he), ih hentries, List.map_cons]

theorem forall₂_render (h : ∀ e ∈ entries, e.Fits) :
    List.Forall₂ (fun e l => l ∈ Entry.texts e) entries (entries.map Entry.render) :=
  List.forall₂_map_right_iff.mpr (List.forall₂_same.mpr fun e he => render_mem (h e he))

end Render

theorem specification_round_trip (strtod : List Char → ℚ) (clockFreq : ℚ)
    (entries : List Entry) (hfits : ∀ e ∈ entries, e.Fits) :
    FirEngineSpec.readFromFile strtod { clockFreq } (fresh (document entries)) =
      .ok { clockFreq, firSpec := firsOf (asConverted strtod) entries } ∧
    (∀ s, List.Forall₂ (fun e l => l ∈ Entry.texts e) entries (splitLines s) →
      FirEngineSpec.readFromFile strtod { clockFreq } (fresh s) =
        .ok { clockFreq, firSpec := firsOf (asConverted strtod) entries }) ∧
    (ConvertsLongest strtod →
      firsOf (asConverted strtod) entries = firsOf Numeral.value entries) := by
  refine ⟨readFromFile_entries strtod clockFreq ?_ hfits,
    fun s hs => readFromFile_entries strtod clockFreq hs hfits,
    fun hstrtod => by rw [asConverted_eq_value hstrtod]⟩
  rw [splitLines_document hfits]
  exact forall₂_render hfits

def half : Numeral := ⟨none, [], some ['5'], none, by simp, by simp, by simp⟩

theorem specification_round_trip_half :
    FirEngineSpec.readFromFile read { clockFreq := 16 }
        (fresh (document [.coeff 1 [half, half], .sampleRate 0 48000, .sampleRate 0 5])) =
      .ok { clockFreq := 16, firSpec := [⟨5, []⟩, ⟨16000000, [1 / 2, 1 / 2]⟩] } := by
  have hfits : ∀ e ∈ [Entry.coeff 1 [half, half], .sampleRate 0 48000, .sampleRate 0 5],
      e.Fits := by
    simp [Entry.Fits, half]
  have hfirs : firsOf Numeral.value
      [Entry.coeff 1 [half, half], .sampleRate 0 48000, .sampleRate 0 5] =
        [⟨5, []⟩, ⟨16000000, [1 / 2, 1 / 2]⟩] := by decide +kernel
  obtain ⟨hread, -, hexact⟩ := specification_round_trip read 16 _ hfits
  rw [hread, hexact read_convertsLongest, hfirs]

end SpecText

end FirEngine
