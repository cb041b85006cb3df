import EmbeddedProjects.FirEngine.SpecOrder
import EmbeddedProjects.FirEngine.SpecSyntax

namespace FirEngine

open Scan StringMatchStream SpecGrammar SpecLines SpecOrder SpecSyntax

namespace IntegerText

variable {s r l u v w w' d : List Char} {strtod : List Char → ℚ} {i n : Nat}

def decimal (digits : List Char) : Nat := Nat.ofDigitChars 10 digits 0

def between (a b : Char) (l : List Char) : List Char :=
  ((l.dropWhile (· != a)).tail.takeWhile (· != b)).filter (!isspace ·)

def writtenIndex (l : List Char) : Nat := decimal (between '[' ']' l)

def writtenRate (l : List Char) : Nat := decimal (between '=' ';' l)

def StoresAsWritten (strtod : List Char → ℚ) (l : List Char) : Prop :=
  ∀ i, ∀ set : Setting, (∀ firSpecs, readLine strtod firSpecs l = .ok (assign i set firSpecs)) →
    i = writtenIndex l ∧ ∀ value, set = .sampleRate value → value = writtenRate l

def NumbersFit (l : List Char) : Prop :=
  ((lineField l).isSome = true → writtenIndex l < 2 ^ 32) ∧
    ((lineField l).map Prod.snd = some .sampleRate → writtenRate l < 2 ^ 32)

instance (l : List Char) : Decidable (NumbersFit l) := inferInstanceAs (Decidable (_ ∧ _))

def MatchesExactly (s : StringMatchStream) : Prop :=
  (matchUInt s).1 = false ∨ (matchUInt s).2.1 = decimal (s.takeWhile isDigit)

section Written

theorem notMem_ws {c : Char} (hw : w ∈ ws) (hc : isspace c = false) : c ∉ w := by
  intro hmem
  rw [mem_ws.mp hw c hmem] at hc
  cases hc

theorem notMem_digits {c : Char} (hd : ∀ c ∈ d, isDigit c = true) (hc : isDigit c = false) :
    c ∉ d := by
  intro hmem
  rw [hd c hmem] at hc
  cases hc

theorem bne_of_notMem {a : Char} (h : a ∉ u) : ∀ c ∈ u, (c != a) = true := by
  intro c hc
  exact bne_iff_ne.mpr fun heq => h (heq ▸ hc)

theorem between_eq {a b : Char} (hu : a ∉ u) (hw : w ∈ ws) (hd : ∀ c ∈ d, isDigit c = true)
    (hw' : w' ∈ ws) (hspace : isspace b = false) (hdigit : isDigit b = false) :
    between a b (u ++ a :: (w ++ (d ++ (w' ++ b :: v)))) = d := by
  have hhead : ∀ (c : Char) (t : List Char), ∀ e ∈ (c :: t).head?, (e != c) = false := by
    intro c t e he
    obtain rfl : c = e := Option.some.inj he
    simp
  have hopen := (dropWhile_append_of_avoids (bne_of_notMem hu)
    (hhead a (w ++ (d ++ (w' ++ b :: v))))).2
  have hinside : b ∉ w ++ (d ++ w') := by
    simp only [List.mem_append, not_or]
    exact ⟨notMem_ws hw hspace, notMem_digits hd hdigit, notMem_ws hw' hspace⟩
  have hclose := (dropWhile_append_of_avoids (bne_of_notMem hinside) (hhead b v)).1
  have hassoc : w ++ (d ++ (w' ++ b :: v)) = w ++ (d ++ w') ++ b :: v := by
    simp only [List.append_assoc]
  have hnone : ∀ {t : List Char}, t ∈ ws → t.filter (!isspace ·) = [] := by
    intro t ht
    refine List.filter_eq_nil_iff.mpr fun c hc => ?_
    rw [mem_ws.mp ht c hc]
    exact Bool.false_ne_true
  have hall : d.filter (!isspace ·) = d := by
    refine List.filter_eq_self.mpr fun c hc => ?_
    have hc' : isspace c = false := digit_notMem_set space_not_digit (hd c hc)
    rw [hc']
    rfl
  rw [between, hopen, List.tail_cons, hassoc, hclose, List.filter_append, List.filter_append,
    hnone hw, hnone hw', hall, List.nil_append, List.append_nil]

end Written

section Readers

theorem expectChar_ok {c : Char} (h : expectChar c s = .ok r) : s = c :: r := by
  rw [expectChar] at h
  rcases matchChar_cases c s with ⟨t, rfl, hyes⟩ | ⟨-, hno⟩
  · rw [hyes] at h
    rw [Except.ok.inj h]
  · rw [hno] at h
    cases h

theorem skip_expectChar_ok {c : Char} (h : expectChar c (skipWhitespace s) = .ok r) :
    ∃ w ∈ ws, s = w ++ c :: r := by
  obtain ⟨w, hw, hs⟩ := exists_skipWhitespace s
  exact ⟨w, hw, by rw [← expectChar_ok h]; exact hs⟩

theorem skip_expectUInt_ok {what : String} (h : expectUInt what (skipWhitespace s) = .ok (n, r)) :
    ∃ w ∈ ws, ∃ d, (∀ c ∈ d, isDigit c = true) ∧ s = w ++ (d ++ r) ∧ n = decimal d % 2 ^ 32 := by
  obtain ⟨w, hw, hs⟩ := exists_skipWhitespace s
  refine ⟨w, hw, (skipWhitespace s).takeWhile isDigit, fun c hc => List.mem_takeWhile_imp hc, ?_⟩
  rw [expectUInt, matchUInt_eq] at h
  by_cases hcount : ((skipWhitespace s).takeWhile isDigit).length % 2 ^ 32 = 0
  · rw [if_pos hcount] at h
    cases h
  · rw [if_neg hcount] at h
    obtain ⟨hn, rfl⟩ := Prod.mk.inj (Except.ok.inj h)
    rw [List.takeWhile_append_dropWhile]
    exact ⟨hs, hn.symm⟩

theorem matchText_true {t : String} (h : matchText t s = .ok (true, r)) : s = t.toList ++ r := by
  rcases matchText_all_cases t s with ⟨_, hmatch⟩ | ⟨_, ⟨r', hs, hmatch⟩ | ⟨_, hmatch⟩⟩
  · cases hmatch.symm.trans h
  · cases hmatch.symm.trans h
    exact hs
  · cases hmatch.symm.trans h

theorem readFirIndex_ok (h : readFirIndex s = .ok (i, r)) :
    ∃ w₁ ∈ ws, ∃ w₂ ∈ ws, ∃ w₃ ∈ ws, ∃ w₄ ∈ ws, ∃ d, (∀ c ∈ d, isDigit c = true) ∧
      s = w₁ ++ '[' :: (w₂ ++ (d ++ (w₃ ++ ']' :: (w₄ ++ '.' :: r)))) ∧ i = decimal d % 2 ^ 32 := by
  rw [readFirIndex] at h
  obtain ⟨a, ha, h⟩ := Outcome.bind_eq_ok.mp h
  obtain ⟨⟨n, b⟩, hb, h⟩ := Outcome.bind_eq_ok.mp h
  obtain ⟨c, hc, h⟩ := Outcome.bind_eq_ok.mp h
  obtain ⟨e, he, h⟩ := Outcome.bind_eq_ok.mp h
  obtain ⟨rfl, rfl⟩ := Prod.mk.inj (Except.ok.inj h)
  obtain ⟨w₁, hw₁, rfl⟩ := skip_expectChar_ok ha
  obtain ⟨w₂, hw₂, d, hd, rfl, hn⟩ := skip_expectUInt_ok hb
  obtain ⟨w₃, hw₃, rfl⟩ := skip_expectChar_ok hc
  obtain ⟨w₄, hw₄, rfl⟩ := skip_expectChar_ok he
  exact ⟨w₁, hw₁, w₂, hw₂, w₃, hw₃, w₄, hw₄, d, hd, rfl, hn⟩

theorem readSampleRate_ok {firSpec firSpec' : FirSpec}
    (h : readSampleRate firSpec s = .ok (firSpec', r)) :
    ∃ w₁ ∈ ws, ∃ w₂ ∈ ws, ∃ w₃ ∈ ws, ∃ d, (∀ c ∈ d, isDigit c = true) ∧
      s = w₁ ++ '=' :: (w₂ ++ (d ++ (w₃ ++ ';' :: r))) ∧
        firSpec' = (Setting.sampleRate (decimal d % 2 ^ 32)).apply firSpec := by
  rw [readSampleRate] at h
  obtain ⟨a, ha, h⟩ := Outcome.bind_eq_ok.mp h
  obtain ⟨⟨n, b⟩, hb, h⟩ := Outcome.bind_eq_ok.mp h
  obtain ⟨c, hc, h⟩ := Outcome.bind_eq_ok.mp h
  obtain ⟨rfl, rfl⟩ := Prod.mk.inj (Except.ok.inj h)
  obtain ⟨w₁, hw₁, rfl⟩ := skip_expectChar_ok ha
  obtain ⟨w₂, hw₂, d, hd, rfl, hn⟩ := skip_expectUInt_ok hb
  obtain ⟨w₃, hw₃, rfl⟩ := skip_expectChar_ok hc
  exact ⟨w₁, hw₁, w₂, hw₂, w₃, hw₃, d, hd, rfl, by rw [← hn]; rfl⟩

end Readers

section Lines

variable {firSpecs firSpecs' : List FirSpec} {field : Field}

theorem exists_command (h : lineField l = some (i, field)) : ∃ s r, ∃ w ∈ ws,
    l = w ++ ("FIR".toList ++ s) ∧ matchText "FIR" (skipWhitespace l) = .ok (true, s) ∧
      readFirIndex s = .ok (i, r) ∧ fieldAt r = field := by
  obtain ⟨w, hw, hl⟩ := exists_skipWhitespace l
  rw [lineField] at h
  split at h
  · next s hfir =>
    split at h
    · next n r hindex =>
      obtain ⟨rfl, hfield⟩ := Prod.mk.inj (Option.some.inj h)
      exact ⟨s, r, w, hw, by rw [← matchText_true hfir]; exact hl, hfir, hindex, hfield⟩
    · cases h
  · cases h

theorem lineField_index (h : lineField l = some (i, field)) : i = writtenIndex l % 2 ^ 32 := by
  obtain ⟨s, r, w, hw, rfl, -, hindex, -⟩ := exists_command h
  obtain ⟨w₁, hw₁, w₂, hw₂, w₃, hw₃, w₄, -, d, hd, rfl, rfl⟩ := readFirIndex_ok hindex
  have hopen : '[' ∉ w ++ ("FIR".toList ++ w₁) := by
    simp only [List.mem_append, not_or]
    exact ⟨notMem_ws hw (by decide), by decide, notMem_ws hw₁ (by decide)⟩
  have hbetween := between_eq (v := w₄ ++ '.' :: r) hopen hw₂ hd hw₃
    (b := ']') (by decide) (by decide)
  rw [List.append_assoc, List.append_assoc] at hbetween
  rw [writtenIndex, hbetween]

theorem fieldAt_sampleRate (h : fieldAt s = .sampleRate) :
    ∃ r, matchText "sampleRate" s = .ok (true, r) := by
  rw [fieldAt] at h
  split at h
  · next r hmatch => exact ⟨r, hmatch⟩
  · cases h

theorem writtenRate_eq {v₁ v₂ v₃ v₄ e w₁ w₂ w₃ : List Char} (hw : w ∈ ws) (hv₁ : v₁ ∈ ws)
    (hv₂ : v₂ ∈ ws) (he : ∀ c ∈ e, isDigit c = true) (hv₃ : v₃ ∈ ws) (hv₄ : v₄ ∈ ws)
    (hw₁ : w₁ ∈ ws) (hw₂ : w₂ ∈ ws) (hd : ∀ c ∈ d, isDigit c = true) (hw₃ : w₃ ∈ ws) :
    writtenRate (w ++ ("FIR".toList ++ (v₁ ++ '[' :: (v₂ ++ (e ++ (v₃ ++ ']' :: (v₄ ++ '.' ::
      ("sampleRate".toList ++ (w₁ ++ '=' :: (w₂ ++ (d ++ (w₃ ++ ';' :: r)))))))))))) =
        decimal d := by
  have hequals : '=' ∉ w ++ ("FIR".toList ++ (v₁ ++ '[' :: (v₂ ++ (e ++ (v₃ ++ ']' ::
      (v₄ ++ '.' :: ("sampleRate".toList ++ w₁))))))) := by
    have hblank : ∀ {t}, t ∈ ws → '=' ∉ t := fun ht => notMem_ws ht (by decide)
    have hdigits : '=' ∉ e := notMem_digits he (by decide)
    have hfir : '=' ∉ "FIR".toList := by decide
    have hrate : '=' ∉ "sampleRate".toList := by decide
    simp only [List.mem_append, List.mem_cons, not_or]
    exact ⟨hblank hw, hfir, hblank hv₁, by decide, hblank hv₂, hdigits, hblank hv₃, by decide,
      hblank hv₄, by decide, hrate, hblank hw₁⟩
  have hbetween := between_eq (v := r) hequals hw₂ hd hw₃ (b := ';') (by decide) (by decide)
  rw [writtenRate]
  refine congrArg decimal (Eq.trans (congrArg (between '=' ';') ?_) hbetween)
  simp only [List.append_assoc, List.cons_append]

theorem readLine_rate (hread : readLine strtod firSpecs l = .ok firSpecs')
    (hfield : lineField l = some (i, .sampleRate)) :
    firSpecs' = assign i (.sampleRate (writtenRate l % 2 ^ 32)) firSpecs := by
  obtain ⟨s, r, w, hw, hl, hfir, hindex, hrate⟩ := exists_command hfield
  obtain ⟨t, ht⟩ := fieldAt_sampleRate hrate
  have hskip := matchText_true hfir
  rw [readLine] at hread
  split at hread
  · next hblank =>
    rw [hskip] at hblank
    cases hblank
  · rw [hfir, Outcome.ok_bind, if_pos rfl, readCommand, hindex, Outcome.ok_bind] at hread
    obtain ⟨⟨firSpec, rest⟩, hset, hread⟩ := Outcome.bind_eq_ok.mp hread
    rw [readField, ht, Outcome.ok_bind, if_pos rfl] at hset
    obtain ⟨u, -, hread⟩ := Outcome.bind_eq_ok.mp hread
    obtain rfl := Except.ok.inj hread
    obtain ⟨w₁, hw₁, w₂, hw₂, w₃, hw₃, d, hd, rfl, rfl⟩ := readSampleRate_ok hset
    obtain ⟨v₁, hv₁, v₂, hv₂, v₃, hv₃, v₄, hv₄, e, he, rfl, -⟩ := readFirIndex_ok hindex
    rw [hl, matchText_true ht, writtenRate_eq hw hv₁ hv₂ he hv₃ hv₄ hw₁ hw₂ hd hw₃]
    rfl

theorem Setting.apply_inj {a b : Setting} (h : ∀ firSpec, a.apply firSpec = b.apply firSpec) :
    a = b := by
  cases a with
  | sampleRate v =>
    cases b with
    | sampleRate v' => exact congrArg Setting.sampleRate (congrArg FirSpec.sampleFreq (h {}))
    | coeff c =>
      have hfreq : v = v + 1 := congrArg FirSpec.sampleFreq (h ⟨v + 1, []⟩)
      omega
  | coeff c =>
    cases b with
    | sampleRate v =>
      have hfreq : v + 1 = v := congrArg FirSpec.sampleFreq (h ⟨v + 1, []⟩)
      omega
    | coeff c' => exact congrArg Setting.coeff (congrArg FirSpec.coeff (h {}))

theorem assign_inj {j : Nat} {a b : Setting}
    (h : ∀ firSpecs, assign i a firSpecs = assign j b firSpecs) : i = j ∧ a = b := by
  have hlength := congrArg List.length (h [])
  simp only [assign, Growing.length_update, List.length_nil] at hlength
  obtain rfl : i = j := by omega
  refine ⟨rfl, Setting.apply_inj fun firSpec => ?_⟩
  have hget := congrArg (·.getD i ({} : FirSpec)) (h (List.replicate (i + 1) firSpec))
  have hreplicate : (List.replicate (i + 1) firSpec).getD i ({} : FirSpec) = firSpec := by
    simp [List.getD_eq_getElem?_getD]
  simpa only [assign, Growing.getD_update, if_true, hreplicate] using hget

theorem readLine_assigns (h : lineField l = some (i, field)) (haccepted : Accepted strtod l) :
    ∃ set : Setting, set.field = field ∧
      (∀ firSpecs, readLine strtod firSpecs l =
        .ok (assign (writtenIndex l % 2 ^ 32) set firSpecs)) ∧
      ∀ value, set = .sampleRate value → value = writtenRate l % 2 ^ 32 := by
  rcases readLine_cases strtod l with ⟨fault, hread⟩ | ⟨hnone, -⟩ | ⟨j, set, hset, hread⟩
  · obtain ⟨_, hok⟩ := haccepted []
    rw [hread] at hok
    cases hok
  · rw [hnone] at h
    cases h
  · rw [h] at hset
    obtain ⟨rfl, rfl⟩ := Prod.mk.inj (Option.some.inj hset)
    have hindex := lineField_index h
    refine ⟨set, rfl, fun firSpecs => by rw [hread, ← hindex], ?_⟩
    rintro value rfl
    have hrate : ∀ firSpecs, assign i (.sampleRate value) firSpecs =
        assign i (.sampleRate (writtenRate l % 2 ^ 32)) firSpecs :=
      fun firSpecs => readLine_rate (hread firSpecs) h
    exact Setting.sampleRate.inj (assign_inj hrate).2

theorem eq_mod_iff : n % 2 ^ 32 = n ↔ n < 2 ^ 32 := Nat.mod_eq_iff_lt (by decide)

theorem numbersFit_of_stores (haccepted : Accepted strtod l) (h : StoresAsWritten strtod l) :
    NumbersFit l := by
  constructor
  · intro hsome
    obtain ⟨⟨i, field⟩, hfield⟩ := Option.isSome_iff_exists.mp hsome
    obtain ⟨set, -, hread, -⟩ := readLine_assigns hfield haccepted
    exact eq_mod_iff.mp (h _ set hread).1
  · intro hrate
    obtain ⟨⟨i, field⟩, hfield, rfl⟩ := Option.map_eq_some_iff.mp hrate
    obtain ⟨set, hset, hread, hvalue⟩ := readLine_assigns hfield haccepted
    cases set with
    | sampleRate value =>
      have hwritten := (h _ _ hread).2 value rfl
      rw [hvalue value rfl] at hwritten
      exact eq_mod_iff.mp hwritten
    | coeff values => cases hset

theorem exists_field_of_assigns {set : Setting}
    (hread : ∀ firSpecs, readLine strtod firSpecs l = .ok (assign i set firSpecs)) :
    ∃ j field, lineField l = some (j, field) := by
  rcases readLine_cases strtod l with ⟨fault, hcase⟩ | ⟨-, hcase⟩ | ⟨j, a, hcase, -⟩
  · cases (hcase []).symm.trans (hread [])
  · have hnil := (hcase []).symm.trans (hread [])
    have hlength := congrArg List.length (Except.ok.inj hnil)
    simp [assign] at hlength
  · exact ⟨j, a.field, hcase⟩

theorem stores_of_numbersFit (haccepted : Accepted strtod l) (h : NumbersFit l) :
    StoresAsWritten strtod l := by
  obtain ⟨hindex, hrate⟩ := h
  intro i set hread
  obtain ⟨j, field, hfield⟩ := exists_field_of_assigns hread
  obtain ⟨a, ha, hread', hvalue⟩ := readLine_assigns hfield haccepted
  have hsame : ∀ firSpecs, assign i set firSpecs =
      assign (writtenIndex l % 2 ^ 32) a firSpecs :=
    fun firSpecs => Except.ok.inj ((hread firSpecs).symm.trans (hread' firSpecs))
  obtain ⟨hi, rfl⟩ := assign_inj hsame
  refine ⟨hi.trans (eq_mod_iff.mpr (hindex (by rw [hfield]; rfl))), ?_⟩
  rintro value rfl
  have hfits := hrate (by rw [hfield, Option.map_some, ← ha]; rfl)
  exact (hvalue value rfl).trans (eq_mod_iff.mpr hfits)

theorem storesAsWritten_iff (haccepted : Accepted strtod l) :
    StoresAsWritten strtod l ↔ NumbersFit l :=
  ⟨numbersFit_of_stores haccepted, stores_of_numbersFit haccepted⟩

end Lines

theorem matchesExactly_iff (s : StringMatchStream) : MatchesExactly s ↔
    (s.takeWhile isDigit).length % 2 ^ 32 = 0 ∨ decimal (s.takeWhile isDigit) < 2 ^ 32 := by
  rw [MatchesExactly, matchUInt_eq]
  by_cases hcount : (s.takeWhile isDigit).length % 2 ^ 32 = 0
  · rw [if_pos hcount]
    exact iff_of_true (.inl rfl) (.inl hcount)
  · rw [if_neg hcount]
    constructor
    · rintro (hfalse | hvalue)
      · cases hfalse
      · exact .inr (eq_mod_iff.mp hvalue)
    · rintro (hzero | hlt)
      · exact absurd hzero hcount
      · exact .inr (eq_mod_iff.mpr hlt)

theorem accepted_of_readFromFile {spec spec' : FirEngineSpec} {s : List Char}
    (h : spec.readFromFile strtod (fresh s) = .ok spec') :
    ∀ l ∈ splitLines s, Accepted strtod l := by
  rw [readFromFile_eq] at h
  obtain ⟨firSpecs, hread, -⟩ := Outcome.bind_eq_ok.mp h
  exact readAll_ok_iff.mp ⟨firSpecs, hread⟩

theorem firSpec_of_readFromFile {spec spec' : FirEngineSpec} {s : List Char}
    (h : spec.readFromFile strtod (fresh s) = .ok spec') :
    spec'.firSpec = (splitLines s).foldl (lineEffect strtod) spec.firSpec := by
  have haccepted := accepted_of_readFromFile h
  rw [readFromFile_eq, readAll_eq_foldl haccepted] at h
  rw [← Except.ok.inj h]

theorem integers_read_as_written_iff (strtod : List Char → ℚ) (spec : FirEngineSpec) :
    (∀ s, MatchesExactly s ↔
      (s.takeWhile isDigit).length % 2 ^ 32 = 0 ∨ decimal (s.takeWhile isDigit) < 2 ^ 32) ∧
    ∀ s spec', spec.readFromFile strtod (fresh s) = .ok spec' →
      spec'.firSpec = (splitLines s).foldl (lineEffect strtod) spec.firSpec ∧
        ((∀ l ∈ splitLines s, StoresAsWritten strtod l) ↔ ∀ l ∈ splitLines s, NumbersFit l) := by
  refine ⟨matchesExactly_iff, fun s spec' h => ⟨firSpec_of_readFromFile h, ?_⟩⟩
  have haccepted := accepted_of_readFromFile h
  constructor
  · exact fun hstores l hl => (storesAsWritten_iff (haccepted l hl)).mp (hstores l hl)
  · exact fun hfit l hl => (storesAsWritten_iff (haccepted l hl)).mpr (hfit l hl)

theorem integers_read_as_written_iff_rate :
    ∀ l ∈ splitLines "FIR[ 1 ].sampleRate = 48000;\n".toList, StoresAsWritten (fun _ => 0) l :=
  ((integers_read_as_written_iff (fun _ => 0) { clockFreq := 1 }).2
    "FIR[ 1 ].sampleRate = 48000;\n".toList ⟨1, [{}, { sampleFreq := 48000 }]⟩
      (by decide +kernel)).2.mpr (by decide +kernel)

theorem wide_index_wraps :
    FirEngineSpec.readFromFile (fun _ => 0) { clockFreq := 1 }
        (fresh "FIR[4294967296].sampleRate=1;".toList) =
      .ok { clockFreq := 1, firSpec := [{ sampleFreq := 1 }] } ∧
    ¬ StoresAsWritten (fun _ => 0) "FIR[4294967296].sampleRate=1;".toList ∧
    matchUInt "4294967296]".toList = (true, 0, [']']) ∧
    ¬ MatchesExactly "4294967296]".toList := by
  have hread : FirEngineSpec.readFromFile (fun _ => 0) { clockFreq := 1 }
      (fresh "FIR[4294967296].sampleRate=1;".toList) =
        .ok { clockFreq := 1, firSpec := [{ sampleFreq := 1 }] } := by decide +kernel
  have hline : "FIR[4294967296].sampleRate=1;".toList ∈
      splitLines "FIR[4294967296].sampleRate=1;".toList := by decide +kernel
  refine ⟨hread, fun h => ?_, by decide +kernel, fun h => ?_⟩
  · have hfit := (storesAsWritten_iff (accepted_of_readFromFile hread _ hline)).mp h
    exact absurd hfit (by decide +kernel)
  · exact absurd ((matchesExactly_iff _).mp h) (by decide +kernel)

end IntegerText

end FirEngine
