import EmbeddedProjects.Lib.Outcome
import EmbeddedProjects.FirEngine.SpecGrammar
import EmbeddedProjects.FirEngine.SpecLines

namespace FirEngine

open Scan StringMatchStream SpecGrammar SpecLines

namespace SpecSyntax

variable {α β : Type} {G G' : Prop} {k L : Language Char} {s : List Char}

def Decides (G : Prop) : Except Fault α → Prop
  | .ok _ => G
  | .error fault => (∃ str, fault = .thrown str) ∧ ¬ G

theorem Decides.congr {m : Except Fault α} (hG : G ↔ G') (h : Decides G m) : Decides G' m := by
  cases m with
  | ok a => exact hG.mp h
  | error fault => exact ⟨h.1, fun hG' => h.2 (hG.mpr hG')⟩

theorem Decides.isOk_iff {m : Except Fault α} (h : Decides G m) : (∃ a, m = .ok a) ↔ G := by
  cases m with
  | ok a => exact ⟨fun _ => h, fun _ => ⟨a, rfl⟩⟩
  | error fault =>
    constructor
    · rintro ⟨_, h'⟩
      cases h'
    · exact fun hG => absurd hG h.2

theorem Decides.exists_thrown {m : Except Fault α} (h : Decides G m) (hG : ¬ G) :
    ∃ str, m = .error (.thrown str) := by
  cases m with
  | ok a => exact absurd h hG
  | error fault =>
    obtain ⟨str, rfl⟩ := h.1
    exact ⟨str, rfl⟩

theorem decides_throw {str : String} {f : α → Except Fault β} (hG : ¬ G) :
    Decides G ((.error (.thrown str) : Except Fault α) >>= f) := ⟨⟨str, rfl⟩, hG⟩

section Steps

theorem skipWhitespace_suffix (s : List Char) : skipWhitespace s <:+ s :=
  List.dropWhile_suffix isspace

theorem mem_ws_mul (h : Avoids L isspace) : s ∈ ws * L ↔ skipWhitespace s ∈ L := mem_span_mul h

theorem decides_expectChar {c : Char} {f : List Char → Except Fault β}
    (h : ∀ r, r <:+ s → Decides (r ∈ L) (f r)) :
    Decides (s ∈ char c * L) (expectChar c s >>= f) := by
  rcases matchChar_cases c s with ⟨r, rfl, hyes⟩ | ⟨hno, hfail⟩
  · rw [expectChar, hyes]
    refine (h r (List.suffix_cons c r)).congr ?_
    rw [mem_char_mul]
    constructor
    · exact fun hr => ⟨r, hr, rfl⟩
    · rintro ⟨r', hr, heq⟩
      exact (List.cons.inj heq).2 ▸ hr
  · rw [expectChar, hfail]
    refine decides_throw fun hs => ?_
    obtain ⟨r, _, rfl⟩ := mem_char_mul.mp hs
    exact absurd (hno c rfl) (by simp)

theorem decides_skip_expectChar {c : Char} {f : List Char → Except Fault β} (hc : isspace c = false)
    (h : ∀ r, r <:+ s → Decides (r ∈ L) (f r)) :
    Decides (s ∈ ws * (char c * L)) (expectChar c (skipWhitespace s) >>= f) := by
  refine (decides_expectChar fun r hr => ?_).congr (mem_ws_mul (avoids_char_mul hc)).symm
  exact h r (hr.trans (skipWhitespace_suffix s))

theorem space_not_digit :
    ∀ d ∈ [' ', '\t', '\n', '\x0b', '\x0c', '\r'], isDigit d = false :=
  List.all_iff_forall_prop.mp (by decide)

theorem avoids_countedDigits : Avoids (countedDigits * L) isspace := by
  refine avoids_mul_of_ne_nil (avoids_spanWhere fun c hc => ?_) ?_
  · exact digit_notMem_set space_not_digit hc
  · rintro w hw rfl
    exact hw.2 rfl

theorem decides_skip_expectUInt {what : String} {f : Nat × List Char → Except Fault β}
    (hL : Avoids L isDigit) (h : ∀ v r, r <:+ s → Decides (r ∈ L) (f (v, r))) :
    Decides (s ∈ ws * (countedDigits * L)) (expectUInt what (skipWhitespace s) >>= f) := by
  have hmem : s ∈ ws * (countedDigits * L) ↔
      ((skipWhitespace s).takeWhile isDigit).length % 2 ^ 32 ≠ 0 ∧
        (skipWhitespace s).dropWhile isDigit ∈ L :=
    (mem_ws_mul avoids_countedDigits).trans (mem_spanWhere_mul hL)
  rcases matchUInt_cases (skipWhitespace s) with ⟨hcount, v, hmatch⟩ | ⟨hcount, v, hmatch⟩
  · have hsuffix := (List.dropWhile_suffix isDigit).trans (skipWhitespace_suffix s)
    rw [expectUInt, hmatch]
    exact (h v _ hsuffix).congr (by simp only [hmem, hcount, ne_eq, not_false_eq_true, true_and])
  · rw [expectUInt, hmatch]
    exact decides_throw fun hs => (hmem.mp hs).1 hcount

theorem space_char_mul {c : Char} (hc : isDigit c = false) :
    Avoids (ws * (char c * L)) isDigit :=
  avoids_mul (avoids_spanWhere fun d hd => space_not_digit d (List.contains_iff_mem.mp hd))
    (avoids_char_mul hc)

theorem decides_readFirIndex {f : Nat × List Char → Except Fault β}
    (h : ∀ i r, r <:+ s → Decides (r ∈ k) (f (i, r))) :
    Decides (s ∈ firIndex countedDigits k) (readFirIndex s >>= f) := by
  simp only [readFirIndex, bind_assoc]
  refine decides_skip_expectChar (by decide) fun a ha => ?_
  refine decides_skip_expectUInt (space_char_mul (by decide)) fun i b hb => ?_
  refine decides_skip_expectChar (by decide) fun c hc => ?_
  refine decides_skip_expectChar (by decide) fun d hd => ?_
  exact h i d (hd.trans (hc.trans (hb.trans ha)))

theorem decides_readSampleRate {firSpec : FirSpec} {f : FirSpec × List Char → Except Fault β}
    (h : ∀ firSpec r, Decides (r ∈ k) (f (firSpec, r))) :
    Decides (s ∈ ws * (char '=' * (ws * (countedDigits * (ws * (char ';' * k))))))
      (readSampleRate firSpec s >>= f) := by
  simp only [readSampleRate, bind_assoc]
  refine decides_skip_expectChar (by decide) fun a _ => ?_
  refine decides_skip_expectUInt (space_char_mul (by decide)) fun v b _ => ?_
  refine decides_skip_expectChar (by decide) fun c _ => ?_
  exact h _ c

theorem readCoeffs_throws (strtod : List Char → ℚ) (coeff : List ℚ) (s : List Char) :
    ∀ fault, readCoeffs strtod coeff s = .error fault → ∃ str, fault = .thrown str := by
  induction coeff, s using readCoeffs.induct strtod with
  | case1 coeff s r hclose =>
    intro fault h
    rw [readCoeffs, hclose] at h
    cases h
  | case2 coeff s s' hopen c rest hnumber ih =>
    rw [readCoeffs_number hopen hnumber]
    exact ih
  | case3 coeff s s' hopen p hnumber =>
    intro fault h
    rw [readCoeffs_noNumber hopen hnumber] at h
    cases h
    exact ⟨_, rfl⟩

theorem decides_readCoeffs {strtod : List Char → ℚ} {coeff : List ℚ}
    {f : List ℚ × List Char → Except Fault β}
    (h : ∀ coeff r, Decides (r ∈ k) (f (coeff, r))) :
    Decides (s ∈ coeffList k) (readCoeffs strtod coeff s >>= f) := by
  have hiff := readCoeffs_iff (k := k) strtod coeff s
  cases hread : readCoeffs strtod coeff s with
  | ok p =>
    refine (h p.1 p.2).congr (Iff.trans ?_ hiff)
    constructor
    · exact fun hp => ⟨p.1, p.2, hread, hp⟩
    · rintro ⟨coeff', r, hok, hr⟩
      obtain rfl := Except.ok.inj (hread.symm.trans hok)
      exact hr
  | error fault =>
    obtain ⟨str, rfl⟩ := readCoeffs_throws strtod coeff s fault hread
    refine decides_throw fun hs => ?_
    obtain ⟨_, _, hok, _⟩ := hiff.mpr hs
    rw [hread] at hok
    cases hok

theorem decides_readCoeff {strtod : List Char → ℚ} {firSpec : FirSpec}
    {f : FirSpec × List Char → Except Fault β}
    (h : ∀ firSpec r, Decides (r ∈ k) (f (firSpec, r))) :
    Decides (s ∈ ws * (char '=' * (ws * (char '[' * (ws * coeffList (char ';' * k))))))
      (readCoeff strtod firSpec s >>= f) := by
  simp only [readCoeff, bind_assoc]
  refine decides_skip_expectChar (by decide) fun a _ => ?_
  refine decides_skip_expectChar (by decide) fun b _ => ?_
  have hlist := mem_ws_mul (s := b)
    (avoids_coeffList (k := char ';' * k) space_noNumberStart (by decide))
  refine (decides_readCoeffs fun coeff c => ?_).congr hlist.symm
  refine decides_expectChar fun d _ => ?_
  exact h _ d

theorem decides_readEnd (s : List Char) : Decides (s ∈ lineEnd) (readEnd s) := by
  have havoid : Avoids (1 + char '#' * anything) isspace :=
    avoids_add avoids_empty (avoids_char_mul (by decide))
  refine Decides.congr (mem_ws_mul havoid).symm ?_
  rw [readEnd]
  rcases matchChar_cases '#' (skipWhitespace s) with ⟨r, hs, hyes⟩ | ⟨hno, hfail⟩
  · simp only [hyes, Bool.or_true, if_true]
    exact .inr (mem_char_mul.mpr ⟨r, trivial, hs⟩)
  · simp only [hfail, Bool.or_false, List.isEmpty_iff]
    split
    · next hnil => exact .inl hnil
    · next hne =>
      refine ⟨⟨_, rfl⟩, ?_⟩
      rintro (hnil | hcomment)
      · exact hne hnil
      · obtain ⟨r, _, hr⟩ := mem_char_mul.mp hcomment
        exact absurd (hno '#' (by rw [hr]; rfl)) (by decide)

end Steps

section Line

variable {strtod : List Char → ℚ}

theorem isPrefix_of_mem_text_mul {t : List Char} (h : s ∈ text t * L) : t <+: s := by
  obtain ⟨r, _, rfl⟩ := mem_text_mul.mp h
  exact List.prefix_append t r

theorem mem_ws_mul_of_mem (h : s ∈ L) : s ∈ ws * L := ⟨[], mem_ws.mpr (by simp), s, h, rfl⟩

theorem cons_mem_char_mul (c : Char) (h : s ∈ L) : c :: s ∈ char c * L :=
  mem_char_mul.mpr ⟨s, h, rfl⟩

theorem append_mem_text_mul {t r : List Char} : t ++ r ∈ text t * L ↔ r ∈ L := by
  rw [mem_text_mul]
  constructor
  · rintro ⟨r', hr, heq⟩
    exact List.append_cancel_left heq ▸ hr
  · exact fun hr => ⟨r, hr, rfl⟩

theorem decides_readField {firSpec : FirSpec} {f : FirSpec × List Char → Except Fault β}
    (hnul : '\x00' ∉ s) (h : ∀ firSpec r, Decides (r ∈ k) (f (firSpec, r))) :
    Decides (s ∈ sampleRateField countedDigits k + coeffField k)
      (readField strtod firSpec s >>= f) := by
  rw [readField]
  rcases matchText_cases "sampleRate" hnul with ⟨r, rfl, hmatch⟩ | ⟨hno, hmatch⟩
  · rw [hmatch]
    refine (decides_readSampleRate h).congr ?_
    constructor
    · exact fun hr => .inl (append_mem_text_mul.mpr hr)
    · rintro (hs | hs)
      · exact append_mem_text_mul.mp hs
      · obtain ⟨r', _, heq⟩ := mem_text_mul.mp hs
        simp at heq
  · have hrate : s ∉ sampleRateField countedDigits k := fun hs => hno (isPrefix_of_mem_text_mul hs)
    rcases matchText_cases "coeff" hnul with ⟨r, rfl, hmatch'⟩ | ⟨hno', hmatch'⟩
    · rw [hmatch]
      change Decides _ ((matchText _ _ >>= _) >>= _)
      rw [hmatch']
      refine (decides_readCoeff h).congr ?_
      constructor
      · exact fun hr => .inr (append_mem_text_mul.mpr hr)
      · rintro (hs | hs)
        · exact absurd hs hrate
        · exact append_mem_text_mul.mp hs
    · rw [hmatch]
      change Decides _ ((matchText _ _ >>= _) >>= _)
      rw [hmatch']
      refine decides_throw ?_
      rintro (hs | hs)
      · exact hrate hs
      · exact hno' (isPrefix_of_mem_text_mul hs)

theorem decides_readCommand {firSpecs : List FirSpec} (hnul : '\x00' ∉ s) :
    Decides
      (s ∈ firIndex countedDigits (sampleRateField countedDigits lineEnd + coeffField lineEnd))
      (readCommand strtod firSpecs s) := by
  rw [readCommand]
  refine decides_readFirIndex fun i r hr => ?_
  refine decides_readField (fun h => hnul (hr.subset h)) fun firSpec r' => ?_
  have hend := decides_readEnd r'
  change Decides _ (readEnd r' >>= _)
  cases hread : readEnd r' with
  | ok u =>
    rw [hread] at hend
    exact hend
  | error fault =>
    rw [hread] at hend
    exact hend

theorem mem_line {uint : Language Char} {l : List Char} : l ∈ line uint ↔
    skipWhitespace l ∈ 1 + char '#' * anything + text "FIR".toList *
      firIndex uint (sampleRateField uint lineEnd + coeffField lineEnd) :=
  mem_ws_mul (avoids_add (avoids_add avoids_empty (avoids_char_mul (by decide)))
    (avoids_text_mul (by decide)))

theorem decides_readLine (strtod : List Char → ℚ) {l : List Char} (firSpecs : List FirSpec)
    (hnul : '\x00' ∉ l) :
    Decides (l ∈ line countedDigits) (readLine strtod firSpecs l) := by
  refine Decides.congr mem_line.symm ?_
  have hnul' : '\x00' ∉ skipWhitespace l := fun h => hnul ((skipWhitespace_suffix l).subset h)
  rw [readLine]
  generalize skipWhitespace l = s at hnul' ⊢
  split
  · next hblank =>
    rcases Bool.or_eq_true_iff.mp hblank with hnil | hcomment
    · exact .inl (.inl (List.isEmpty_iff.mp hnil))
    · obtain ⟨r, rfl⟩ := List.head?_eq_some_iff.mp (eq_of_beq hcomment)
      exact .inl (.inr (mem_char_mul.mpr ⟨r, trivial, rfl⟩))
  · next hblank =>
    have hother : s ∉ 1 + char '#' * anything := by
      rintro (rfl | hcomment)
      · exact hblank rfl
      · obtain ⟨r, _, rfl⟩ := mem_char_mul.mp hcomment
        exact hblank rfl
    rcases matchText_cases "FIR" hnul' with ⟨r, rfl, hmatch⟩ | ⟨hno, hmatch⟩
    · rw [hmatch]
      have hnulr : '\x00' ∉ r := fun h => hnul' (List.mem_append_right _ h)
      refine (decides_readCommand hnulr).congr ?_
      constructor
      · exact fun hr => .inr (append_mem_text_mul.mpr hr)
      · rintro (hs | hs)
        · exact absurd hs hother
        · exact append_mem_text_mul.mp hs
    · rw [hmatch]
      refine ⟨⟨_, rfl⟩, ?_⟩
      rintro (hs | hs)
      · exact hother hs
      · exact hno (isPrefix_of_mem_text_mul hs)

end Line

section File

variable {strtod : List Char → ℚ} {ls : List (List Char)} {l : List Char} {i n : Nat}

structure ReadsBy (uint : Language Char) (lineNumber : Nat → Nat) (strtod : List Char → ℚ)
    (spec : FirEngineSpec) (s : List Char) : Prop where
  accepts : (∃ spec', spec.readFromFile strtod (fresh s) = .ok spec') ↔
    ∀ l ∈ splitLines s, l ∈ line uint
  rejects : ∀ i l, (splitLines s)[i]? = some l → l ∉ line uint →
    (∀ j < i, ∀ l', (splitLines s)[j]? = some l' → l' ∈ line uint) →
    ∃ str, spec.readFromFile strtod (fresh s) =
      .error (.thrown ("Syntax Error on line " ++ toString (lineNumber i) ++ ": " ++ str))

theorem decides_readAll (strtod : List Char → ℚ) (n : Nat) (firSpecs : List FirSpec)
    (hnul : ∀ l ∈ ls, '\x00' ∉ l) :
    Decides (∀ l ∈ ls, l ∈ line countedDigits) (readAll strtod n firSpecs ls) := by
  induction ls generalizing n firSpecs with
  | nil => exact fun l hl => absurd hl List.not_mem_nil
  | cons l ls ih =>
    simp only [List.mem_cons, forall_eq_or_imp] at hnul ⊢
    have hl := decides_readLine strtod firSpecs hnul.1
    rw [readAll]
    cases hread : readLine strtod firSpecs l with
    | ok firSpecs' =>
      rw [hread] at hl
      exact (ih _ firSpecs' hnul.2).congr (and_iff_right hl).symm
    | error fault =>
      rw [hread] at hl
      obtain ⟨⟨str, rfl⟩, hbad⟩ := hl
      exact ⟨⟨_, rfl⟩, fun hall => hbad hall.1⟩

theorem readAll_thrown (strtod : List Char → ℚ) (n : Nat) (firSpecs : List FirSpec)
    (hnul : ∀ l ∈ ls, '\x00' ∉ l) (hn : n < 2 ^ 32) (hl : ls[i]? = some l)
    (hbad : l ∉ line countedDigits)
    (hfirst : ∀ j < i, ∀ l', ls[j]? = some l' → l' ∈ line countedDigits) :
    ∃ str, readAll strtod n firSpecs ls = .error (.thrown
      ("Syntax Error on line " ++ toString ((i + n) % 2 ^ 32) ++ ": " ++ str)) := by
  induction ls generalizing i n firSpecs with
  | nil => simp at hl
  | cons l' ls ih =>
    simp only [List.mem_cons, forall_eq_or_imp] at hnul
    have hdecides := decides_readLine strtod firSpecs hnul.1
    rw [readAll]
    cases i with
    | zero =>
      obtain rfl : l' = l := by simpa using hl
      obtain ⟨str, hread⟩ := hdecides.exists_thrown hbad
      refine ⟨str, ?_⟩
      rw [hread, Nat.zero_add, Nat.mod_eq_of_lt hn]
      rfl
    | succ i =>
      have hgood : l' ∈ line countedDigits := hfirst 0 i.succ_pos l' rfl
      obtain ⟨firSpecs', hread⟩ := hdecides.isOk_iff.mpr hgood
      have hnext := ih (i := i) ((n + 1) % 2 ^ 32) firSpecs' hnul.2
        (Nat.mod_lt _ (by decide)) (by simpa using hl)
        fun j hj l'' hl'' => hfirst (j + 1) (Nat.succ_lt_succ hj) l'' (by simpa using hl'')
      rw [hread]
      rwa [Nat.add_mod_mod, ← Nat.add_assoc, Nat.add_right_comm] at hnext

theorem readFromFile_grammar (strtod : List Char → ℚ) (spec : FirEngineSpec) {s : List Char}
    (hnul : '\x00' ∉ s) :
    ReadsBy countedDigits (fun i => (i + 1) % 2 ^ 32) strtod spec s := by
  have hlines : ∀ l ∈ splitLines s, '\x00' ∉ l :=
    fun l hl hmem => hnul (mem_of_mem_splitLines hl hmem)
  constructor
  · refine Iff.trans ?_ (decides_readAll strtod 1 spec.firSpec hlines).isOk_iff
    rw [readFromFile_eq]
    constructor
    · rintro ⟨spec', h⟩
      obtain ⟨firSpecs, hread, _⟩ := Outcome.bind_eq_ok.mp h
      exact ⟨firSpecs, hread⟩
    · rintro ⟨firSpecs, hread⟩
      exact ⟨_, Outcome.bind_eq_ok.mpr ⟨firSpecs, hread, rfl⟩⟩
  · intro i l hl hbad hfirst
    obtain ⟨str, hread⟩ := readAll_thrown strtod 1 spec.firSpec hlines
      (by decide) hl hbad hfirst
    refine ⟨str, ?_⟩
    rw [readFromFile_eq, hread]
    rfl

theorem readFromFile_grammar_two_lines :
    '\x00' ∉ "# taps\r\nFIR[1].coeff = [.5, -1.e2];".toList ∧
      ReadsBy countedDigits (fun i => (i + 1) % 2 ^ 32) (fun _ => 1 / 2) { clockFreq := 1 }
        "# taps\r\nFIR[1].coeff = [.5, -1.e2];".toList :=
  ⟨by decide, readFromFile_grammar _ _ (by decide)⟩

theorem nil_mem_line (uint : Language Char) : [] ∈ line uint :=
  ⟨[], mem_ws.mpr (by simp), [], .inl (.inl rfl), rfl⟩

theorem x_notMem_line (uint : Language Char) : ['x'] ∉ line uint := by
  intro h
  rcases mem_line.mp h with (hnil | hcomment) | hfir
  · cases hnil
  · obtain ⟨r, _, heq⟩ := mem_char_mul.mp hcomment
    exact absurd (List.cons.inj heq).1 (by decide)
  · exact absurd (isPrefix_of_mem_text_mul hfir) (by decide)

theorem splitLines_replicate (n : Nat) (s : List Char) :
    splitLines (List.replicate n '\n' ++ s) = List.replicate n [] ++ splitLines s := by
  induction n with
  | zero => rfl
  | succ n ih =>
    rw [List.replicate_succ, List.cons_append, splitLines, if_pos rfl, ih, List.replicate_succ,
      List.cons_append]

theorem ReadsBy.rejects_blank {uint : Language Char} {lineNumber : Nat → Nat}
    {spec : FirEngineSpec}
    (h : ReadsBy uint lineNumber strtod spec (List.replicate n '\n' ++ ['x'])) :
    ∃ str, spec.readFromFile strtod (fresh (List.replicate n '\n' ++ ['x'])) =
      .error (.thrown ("Syntax Error on line " ++ toString (lineNumber n) ++ ": " ++ str)) := by
  have hlines : splitLines (List.replicate n '\n' ++ ['x']) = List.replicate n [] ++ [['x']] :=
    splitLines_replicate n ['x']
  refine h.rejects n ['x'] ?_ (x_notMem_line uint) fun j hj l hl => ?_
  · rw [hlines, List.getElem?_append_right (by rw [List.length_replicate]), List.length_replicate,
      Nat.sub_self]
    rfl
  · rw [hlines, List.getElem?_append_left (by rwa [List.length_replicate])] at hl
    obtain rfl := List.eq_of_mem_replicate (List.mem_of_getElem? hl)
    exact nil_mem_line uint

def rateLine (uint : List Char) : List Char :=
  "FIR".toList ++ '[' :: (uint ++ "].sampleRate=1;".toList)

theorem mem_rateLine {c : Char} (hc : c ∈ rateLine (List.replicate n '0')) :
    c ∈ rateLine ['0'] := by
  rcases List.mem_append.mp hc with hc | hc
  · exact List.mem_append_left _ hc
  · refine List.mem_append_right _ ?_
    rcases List.mem_cons.mp hc with rfl | hc
    · exact List.mem_cons_self
    · refine List.mem_cons_of_mem '[' ?_
      rcases List.mem_append.mp hc with hc | hc
      · exact List.eq_of_mem_replicate hc ▸ List.mem_cons_self
      · exact List.mem_cons_of_mem '0' hc

theorem splitLines_rateLine (n : Nat) :
    splitLines (rateLine (List.replicate n '0')) = [rateLine (List.replicate n '0')] := by
  have hbreak : ∀ c ∈ rateLine ['0'], c ≠ '\n' ∧ c ≠ '\r' :=
    List.all_iff_forall_prop.mp (by decide)
  exact splitLines_noBreak (fun c hc => hbreak c (mem_rateLine hc)) (List.cons_ne_nil _ _)

theorem rateLine_mem {uint : Language Char} {w : List Char} (hw : w ∈ uint)
    (hone : ['1'] ∈ uint) : rateLine w ∈ line uint := by
  have hend : [] ∈ lineEnd := mem_ws_mul_of_mem (.inl rfl)
  have hrate : "=1;".toList ∈ ws * (char '=' * (ws * (uint * (ws * (char ';' * lineEnd))))) :=
    mem_ws_mul_of_mem (cons_mem_char_mul '=' (mem_ws_mul_of_mem
      ⟨['1'], hone, [';'], mem_ws_mul_of_mem (cons_mem_char_mul ';' hend), rfl⟩))
  have hfield : "sampleRate=1;".toList ∈ sampleRateField uint lineEnd + coeffField lineEnd :=
    .inl (append_mem_text_mul.mpr hrate)
  have hindex : '[' :: (w ++ "].sampleRate=1;".toList) ∈
      firIndex uint (sampleRateField uint lineEnd + coeffField lineEnd) :=
    mem_ws_mul_of_mem (cons_mem_char_mul '[' (mem_ws_mul_of_mem ⟨w, hw, _,
      mem_ws_mul_of_mem (cons_mem_char_mul ']' (mem_ws_mul_of_mem
        (cons_mem_char_mul '.' hfield))), rfl⟩))
  exact mem_ws_mul_of_mem (.inr (append_mem_text_mul.mpr hindex))

theorem count_of_rateLine_mem (h : rateLine (List.replicate n '0') ∈ line countedDigits) :
    n % 2 ^ 32 ≠ 0 := by
  have hfir : rateLine (List.replicate n '0') ∈ text "FIR".toList * firIndex countedDigits
      (sampleRateField countedDigits lineEnd + coeffField lineEnd) := by
    rcases mem_line.mp h with (hnil | hcomment) | hfir
    · cases hnil
    · obtain ⟨r, _, heq⟩ := mem_char_mul.mp hcomment
      exact absurd (List.cons.inj heq).1 (by decide)
    · exact hfir
  have hindex := (mem_ws_mul (avoids_char_mul (by decide))).mp (append_mem_text_mul.mp hfir)
  obtain ⟨r, hr, heq⟩ := mem_char_mul.mp hindex
  obtain rfl : List.replicate n '0' ++ "].sampleRate=1;".toList = r := (List.cons.inj heq).2
  have hzero : isDigit '0' = true := by decide
  have hskip : skipWhitespace (List.replicate n '0' ++ "].sampleRate=1;".toList) =
      List.replicate n '0' ++ "].sampleRate=1;".toList := by
    cases n with
    | zero => rfl
    | succ n => rfl
  rw [mem_ws_mul avoids_countedDigits] at hr
  have hcount := ((mem_spanWhere_mul (space_char_mul (by decide))).mp hr).1
  rw [hskip] at hcount
  have hclose : ∀ c ∈ "].sampleRate=1;".toList.head?, isDigit c = false := by
    rintro c ⟨⟩
    decide
  rwa [(dropWhile_append_of_avoids (p := isDigit) (fun c hc => List.eq_of_mem_replicate hc ▸ hzero)
    hclose).1, List.length_replicate] at hcount

theorem line_number_wraps : ¬ ReadsBy digits (· + 1) (fun _ => 0) { clockFreq := 1 }
    (List.replicate (2 ^ 32) '\n' ++ ['x']) := by
  intro h
  have hnul : '\x00' ∉ List.replicate (2 ^ 32) '\n' ++ ['x'] := by
    intro hmem
    rcases List.mem_append.mp hmem with hmem | hmem
    · exact absurd (List.eq_of_mem_replicate hmem) (by decide)
    · exact absurd (List.mem_singleton.mp hmem) (by decide)
  obtain ⟨str, hstr⟩ := h.rejects_blank
  obtain ⟨str', hstr'⟩ :=
    (readFromFile_grammar (fun _ => 0) { clockFreq := 1 } hnul).rejects_blank
  have hmsg := Fault.thrown.inj (Except.error.inj (hstr.symm.trans hstr'))
  have hchars := congrArg String.toList hmsg
  have hnum : toString (2 ^ 32 + 1) = "4294967297" := by decide
  have hone : toString ((2 ^ 32 + 1) % 2 ^ 32) = "1" := by decide
  rw [hnum, hone] at hchars
  simp at hchars

theorem ReadsBy.count_digits {lineNumber : Nat → Nat} {spec : FirEngineSpec} (hn : n ≠ 0)
    (h : ReadsBy digits lineNumber strtod spec (rateLine (List.replicate n '0'))) :
    n % 2 ^ 32 ≠ 0 := by
  have hnul : '\x00' ∉ rateLine (List.replicate n '0') := by
    intro hmem
    exact absurd (mem_rateLine hmem) (by decide)
  have hzero : ∀ c ∈ List.replicate n '0', isDigit c = true := by
    intro c hc
    rw [List.eq_of_mem_replicate hc]
    decide
  have hindex : List.replicate n '0' ∈ digits :=
    ⟨hzero, fun hnil => hn (by simpa using hnil)⟩
  have hline : rateLine (List.replicate n '0') ∈ line digits :=
    rateLine_mem hindex ⟨List.all_iff_forall_prop.mp (by decide), by decide⟩
  have hread := h.accepts.mpr (by simpa [splitLines_rateLine] using hline)
  have hcounted := (readFromFile_grammar strtod spec hnul).accepts.mp hread
  rw [splitLines_rateLine] at hcounted
  exact count_of_rateLine_mem (hcounted _ List.mem_cons_self)

theorem counters_wrap :
    ¬ ReadsBy digits (· + 1) (fun _ => 0) { clockFreq := 1 }
        (List.replicate (2 ^ 32) '\n' ++ ['x']) ∧
      ¬ ReadsBy digits (· + 1) (fun _ => 0) { clockFreq := 1 }
        (rateLine (List.replicate (2 ^ 32) '0')) :=
  ⟨line_number_wraps, fun h => h.count_digits (by decide) (by decide)⟩

end File

end SpecSyntax

end FirEngine
