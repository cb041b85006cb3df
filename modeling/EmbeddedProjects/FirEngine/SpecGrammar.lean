import Mathlib.Data.Bool.AllAny
import EmbeddedProjects.FirEngine.SpecReader

namespace FirEngine

open Scan StringMatchStream

namespace SpecGrammar

def ws : Language Char := span isspace

def char (c : Char) : Language Char := one (· == c)

def digits : Language Char := spanWhere isDigit (· ≠ [])

def countedDigits : Language Char := spanWhere isDigit (·.length % 2 ^ 32 ≠ 0)

def exponentMark : Language Char := one ['E', 'e'].contains

def exponent : Language Char := exponentMark * ((1 + one ['+', '-'].contains) * digits)

def unsignedNumber : Language Char :=
  span isDigit * (char '.' * (span isDigit * (1 + exponent)))

def number : Language Char := (1 + char '+') * ((1 + char '-') * unsignedNumber)

def LongestNumber (x r : List Char) : Prop :=
  x ∈ number ∧ ∀ y ∈ number, y <+: x ++ r → y.length ≤ x.length

def IncompleteExponent (r : List Char) : Prop :=
  (∃ c ∈ r.head?, ['E', 'e'].contains c = true) ∧ ∀ y ∈ exponent, ¬ y <+: r

inductive CoeffList (k : Language Char) : List Char → Prop
  | close {r : List Char} : r ∈ k → CoeffList k (']' :: r)
  | number {x w c v r : List Char} : LongestNumber x (w ++ (c ++ (v ++ r))) →
      ¬ IncompleteExponent (w ++ (c ++ (v ++ r))) → w ∈ ws → c ∈ 1 + char ',' → v ∈ ws →
      CoeffList k r → CoeffList k (x ++ (w ++ (c ++ (v ++ r))))

def coeffList (k : Language Char) : Language Char := {s | CoeffList k s}

def anything : Language Char := {_w | True}

def lineEnd : Language Char := ws * (1 + char '#' * anything)

def sampleRateField (uint k : Language Char) : Language Char :=
  text "sampleRate".toList * (ws * (char '=' * (ws * (uint * (ws * (char ';' * k))))))

def coeffField (k : Language Char) : Language Char :=
  text "coeff".toList * (ws * (char '=' * (ws * (char '[' * (ws * coeffList (char ';' * k))))))

def firIndex (uint k : Language Char) : Language Char :=
  ws * (char '[' * (ws * (uint * (ws * (char ']' * (ws * (char '.' * k)))))))

def line (uint : Language Char) : Language Char :=
  ws * (1 + char '#' * anything + text "FIR".toList *
    firIndex uint (sampleRateField uint lineEnd + coeffField lineEnd))

section Avoid

variable {k : Language Char} {p : Char → Bool} {c : Char}

theorem mem_char_mul {s : List Char} : s ∈ char c * k ↔ ∃ r ∈ k, s = c :: r := by
  rw [char, mem_one_mul]
  constructor
  · rintro ⟨d, r, hd, hr, rfl⟩
    exact ⟨r, hr, by rw [eq_of_beq hd]⟩
  · rintro ⟨r, hr, rfl⟩
    exact ⟨c, r, by simp, hr, rfl⟩

theorem avoids_char (h : p c = false) : Avoids (char c) p :=
  avoids_one fun d hd => by rw [eq_of_beq hd, h]

theorem avoids_char_mul (h : p c = false) : Avoids (char c * k) p :=
  avoids_one_mul fun d hd => by rw [eq_of_beq hd, h]

theorem digit_ne {d : Char} (hc : isDigit c = true) (hd : isDigit d = false) :
    (c == d) = false := by
  refine beq_eq_false_iff_ne.mpr ?_
  rintro rfl
  simp [hd] at hc

theorem digit_notMem_set {set : List Char} (hset : ∀ d ∈ set, isDigit d = false)
    (hc : isDigit c = true) : set.contains c = false := by
  refine Bool.eq_false_iff.mpr fun h => ?_
  rw [hset c (List.contains_iff_mem.mp h)] at hc
  exact Bool.false_ne_true hc

structure NoNumberStart (p : Char → Bool) : Prop where
  plus : p '+' = false
  minus : p '-' = false
  point : p '.' = false
  digit : ∀ c, isDigit c = true → p c = false

theorem avoids_unsignedNumber (hpoint : p '.' = false)
    (hdigit : ∀ c, isDigit c = true → p c = false) : Avoids unsignedNumber p :=
  avoids_mul (avoids_spanWhere hdigit) (avoids_char_mul hpoint)

theorem avoids_number (h : NoNumberStart p) : Avoids number p :=
  avoids_mul (avoids_add avoids_empty (avoids_char h.plus))
    (avoids_mul (avoids_add avoids_empty (avoids_char h.minus))
      (avoids_unsignedNumber h.point h.digit))

theorem number_ne_nil {x : List Char} (hx : x ∈ number) : x ≠ [] := by
  rintro rfl
  simp only [number, unsignedNumber, nil_mem_mul] at hx
  exact nil_notMem_one hx.2.2.2.1

theorem avoids_coeffList (h : NoNumberStart p) (hclose : p ']' = false) :
    Avoids (coeffList k) p := by
  intro s hs d hd
  cases hs with
  | close hr =>
    obtain rfl : ']' = d := by simpa using hd
    exact hclose
  | @number x w c v r hx =>
    cases x with
    | nil => exact absurd rfl (number_ne_nil hx.1)
    | cons e x => exact avoids_number h _ hx.1 d hd

end Avoid

section Number

variable {L : Language Char} {q : Char → Bool} {o : Option (List Char)} {s r x : List Char}

theorem munch_optional (hL : Avoids L q) (h : Munch L (matchIf q s).2 o) :
    Munch ((1 + one q) * L) s o := by
  rcases matchIf_cases q s with ⟨c, r, rfl, hc, hmatch⟩ | ⟨hno, hmatch⟩
  · rw [hmatch] at h
    exact munch_opt_mul_cons hc hL h
  · rw [hmatch] at h
    exact munch_opt_mul hno h

theorem munch_matchExponent (s : List Char) :
    Munch ((1 + one ['+', '-'].contains) * digits) s
      (if (matchExponent s).1 then some (matchExponent s).2 else none) := by
  have hsigns : ∀ d ∈ ['+', '-'], isDigit d = false := List.all_iff_forall_prop.mp (by decide)
  refine munch_optional (avoids_spanWhere fun c hc => digit_notMem_set hsigns hc) ?_
  rcases matchIf_cases isDigit (matchIf ['+', '-'].contains s).2 with
    ⟨c, r, hs, hc, hmatch⟩ | ⟨hno, hmatch⟩
  · have hexp : matchExponent s = (true, r.dropWhile isDigit) := by
      have hdrop : matchDigits (matchCharInSet ['+', '-'] s).2 = r.dropWhile isDigit := by
        rw [matchDigits, matchCharInSet, hs, List.dropWhile_cons_of_pos hc]
      rw [matchExponent, hdrop]
      exact congrArg (·, _) (congrArg Prod.fst hmatch)
    rw [hexp, hs]
    exact munch_span1 hc r
  · have hexp : (matchExponent s).1 = false := congrArg Prod.fst hmatch
    rw [hexp]
    exact munch_span1_none hno

theorem munch_exponent (s : List Char) : Munch exponent s
    (if (matchCharInSet ['E', 'e'] s).1 && (matchExponent (matchCharInSet ['E', 'e'] s).2).1
      then some (matchExponent (matchCharInSet ['E', 'e'] s).2).2 else none) := by
  rcases matchIf_cases ['E', 'e'].contains s with ⟨c, r, rfl, hc, hmatch⟩ | ⟨hno, hmatch⟩
  · have hmark : matchCharInSet ['E', 'e'] (c :: r) = (true, r) := hmatch
    rw [hmark, Bool.true_and]
    exact munch_one_mul hc (munch_matchExponent r)
  · have hmark : matchCharInSet ['E', 'e'] s = (false, s) := hmatch
    rw [hmark, Bool.false_and]
    exact munch_one_mul_none hno

theorem munch_signs (h : Munch unsignedNumber (skipSigns s) o) : Munch number s o := by
  refine munch_optional (avoids_mul (avoids_add avoids_empty (avoids_char (by decide)))
    (avoids_unsignedNumber (by decide) fun c hc => digit_ne hc (by decide))) ?_
  exact munch_optional (avoids_unsignedNumber (by decide) fun c hc => digit_ne hc (by decide)) h

theorem munch_point (hs : matchDigits (skipSigns s) = '.' :: r)
    (h : Munch exponent (matchDigits r) o) :
    Munch number s (some (o.getD (matchDigits r))) := by
  refine munch_signs (munch_span_mul (avoids_char_mul (by decide)) ?_)
  change Munch _ (matchDigits (skipSigns s)) _
  rw [hs]
  refine munch_one_mul (by decide) (munch_span_mul ?_ (munch_opt h))
  have hmarks : ∀ c ∈ ['E', 'e'], isDigit c = false :=
    List.all_iff_forall_prop.mp (by decide)
  exact avoids_add avoids_empty
    (avoids_one_mul fun c hc => hmarks c (List.contains_iff_mem.mp hc))

theorem scan_cases (s : List Char) :
    (∃ r, scanFloatingPointNumber s = (true, r) ∧ Munch number s (some r)) ∨
      ((scanFloatingPointNumber s).1 = false ∧
        (Munch number s none ∨ ∃ r, Munch number s (some r) ∧ IncompleteExponent r)) := by
  have hscan := scanFloatingPointNumber_eq s
  rcases matchChar_cases '.' (matchDigits (skipSigns s)) with ⟨r, hs, hpoint⟩ | ⟨hno, hpoint⟩
  · have hexp := munch_exponent (matchDigits r)
    have hnumber := munch_point hs hexp
    simp only [hpoint, if_true] at hscan
    rcases matchIf_cases ['E', 'e'].contains (matchDigits r) with
      ⟨e, r', hr', he, hmark⟩ | ⟨hno, hmark⟩
    · have hmark' : matchCharInSet ['E', 'e'] (matchDigits r) = (true, r') := hmark
      simp only [hmark', if_true, Bool.true_and] at hscan hexp hnumber
      cases hok : (matchExponent r').1 with
      | true =>
        simp only [hok, if_true, Option.getD_some] at hnumber
        exact .inl ⟨(matchExponent r').2, by rw [hscan, ← hok], hnumber⟩
      | false =>
        simp only [hok, Bool.false_eq_true, if_false, Option.getD_none] at hexp hnumber
        refine .inr ⟨by rw [hscan, hok], .inr ⟨_, hnumber, ⟨e, by simp [hr'], he⟩, hexp⟩⟩
    · have hmark' : matchCharInSet ['E', 'e'] (matchDigits r) = (false, matchDigits r) := hmark
      simp only [hmark', Bool.false_and, Bool.false_eq_true, if_false, Option.getD_none]
        at hscan hnumber
      exact .inl ⟨matchDigits r, hscan, hnumber⟩
  · simp only [hpoint, Bool.false_eq_true, if_false] at hscan
    exact .inr ⟨by rw [hscan], .inl (munch_signs (munch_span_mul (avoids_char_mul (by decide))
      (munch_one_mul_none hno)))⟩

end Number

section Coeffs

variable {k : Language Char} {r s w c v : List Char}

theorem mem_ws : w ∈ ws ↔ ∀ d ∈ w, isspace d = true := by simp [ws, span, mem_spanWhere]

theorem skipWhitespace_append (hw : w ∈ ws) (hr : ∀ d ∈ r.head?, isspace d = false) :
    skipWhitespace (w ++ r) = r := (dropWhile_append_of_avoids (mem_ws.mp hw) hr).2

theorem exists_skipWhitespace (s : List Char) : ∃ w ∈ ws, s = w ++ skipWhitespace s :=
  ⟨s.takeWhile isspace, mem_ws.mpr fun _ hd => List.mem_takeWhile_imp hd,
    List.takeWhile_append_dropWhile.symm⟩

theorem skipComma_append (hw : w ∈ ws) (hc : c ∈ 1 + char ',') (hv : v ∈ ws)
    (hspace : ∀ d ∈ r.head?, isspace d = false) (hcomma : ∀ d ∈ r.head?, (d == ',') = false) :
    skipComma (w ++ (c ++ (v ++ r))) = r := by
  rcases hc with rfl | ⟨d, hd, rfl⟩
  · have hwv : w ++ v ∈ ws := mem_ws.mpr fun d hd => by
      rcases List.mem_append.mp hd with hd | hd
      · exact mem_ws.mp hw d hd
      · exact mem_ws.mp hv d hd
    have hskip : skipWhitespace (w ++ ([] ++ (v ++ r))) = r := by
      rw [List.nil_append, ← List.append_assoc, skipWhitespace_append hwv hspace]
    have hno : matchChar ',' r = (false, r) := matchIf_false hcomma
    rw [skipComma, hskip, hno]
    exact skipWhitespace_append (w := []) (mem_ws.mpr (by simp)) hspace
  · obtain rfl : d = ',' := eq_of_beq hd
    have hskip : skipWhitespace (w ++ ([','] ++ (v ++ r))) = ',' :: (v ++ r) :=
      skipWhitespace_append hw (by
        intro d hd
        obtain rfl : ',' = d := by simpa using hd
        decide)
    have hyes : matchChar ',' (',' :: (v ++ r)) = (true, v ++ r) := matchIf_cons (by decide)
    rw [skipComma, hskip, hyes]
    exact skipWhitespace_append hv hspace

theorem exists_skipComma (s : List Char) : ∃ w ∈ ws, ∃ c ∈ 1 + char ',', ∃ v ∈ ws,
    s = w ++ (c ++ (v ++ skipComma s)) := by
  obtain ⟨w, hw, hs⟩ := exists_skipWhitespace s
  rcases matchChar_cases ',' (skipWhitespace s) with ⟨r, hr, hyes⟩ | ⟨_, hno⟩
  · obtain ⟨v, hv, hrest⟩ := exists_skipWhitespace r
    refine ⟨w, hw, [','], .inr ⟨',', by decide, rfl⟩, v, hv, ?_⟩
    calc s = w ++ skipWhitespace s := hs
      _ = w ++ ([','] ++ r) := by rw [hr, List.singleton_append]
      _ = w ++ ([','] ++ (v ++ skipComma s)) := by rw [skipComma, hyes, ← hrest]
  · obtain ⟨v, hv, hrest⟩ := exists_skipWhitespace (skipWhitespace s)
    refine ⟨w, hw, [], .inl rfl, v, hv, ?_⟩
    calc s = w ++ skipWhitespace s := hs
      _ = w ++ ([] ++ (v ++ skipComma s)) := by rw [skipComma, hno, List.nil_append, ← hrest]

theorem noNumberStart_set {set : List Char} (hset : ∀ d ∈ set, isDigit d = false)
    (hsigns : ∀ d ∈ set, d ≠ '+' ∧ d ≠ '-' ∧ d ≠ '.') : NoNumberStart set.contains := by
  have hne : ∀ d ∈ ['+', '-', '.'], set.contains d = false := by
    intro d hd
    refine Bool.eq_false_iff.mpr fun hmem => ?_
    have := hsigns d (List.contains_iff_mem.mp hmem)
    simp at hd
    tauto
  exact ⟨hne _ (by simp), hne _ (by simp), hne _ (by simp), fun c hc => digit_notMem_set hset hc⟩

theorem space_noNumberStart : NoNumberStart isspace :=
  noNumberStart_set (List.all_iff_forall_prop.mp (by decide))
    (List.all_iff_forall_prop.mp (by decide))

theorem mark_noNumberStart : NoNumberStart ['E', 'e'].contains :=
  noNumberStart_set (List.all_iff_forall_prop.mp (by decide))
    (List.all_iff_forall_prop.mp (by decide))

theorem char_noNumberStart {d : Char} (hd : isDigit d = false)
    (hsigns : d ≠ '+' ∧ d ≠ '-' ∧ d ≠ '.') : NoNumberStart (· == d) := by
  have h : NoNumberStart [d].contains :=
    noNumberStart_set (by simpa using hd) (by simpa using hsigns)
  have heq : [d].contains = (· == d) := by
    funext c
    rw [Bool.eq_iff_iff]
    simp
  exact heq ▸ h

theorem longestNumber_iff {x : List Char} : LongestNumber x r → Munch number (x ++ r) (some r) :=
  fun h => ⟨x, h.1, rfl, h.2⟩

theorem coeffList_close : ']' :: r ∈ coeffList k ↔ r ∈ k := by
  constructor
  · intro h
    generalize hs : ']' :: r = s at h
    cases h with
    | close hr =>
      obtain rfl := (List.cons.inj hs).2
      exact hr
    | @number x w c v r' hx =>
      cases x with
      | nil => exact absurd rfl (number_ne_nil hx.1)
      | cons d x =>
        obtain rfl := (List.cons.inj hs).1
        have hstart := avoids_number (char_noNumberStart (d := ']') (by decide) (by decide))
        exact absurd (hstart _ hx.1 ']' rfl) (by decide)
  · exact CoeffList.close

theorem coeffList_number (hs : ∀ d ∈ s.head?, (d == ']') = false) :
    s ∈ coeffList k ↔ ∃ r, Munch number s (some r) ∧ ¬ IncompleteExponent r ∧
      skipComma r ∈ coeffList k := by
  have hspace := avoids_coeffList (k := k) space_noNumberStart (by decide)
  have hcomma := avoids_coeffList (k := k)
    (char_noNumberStart (d := ',') (by decide) (by decide)) (by decide)
  constructor
  · intro h
    cases h with
    | close hr => exact absurd (hs ']' rfl) (by decide)
    | @number x w c v r hx hexp hw hc hv hr =>
      refine ⟨_, longestNumber_iff hx, hexp, ?_⟩
      rw [skipComma_append hw hc hv (hspace _ hr) (hcomma _ hr)]
      exact hr
  · rintro ⟨r, ⟨x, hx, rfl, hmax⟩, hexp, hr⟩
    obtain ⟨w, hw, c, hc, v, hv, heq⟩ := exists_skipComma r
    rw [heq] at hexp hmax ⊢
    exact .number ⟨hx, hmax⟩ hexp hw hc hv hr

theorem not_incomplete_of_skipComma (h : skipComma r ∈ coeffList k) : ¬ IncompleteExponent r := by
  rintro ⟨⟨d, hd, hmark⟩, _⟩
  have hspace : ∀ c ∈ ['E', 'e'], isspace c = false :=
    List.all_iff_forall_prop.mp (by decide)
  have hcomma : ∀ c ∈ ['E', 'e'], (c == ',') = false :=
    List.all_iff_forall_prop.mp (by decide)
  have hmem := List.contains_iff_mem.mp hmark
  have hskip : skipComma r = r := by
    refine skipComma_append (w := []) (c := []) (v := []) (mem_ws.mpr (by simp)) (.inl rfl)
      (mem_ws.mpr (by simp)) (fun e he => ?_) (fun e he => ?_)
    · obtain rfl := Option.some.inj (he.symm.trans hd)
      exact hspace e hmem
    · obtain rfl := Option.some.inj (he.symm.trans hd)
      exact hcomma e hmem
  rw [hskip] at h
  have hstart := avoids_coeffList (k := k) mark_noNumberStart (by decide) r h d hd
  rw [hstart] at hmark
  exact Bool.false_ne_true hmark

theorem matchFloatingPointNumber_true {strtod : List Char → ℚ} {old c : ℚ}
    (h : matchFloatingPointNumber strtod old s = (true, c, r)) : Munch number s (some r) := by
  rw [matchFloatingPointNumber] at h
  rcases scan_cases s with ⟨r', hscan, hmunch⟩ | ⟨hscan, _⟩
  · rw [hscan] at h
    obtain rfl : r' = r := (Prod.mk.inj (Prod.mk.inj h).2).2
    exact hmunch
  · split at h
    · next hscan' => simp [hscan'] at hscan
    · cases h

theorem matchFloatingPointNumber_false {strtod : List Char → ℚ} {old : ℚ}
    {p : ℚ × List Char} (h : matchFloatingPointNumber strtod old s = (false, p)) :
    ∀ r, Munch number s (some r) → IncompleteExponent r := by
  intro r hr
  rw [matchFloatingPointNumber] at h
  rcases scan_cases s with ⟨r', hscan, _⟩ | ⟨_, hnone | ⟨r', hmunch, hexp⟩⟩
  · simp [hscan] at h
  · cases hr.unique hnone
  · obtain rfl := Option.some.inj (hr.unique hmunch)
    exact hexp

section Equations

variable {strtod : List Char → ℚ} {coeff : List ℚ} {s' : List Char}

theorem readCoeffs_open (hopen : matchChar ']' s = (false, s')) :
    readCoeffs strtod coeff s = match matchFloatingPointNumber strtod 0 s with
      | (true, c, rest) => readCoeffs strtod (coeff ++ [c]) (skipComma rest)
      | (false, _) => .error (.thrown "Syntax Error: Expected floating point number") := by
  rw [readCoeffs, hopen]
  dsimp only
  split
  · next heq => rw [heq]
  · next heq => rw [heq]

theorem readCoeffs_number {q : ℚ} (hopen : matchChar ']' s = (false, s'))
    (hnumber : matchFloatingPointNumber strtod 0 s = (true, q, r)) :
    readCoeffs strtod coeff s = readCoeffs strtod (coeff ++ [q]) (skipComma r) := by
  rw [readCoeffs_open hopen, hnumber]

theorem readCoeffs_noNumber {p : ℚ × List Char} (hopen : matchChar ']' s = (false, s'))
    (hnumber : matchFloatingPointNumber strtod 0 s = (false, p)) :
    readCoeffs strtod coeff s =
      .error (.thrown "Syntax Error: Expected floating point number") := by
  rw [readCoeffs_open hopen, hnumber]

theorem open_of_matchChar (hopen : matchChar ']' s = (false, s')) :
    ∀ d ∈ s.head?, (d == ']') = false := by
  rcases matchChar_cases ']' s with ⟨_, _, hmatch⟩ | ⟨hno, _⟩
  · cases hmatch.symm.trans hopen
  · exact hno

end Equations

theorem readCoeffs_iff (strtod : List Char → ℚ) (coeff : List ℚ) (s : List Char) :
    (∃ coeff' r, readCoeffs strtod coeff s = .ok (coeff', r) ∧ r ∈ k) ↔ s ∈ coeffList k := by
  induction coeff, s using readCoeffs.induct strtod with
  | case1 coeff s r hclose =>
    rcases matchChar_cases ']' s with ⟨r', rfl, hmatch⟩ | ⟨_, hmatch⟩
    · obtain rfl : r' = r := (Prod.mk.inj (hmatch.symm.trans hclose)).2
      rw [coeffList_close, readCoeffs, hclose]
      simp
    · cases hmatch.symm.trans hclose
  | case2 coeff s s' hopen c rest hnumber ih =>
    have hmunch := matchFloatingPointNumber_true hnumber
    rw [readCoeffs_number hopen hnumber, ih, coeffList_number (open_of_matchChar hopen)]
    constructor
    · intro h
      exact ⟨rest, hmunch, not_incomplete_of_skipComma h, h⟩
    · rintro ⟨r, hr, _, h⟩
      obtain rfl := Option.some.inj (hr.unique hmunch)
      exact h
  | case3 coeff s s' hopen p hnumber =>
    rw [readCoeffs_noNumber hopen hnumber, coeffList_number (open_of_matchChar hopen)]
    constructor
    · rintro ⟨_, _, h, _⟩
      cases h
    · rintro ⟨r, hr, hexp, _⟩
      exact absurd (matchFloatingPointNumber_false hnumber r hr) hexp

end Coeffs

end SpecGrammar

end FirEngine
