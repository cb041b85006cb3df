import Mathlib.Computability.Language
import Mathlib.Data.List.TakeWhile

namespace Scan

variable {α : Type} {p q : α → Bool} {P : List α → Prop} {L M : Language α} {s r : List α}

def one (q : α → Bool) : Language α := {w | ∃ c, q c = true ∧ w = [c]}

def text (w : List α) : Language α := {w}

def spanWhere (p : α → Bool) (P : List α → Prop) : Language α := {w | (∀ c ∈ w, p c = true) ∧ P w}

def span (p : α → Bool) : Language α := spanWhere p fun _ => True

def Within (L : Language α) (p : α → Bool) : Prop := ∀ w ∈ L, ∀ c ∈ w, p c = true

def Avoids (L : Language α) (p : α → Bool) : Prop := ∀ w ∈ L, ∀ c ∈ w.head?, p c = false

theorem mem_spanWhere {w : List α} : w ∈ spanWhere p P ↔ (∀ c ∈ w, p c = true) ∧ P w := Iff.rfl

theorem mem_one_mul : s ∈ one q * L ↔ ∃ c r, q c = true ∧ r ∈ L ∧ s = c :: r := by
  constructor
  · rintro ⟨_, ⟨c, hc, rfl⟩, r, hr, rfl⟩
    exact ⟨c, r, hc, hr, rfl⟩
  · rintro ⟨c, r, hc, hr, rfl⟩
    exact ⟨[c], ⟨c, hc, rfl⟩, r, hr, rfl⟩

theorem mem_text_mul {w : List α} : s ∈ text w * L ↔ ∃ r ∈ L, s = w ++ r := by
  constructor
  · rintro ⟨_, rfl, r, hr, rfl⟩
    exact ⟨r, hr, rfl⟩
  · rintro ⟨r, hr, rfl⟩
    exact ⟨w, rfl, r, hr, rfl⟩

theorem nil_mem_mul : [] ∈ L * M ↔ [] ∈ L ∧ [] ∈ M := by
  constructor
  · rintro ⟨a, ha, b, hb, heq⟩
    obtain ⟨rfl, rfl⟩ := List.append_eq_nil_iff.mp heq
    exact ⟨ha, hb⟩
  · rintro ⟨hL, hM⟩
    exact ⟨[], hL, [], hM, rfl⟩

theorem nil_notMem_one : [] ∉ one q := by
  rintro ⟨c, _, hc⟩
  cases hc

section Avoids

theorem avoids_one (h : ∀ c, q c = true → p c = false) : Avoids (one q) p := by
  rintro _ ⟨c, hc, rfl⟩ d hd
  obtain rfl : c = d := by simpa using hd
  exact h c hc

theorem avoids_one_mul (h : ∀ c, q c = true → p c = false) : Avoids (one q * L) p := by
  intro w hw d hd
  obtain ⟨c, r, hc, _, rfl⟩ := mem_one_mul.mp hw
  obtain rfl : c = d := by simpa using hd
  exact h c hc

theorem avoids_text_mul {c : α} {w : List α} (h : p c = false) : Avoids (text (c :: w) * L) p := by
  intro v hv d hd
  obtain ⟨r, _, rfl⟩ := mem_text_mul.mp hv
  obtain rfl : c = d := by simpa using hd
  exact h

theorem avoids_add (hL : Avoids L p) (hM : Avoids M p) : Avoids (L + M) p := by
  rintro w (hw | hw)
  · exact hL w hw
  · exact hM w hw

theorem avoids_empty : Avoids (1 : Language α) p := by
  rintro w rfl c hc
  simp at hc

theorem avoids_mul (hL : Avoids L p) (hM : Avoids M p) : Avoids (L * M) p := by
  rintro _ ⟨a, ha, b, hb, rfl⟩ c hc
  cases a with
  | nil => exact hM b hb c hc
  | cons d a => exact hL _ ha c hc

theorem avoids_mul_of_ne_nil (hL : Avoids L p) (hne : ∀ w ∈ L, w ≠ []) : Avoids (L * M) p := by
  rintro _ ⟨a, ha, b, _, rfl⟩ c hc
  cases a with
  | nil => exact absurd rfl (hne [] ha)
  | cons d a => exact hL _ ha c hc

theorem avoids_spanWhere (h : ∀ c, q c = true → p c = false) : Avoids (spanWhere q P) p := by
  intro w hw c hc
  exact h c (hw.1 c (List.mem_of_mem_head? hc))

end Avoids

section Within

theorem within_empty : Within (1 : Language α) p := by
  rintro w rfl c hc
  cases hc

theorem within_one (h : ∀ c, q c = true → p c = true) : Within (one q) p := by
  rintro _ ⟨c, hc, rfl⟩ d hd
  obtain rfl := List.mem_singleton.mp hd
  exact h d hc

theorem within_spanWhere (h : ∀ c, q c = true → p c = true) : Within (spanWhere q P) p :=
  fun _ hw c hc => h c (hw.1 c hc)

theorem within_add (hL : Within L p) (hM : Within M p) : Within (L + M) p := by
  rintro w (hw | hw)
  · exact hL w hw
  · exact hM w hw

theorem within_mul (hL : Within L p) (hM : Within M p) : Within (L * M) p := by
  rintro _ ⟨a, ha, b, hb, rfl⟩ c hc
  rcases List.mem_append.mp hc with hc | hc
  · exact hL a ha c hc
  · exact hM b hb c hc

end Within

section Prefixes

theorem dropWhile_append_of_avoids {w r : List α} (hw : ∀ c ∈ w, p c = true)
    (hr : ∀ c ∈ r.head?, p c = false) :
    (w ++ r).takeWhile p = w ∧ (w ++ r).dropWhile p = r := by
  rw [List.takeWhile_append_of_pos hw, List.dropWhile_append_of_pos hw]
  cases r with
  | nil => simp
  | cons c r =>
    have hc : p c = false := hr c rfl
    simp [hc]

theorem mem_spanWhere_mul (h : Avoids L p) :
    s ∈ spanWhere p P * L ↔ P (s.takeWhile p) ∧ s.dropWhile p ∈ L := by
  constructor
  · rintro ⟨w, ⟨hw, hP⟩, r, hr, rfl⟩
    obtain ⟨htake, hdrop⟩ := dropWhile_append_of_avoids hw (h r hr)
    change P ((w ++ r).takeWhile p) ∧ (w ++ r).dropWhile p ∈ L
    rw [htake, hdrop]
    exact ⟨hP, hr⟩
  · rintro ⟨hP, hr⟩
    refine ⟨s.takeWhile p, ⟨fun c hc => ?_, hP⟩, s.dropWhile p, hr, List.takeWhile_append_dropWhile⟩
    exact List.mem_takeWhile_imp hc

theorem mem_span_mul (h : Avoids L p) : s ∈ span p * L ↔ s.dropWhile p ∈ L := by
  rw [span, mem_spanWhere_mul h, true_and]

end Prefixes

def Munch (L : Language α) (s : List α) : Option (List α) → Prop
  | some r => ∃ x ∈ L, x ++ r = s ∧ ∀ y ∈ L, y <+: s → y.length ≤ x.length
  | none => ∀ y ∈ L, ¬ y <+: s

section Munch

variable {o o' : Option (List α)}

theorem Munch.unique (h : Munch L s o) (h' : Munch L s o') : o = o' := by
  cases o with
  | none =>
    cases o' with
    | none => rfl
    | some r' =>
      obtain ⟨x, hx, rfl, _⟩ := h'
      exact absurd (List.prefix_append x r') (h x hx)
  | some r =>
    obtain ⟨x, hx, hxs, hmax⟩ := h
    cases o' with
    | none => exact absurd ⟨r, hxs⟩ (h' x hx)
    | some r' =>
      obtain ⟨y, hy, hys, hmax'⟩ := h'
      have hlen : x.length = y.length :=
        Nat.le_antisymm (hmax' x hx ⟨r, hxs⟩) (hmax y hy ⟨r', hys⟩)
      rw [(List.append_inj (hxs.trans hys.symm) hlen).2]

theorem munch_span (p : α → Bool) (s : List α) : Munch (span p) s (some (s.dropWhile p)) := by
  refine ⟨s.takeWhile p, ⟨fun c hc => List.mem_takeWhile_imp hc, trivial⟩,
    List.takeWhile_append_dropWhile, fun y hy hys => ?_⟩
  obtain ⟨r, rfl⟩ := hys
  rw [List.takeWhile_append_of_pos hy.1]
  simp

theorem munch_span1 {c : α} (hc : p c = true) (s : List α) :
    Munch (spanWhere p (· ≠ [])) (c :: s) (some (s.dropWhile p)) := by
  obtain ⟨x, hx, hxs, hmax⟩ := munch_span p s
  refine ⟨c :: x, ⟨fun d hd => ?_, by simp⟩, by simp [hxs], fun y hy hys => ?_⟩
  · rcases List.mem_cons.mp hd with rfl | hd
    · exact hc
    · exact hx.1 d hd
  · cases y with
    | nil => exact absurd rfl hy.2
    | cons d y =>
      have hy' := hmax y ⟨fun e he => hy.1 e (List.mem_cons_of_mem d he), trivial⟩
        (List.cons_prefix_cons.mp hys).2
      simpa using hy'

theorem munch_span1_none (hs : ∀ c ∈ s.head?, p c = false) :
    Munch (spanWhere p (· ≠ [])) s none := by
  rintro y ⟨hy, hne⟩ hys
  cases y with
  | nil => exact hne rfl
  | cons c y =>
    obtain ⟨r, rfl⟩ := hys
    exact absurd (hy c (by simp)) (by simp [hs c rfl])

theorem munch_one_mul {c : α} (hc : q c = true) (h : Munch L s o) :
    Munch (one q * L) (c :: s) o := by
  have hprefix : ∀ y ∈ one q * L, y <+: c :: s → ∃ y' ∈ L, y' <+: s ∧ y.length = y'.length + 1 := by
    intro y hy hys
    obtain ⟨d, y', _, hy', rfl⟩ := mem_one_mul.mp hy
    exact ⟨y', hy', (List.cons_prefix_cons.mp hys).2, rfl⟩
  cases o with
  | none =>
    intro y hy hys
    obtain ⟨y', hy', hys', _⟩ := hprefix y hy hys
    exact h y' hy' hys'
  | some r =>
    obtain ⟨x, hx, hxs, hmax⟩ := h
    refine ⟨c :: x, mem_one_mul.mpr ⟨c, x, hc, hx, rfl⟩, by simp [hxs], fun y hy hys => ?_⟩
    obtain ⟨y', hy', hys', hlen⟩ := hprefix y hy hys
    have := hmax y' hy' hys'
    rw [hlen, List.length_cons]
    omega

theorem munch_one_mul_none (hs : ∀ c ∈ s.head?, q c = false) : Munch (one q * L) s none := by
  intro y hy hys
  obtain ⟨c, y', hc, _, rfl⟩ := mem_one_mul.mp hy
  obtain ⟨r, rfl⟩ := hys
  exact absurd hc (by simp [hs c rfl])

theorem munch_opt_mul_cons {c : α} (hc : q c = true) (hL : Avoids L q) (h : Munch L s o) :
    Munch ((1 + one q) * L) (c :: s) o := by
  have hone := munch_one_mul hc h
  rw [add_mul, one_mul]
  cases o with
  | none =>
    rintro y (hy | hy) hys
    · cases y with
      | nil => exact h [] hy List.nil_prefix
      | cons d y =>
        obtain rfl := (List.cons_prefix_cons.mp hys).1
        exact absurd hc (by simp [hL _ hy d rfl])
    · exact hone y hy hys
  | some r =>
    obtain ⟨x, hx, hxs, hmax⟩ := hone
    refine ⟨x, .inr hx, hxs, ?_⟩
    rintro y (hy | hy) hys
    · cases y with
      | nil => simp
      | cons d y =>
        obtain rfl := (List.cons_prefix_cons.mp hys).1
        exact absurd hc (by simp [hL _ hy d rfl])
    · exact hmax y hy hys

theorem munch_opt_mul (hs : ∀ c ∈ s.head?, q c = false) (h : Munch L s o) :
    Munch ((1 + one q) * L) s o := by
  have hone := munch_one_mul_none (L := L) hs
  rw [add_mul, one_mul]
  cases o with
  | none =>
    rintro y (hy | hy) hys
    · exact h y hy hys
    · exact hone y hy hys
  | some r =>
    obtain ⟨x, hx, hxs, hmax⟩ := h
    refine ⟨x, .inl hx, hxs, ?_⟩
    rintro y (hy | hy) hys
    · exact hmax y hy hys
    · exact absurd hys (hone y hy)

theorem munch_span_mul (hL : Avoids L p) (h : Munch L (s.dropWhile p) o) :
    Munch (span p * L) s o := by
  have hprefix : ∀ y ∈ span p * L, y <+: s → (∀ c ∈ y, p c = true) ∧ [] ∈ L ∨
      ∃ y' ∈ L, y' <+: s.dropWhile p ∧ y.length = (s.takeWhile p).length + y'.length := by
    rintro _ ⟨w, hw, l, hl, rfl⟩ ⟨r, rfl⟩
    cases l with
    | nil => exact .inl ⟨by simpa using hw.1, hl⟩
    | cons d l =>
      have hd : p d = false := hL _ hl d rfl
      obtain ⟨htake, hdrop⟩ :=
        dropWhile_append_of_avoids (r := d :: l ++ r) hw.1 (by simpa using hd)
      refine .inr ⟨d :: l, hl, ?_, ?_⟩
      · simp only [List.append_assoc]
        rw [hdrop]
        exact List.prefix_append _ _
      · simp only [List.append_assoc]
        rw [htake]
        simp
  cases o with
  | none =>
    intro y hy hys
    rcases hprefix y hy hys with ⟨_, hnil⟩ | ⟨y', hy', hys', _⟩
    · exact h [] hnil List.nil_prefix
    · exact h y' hy' hys'
  | some r =>
    obtain ⟨x, hx, hxs, hmax⟩ := h
    refine ⟨s.takeWhile p ++ x, ⟨s.takeWhile p, ⟨fun c hc => List.mem_takeWhile_imp hc, trivial⟩,
      x, hx, rfl⟩, ?_, fun y hy hys => ?_⟩
    · rw [List.append_assoc, hxs, List.takeWhile_append_dropWhile]
    · rcases hprefix y hy hys with ⟨hrun, _⟩ | ⟨y', hy', hys', hlen⟩
      · obtain ⟨r', rfl⟩ := hys
        rw [List.takeWhile_append_of_pos hrun]
        simp only [List.length_append]
        omega
      · have := hmax y' hy' hys'
        rw [hlen, List.length_append]
        omega

theorem munch_opt (h : Munch L s o) : Munch (1 + L) s (some (o.getD s)) := by
  cases o with
  | none =>
    refine ⟨[], .inl rfl, rfl, ?_⟩
    rintro y (rfl | hy) hys
    · exact le_rfl
    · exact absurd hys (h y hy)
  | some r =>
    obtain ⟨x, hx, hxs, hmax⟩ := h
    refine ⟨x, .inr hx, hxs, ?_⟩
    rintro y (rfl | hy) hys
    · simp
    · exact hmax y hy hys

theorem munch_longest {w : List α} (hw : w ∈ L) (hmax : ∀ y ∈ L, y.length ≤ w.length) :
    Munch L (w ++ r) (some r) := ⟨w, hw, rfl, fun y hy _ => hmax y hy⟩

theorem munch_mul_opt {t : List α} (hL : Within L fun c => !q c) (h : Munch L s (some r))
    (hr : r = t ∧ (∀ c ∈ r.head?, q c = false) ∨ ∃ c, q c = true ∧ r = c :: t) :
    Munch (L * (1 + one q)) s (some t) := by
  obtain ⟨x, hx, rfl, hmax⟩ := h
  have hlong : ∀ y ∈ L, ∀ c, q c = true → y ++ [c] <+: x ++ r →
      y = x ∧ ∃ t, r = c :: t := by
    intro y hy c hc hys
    have hprefix : y <+: x ++ r := (List.prefix_append y [c]).trans hys
    obtain ⟨z, rfl⟩ := List.prefix_of_prefix_length_le hprefix (List.prefix_append x r)
      (hmax y hy hprefix)
    rw [List.append_assoc, List.prefix_append_right_inj] at hys
    cases z with
    | nil =>
      obtain ⟨t, ht⟩ := hys
      exact ⟨by simp, t, ht.symm⟩
    | cons d z =>
      obtain ⟨rfl, -⟩ := List.cons_prefix_cons.mp hys
      have hd := hL _ hx c (by simp)
      simp [hc] at hd
  rcases hr with ⟨rfl, hno⟩ | ⟨c, hc, rfl⟩
  · refine ⟨x, ⟨x, hx, [], .inl rfl, List.append_nil x⟩, rfl, ?_⟩
    rintro _ ⟨y, hy, u, rfl | ⟨c, hc, rfl⟩, rfl⟩ hys
    · simpa using hmax y hy (by simpa using hys)
    · obtain ⟨-, t, rfl⟩ := hlong y hy c hc hys
      rw [hno c rfl] at hc
      cases hc
  · refine ⟨x ++ [c], ⟨x, hx, [c], .inr ⟨c, hc, rfl⟩, rfl⟩, by simp, ?_⟩
    rintro _ ⟨y, hy, u, rfl | ⟨d, hd, rfl⟩, rfl⟩ hys
    · have := hmax y hy (by simpa using hys)
      simp
      omega
    · rw [(hlong y hy d hd hys).1]
      simp

end Munch

end Scan
