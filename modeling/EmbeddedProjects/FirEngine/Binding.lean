import Mathlib.Data.Int.ModEq
import Mathlib.Data.Nat.ModEq
import EmbeddedProjects.Lib.Outcome
import EmbeddedProjects.Lib.Writes
import EmbeddedProjects.FirEngine.Desc

namespace FirEngine

open Writes

theorem mem_slotsFrom {interval T fuel start t : Nat} :
    t ∈ slotsFrom interval T fuel start ↔ t < T ∧ ∃ k < fuel, t = start + k * interval := by
  induction fuel generalizing start with
  | zero => simp [slotsFrom]
  | succ fuel ih =>
    rw [slotsFrom]
    split
    · next hlt =>
      rw [List.mem_cons, ih]
      constructor
      · rintro (rfl | ⟨ht, k, hk, rfl⟩)
        · exact ⟨hlt, 0, by omega, by omega⟩
        · exact ⟨ht, k + 1, by omega, by rw [Nat.add_mul]; omega⟩
      · rintro ⟨ht, k, hk, rfl⟩
        cases k with
        | zero => exact .inl (by omega)
        | succ k => exact .inr ⟨ht, k, by omega, by rw [Nat.add_mul]; omega⟩
    · next hge =>
      simp only [List.not_mem_nil, false_iff, not_and, not_exists]
      intro ht k _ heq
      have : 0 ≤ k * interval := Nat.zero_le _
      omega

theorem FirBinding.mem_timeSliceOffsets {b : FirBinding} {T t : Nat}
    (hI : 0 < b.timeSliceInterval) :
    t ∈ b.timeSliceOffsets T ↔
      t < T ∧ ∃ k, t = b.timeSliceOrigin + k * b.timeSliceInterval := by
  rw [FirBinding.timeSliceOffsets, mem_slotsFrom]
  refine and_congr_right fun ht => ⟨fun h => h.imp fun _ hk => hk.2, ?_⟩
  rintro ⟨k, rfl⟩
  have : k ≤ k * b.timeSliceInterval := Nat.le_mul_of_pos_right k hI
  exact ⟨k, by omega, rfl⟩

theorem FirBinding.lt_of_mem_timeSliceOffsets {b : FirBinding} {T t : Nat}
    (h : t ∈ b.timeSliceOffsets T) : t < T := (mem_slotsFrom.mp h).1

theorem mem_timeSliceOffsets_iff_mod {T : Nat} {b : FirBinding}
    (ho : b.timeSliceOrigin < b.timeSliceInterval) {t : Nat} :
    t ∈ b.timeSliceOffsets T ↔ t < T ∧ t % b.timeSliceInterval = b.timeSliceOrigin := by
  rw [FirBinding.mem_timeSliceOffsets (by omega)]
  refine and_congr_right fun _ => ⟨?_, fun h => ?_⟩
  · rintro ⟨k, rfl⟩
    rw [Nat.add_mul_mod_self_right, Nat.mod_eq_of_lt ho]
  · refine ⟨t / b.timeSliceInterval, ?_⟩
    have := Nat.mod_add_div' t b.timeSliceInterval
    omega

theorem slotBefore_eq {T : Nat} (hT : 0 < T) (t i : Nat) :
    (slotBefore T t i : Int) = ((t : Int) - i) % T := IntUtils.modulo_eq hT _

theorem slotBefore_lt {T : Nat} (hT : 0 < T) (t i : Nat) : slotBefore T t i < T :=
  IntUtils.modulo_lt hT _

theorem slotBefore_eq_iff {T s t i : Nat} (hs : s < T) :
    slotBefore T t i = s ↔ (s + i) % T = t % T := by
  have hT : 0 < T := by omega
  have hcast := slotBefore_eq hT t i
  have hs' : ((s : Int)) % T = s := Int.emod_eq_of_lt (by omega) (by omega)
  constructor
  · intro h
    rw [h, ← hs'] at hcast
    have := Int.ModEq.add_right (i : Int) (hcast : (s : Int) ≡ t - i [ZMOD T])
    rw [sub_add_cancel] at this
    exact_mod_cast this
  · intro h
    have hmod : (s : Int) + i ≡ t [ZMOD T] := by exact_mod_cast (h : _ ≡ _ [MOD T])
    have := hmod.sub_right (i : Int)
    rw [add_sub_cancel_right] at this
    have h2 : ((slotBefore T t i : Nat) : Int) = s := by rw [hcast, ← hs']; exact this.symm
    exact_mod_cast h2

theorem slotBefore_injective {T t i j : Nat} (hi : i < T) (hj : j < T)
    (h : slotBefore T t i = slotBefore T t j) : i = j := by
  have hT : 0 < T := by omega
  have h1 := (slotBefore_eq_iff (slotBefore_lt hT t j)).mp h
  have h2 := (slotBefore_eq_iff (t := t) (slotBefore_lt hT t j)).mp rfl
  have h3 : slotBefore T t j + i ≡ slotBefore T t j + j [MOD T] := h1.trans h2.symm
  have h4 := Nat.ModEq.add_left_cancel' _ h3
  exact Nat.ModEq.eq_of_lt_of_lt h4 hi hj

namespace FirEngineDesc

section Loops

variable {T n : Nat} {b : FirBinding}

def updateWrites (T : Nat) (b : FirBinding) : List (Nat × FirUpdateSlot) :=
  (b.timeSliceOffsets T).map fun t => (t, ⟨some b.firIndex⟩)

def window (T n : Nat) (b : FirBinding) (t : Nat) : List (Nat × FirCoeffRef) :=
  (List.range n).map fun i => (slotBefore T t i, ⟨some b.firIndex, n - 1 - i⟩)

def coeffWrites (T n : Nat) (b : FirBinding) : List (Nat × FirCoeffRef) :=
  (b.timeSliceOffsets T).flatMap (window T n b)

theorem bindUpdateSlots_eq (slots : List FirUpdateSlot) :
    bindUpdateSlots T b slots = applyWrites (updateWrites T b) slots := by
  simp [bindUpdateSlots, updateWrites, applyWrites, List.foldl_map]

theorem bindCoeffRefs_eq (refs : List FirCoeffRef) :
    bindCoeffRefs T n b refs = applyWrites (coeffWrites T n b) refs := by
  rw [bindCoeffRefs, coeffWrites, ← foldl_flatMap_writes]
  simp only [window, applyWrites, List.foldl_map]

@[simp] theorem length_bindUpdateSlots (slots : List FirUpdateSlot) :
    (bindUpdateSlots T b slots).length = slots.length := by
  simp [bindUpdateSlots_eq]

@[simp] theorem length_bindCoeffRefs (refs : List FirCoeffRef) :
    (bindCoeffRefs T n b refs).length = refs.length := by
  simp [bindCoeffRefs_eq]

theorem mem_coeffWrites {w : Nat × FirCoeffRef} :
    w ∈ coeffWrites T n b ↔ ∃ t ∈ b.timeSliceOffsets T, ∃ i < n,
      w = (slotBefore T t i, ⟨some b.firIndex, n - 1 - i⟩) := by
  simp only [coeffWrites, window, List.mem_flatMap, List.mem_map, List.mem_range]
  constructor
  · rintro ⟨t, ht, i, hi, rfl⟩
    exact ⟨t, ht, i, hi, rfl⟩
  · rintro ⟨t, ht, i, hi, rfl⟩
    exact ⟨t, ht, i, hi, rfl⟩

theorem getElem?_bindUpdateSlots {slots : List FirUpdateSlot} {t : Nat} (ht : t < slots.length) :
    (bindUpdateSlots T b slots)[t]? =
      if t ∈ b.timeSliceOffsets T then some ⟨some b.firIndex⟩ else slots[t]? := by
  rw [bindUpdateSlots_eq]
  split
  · next hmem =>
    refine getElem?_applyWrites_of_agree ht (List.mem_map.mpr ⟨t, hmem, rfl⟩) ?_
    intro v hv
    obtain ⟨t', _, heq⟩ := List.mem_map.mp hv
    exact (congrArg Prod.snd heq).symm
  · next hmem =>
    refine getElem?_applyWrites_of_untouched ?_ _
    intro w hw heq
    obtain ⟨t', ht', rfl⟩ := List.mem_map.mp hw
    exact hmem (heq ▸ ht')

theorem getElem?_bindCoeffRefs_cases (refs : List FirCoeffRef) {s : Nat} (hs : s < refs.length) :
    (∃ t ∈ b.timeSliceOffsets T, ∃ i < n, s = slotBefore T t i ∧
        (bindCoeffRefs T n b refs)[s]? = some ⟨some b.firIndex, n - 1 - i⟩) ∨
      ((∀ t ∈ b.timeSliceOffsets T, ∀ i < n, slotBefore T t i ≠ s) ∧
        (bindCoeffRefs T n b refs)[s]? = refs[s]?) := by
  rw [bindCoeffRefs_eq]
  rcases getElem?_applyWrites_cases (coeffWrites T n b) hs with ⟨v, hv, hget⟩ | ⟨hno, hget⟩
  · obtain ⟨t, ht, i, hi, heq⟩ := mem_coeffWrites.mp hv
    obtain ⟨rfl, rfl⟩ := Prod.mk.inj heq
    exact .inl ⟨t, ht, i, hi, rfl, hget⟩
  · refine .inr ⟨fun t ht i hi heq => ?_, hget⟩
    exact hno _ (mem_coeffWrites.mpr ⟨t, ht, i, hi, rfl⟩) heq

def soloRefs (T n : Nat) (b : FirBinding) : List FirCoeffRef :=
  bindCoeffRefs T n b (List.replicate T {})

theorem bindCoeffRefs_of_clear {refs : List FirCoeffRef} (hlen : refs.length = T)
    {s j : Nat} (hfree : refs[s]? ≠ some ⟨some b.firIndex, j⟩) :
    (bindCoeffRefs T n b refs)[s]? = some ⟨some b.firIndex, j⟩ ↔
      (soloRefs T n b)[s]? = some ⟨some b.firIndex, j⟩ := by
  by_cases hs : s < T
  · by_cases htouch : ∃ t ∈ b.timeSliceOffsets T, ∃ i < n, slotBefore T t i = s
    · -- both vectors agree at `s` before the writes, so they agree afterwards
      obtain ⟨t, ht, i, hi, rfl⟩ := htouch
      have hmem : ∃ w ∈ coeffWrites T n b, w.1 = slotBefore T t i :=
        ⟨_, mem_coeffWrites.mpr ⟨t, ht, i, hi, rfl⟩, rfl⟩
      have hs' : slotBefore T t i < (List.replicate T ({} : FirCoeffRef)).length := by
        simpa using hs
      rw [soloRefs, bindCoeffRefs_eq, bindCoeffRefs_eq,
        getElem?_applyWrites_congr (by omega) hs' hmem]
    · have hno : ∀ w ∈ coeffWrites T n b, w.1 ≠ s := by
        intro w hw heq
        obtain ⟨t, ht, i, hi, rfl⟩ := mem_coeffWrites.mp hw
        exact htouch ⟨t, ht, i, hi, heq⟩
      rw [soloRefs, bindCoeffRefs_eq, bindCoeffRefs_eq, getElem?_applyWrites_of_untouched hno,
        getElem?_applyWrites_of_untouched hno]
      simp [hfree, hs]
  · have h1 : (bindCoeffRefs T n b refs)[s]? = none := by simp; omega
    have h2 : (soloRefs T n b)[s]? = none := by simp [soloRefs]; omega
    rw [h1, h2]

end Loops

end FirEngineDesc

end FirEngine
