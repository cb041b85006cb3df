import Mathlib.Data.List.Sort
import Mathlib.Data.List.Pairwise
import Mathlib.Data.List.Perm.Basic

namespace Descending

variable {α β : Type}

def Strict (key : α → Nat) (l : List α) : Prop := l.Pairwise fun a b => key b < key a ∨ a = b

theorem exists_descending (key : α → Nat) (l : List α) :
    ∃ l' : List α, l'.Perm l ∧ l'.Pairwise fun a b => key b ≤ key a := by
  refine ⟨l.mergeSort fun a b => key b ≤ key a, List.mergeSort_perm _ _, ?_⟩
  simpa using @List.pairwise_mergeSort α (fun a b => decide (key b ≤ key a))
    (fun a b c hab hbc => by simpa using (of_decide_eq_true hbc).trans (of_decide_eq_true hab))
    (fun a b => by simpa using Nat.le_total (key b) (key a)) l

theorem ties_eq {key : α → Nat} {l : List α} (h : Strict key l) {a b : α} (ha : a ∈ l)
    (hb : b ∈ l) (hkey : key a = key b) : a = b := by
  have : Std.Symm fun a b : α => key a = key b → a = b := ⟨fun _ _ h hk => (h hk.symm).symm⟩
  refine List.Pairwise.forall_of_forall (R := fun a b : α => key a = key b → a = b)
    (fun _ _ _ => rfl) (List.Pairwise.imp ?_ h) ha hb hkey
  rintro a b (hlt | heq) hk
  · exact absurd hk.symm (Nat.ne_of_lt hlt)
  · exact heq

theorem eq_of_perm {key : α → Nat} {l l' : List α} (h : Strict key l) (hperm : l'.Perm l)
    (hdesc : l'.Pairwise fun a b => key b ≤ key a) : l' = l := by
  have hl : l.Pairwise fun a b => key b < key a ∨ a = b := h
  refine List.Perm.eq_of_pairwise ?_ ?_ hl hperm
  · rintro a b _ _ (hab | rfl) (hba | heq)
    · exact absurd hab (Nat.lt_asymm hba)
    · exact heq.symm
    · rfl
    · rfl
  · refine List.Pairwise.imp_of_mem ?_ hdesc
    intro a b ha hb hle
    rcases Nat.lt_or_eq_of_le hle with hlt | heq
    · exact .inl hlt
    · exact .inr (ties_eq h (hperm.mem_iff.mp ha) (hperm.mem_iff.mp hb) heq.symm)

theorem descending_swap {key : α → Nat} {l : List α}
    (h : l.Pairwise fun a b => key b ≤ key a) {i j : Nat} (hi : i < l.length)
    (hj : j < l.length) (hkey : key l[i] = key l[j]) :
    ((l.set i l[j]).set j l[i]).Pairwise fun a b => key b ≤ key a := by
  have hmap : ((l.set i l[j]).set j l[i]).map key = l.map key := by
    rw [List.map_set, List.map_set, hkey]
    apply List.ext_getElem (by simp)
    intro k hk hk'
    simp only [List.getElem_set, List.getElem_map]
    split
    · next hjk => subst hjk; rfl
    · split
      · next hik => subst hik; exact hkey.symm
      · rfl
  rw [← List.pairwise_map (f := key) (R := fun x y => y ≤ x), hmap, List.pairwise_map]
  exact h

theorem only_arrangement_iff (key : α → Nat) (l : List α) :
    (∀ l' : List α, l'.Perm l → (l'.Pairwise fun a b => key b ≤ key a) → l' = l) ↔
      Strict key l := by
  constructor
  · intro h
    obtain ⟨l', hperm, hdesc⟩ := exists_descending key l
    rw [h l' hperm hdesc] at hdesc
    refine List.pairwise_iff_getElem.mpr fun i j hi hj hij => ?_
    rcases Nat.lt_or_eq_of_le (List.pairwise_iff_getElem.mp hdesc i j hi hj hij) with hlt | heq
    · exact .inl hlt
    · have hswap := h _ (List.set_set_perm hi hj) (descending_swap hdesc hi hj heq.symm)
      have hget : ((l.set i l[j]).set j l[i])[i]? = l[i]? := by rw [hswap]
      rw [List.getElem?_set_ne (Nat.ne_of_gt hij), List.getElem?_set_self hi,
        List.getElem?_eq_getElem hi, Option.some.injEq] at hget
      exact .inr hget.symm
  · exact fun h l' hperm hdesc => eq_of_perm h hperm hdesc

theorem exists_map_eq_of_perm {f : α → β} {l : List α} {l' : List β} (h : l'.Perm (l.map f)) :
    ∃ l₀ : List α, l₀.Perm l ∧ l₀.map f = l' := by
  have hall : List.Forall₂ (fun b a => b = f a) (l.map f) l := by
    rw [List.forall₂_map_left_iff, List.forall₂_same]
    exact fun _ _ => rfl
  obtain ⟨l₀, hl₀, hperm⟩ := List.perm_comp_forall₂ h hall
  refine ⟨l₀, hperm, ?_⟩
  clear h hall hperm
  induction hl₀ with
  | nil => rfl
  | cons hab _ ih => rw [List.map_cons, ih, hab]

end Descending
