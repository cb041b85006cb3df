import Mathlib.Data.List.Destutter

namespace Changes

variable {α : Type}

def forwarded [DecidableEq α] : α → List α → List α
  | _, [] => []
  | last, x :: xs => if x = last then forwarded last xs else x :: forwarded x xs

theorem cons_forwarded [DecidableEq α] (last : α) (xs : List α) :
    last :: forwarded last xs = xs.destutter' (· ≠ ·) last := by
  induction xs generalizing last with
  | nil => rfl
  | cons x xs ih =>
    rw [forwarded, List.destutter'_cons]
    by_cases h : x = last
    · rw [if_pos h, if_neg (not_not_intro h.symm), ih last]
    · rw [if_neg h, if_pos (Ne.symm h), ih x]

theorem forwarded_eq_destutter [DecidableEq α] {last : α} {xs : List α} (h : last ∉ xs) :
    forwarded last xs = xs.destutter (· ≠ ·) := by
  cases xs with
  | nil => rfl
  | cons x xs =>
    rw [forwarded, if_neg (Ne.symm (List.ne_of_not_mem_cons h)), cons_forwarded]
    rfl

theorem forwarded_eq_self_iff [DecidableEq α] (last : α) (xs : List α) :
    forwarded last xs = xs ↔ (last :: xs).IsChain (· ≠ ·) := by
  rw [← List.destutter'_eq_self_iff, ← cons_forwarded]
  exact (List.cons_inj_right last).symm

theorem isChain_cons_append {R : α → α → Prop} (last : α) (xs ys : List α) :
    (last :: (xs ++ ys)).IsChain R ↔
      (last :: xs).IsChain R ∧ (xs.getLastD last :: ys).IsChain R := by
  induction xs generalizing last with
  | nil => simp
  | cons x xs ih =>
    rw [List.cons_append, List.isChain_cons_cons, List.isChain_cons_cons, ih x,
      List.getLastD_cons, and_assoc]

end Changes
