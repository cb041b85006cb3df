import Mathlib.Data.Fintype.Pigeonhole

namespace Orbit

variable {α β : Type}

def outputs (step : α → α × β) (a : α) : Nat → β
  | 0 => (step a).2
  | n + 1 => outputs step (step a).1 n

def state (step : α → α × β) (a : α) : Nat → α
  | 0 => a
  | n + 1 => state step (step a).1 n

variable {step : α → α × β}

theorem outputs_add (a : α) (m n : Nat) :
    outputs step a (m + n) = outputs step (state step a m) n := by
  induction m generalizing a with
  | zero => rw [Nat.zero_add]; rfl
  | succ m ih => rw [Nat.succ_add]; exact ih (step a).1

theorem state_succ_of_step (P : α → Prop) (h : ∀ a, P (step a).1) (a : α) (n : Nat) :
    P (state step a (n + 1)) := by
  induction n generalizing a with
  | zero => exact h a
  | succ n ih => exact ih (step a).1

theorem outputs_of_state_eq {a : α} {i p : Nat} (h : state step a i = state step a (i + p))
    {n : Nat} (hn : i ≤ n) : outputs step a (n + p) = outputs step a n := by
  obtain ⟨k, rfl⟩ := Nat.exists_eq_add_of_le hn
  rw [Nat.add_right_comm, outputs_add, outputs_add, h]

theorem exists_repeat {m : Nat} {seq : Nat → Nat} (h : ∀ n, seq n < m) :
    ∃ i p, 0 < p ∧ i + p ≤ m ∧ seq i = seq (i + p) := by
  obtain ⟨i, j, hne, heq⟩ := Fintype.exists_ne_map_eq_of_card_lt
    (fun k : Fin (m + 1) => (⟨seq k, h k⟩ : Fin m)) (by simp)
  have hseq : seq i = seq j := congrArg Fin.val heq
  obtain hlt | hlt := Nat.lt_or_gt_of_ne (Fin.val_ne_of_ne hne)
  · refine ⟨i, j - i, Nat.sub_pos_of_lt hlt, ?_, ?_⟩
    · have := j.isLt
      omega
    · rw [Nat.add_sub_cancel' (Nat.le_of_lt hlt), hseq]
  · refine ⟨j, i - j, Nat.sub_pos_of_lt hlt, ?_, ?_⟩
    · have := i.isLt
      omega
    · rw [Nat.add_sub_cancel' (Nat.le_of_lt hlt), hseq]

theorem comes_round {step : Nat → Nat × β} {m : Nat} (h : ∀ a, (step a).1 < m) (a : Nat) :
    ∃ i p, 0 < p ∧ i + p ≤ m + 1 ∧ ∀ n, i ≤ n → outputs step a (n + p) = outputs step a n := by
  have hstate : ∀ n, state step a (n + 1) < m := state_succ_of_step (· < m) h a
  obtain ⟨i, p, hp, hle, heq⟩ := exists_repeat hstate
  refine ⟨i + 1, p, hp, by omega, fun n hn => outputs_of_state_eq ?_ hn⟩
  rwa [Nat.add_right_comm]

theorem outputs_eq_early {step : Nat → Nat × β} {m : Nat} (h : ∀ a, (step a).1 < m) (a n : Nat) :
    ∃ k ≤ m, outputs step a n = outputs step a k := by
  obtain ⟨i, p, hp, hle, hperiod⟩ := comes_round h a
  induction n using Nat.strong_induction_on with
  | _ n ih =>
    obtain hlt | hge := Nat.lt_or_ge n (i + p)
    · exact ⟨n, by omega, rfl⟩
    · obtain ⟨k, hk, heq⟩ := ih (n - p) (by omega)
      refine ⟨k, hk, ?_⟩
      rw [← heq, ← hperiod (n - p) (by omega), Nat.sub_add_cancel (by omega)]

end Orbit
