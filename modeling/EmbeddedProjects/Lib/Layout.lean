import Mathlib.Data.List.Basic
import Mathlib.Algebra.Order.Group.Nat
import Mathlib.Algebra.BigOperators.Group.List.Basic
import Mathlib.Tactic.Ring

namespace Layout

-- regions laid out one after the other, each start rounded up to a multiple of its size

def alignTo (x w : Nat) : Nat := (x + (w - 1)) / w * w

def starts : Nat → List Nat → List Nat
  | _, [] => []
  | x, w :: ws => alignTo x w :: starts (alignTo x w + w) ws

def finish : Nat → List Nat → Nat
  | x, [] => x
  | x, w :: ws => finish (alignTo x w + w) ws

variable {x w : Nat} {ws : List Nat}

theorem dvd_alignTo (x w : Nat) : w ∣ alignTo x w := Nat.dvd_mul_left w _

theorem le_alignTo (hw : 0 < w) : x ≤ alignTo x w := by
  have := Nat.lt_div_mul_add (a := x + (w - 1)) hw
  rw [alignTo]
  omega

theorem alignTo_of_dvd (hw : 0 < w) (h : w ∣ x) : alignTo x w = x := by
  obtain ⟨k, rfl⟩ := h
  rw [alignTo, Nat.mul_add_div hw, Nat.div_eq_of_lt (by omega : w - 1 < w), Nat.add_zero,
    Nat.mul_comm]

@[simp] theorem length_starts (x : Nat) (ws : List Nat) : (starts x ws).length = ws.length := by
  induction ws generalizing x with
  | nil => rfl
  | cons w ws ih => simp [starts, ih]

theorem le_finish (hpos : ∀ w ∈ ws, 0 < w) : x ≤ finish x ws := by
  induction ws generalizing x with
  | nil => exact le_rfl
  | cons w ws ih =>
    simp only [List.mem_cons, forall_eq_or_imp] at hpos
    calc x ≤ alignTo x w + w := Nat.le_add_right_of_le (le_alignTo hpos.1)
      _ ≤ finish (alignTo x w + w) ws := ih hpos.2

theorem start_spec (hpos : ∀ w ∈ ws, 0 < w) {k o : Nat} (ho : (starts x ws)[k]? = some o)
    (hw : ws[k]? = some w) : x ≤ o ∧ w ∣ o ∧ o + w ≤ finish x ws := by
  induction ws generalizing x k with
  | nil => simp at hw
  | cons v ws ih =>
    simp only [List.mem_cons, forall_eq_or_imp] at hpos
    cases k with
    | zero =>
      simp only [starts, List.getElem?_cons_zero, Option.some.injEq] at ho hw
      subst ho hw
      exact ⟨le_alignTo hpos.1, dvd_alignTo _ _, le_finish hpos.2⟩
    | succ k =>
      simp only [starts, List.getElem?_cons_succ] at ho hw
      obtain ⟨hle, hdvd, hend⟩ := ih hpos.2 ho hw
      exact ⟨(le_alignTo hpos.1).trans (by omega), hdvd, hend⟩

theorem starts_ordered (hpos : ∀ w ∈ ws, 0 < w) {k l o p : Nat} (hkl : k < l)
    (ho : (starts x ws)[k]? = some o) (hw : ws[k]? = some w) (hp : (starts x ws)[l]? = some p) :
    o + w ≤ p := by
  induction ws generalizing x k l with
  | nil => simp at hw
  | cons v ws ih =>
    simp only [List.mem_cons, forall_eq_or_imp] at hpos
    cases l with
    | zero => omega
    | succ l =>
      simp only [starts, List.getElem?_cons_succ] at hp
      cases k with
      | zero =>
        simp only [starts, List.getElem?_cons_zero, Option.some.injEq] at ho hw
        subst ho hw
        have hl : l < ws.length := by
          rw [← length_starts (alignTo x v + v) ws]
          exact (List.getElem?_eq_some_iff.mp hp).1
        exact (start_spec hpos.2 hp (List.getElem?_eq_getElem hl)).1
      | succ k =>
        simp only [starts, List.getElem?_cons_succ] at ho hw
        exact ih hpos.2 (by omega) ho hw hp

theorem finish_of_dvd (hpos : ∀ w ∈ ws, 0 < w) (hx : ∀ w ∈ ws, w ∣ x)
    (hdvd : ws.Pairwise fun a b => b ∣ a) : finish x ws = x + ws.sum := by
  induction ws generalizing x with
  | nil => simp [finish]
  | cons w ws ih =>
    simp only [List.mem_cons, forall_eq_or_imp] at hpos hx
    obtain ⟨hw, hdvd⟩ := List.pairwise_cons.mp hdvd
    rw [finish, alignTo_of_dvd hpos.1 hx.1,
      ih hpos.2 (fun v hv => Nat.dvd_add (hx.2 v hv) (hw v hv)) hdvd, List.sum_cons,
      Nat.add_assoc]

theorem start_of_dvd (hpos : ∀ w ∈ ws, 0 < w) (hx : ∀ w ∈ ws, w ∣ x)
    (hdvd : ws.Pairwise fun a b => b ∣ a) {k o : Nat} (ho : (starts x ws)[k]? = some o) :
    o = x + (ws.take k).sum := by
  induction ws generalizing x k with
  | nil => simp [starts] at ho
  | cons w ws ih =>
    simp only [List.mem_cons, forall_eq_or_imp] at hpos hx
    obtain ⟨hw, hdvd⟩ := List.pairwise_cons.mp hdvd
    rw [starts, alignTo_of_dvd hpos.1 hx.1] at ho
    cases k with
    | zero => simpa using ho.symm
    | succ k =>
      rw [List.getElem?_cons_succ] at ho
      rw [ih hpos.2 (fun v hv => Nat.dvd_add (hx.2 v hv) (hw v hv)) hdvd ho, List.take_succ_cons,
        List.sum_cons, Nat.add_assoc]

theorem pairwise_dvd_of_descending (hpow : ∀ w ∈ ws, ∃ i, w = 2 ^ i)
    (hdesc : ws.Pairwise fun a b => b ≤ a) : ws.Pairwise fun a b => b ∣ a := by
  refine hdesc.imp_of_mem ?_
  intro a b ha hb hle
  obtain ⟨i, rfl⟩ := hpow a ha
  obtain ⟨j, rfl⟩ := hpow b hb
  exact Nat.pow_dvd_pow 2 ((Nat.pow_le_pow_iff_right (by decide)).mp hle)

end Layout
