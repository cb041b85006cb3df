import Mathlib.Data.List.Basic

namespace Growing

variable {α : Type} {d x : α} {u v : α → α} {i j k : Nat} {xs ys : List α}

def grow (d : α) (i : Nat) (xs : List α) : List α := xs ++ List.replicate (i + 1 - xs.length) d

def update (d : α) (i : Nat) (u : α → α) (xs : List α) : List α :=
  (grow d i xs).set i (u ((grow d i xs).getD i d))

@[simp] theorem length_update : (update d i u xs).length = max xs.length (i + 1) := by
  simp only [update, grow, List.length_set, List.length_append, List.length_replicate]
  omega

theorem getD_grow (d : α) (i : Nat) (xs : List α) (k : Nat) :
    (grow d i xs).getD k d = xs.getD k d := by
  rw [grow, List.getD_eq_getElem?_getD, List.getD_eq_getElem?_getD]
  by_cases hk : k < xs.length
  · rw [List.getElem?_append_left hk]
  · rw [List.getElem?_append_right (Nat.le_of_not_lt hk),
      List.getElem?_eq_none (Nat.le_of_not_lt hk), List.getElem?_replicate]
    split
    · rfl
    · rfl

theorem lt_length_grow (d : α) (i : Nat) (xs : List α) : i < (grow d i xs).length := by
  simp only [grow, List.length_append, List.length_replicate]
  omega

@[simp] theorem getD_update :
    (update d i u xs).getD k d = if k = i then u (xs.getD i d) else xs.getD k d := by
  rw [update, getD_grow, List.getD_eq_getElem?_getD, List.getElem?_set]
  by_cases hk : k = i
  · rw [if_pos hk.symm, if_pos (lt_length_grow d i xs), if_pos hk, Option.getD_some]
  · rw [if_neg (Ne.symm hk), if_neg hk, ← List.getD_eq_getElem?_getD, getD_grow]

theorem ext_getD (hlen : xs.length = ys.length) (h : ∀ k, xs.getD k d = ys.getD k d) : xs = ys := by
  refine List.ext_getElem hlen fun k hx hy => ?_
  simpa [List.getD_eq_getElem?_getD, hx, hy] using h k

theorem update_comm (h : i = j → ∀ x, u (v x) = v (u x)) :
    update d i u (update d j v xs) = update d j v (update d i u xs) := by
  refine ext_getD (d := d) ?_ fun k => ?_
  · simp only [length_update]
    omega
  · simp only [getD_update]
    by_cases hi : k = i
    · by_cases hj : k = j
      · obtain rfl := hi
        obtain rfl := hj
        simp [h rfl]
      · obtain rfl := hi
        simp [hj]
    · by_cases hj : k = j
      · obtain rfl := hj
        simp [hi]
      · simp [hi, hj]

end Growing
