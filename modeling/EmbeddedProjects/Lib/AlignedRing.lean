import Mathlib.Data.List.Induction
import Mathlib.Data.Nat.ModEq
import Mathlib.Data.Nat.Bitwise
import Mathlib.Logic.Function.Basic
import Mathlib.Logic.Function.Iterate
import Mathlib.Tactic.Ring

namespace AlignedRing

-- a ring of `s` words whose first word `o` is a multiple of `s`

def Within (o s a : Nat) : Prop := o ≤ a ∧ a < o + s

def advance (o s a : Nat) : Nat := o + (a + 1) % s

def back (o s a : Nat) : Nat := o + (a + (s - 1)) % s

variable {o s a : Nat}

theorem within_add_mod (hs : 0 < s) (o x : Nat) : Within o s (o + x % s) :=
  ⟨Nat.le_add_right _ _, Nat.add_lt_add_left (Nat.mod_lt _ hs) _⟩

theorem within_advance (hs : 0 < s) : Within o s (advance o s a) := within_add_mod hs _ _

theorem within_back (hs : 0 < s) : Within o s (back o s a) := within_add_mod hs _ _

theorem Within.add_mod (h : Within o s a) (hdvd : s ∣ o) : o + a % s = a := by
  obtain ⟨k, rfl⟩ := hdvd
  obtain ⟨hle, hlt⟩ := h
  obtain ⟨x, rfl⟩ := Nat.exists_eq_add_of_le hle
  rw [Nat.mul_add_mod, Nat.mod_eq_of_lt (by omega)]

theorem Within.disjoint {o' s' : Nat} (h : Within o s a) (hord : o + s ≤ o' ∨ o' + s' ≤ o) :
    ¬ Within o' s' a := by
  rintro ⟨hle, hlt⟩
  obtain ⟨hle', hlt'⟩ := h
  omega

theorem advance_ne (hs : 1 < s) (hdvd : s ∣ o) (h : Within o s a) : advance o s a ≠ a := by
  intro heq
  have hback := h.add_mod hdvd
  rw [advance] at heq
  have hmod : (a + 1) % s = a % s := by omega
  have hone : 1 ≡ 0 [MOD s] := Nat.ModEq.add_left_cancel' a hmod
  rw [Nat.ModEq, Nat.mod_eq_of_lt hs, Nat.zero_mod] at hone
  cases hone

theorem within_iterate_back (hs : 0 < s) (h : Within o s a) (j : Nat) :
    Within o s ((back o s)^[j] a) := by
  cases j with
  | zero => exact h
  | succ j =>
    rw [Function.iterate_succ_apply']
    exact within_back hs

theorem within_iterate_advance (hs : 0 < s) (h : Within o s a) (j : Nat) :
    Within o s ((advance o s)^[j] a) := by
  cases j with
  | zero => exact h
  | succ j =>
    rw [Function.iterate_succ_apply']
    exact within_advance hs

theorem back_advance (hdvd : s ∣ o) (h : Within o s a) : back o s (advance o s a) = a := by
  have hs : 0 < s := by have := h.1; have := h.2; omega
  obtain ⟨k, rfl⟩ := hdvd
  have hround : (a + 1) % s + (s - 1) ≡ a [MOD s] := by
    have hmod : (a + 1) % s + (s - 1) ≡ a + 1 + (s - 1) [MOD s] :=
      Nat.ModEq.add_right _ (Nat.mod_modEq _ _)
    have hsum : a + 1 + (s - 1) = a + s := by omega
    rw [hsum] at hmod
    exact hmod.trans (Nat.add_mod_right a s)
  rw [back, advance, Nat.add_assoc, Nat.mul_add_mod, hround]
  exact h.add_mod (Nat.dvd_mul_right s k)

theorem iterate_back_add (hs : 0 < s) (hdvd : s ∣ o) (a j : Nat) :
    (back o s)^[j] a + j ≡ a [MOD s] := by
  induction j with
  | zero => rfl
  | succ j ih =>
    obtain ⟨k, rfl⟩ := hdvd
    rw [Function.iterate_succ_apply', back]
    have hsum : (back (s * k) s)^[j] a + (s - 1) + (j + 1) = (back (s * k) s)^[j] a + j + s := by
      omega
    calc s * k + ((back (s * k) s)^[j] a + (s - 1)) % s + (j + 1)
        ≡ (back (s * k) s)^[j] a + (s - 1) + (j + 1) [MOD s] := by
          refine Nat.ModEq.add_right _ ?_
          rw [Nat.ModEq, Nat.mul_add_mod, Nat.mod_mod]
      _ ≡ (back (s * k) s)^[j] a + j [MOD s] := by
          rw [hsum]
          exact Nat.add_mod_right _ s
      _ ≡ a [MOD s] := ih

theorem iterate_back_ne {j : Nat} (hdvd : s ∣ o) (hpos : 0 < j) (hj : j < s) :
    (back o s)^[j] a ≠ a := by
  intro heq
  have hmod := iterate_back_add (by omega) hdvd a j
  rw [heq] at hmod
  have hzero : j ≡ 0 [MOD s] := Nat.ModEq.add_left_cancel' a hmod
  rw [Nat.ModEq, Nat.mod_eq_of_lt hj, Nat.zero_mod] at hzero
  omega

section Cells

variable {α : Type}

structure Cells (α : Type) where
  cell : Nat → α
  latest : Nat

def Cells.put (o s : Nat) (r : Cells α) (x : α) : Cells α where
  cell := Function.update r.cell (advance o s r.latest) x
  latest := advance o s r.latest

def Cells.putAll (o s : Nat) (r : Cells α) (xs : List α) : Cells α := xs.foldl (Cells.put o s) r

def Cells.read (o s : Nat) (r : Cells α) (j : Nat) : α := r.cell ((back o s)^[j] r.latest)

variable {r : Cells α}

theorem Cells.within_putAll (hs : 0 < s) (h : Within o s r.latest) (xs : List α) :
    Within o s (r.putAll o s xs).latest := by
  induction xs generalizing r with
  | nil => exact h
  | cons x xs ih => exact ih (within_advance hs)

theorem Cells.read_put_succ (hdvd : s ∣ o) (h : Within o s r.latest) (x : α) {j : Nat}
    (hj : j + 1 < s) : (r.put o s x).read o s (j + 1) = r.read o s j := by
  have hne : (back o s)^[j + 1] (advance o s r.latest) ≠ advance o s r.latest :=
    iterate_back_ne hdvd (Nat.succ_pos j) hj
  rw [Function.iterate_succ_apply, back_advance hdvd h] at hne
  rw [Cells.read, Cells.put, Function.iterate_succ_apply, back_advance hdvd h]
  exact Function.update_of_ne hne _ _

theorem Cells.read_putAll (hdvd : s ∣ o) (h : Within o s r.latest) (xs : List α) {j : Nat}
    (hj : j < s) (hlen : j < xs.length) :
    xs.reverse[j]? = some ((r.putAll o s xs).read o s j) := by
  have hs : 0 < s := by omega
  induction xs using List.reverseRecOn generalizing j with
  | nil => simp at hlen
  | append_singleton xs x ih =>
    have hlast : r.putAll o s (xs ++ [x]) = (r.putAll o s xs).put o s x := by
      rw [Cells.putAll, List.foldl_append]
      rfl
    rw [hlast, List.reverse_append, List.reverse_singleton, List.singleton_append]
    cases j with
    | zero => simp [Cells.read, Cells.put]
    | succ j =>
      rw [Cells.read_put_succ hdvd (Cells.within_putAll hs h xs) x hj, List.getElem?_cons_succ]
      exact ih (by omega) (by simpa using hlen)

structure Cells.Shows (o s : Nat) (r : Cells α) (d : α) (xs : List α) : Prop where
  latest : Within o s r.latest
  read : ∀ j < s, r.read o s j = xs.reverse.getD j d

variable {d : α} {xs : List α}

theorem Cells.Shows.put (h : r.Shows o s d xs) (hdvd : s ∣ o) (x : α) :
    (r.put o s x).Shows o s d (xs ++ [x]) where
  latest := within_advance (Nat.zero_lt_of_ne_zero fun hs => by
    have := h.latest.1
    have := h.latest.2
    omega)
  read := by
    intro j hj
    rw [List.reverse_append, List.reverse_singleton, List.singleton_append]
    cases j with
    | zero => simp [Cells.read, Cells.put]
    | succ j =>
      rw [Cells.read_put_succ hdvd h.latest x hj, List.getD_cons_succ]
      exact h.read j (Nat.lt_of_succ_lt hj)

theorem Cells.Shows.congr {r' : Cells α} (h : r.Shows o s d xs) (hlatest : r'.latest = r.latest)
    (hcell : ∀ a, Within o s a → r'.cell a = r.cell a) : r'.Shows o s d xs where
  latest := hlatest ▸ h.latest
  read := by
    intro j hj
    rw [← h.read j hj, Cells.read, Cells.read, hlatest]
    exact hcell _ (within_iterate_back (Nat.zero_lt_of_lt hj) h.latest j)

theorem Cells.shows_nil (hlatest : Within o s r.latest) (h : ∀ a, Within o s a → r.cell a = d) :
    r.Shows o s d [] where
  latest := hlatest
  read := fun j hj => h _ (within_iterate_back (Nat.zero_lt_of_lt hj) hlatest j)

end Cells

section Masks

variable {w i : Nat}

theorem toNat_mask (hi : i ≤ w) : (BitVec.ofNat w (2 ^ i - 1)).toNat = 2 ^ i - 1 := by
  have h1 : 2 ^ i ≤ 2 ^ w := Nat.pow_le_pow_right (by decide) hi
  have h2 : 0 < 2 ^ i := Nat.two_pow_pos i
  rw [BitVec.toNat_ofNat, Nat.mod_eq_of_lt (by omega)]

theorem toNat_and_mask (hi : i ≤ w) (x : BitVec w) :
    (x &&& BitVec.ofNat w (2 ^ i - 1)).toNat = x.toNat % 2 ^ i := by
  rw [BitVec.toNat_and, toNat_mask hi, Nat.and_two_pow_sub_one_eq_mod]

theorem toNat_and_not_mask (x : BitVec w) :
    (x &&& ~~~ BitVec.ofNat w (2 ^ i - 1)).toNat = x.toNat / 2 ^ i * 2 ^ i := by
  apply Nat.eq_of_testBit_eq
  intro j
  rw [BitVec.testBit_toNat, BitVec.getLsbD_and, BitVec.getLsbD_not, BitVec.getLsbD_ofNat,
    Nat.testBit_two_pow_sub_one, Nat.testBit_mul_two_pow, Nat.testBit_div_two_pow]
  by_cases hj : i ≤ j
  · rw [Nat.sub_add_cancel hj, BitVec.testBit_toNat]
    cases hx : x.getLsbD j with
    | false => simp
    | true => simp [hj, Nat.not_lt.mpr hj, BitVec.lt_of_getLsbD hx]
  · cases hx : x.getLsbD j with
    | false => simp [hj]
    | true => simp [hj, Nat.not_le.mp hj, BitVec.lt_of_getLsbD hx]

theorem toNat_or_and_mask (hi : i ≤ w) {x y : BitVec w} (hdvd : 2 ^ i ∣ x.toNat) :
    (x ||| (y &&& BitVec.ofNat w (2 ^ i - 1))).toNat = x.toNat + y.toNat % 2 ^ i := by
  obtain ⟨k, hk⟩ := hdvd
  rw [BitVec.toNat_or, toNat_and_mask hi, hk,
    ← Nat.two_pow_add_eq_or_of_lt (Nat.mod_lt _ (Nat.two_pow_pos i))]

theorem toNat_add_one_mod (hi : i ≤ w) (x : BitVec w) :
    (x + 1).toNat % 2 ^ i = (x.toNat + 1) % 2 ^ i := by
  have hdvd : 2 ^ i ∣ 2 ^ w := Nat.pow_dvd_pow 2 hi
  have hone : (x.toNat + (1 : BitVec w).toNat) % 2 ^ w = (x.toNat + 1) % 2 ^ w := by
    simp [Nat.add_mod]
  rw [BitVec.toNat_add, hone, Nat.mod_mod_of_dvd _ hdvd]

theorem toNat_sub_one_mod (hi : i ≤ w) (x : BitVec w) :
    (x - 1).toNat % 2 ^ i = (x.toNat + (2 ^ i - 1)) % 2 ^ i := by
  have hpos : 0 < 2 ^ i := Nat.two_pow_pos i
  have hback : ((x - 1).toNat + 1) % 2 ^ i = x.toNat % 2 ^ i := by
    rw [← toNat_add_one_mod hi, BitVec.sub_add_cancel]
  have hround : (x - 1).toNat + 2 ^ i = (x - 1).toNat + 1 + (2 ^ i - 1) := by omega
  calc (x - 1).toNat % 2 ^ i = ((x - 1).toNat + 2 ^ i) % 2 ^ i := (Nat.add_mod_right _ _).symm
    _ = ((x - 1).toNat + 1 + (2 ^ i - 1)) % 2 ^ i := by rw [hround]
    _ = (x.toNat + (2 ^ i - 1)) % 2 ^ i := Nat.ModEq.add_right _ hback

end Masks

end AlignedRing
