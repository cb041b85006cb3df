import Mathlib.Algebra.Order.Ring.Rat
import Mathlib.Tactic.Linarith
import Mathlib.Tactic.Ring
import Mathlib.Tactic.NormNum

namespace Wrap

theorem toInt_extractLsb'_ofInt {w lo len : Nat} (h : lo + len ≤ w) (s : Int) :
    ((BitVec.ofInt w s).extractLsb' lo len).toInt = Int.bmod (s / 2 ^ lo) (2 ^ len) := by
  obtain ⟨k, rfl⟩ := Nat.exists_eq_add_of_le h
  have hlo : (0 : Int) < 2 ^ lo := by positivity
  have hw : (2 : Int) ^ (lo + len + k) = 2 ^ lo * (2 ^ len * 2 ^ k) := by
    rw [pow_add, pow_add, mul_assoc]
  have hnat : ((BitVec.ofInt (lo + len + k) s).toNat : Int) = s % 2 ^ (lo + len + k) := by
    rw [BitVec.toNat_ofInt, Int.toNat_of_nonneg (Int.emod_nonneg _ (by positivity))]
    push_cast
    rfl
  have hsplit : s / 2 ^ lo = (s % 2 ^ (lo + len + k)) / 2 ^ lo +
      (2 ^ len * 2 ^ k) * (s / 2 ^ (lo + len + k)) := by
    calc s / 2 ^ lo
        = (s % 2 ^ (lo + len + k) + 2 ^ (lo + len + k) * (s / 2 ^ (lo + len + k))) / 2 ^ lo := by
          rw [Int.emod_add_mul_ediv]
      _ = (s % 2 ^ (lo + len + k) +
            2 ^ lo * ((2 ^ len * 2 ^ k) * (s / 2 ^ (lo + len + k)))) / 2 ^ lo := by
          rw [hw, mul_assoc]
      _ = _ := Int.add_mul_ediv_left _ _ hlo.ne'
  rw [BitVec.toInt_eq_toNat_bmod, BitVec.extractLsb'_toNat, Nat.shiftRight_eq_div_pow]
  push_cast
  rw [hnat, hsplit, mul_assoc]
  have hcast : ((2 : Int) ^ len) = ((2 ^ len : Nat) : Int) := by push_cast; rfl
  rw [hcast, Int.emod_bmod, Int.add_mul_bmod_self_left]

theorem abs_bmod_sub_le_iff {m : Nat} (hm : 0 < m) (heven : 2 ∣ m) (x : Int) {t δ : ℚ}
    (hlo : -(m / 2 : ℚ) ≤ t - δ) (hhi : t + δ < m / 2) :
    |(Int.bmod x m : ℚ) - t| ≤ δ ↔ ∃ z : Int, |(x : ℚ) - t - m * z| ≤ δ := by
  constructor
  · intro h
    refine ⟨Int.bdiv x m, ?_⟩
    have hx : (x : ℚ) = Int.bmod x m + m * Int.bdiv x m := by
      exact_mod_cast (Int.bmod_add_bdiv x m).symm
    rw [hx]
    convert h using 2
    ring
  · rintro ⟨z, hz⟩
    obtain ⟨k, rfl⟩ := heven
    rw [abs_le] at hz
    push_cast at hz hlo hhi
    -- the representative `x - m z` lies in the window, so it is the wrapped value
    have hlow : (-(k : ℚ)) ≤ ((x - 2 * k * z : Int) : ℚ) := by push_cast; linarith [hz.1]
    have hhigh : ((x - 2 * k * z : Int) : ℚ) < (k : ℚ) := by push_cast; linarith [hz.2]
    have hlow' : -(k : Int) ≤ x - 2 * k * z := by exact_mod_cast hlow
    have hhigh' : x - 2 * k * z < (k : Int) := by exact_mod_cast hhigh
    have hbmod : Int.bmod x (2 * k) = x - 2 * k * z := by
      have hsub : Int.bmod (x - 2 * k * z) (2 * k) = Int.bmod x (2 * k) := by
        have := Int.add_mul_bmod_self_left x (2 * k) (-z)
        push_cast at this
        rw [← this]
        ring_nf
      rw [← hsub]
      apply Int.bmod_eq_of_le <;> push_cast <;> omega
    rw [hbmod, abs_le]
    push_cast
    exact ⟨by linarith [hz.1], by linarith [hz.2]⟩

end Wrap
