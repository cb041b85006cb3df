import Mathlib.Data.Nat.ModEq

namespace Windows

def Covered (I n k s : Nat) : Prop := ∃ j < k, ∃ i < n, (s + i) % I = j * n

variable {I n k o s i : Nat}

theorem mod_add_mod_cases {r : Nat} (hr : r < I) (hi : i ≤ I) :
    (r + i) % I = r + i ∨ I ≤ r + i ∧ (r + i) % I = r + i - I := by
  rcases Nat.lt_or_ge (r + i) I with hlt | hge
  · exact .inl (Nat.mod_eq_of_lt hlt)
  · refine .inr ⟨hge, ?_⟩
    rw [Nat.mod_eq_sub_mod hge]
    rcases Nat.lt_or_ge (r + i - I) I with hlt | hge'
    · exact Nat.mod_eq_of_lt hlt
    · have hboth : r + i - I = I := by omega
      omega

theorem mul_lt_of_lt {j : Nat} (hj : j < k) : j * n + n ≤ k * n := by
  have hmul := Nat.mul_le_mul_right n (Nat.succ_le_of_lt hj)
  rwa [Nat.succ_mul] at hmul

theorem covered_below (hn : 0 < n) (ho : o < k * n) (hoI : o < I) :
    ∃ i < n, i ≤ o ∧ Covered I n k (o - i) := by
  have hdiv := Nat.mod_add_div' o n
  have hlt := Nat.mod_lt o hn
  have hj : o / n < k := (Nat.div_lt_iff_lt_mul hn).mpr ho
  refine ⟨o % n, hlt, by omega, o / n, hj, 0, hn, ?_⟩
  have hsub : o - o % n = o / n * n := by omega
  rw [Nat.add_zero, hsub, Nat.mod_eq_of_lt (by omega)]

theorem covered_above (hk : 0 < k) (hfull : I < (k + 1) * n) (ho : k * n ≤ o) (hoI : o < I) :
    Covered I n k o := by
  rw [Nat.succ_mul] at hfull
  refine ⟨0, hk, I - o, by omega, ?_⟩
  have hsum : o + (I - o) = I := by omega
  rw [hsum, Nat.mod_self, Nat.zero_mul]

theorem not_covered_next (hk : 0 < k) (hroom : (k + 1) * n ≤ I) (hi : i < n)
    (hs : (s + i) % I = k * n) : ¬ Covered I n k s := by
  rintro ⟨j, hj, i', hi', hs'⟩
  have hjk := mul_lt_of_lt (n := n) hj
  have hkn := mul_lt_of_lt (n := n) hk
  rw [Nat.succ_mul] at hroom
  have hr := Nat.mod_lt s (show 0 < I by omega)
  rw [← Nat.mod_add_mod] at hs hs'
  rcases mod_add_mod_cases hr (show i ≤ I by omega) with h | h <;>
    rcases mod_add_mod_cases hr (show i' ≤ I by omega) with h' | h' <;> omega

theorem ne_top_of_before {j : Nat} (hn : 3 ≤ n) (hj : j < k) (hroom : (k + 1) * n ≤ I)
    (hs : (s + 2) % I = k * n) : s % I ≠ j * n := by
  intro htop
  have hjk := mul_lt_of_lt (n := n) hj
  rw [Nat.succ_mul] at hroom
  have hr := Nat.mod_lt s (show 0 < I by omega)
  rw [← Nat.mod_add_mod] at hs
  rcases mod_add_mod_cases hr (show 2 ≤ I by omega) with h | h <;> omega

end Windows
