import Mathlib.Data.List.Induction

namespace Bits

variable {i j : Nat} {x : BitVec 32}

theorem shift_eq_twoPow (j : Nat) : 1#32 <<< j = BitVec.twoPow 32 j := rfl

theorem and_mask_ne_zero (x : BitVec 32) (hj : j < 32) :
    x &&& 1#32 <<< j ≠ 0 ↔ x.getLsbD j = true := by
  rw [shift_eq_twoPow, BitVec.and_twoPow]
  have hpow : BitVec.twoPow 32 j ≠ 0 := by
    intro h
    have := congrArg (·.getLsbD j) h
    simp [hj] at this
  cases h : x.getLsbD j with
  | true => simpa using hpow
  | false => simp

theorem getLsbD_set (x : BitVec 32) (hj : j < 32) :
    (x ||| 1#32 <<< j).getLsbD i = (x.getLsbD i || decide (i = j)) := by
  rw [shift_eq_twoPow]
  by_cases hij : i = j
  · subst hij
    simp [hj]
  · simp [hij, Ne.symm hij]

theorem getLsbD_clear (x : BitVec 32) :
    (x &&& ~~~(1#32 <<< j)).getLsbD i = (x.getLsbD i && !decide (i = j)) := by
  rw [shift_eq_twoPow]
  by_cases hi : i < 32
  · by_cases hij : i = j
    · subst hij
      simp [hi]
    · simp [hi, hij]
  · simp [BitVec.getLsbD_of_ge _ _ (Nat.le_of_not_lt hi)]

theorem toNat_of_toInt_nonneg (h : 0 ≤ x.toInt) : (x.toNat : Int) = x.toInt := by
  have hcond := BitVec.toInt_eq_toNat_cond x
  have hlt := x.isLt
  split at hcond <;> omega

theorem or_and_eq_iff (x y m : BitVec 32) :
    (x ||| y) &&& m = y &&& m ↔ x &&& m &&& ~~~y = 0 := by
  have hbit : ∀ i < 32, ((x ||| y) &&& m).getLsbD i = (y &&& m).getLsbD i ↔
      (x &&& m &&& ~~~y).getLsbD i = (0#32).getLsbD i := by
    intro i hi
    simp only [BitVec.getLsbD_and, BitVec.getLsbD_or, BitVec.getLsbD_not, BitVec.getLsbD_zero, hi,
      decide_true, Bool.true_and]
    cases y.getLsbD i with
    | true => simp
    | false => simp
  constructor
  · exact fun h => BitVec.eq_of_getLsbD_eq fun i hi => (hbit i hi).mp (congrArg (·.getLsbD i) h)
  · exact fun h => BitVec.eq_of_getLsbD_eq fun i hi => (hbit i hi).mpr (congrArg (·.getLsbD i) h)

def orAll (l : List (BitVec 32)) : BitVec 32 := l.foldl (· ||| ·) 0

theorem orAll_concat (l : List (BitVec 32)) (x : BitVec 32) :
    orAll (l ++ [x]) = orAll l ||| x := by
  simp [orAll]

theorem orAll_or_and_eq_iff (l : List (BitVec 32)) (y m : BitVec 32) :
    (orAll l ||| y) &&& m = y &&& m ↔ ∀ x ∈ l, x &&& m &&& ~~~y = 0 := by
  rw [or_and_eq_iff]
  induction l using List.reverseRecOn with
  | nil => simp [orAll]
  | append_singleton l x ih =>
    have hor : (orAll l ||| x) &&& m &&& ~~~y = 0 ↔
        orAll l &&& m &&& ~~~y = 0 ∧ x &&& m &&& ~~~y = 0 := by
      rw [BitVec.and_or_distrib_right, BitVec.and_or_distrib_right]
      exact BitVec.or_eq_zero_iff
    rw [orAll_concat, hor, ih]
    simp [or_imp, forall_and]

end Bits
