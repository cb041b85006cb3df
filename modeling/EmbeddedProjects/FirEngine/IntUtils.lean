import Mathlib.Data.Nat.Bitwise
import Mathlib.Data.List.Range
import Mathlib.Tactic.Linarith
import Mathlib.Tactic.Ring

namespace FirEngine.IntUtils

-- natural numbers in place of 32-bit words: exact for fewer than 2^31 time slots

-- `if ((bits & mask) != 0) { bits >>= shift; pos += shift; }` on the pair (bits, pos)
def shiftIf (mask shift : Nat) (s : Nat × Nat) : Nat × Nat :=
  if s.1 &&& mask ≠ 0 then (s.1 >>> shift, s.2 + shift) else s

def findMostSignificantOne (bits : Nat) : Nat :=
  (shiftIf 0x2 1 (shiftIf 0xC 2 (shiftIf 0xF0 4 (shiftIf 0xFF00 8
    (shiftIf 0xFFFF0000 16 (bits, 0)))))).2

def bitWidthForEncodingValues (x : Nat) : Nat :=
  if x > 1 then findMostSignificantOne (x - 1) + 1 else 0

def isPowerOfTwo (x : Nat) : Bool := (List.range 32).any (fun i => x == 1 <<< i)

def roundUpToPowerOfTwo (x : Nat) : Nat :=
  match (List.range 32).find? (fun i => decide (x ≤ 1 <<< i)) with
  | some i => 1 <<< i
  | none => x

def ceilDiv (a b : Nat) : Nat := (a + b - 1) / b

def subtractWhile (m : Int) : Nat → Int → Int
  | 0, val => val
  | fuel + 1, val => if val ≥ m then subtractWhile m fuel (val - m) else val

def addWhile (m : Int) : Nat → Int → Int
  | 0, val => val
  | fuel + 1, val => if val < 0 then addWhile m fuel (val + m) else val

def modulo (val : Int) (modulo : Nat) : Nat :=
  (addWhile modulo val.natAbs (subtractWhile modulo val.natAbs val)).toNat

-- `currentAddress += mask; currentAddress &= ~mask`
def alignAddressOnOrAfter (currentAddress alignmentQuanta : Nat) : Nat :=
  let mask := alignmentQuanta - 1
  Nat.ldiff (currentAddress + mask) mask

theorem subtractWhile_eq {m : Int} (hm : 0 < m) (fuel : Nat) (val : Int) (h : val ≤ fuel) :
    subtractWhile m fuel val = if 0 ≤ val then val % m else val := by
  induction fuel generalizing val with
  | zero =>
    by_cases h0 : 0 ≤ val
    · have : val = 0 := by omega
      subst this
      simp [subtractWhile]
    · simp [subtractWhile, h0]
  | succ fuel ih =>
    by_cases hv : val ≥ m
    · have hpos : 0 ≤ val := by omega
      have hsub : 0 ≤ val - m := by omega
      simp only [subtractWhile, hv, if_true, hpos]
      rw [ih (val - m) (by omega), if_pos hsub, Int.sub_emod_right]
    · simp only [subtractWhile, hv, if_false]
      split
      · next h0 => exact (Int.emod_eq_of_lt h0 (by omega)).symm
      · rfl

theorem addWhile_of_nonneg (m : Int) (fuel : Nat) (val : Int) (h : 0 ≤ val) :
    addWhile m fuel val = val := by
  cases fuel with
  | zero => rfl
  | succ fuel => simp [addWhile, Int.not_lt.mpr h]

theorem addWhile_eq {m : Int} (hm : 0 < m) (fuel : Nat) (val : Int) (h : -val ≤ fuel)
    (hlt : val < m) : addWhile m fuel val = val % m := by
  induction fuel generalizing val with
  | zero =>
    have h0 : 0 ≤ val := by omega
    rw [addWhile_of_nonneg m 0 val h0, Int.emod_eq_of_lt h0 hlt]
  | succ fuel ih =>
    by_cases hv : val < 0
    · simp only [addWhile, hv, if_true]
      rw [ih (val + m) (by omega) (by omega), Int.add_emod_right]
    · rw [addWhile_of_nonneg m _ val (by omega), Int.emod_eq_of_lt (by omega) hlt]

theorem modulo_eq {m : Nat} (hm : 0 < m) (val : Int) : (modulo val m : Int) = val % m := by
  have hm' : (0 : Int) < m := by exact_mod_cast hm
  have hmod : 0 ≤ val % (m : Int) := Int.emod_nonneg _ (by omega)
  rw [modulo, subtractWhile_eq hm' _ _ (by omega)]
  split
  · rw [addWhile_of_nonneg _ _ _ hmod, Int.toNat_of_nonneg hmod]
  · next h =>
    rw [addWhile_eq hm' _ _ (by omega) (by omega), Int.toNat_of_nonneg hmod]

theorem modulo_lt {m : Nat} (hm : 0 < m) (val : Int) : modulo val m < m := by
  have h := modulo_eq hm val
  have := Int.emod_lt_of_pos val (by exact_mod_cast hm : (0 : Int) < m)
  omega

theorem ceilDiv_pos {a b : Nat} (ha : 0 < a) (hb : 0 < b) : 0 < ceilDiv a b :=
  Nat.div_pos (by omega) hb

theorem ceilDiv_le {a b : Nat} (ha : 0 < a) (hb : 0 < b) : ceilDiv a b ≤ a := by
  obtain ⟨b, rfl⟩ : ∃ c, b = c + 1 := ⟨b - 1, by omega⟩
  have hab : a + b ≤ a * (b + 1) := by nlinarith
  rw [ceilDiv, Nat.div_le_iff_le_mul_add_pred (by omega), Nat.mul_comm]
  omega

theorem le_ceilDiv_mul {a b : Nat} (hb : 0 < b) : a ≤ ceilDiv a b * b := by
  have := Nat.lt_div_mul_add (a := a + b - 1) hb
  rw [ceilDiv]
  omega

theorem roundUpToPowerOfTwo_spec {x : Nat} (hx : x ≤ 2 ^ 31) :
    ∃ i, roundUpToPowerOfTwo x = 2 ^ i ∧ x ≤ 2 ^ i ∧ ∀ j < i, 2 ^ j < x := by
  have hsome : ((List.range 32).find? (fun i => decide (x ≤ 1 <<< i))).isSome := by
    rw [List.find?_isSome]
    exact ⟨31, by simp, by simpa [Nat.shiftLeft_eq] using hx⟩
  obtain ⟨i, hi⟩ := Option.isSome_iff_exists.mp hsome
  have hi' := (List.find?_range_eq_some.mp hi)
  simp only [decide_eq_true_eq, Nat.shiftLeft_eq, one_mul, Bool.not_eq_true',
    decide_eq_false_iff_not, not_le, List.mem_range] at hi'
  refine ⟨i, ?_, hi'.1, hi'.2.2⟩
  rw [roundUpToPowerOfTwo, hi]
  simp [Nat.shiftLeft_eq]

theorem isPowerOfTwo_roundUpToPowerOfTwo {x : Nat} (hx : x ≤ 2 ^ 31) :
    isPowerOfTwo (roundUpToPowerOfTwo x) = true := by
  obtain ⟨i, hi, _, hleast⟩ := roundUpToPowerOfTwo_spec hx
  have hlt : i < 32 := by
    by_contra hge
    exact absurd (hleast 31 (by omega)) (Nat.not_lt.mpr hx)
  rw [isPowerOfTwo, List.any_eq_true]
  refine ⟨i, List.mem_range.mpr hlt, ?_⟩
  rw [hi, Nat.shiftLeft_eq, Nat.one_mul, beq_self_eq_true]

theorem roundUpToPowerOfTwo_le {x k : Nat} (hx : x ≤ 2 ^ 31) (hk : x ≤ 2 ^ k) :
    roundUpToPowerOfTwo x ≤ 2 ^ k := by
  obtain ⟨i, hi, _, hleast⟩ := roundUpToPowerOfTwo_spec hx
  rw [hi]
  by_contra hgt
  have hlt : k < i := (Nat.pow_lt_pow_iff_right (a := 2) (by decide)).mp (Nat.not_le.mp hgt)
  exact absurd (hleast k hlt) (Nat.not_lt.mpr hk)

theorem isPowerOfTwo_eq_true {x : Nat} (h : isPowerOfTwo x = true) : ∃ i, x = 2 ^ i := by
  obtain ⟨i, _, hi⟩ := List.any_eq_true.mp h
  refine ⟨i, ?_⟩
  rw [eq_of_beq hi, Nat.shiftLeft_eq, Nat.one_mul]

theorem le_roundUpToPowerOfTwo (x : Nat) : x ≤ roundUpToPowerOfTwo x := by
  rw [roundUpToPowerOfTwo]
  split
  · next i hi =>
    have hle := List.find?_some hi
    simpa using hle
  · exact le_rfl

theorem ldiff_two_pow_sub_one (x i : Nat) : Nat.ldiff x (2 ^ i - 1) = x / 2 ^ i * 2 ^ i := by
  apply Nat.eq_of_testBit_eq
  intro j
  rw [Nat.testBit_ldiff, Nat.testBit_two_pow_sub_one, Nat.testBit_mul_two_pow,
    Nat.testBit_div_two_pow]
  by_cases h : j < i
  · simp [h, Nat.not_le.mpr h]
  · have hj : j - i + i = j := by omega
    simp [h, Nat.not_lt.mp h, hj]

theorem alignAddressOnOrAfter_eq (x i : Nat) :
    alignAddressOnOrAfter x (2 ^ i) = (x + (2 ^ i - 1)) / 2 ^ i * 2 ^ i :=
  ldiff_two_pow_sub_one _ _

theorem and_upperHalf {m x : Nat} (hx : x < 2 ^ (2 * m)) :
    x &&& (2 ^ m - 1) * 2 ^ m = x / 2 ^ m * 2 ^ m := by
  apply Nat.eq_of_testBit_eq
  intro j
  rw [Nat.testBit_and, Nat.testBit_mul_two_pow, Nat.testBit_mul_two_pow,
    Nat.testBit_two_pow_sub_one, Nat.testBit_div_two_pow]
  by_cases hj : m ≤ j
  · have hjm : j - m + m = j := by omega
    by_cases hj2 : j - m < m
    · simp [hj, hj2, hjm]
    · have hbit : x.testBit j = false :=
        Nat.testBit_lt_two_pow (hx.trans_le (Nat.pow_le_pow_right (by omega) (by omega)))
      simp [hbit, hjm]
  · simp [hj]

def Narrowed (x m : Nat) (s : Nat × Nat) : Prop :=
  s.1 = x / 2 ^ s.2 ∧ s.1 < 2 ^ m ∧ (0 < x → 0 < s.1)

theorem narrowed_shiftIf {x m : Nat} {s : Nat × Nat} (h : Narrowed x (2 * m) s) :
    Narrowed x m (shiftIf ((2 ^ m - 1) * 2 ^ m) m s) := by
  obtain ⟨hval, hlt, hpos⟩ := h
  have hm : 0 < 2 ^ m := Nat.two_pow_pos m
  rw [shiftIf, and_upperHalf hlt]
  by_cases hs : s.1 < 2 ^ m
  · rw [if_neg (by simp [Nat.div_eq_of_lt hs])]
    exact ⟨hval, hs, hpos⟩
  · have hge : 2 ^ m ≤ s.1 := Nat.not_lt.mp hs
    have hdiv : 0 < s.1 / 2 ^ m := Nat.div_pos hge hm
    rw [if_pos (Nat.mul_ne_zero (by omega) (by omega))]
    refine ⟨?_, ?_, fun _ => ?_⟩
    · rw [Nat.shiftRight_eq_div_pow, hval, Nat.div_div_eq_div_mul, Nat.pow_add]
    · rw [Nat.shiftRight_eq_div_pow, Nat.div_lt_iff_lt_mul hm, ← Nat.pow_add, ← Nat.two_mul]
      exact hlt
    · rw [Nat.shiftRight_eq_div_pow]
      exact hdiv

theorem findMostSignificantOne_spec {x : Nat} (hpos : 0 < x) (hx : x < 2 ^ 32) :
    2 ^ findMostSignificantOne x ≤ x ∧ x < 2 ^ (findMostSignificantOne x + 1) := by
  have h0 : Narrowed x (2 * 16) (x, 0) := ⟨by simp, by simpa using hx, fun h => h⟩
  have h1 := narrowed_shiftIf (m := 8) (narrowed_shiftIf h0)
  have h2 := narrowed_shiftIf (m := 2) (narrowed_shiftIf (m := 4) h1)
  have h3 := narrowed_shiftIf (m := 1) h2
  change Narrowed x 1 (shiftIf 0x2 1 (shiftIf 0xC 2 (shiftIf 0xF0 4 (shiftIf 0xFF00 8
    (shiftIf 0xFFFF0000 16 (x, 0)))))) at h3
  obtain ⟨hval, hlt, hnz⟩ := h3
  change _ = x / 2 ^ findMostSignificantOne x at hval
  have hone : x / 2 ^ findMostSignificantOne x = 1 := by
    have := hnz hpos
    omega
  have hp : 0 < 2 ^ findMostSignificantOne x := Nat.two_pow_pos _
  rw [Nat.div_eq_iff hp] at hone
  rw [Nat.pow_succ]
  omega

theorem le_two_pow_bitWidth {x : Nat} (hx : x ≤ 2 ^ 32) :
    x ≤ 2 ^ bitWidthForEncodingValues x := by
  rw [bitWidthForEncodingValues]
  split
  · next h =>
    have := (findMostSignificantOne_spec (x := x - 1) (by omega) (by omega)).2
    omega
  · omega

end FirEngine.IntUtils
