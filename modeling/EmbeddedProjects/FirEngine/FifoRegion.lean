import Mathlib.Tactic.SplitIfs
import EmbeddedProjects.Lib.AlignedRing

namespace FirEngine

-- [15:6] offset, [5:0] length - 1
def fifoOffset (desc : BitVec 16) : BitVec 10 := desc.extractLsb' 6 10

def fifoLengthMinusOne (desc : BitVec 16) : BitVec 10 := (desc.extractLsb' 0 6).setWidth 10

def fifoRegion (lengthMinusOne : BitVec 10) : BitVec 10 :=
  if lengthMinusOne.getLsbD 5 then 0b0000111111#10
  else if lengthMinusOne.getLsbD 4 then 0b0000011111#10
  else if lengthMinusOne.getLsbD 3 then 0b0000001111#10
  else if lengthMinusOne.getLsbD 2 then 0b0000000111#10
  else if lengthMinusOne.getLsbD 1 then 0b0000000011#10
  else 0b0000000001#10

def regionOf (desc : BitVec 16) : BitVec 10 := fifoRegion (fifoLengthMinusOne desc)

def fifoRegionOrigin (desc : BitVec 16) : BitVec 10 := fifoOffset desc &&& ~~~ regionOf desc

def succAddr (desc : BitVec 16) (addr : BitVec 10) : BitVec 10 :=
  fifoRegionOrigin desc ||| ((addr + 1) &&& regionOf desc)

def nextAddr (desc : BitVec 16) : BitVec 10 := succAddr desc (fifoOffset desc)

def popAddr (desc : BitVec 16) : BitVec 10 :=
  fifoRegionOrigin desc ||| ((fifoOffset desc - fifoLengthMinusOne desc) &&& regionOf desc)

def prevAddr (desc : BitVec 16) (addr : BitVec 10) : BitVec 10 :=
  fifoRegionOrigin desc ||| ((addr - 1) &&& regionOf desc)

def fifoDescWord (addr lengthMinusOne : BitVec 10) : BitVec 16 :=
  addr ++ lengthMinusOne.extractLsb' 0 6

def pushed (desc : BitVec 16) : BitVec 16 :=
  fifoDescWord (nextAddr desc) (fifoLengthMinusOne desc)

open AlignedRing

def regionBits (lengthMinusOne : Nat) : Nat :=
  if 32 ≤ lengthMinusOne then 6
  else if 16 ≤ lengthMinusOne then 5
  else if 8 ≤ lengthMinusOne then 4
  else if 4 ≤ lengthMinusOne then 3
  else if 2 ≤ lengthMinusOne then 2
  else 1

theorem regionBits_le_six (n : Nat) : regionBits n ≤ 6 := by
  rw [regionBits]
  split_ifs <;> decide

theorem regionBits_le (n : Nat) : regionBits n ≤ 10 := (regionBits_le_six n).trans (by decide)

theorem one_le_regionBits (n : Nat) : 1 ≤ regionBits n := by
  rw [regionBits]
  split_ifs <;> decide

theorem regionBits_spec {n : Nat} (hn : n < 64) :
    n < 2 ^ regionBits n ∧ ∀ j, 1 ≤ j → j < regionBits n → 2 ^ j ≤ n := by
  have key : ∀ n < 64, n < 2 ^ regionBits n ∧ ∀ j < 6, 1 ≤ j → j < regionBits n → 2 ^ j ≤ n := by
    decide
  refine ⟨(key n hn).1, fun j hj hlt => (key n hn).2 j ?_ hj hlt⟩
  exact Nat.lt_of_lt_of_le hlt (regionBits_le_six n)

theorem fifoRegion_eq {len : BitVec 10} (h : len.toNat < 64) :
    fifoRegion len = BitVec.ofNat 10 (2 ^ regionBits len.toNat - 1) := by
  have key : ∀ n < 64, fifoRegion (BitVec.ofNat 10 n) = BitVec.ofNat 10 (2 ^ regionBits n - 1) := by
    decide
  have hlen := key len.toNat h
  rwa [BitVec.ofNat_toNat, BitVec.setWidth_eq] at hlen

theorem toNat_fifoOffset (desc : BitVec 16) : (fifoOffset desc).toNat = desc.toNat / 64 := by
  rw [fifoOffset, BitVec.extractLsb'_toNat, Nat.shiftRight_eq_div_pow]
  have := desc.isLt
  omega

theorem toNat_fifoLengthMinusOne (desc : BitVec 16) :
    (fifoLengthMinusOne desc).toNat = desc.toNat % 64 := by
  rw [fifoLengthMinusOne, BitVec.toNat_setWidth, BitVec.extractLsb'_toNat]
  have := desc.isLt
  simp only [Nat.shiftRight_zero]
  omega

theorem toNat_fifoDescWord (addr len : BitVec 10) :
    (fifoDescWord addr len).toNat = addr.toNat * 64 + len.toNat % 64 := by
  have hlen : (len.extractLsb' 0 6).toNat = len.toNat % 64 := by
    rw [BitVec.extractLsb'_toNat, Nat.shiftRight_zero]
  rw [fifoDescWord, BitVec.toNat_append, hlen,
    ← Nat.shiftLeft_add_eq_or_of_lt (Nat.mod_lt _ (by decide)), Nat.shiftLeft_eq]

def regionBitsOf (desc : BitVec 16) : Nat := regionBits (fifoLengthMinusOne desc).toNat

theorem fifoLengthMinusOne_lt (desc : BitVec 16) : (fifoLengthMinusOne desc).toNat < 64 := by
  rw [toNat_fifoLengthMinusOne]
  exact Nat.mod_lt _ (by decide)

theorem regionOf_eq (desc : BitVec 16) :
    regionOf desc = BitVec.ofNat 10 (2 ^ regionBitsOf desc - 1) :=
  fifoRegion_eq (fifoLengthMinusOne_lt desc)

theorem toNat_fifoRegionOrigin (desc : BitVec 16) :
    (fifoRegionOrigin desc).toNat =
      (fifoOffset desc).toNat / 2 ^ regionBitsOf desc * 2 ^ regionBitsOf desc := by
  rw [fifoRegionOrigin, regionOf_eq, toNat_and_not_mask]

theorem toNat_region_or (desc : BitVec 16) (y : BitVec 10) :
    (fifoRegionOrigin desc ||| (y &&& regionOf desc)).toNat =
      (fifoRegionOrigin desc).toNat + y.toNat % 2 ^ regionBitsOf desc := by
  rw [regionOf_eq]
  refine toNat_or_and_mask (regionBits_le _) ?_
  rw [toNat_fifoRegionOrigin]
  exact Nat.dvd_mul_left _ _

def regionSize (desc : BitVec 16) : Nat := (regionOf desc).toNat + 1

theorem regionSize_eq (desc : BitVec 16) : regionSize desc = 2 ^ regionBitsOf desc := by
  have hbits : regionBitsOf desc ≤ 10 := regionBits_le _
  rw [regionSize, regionOf_eq, toNat_mask hbits, Nat.sub_add_cancel (Nat.two_pow_pos _)]

theorem succAddr_eq_advance (desc : BitVec 16) (addr : BitVec 10) :
    (succAddr desc addr).toNat =
      advance (fifoRegionOrigin desc).toNat (regionSize desc) addr.toNat := by
  have hbits : regionBitsOf desc ≤ 10 := regionBits_le _
  rw [succAddr, toNat_region_or, toNat_add_one_mod hbits, advance, regionSize_eq]

theorem prevAddr_eq_back (desc : BitVec 16) (addr : BitVec 10) :
    (prevAddr desc addr).toNat =
      back (fifoRegionOrigin desc).toNat (regionSize desc) addr.toNat := by
  have hbits : regionBitsOf desc ≤ 10 := regionBits_le _
  rw [prevAddr, toNat_region_or, toNat_sub_one_mod hbits, back, regionSize_eq]

structure HoldsRing (o n : Nat) (desc : BitVec 16) : Prop where
  length : (fifoLengthMinusOne desc).toNat = n - 1
  aligned : 2 ^ regionBits (n - 1) ∣ o
  within : Within o (2 ^ regionBits (n - 1)) (fifoOffset desc).toNat

section HoldsRing

variable {o n : Nat} {desc : BitVec 16}

theorem HoldsRing.bits (h : HoldsRing o n desc) : regionBitsOf desc = regionBits (n - 1) := by
  rw [regionBitsOf, h.length]

theorem HoldsRing.region_eq {desc' : BitVec 16} (h : HoldsRing o n desc)
    (h' : HoldsRing o n desc') : regionOf desc = regionOf desc' := by
  rw [regionOf_eq, regionOf_eq, h.bits, h'.bits]

theorem HoldsRing.origin (h : HoldsRing o n desc) : (fifoRegionOrigin desc).toNat = o := by
  have hpos : 0 < 2 ^ regionBits (n - 1) := Nat.two_pow_pos _
  have hin := h.within.add_mod h.aligned
  have hdiv := Nat.div_add_mod' (fifoOffset desc).toNat (2 ^ regionBits (n - 1))
  rw [toNat_fifoRegionOrigin, h.bits]
  omega

theorem HoldsRing.succ (h : HoldsRing o n desc) (addr : BitVec 10) :
    (succAddr desc addr).toNat = advance o (2 ^ regionBits (n - 1)) addr.toNat := by
  rw [succAddr_eq_advance, h.origin, regionSize_eq, h.bits]

theorem HoldsRing.next (h : HoldsRing o n desc) : (nextAddr desc).toNat =
    advance o (2 ^ regionBits (n - 1)) (fifoOffset desc).toNat := h.succ _

theorem HoldsRing.prev (h : HoldsRing o n desc) (addr : BitVec 10) :
    (prevAddr desc addr).toNat = back o (2 ^ regionBits (n - 1)) addr.toNat := by
  rw [prevAddr_eq_back, h.origin, regionSize_eq, h.bits]

theorem HoldsRing.prev_ofNat (h : HoldsRing o n desc) (x : Nat) :
    (prevAddr desc (BitVec.ofNat 10 x)).toNat = back o (2 ^ regionBits (n - 1)) x := by
  have hdvd : 2 ^ regionBits (n - 1) ∣ 2 ^ 10 := Nat.pow_dvd_pow 2 (regionBits_le _)
  rw [h.prev, BitVec.toNat_ofNat, back, back, Nat.add_mod, Nat.mod_mod_of_dvd x hdvd,
    ← Nat.add_mod]

theorem HoldsRing.within_pop (h : HoldsRing o n desc) :
    Within o (2 ^ regionBits (n - 1)) (popAddr desc).toNat := by
  rw [popAddr, toNat_region_or, h.origin, h.bits]
  exact within_add_mod (Nat.two_pow_pos _) _ _

theorem HoldsRing.within_next (h : HoldsRing o n desc) :
    Within o (2 ^ regionBits (n - 1)) (nextAddr desc).toNat := by
  rw [h.next]
  exact within_advance (Nat.two_pow_pos _)

theorem HoldsRing.iterate_prev (h : HoldsRing o n desc) (j : Nat) (addr : BitVec 10) :
    ((prevAddr desc)^[j] addr).toNat = (back o (2 ^ regionBits (n - 1)))^[j] addr.toNat := by
  induction j with
  | zero => rfl
  | succ j ih => rw [Function.iterate_succ_apply', Function.iterate_succ_apply', h.prev, ih]

theorem HoldsRing.iterate_succ (h : HoldsRing o n desc) (j : Nat) (addr : BitVec 10) :
    ((succAddr desc)^[j] addr).toNat =
      (advance o (2 ^ regionBits (n - 1)))^[j] addr.toNat := by
  induction j with
  | zero => rfl
  | succ j ih => rw [Function.iterate_succ_apply', Function.iterate_succ_apply', h.succ, ih]

@[simp] theorem fifoOffset_fifoDescWord (addr len : BitVec 10) :
    fifoOffset (fifoDescWord addr len) = addr := by
  apply BitVec.eq_of_toNat_eq
  rw [toNat_fifoOffset, toNat_fifoDescWord]
  omega

theorem fifoLengthMinusOne_fifoDescWord (addr : BitVec 10) {len : BitVec 10} (h : len.toNat < 64) :
    fifoLengthMinusOne (fifoDescWord addr len) = len := by
  apply BitVec.eq_of_toNat_eq
  rw [toNat_fifoLengthMinusOne, toNat_fifoDescWord]
  omega

theorem HoldsRing.pushed (h : HoldsRing o n desc) : HoldsRing o n (pushed desc) where
  length := by
    rw [FirEngine.pushed, fifoLengthMinusOne_fifoDescWord _ (fifoLengthMinusOne_lt desc), h.length]
  aligned := h.aligned
  within := by
    rw [FirEngine.pushed, fifoOffset_fifoDescWord]
    exact h.within_next

end HoldsRing

end FirEngine
