import EmbeddedProjects.FirEngine.Commits

namespace FirEngine

open AlignedRing

variable {α : Type}

structure RingFifo (α : Type) where
  desc : BitVec 16
  sample : Nat → α

namespace RingFifo

def push (s : RingFifo α) (x : α) : RingFifo α where
  desc := pushed s.desc
  sample := Function.update s.sample (nextAddr s.desc).toNat x

def pushes (s : RingFifo α) (xs : List α) : RingFifo α := xs.foldl push s

def tapAddr (s : RingFifo α) (j : Nat) : BitVec 10 := (prevAddr s.desc)^[j] (fifoOffset s.desc)

def coefAddr (s : RingFifo α) (j : Nat) : BitVec 10 := fifoRegionOrigin s.desc + BitVec.ofNat 10 j

def InRegion (desc : BitVec 16) (addr : BitVec 10) : Prop :=
  (fifoRegionOrigin desc).toNat ≤ addr.toNat ∧
    addr.toNat ≤ (fifoRegionOrigin desc).toNat + (regionOf desc).toNat

def cells (s : RingFifo α) : Cells α := ⟨s.sample, (fifoOffset s.desc).toNat⟩

theorem holdsRing_self (desc : BitVec 16) :
    HoldsRing (fifoRegionOrigin desc).toNat ((fifoLengthMinusOne desc).toNat + 1) desc where
  length := rfl
  aligned := by
    rw [toNat_fifoRegionOrigin]
    exact Nat.dvd_mul_left _ _
  within := by
    have hdiv := Nat.div_add_mod' (fifoOffset desc).toNat (2 ^ regionBitsOf desc)
    have hmod := Nat.mod_lt (fifoOffset desc).toNat (Nat.two_pow_pos (regionBitsOf desc))
    rw [toNat_fifoRegionOrigin, Nat.add_sub_cancel]
    change Within _ (2 ^ regionBitsOf desc) _
    constructor <;> omega

section Push

variable {o n : Nat} {s : RingFifo α}

theorem inRegion_iff (h : HoldsRing o n s.desc) {addr : BitVec 10} :
    InRegion s.desc addr ↔ Within o (2 ^ regionBits (n - 1)) addr.toNat := by
  have hsize := regionSize_eq s.desc
  rw [regionSize, h.bits] at hsize
  rw [InRegion, h.origin, Within]
  omega

theorem cells_push (h : HoldsRing o n s.desc) (x : α) :
    (s.push x).cells = s.cells.put o (2 ^ regionBits (n - 1)) x := by
  rw [cells, push, Cells.put, pushed, fifoOffset_fifoDescWord, h.next]
  rfl

theorem holdsRing_pushes (h : HoldsRing o n s.desc) (xs : List α) :
    HoldsRing o n (s.pushes xs).desc := by
  induction xs generalizing s with
  | nil => exact h
  | cons x xs ih => exact ih (s := s.push x) h.pushed

theorem cells_pushes (h : HoldsRing o n s.desc) (xs : List α) :
    (s.pushes xs).cells = s.cells.putAll o (2 ^ regionBits (n - 1)) xs := by
  induction xs generalizing s with
  | nil => rfl
  | cons x xs ih =>
    have hrest := ih (s := s.push x) h.pushed
    rw [cells_push h] at hrest
    exact hrest

theorem sample_tapAddr (h : HoldsRing o n s.desc) (j : Nat) :
    s.sample (s.tapAddr j).toNat = s.cells.read o (2 ^ regionBits (n - 1)) j := by
  rw [tapAddr, h.iterate_prev]
  rfl

theorem ring_end_le (h : HoldsRing o n s.desc) : o + 2 ^ regionBits (n - 1) ≤ 2 ^ 10 := by
  obtain ⟨k, hk⟩ := h.aligned
  obtain ⟨m, hm⟩ := Nat.pow_dvd_pow 2 (regionBits_le (n - 1))
  have hlt : o < 2 ^ 10 := h.within.1.trans_lt (fifoOffset s.desc).isLt
  rw [hk, hm] at hlt
  have hkm : k + 1 ≤ m := Nat.lt_of_mul_lt_mul_left hlt
  calc o + 2 ^ regionBits (n - 1) = 2 ^ regionBits (n - 1) * (k + 1) := by rw [hk, Nat.mul_succ]
    _ ≤ 2 ^ regionBits (n - 1) * m := Nat.mul_le_mul_left _ hkm
    _ = 2 ^ 10 := hm.symm

theorem toNat_coefAddr (h : HoldsRing o n s.desc) {j : Nat}
    (hj : j < 2 ^ regionBits (n - 1)) : (s.coefAddr j).toNat = o + j := by
  have hend := ring_end_le h
  have hsmall : j % 2 ^ 10 = j := Nat.mod_eq_of_lt (by omega)
  rw [coefAddr, BitVec.toNat_add, h.origin, BitVec.toNat_ofNat, hsmall,
    Nat.mod_eq_of_lt (by omega)]

end Push

structure FifoAfter (s t : RingFifo α) (xs : List α) : Prop where
  origin : fifoRegionOrigin t.desc = fifoRegionOrigin s.desc
  region : regionOf t.desc = regionOf s.desc
  length : fifoLengthMinusOne t.desc = fifoLengthMinusOne s.desc
  offset : InRegion t.desc (fifoOffset t.desc)
  next : InRegion t.desc (nextAddr t.desc)
  taps : ∀ j, InRegion t.desc (t.tapAddr j)
  coefs : ∀ j ≤ (fifoLengthMinusOne s.desc).toNat, InRegion t.desc (t.coefAddr j) ∧
    (t.coefAddr j).toNat = (fifoRegionOrigin t.desc).toNat + j
  samples : ∀ j ≤ (fifoLengthMinusOne s.desc).toNat, j < xs.length →
    xs.reverse[j]? = some (t.sample (t.tapAddr j).toNat)

theorem ring_addressing_is_fifo (s : RingFifo α) (xs : List α) :
    FifoAfter s (s.pushes xs) xs := by
  have hs := holdsRing_self s.desc
  have ht := holdsRing_pushes hs xs
  have hpos := Nat.two_pow_pos (regionBits ((fifoLengthMinusOne s.desc).toNat + 1 - 1))
  have hlength : (fifoLengthMinusOne s.desc).toNat <
      2 ^ regionBits ((fifoLengthMinusOne s.desc).toNat + 1 - 1) :=
    (regionBits_spec (fifoLengthMinusOne_lt s.desc)).1
  refine ⟨BitVec.eq_of_toNat_eq ht.origin, ht.region_eq hs, BitVec.eq_of_toNat_eq ht.length,
    (inRegion_iff ht).mpr ht.within, (inRegion_iff ht).mpr ht.within_next, fun j => ?_,
    fun j hj => ?_, fun j hj hlen => ?_⟩
  · rw [inRegion_iff ht, tapAddr, ht.iterate_prev]
    exact within_iterate_back hpos ht.within j
  · have haddr := toNat_coefAddr ht (hj.trans_lt hlength)
    rw [inRegion_iff ht, haddr, ht.origin]
    exact ⟨⟨Nat.le_add_right _ _, by omega⟩, rfl⟩
  · rw [sample_tapAddr ht, cells_pushes hs]
    exact Cells.read_putAll hs.aligned hs.within xs (hj.trans_lt hlength) hlen

end RingFifo

namespace Rtl.Run

variable {δ : Type} {R : Run δ} {k i : Nat} {desc : BitVec 16}

def ringFifo (R : Run δ) (k i : Nat) : Option (RingFifo (BitVec 18)) :=
  (R.bank k)[i]?.map fun desc => ⟨desc, (R.state k).dataBuffA.contents⟩

theorem ringFifo_of_commitLands (htarget : R.commitTarget k = some i)
    (h : CommitLands R k i desc) : ∃ s, R.ringFifo k i = some s ∧
      R.ringFifo (k + 1) i = some (s.push (R.state (k - 1)).channels.chosenDataPs2) := by
  refine ⟨⟨desc, (R.state k).dataBuffA.contents⟩, by rw [ringFifo, h.bank]; rfl, ?_⟩
  rw [ringFifo, bank_succ_of_some htarget, List.getElem?_modify_eq, h.bank, h.sample]
  rfl

end Rtl.Run

end FirEngine
