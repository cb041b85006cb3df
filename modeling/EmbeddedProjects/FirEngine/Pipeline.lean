import EmbeddedProjects.FirEngine.Rtl

namespace FirEngine

namespace Rtl

variable {δ : Type}

section Fields

theorem fieldAt_of_getElem? {values : List Nat} {t v width : Nat} (h : values[t]? = some v)
    (hv : v < 2 ^ width) : fieldAt values t width = v := by
  rw [fieldAt, List.getD_eq_getElem?_getD, h, Option.getD_some, Nat.mod_eq_of_lt hv]

theorem fieldAt_of_zero {values : List Nat} (h : ∀ v ∈ values, v = 0) (slot width : Nat) :
    fieldAt values slot width = 0 := by
  rw [fieldAt, List.getD_eq_getElem?_getD]
  cases hv : values[slot]? with
  | none => simp
  | some v => simp [h v (List.mem_of_getElem? hv)]

theorem bitShifted_iff {values : List Nat} {slot : Nat} :
    bitShifted values slot = true ↔ values.getD slot 0 % 2 = 1 := by
  simp [bitShifted, fieldAt]

end Fields

section Settle

variable (inp : Inputs) (s : State δ)

@[simp] theorem settle_dataBuffA : (settle inp s).dataBuffA = s.dataBuffA := by
  rw [settle]
  split <;> rfl

@[simp] theorem settle_dataMux : (settle inp s).dataMux = s.dataMux := by
  rw [settle]
  split <;> rfl

@[simp] theorem settle_fifoDescBuffA : (settle inp s).fifoDescBuffA = s.fifoDescBuffA := by
  rw [settle]
  split <;> rfl

@[simp] theorem settle_fifoDescBuffB : (settle inp s).fifoDescBuffB = s.fifoDescBuffB := by
  rw [settle]
  split <;> rfl

@[simp] theorem settle_fifoControls : (settle inp s).fifoControls = s.fifoControls := by
  rw [settle]
  split <;> rfl

@[simp] theorem settle_dsp : (settle inp s).dsp = s.dsp := by
  rw [settle]
  split <;> rfl

@[simp] theorem settle_readAddrs : (settle inp s).readAddrs = s.readAddrs := by
  rw [settle]
  split <;> rfl

@[simp] theorem settle_updateAddrs : (settle inp s).updateAddrs = s.updateAddrs := by
  rw [settle]
  split <;> rfl

@[simp] theorem settle_channelSelPs9 :
    (settle inp s).dataOutputs.channelSelPs9 = s.dataOutputs.channelSelPs9 := by
  rw [settle]
  split <;> rfl

theorem settle_of_not_rst {inp : Inputs} (h : inp.iRst = false) : settle inp s = s := by
  rw [settle, if_neg (by simp [h])]

end Settle

structure Run (δ : Type) where
  p : RtlParameters
  dsp : Dsp48e2 δ
  env : Nat → Inputs
  s₀ : State δ

namespace Run

variable (R : Run δ)

def state (k : Nat) : State δ := seen R.p R.dsp R.env R.s₀ k

theorem state_succ {k : Nat} (h : (R.env (k + 1)).iRst = false) :
    R.state (k + 1) = clock R.p R.dsp (R.env k) (R.state k) := by
  rw [state, seen_succ, settle_of_not_rst _ h]
  rfl

section Registers

variable (k : Nat)

theorem dataBuffA_succ : (R.state (k + 1)).dataBuffA =
    clockDataBuff R.p (R.env k) (R.state k).dataBuffA (R.state k).readAddrs.dataBuffA0Rdaddr
      (rwaddr1 R.p (R.state k)) (R.state k).commit.ps3 (R.state k).dataMux.dataBuffA1Wrdata := by
  rw [state, seen_succ, settle_dataBuffA]
  rfl

theorem dataMux_succ :
    (R.state (k + 1)).dataMux = clockDataMux R.p (R.env k) (R.state k) := by
  rw [state, seen_succ, settle_dataMux]
  rfl

theorem fifoDescBuffA_succ : (R.state (k + 1)).fifoDescBuffA =
    clockFifoDescBuff R.p (R.env k) (R.state k) (R.state k).fifoDescBuffA
      (R.state k).fifoControls.fifoDescBuffARdaddr := by
  rw [state, seen_succ, settle_fifoDescBuffA]
  rfl

theorem fifoDescBuffB_succ : (R.state (k + 1)).fifoDescBuffB =
    clockFifoDescBuff R.p (R.env k) (R.state k) (R.state k).fifoDescBuffB
      (R.state k).fifoControls.fifoDescBuffBRdaddr := by
  rw [state, seen_succ, settle_fifoDescBuffB]
  rfl

theorem fifoControls_succ :
    (R.state (k + 1)).fifoControls = clockFifoControls R.p (R.state k) := by
  rw [state, seen_succ, settle_fifoControls]
  rfl

theorem readAddrs_succ : (R.state (k + 1)).readAddrs = clockReadAddrs R.p (R.state k) := by
  rw [state, seen_succ, settle_readAddrs]
  rfl

theorem updateAddrs_succ : (R.state (k + 1)).updateAddrs = clockUpdateAddrs (R.state k) := by
  rw [state, seen_succ, settle_updateAddrs]
  rfl

end Registers

section Descriptors

def descRead (k : Nat) : BitVec 16 :=
  readRam (descSize R.p) (R.state k).fifoDescBuffA.contents
    (R.state k).fifoControls.fifoDescBuffARdaddr (R.env k).unknownDesc

theorem descRead_eq {k i : Nat} (hrd : (R.state k).fifoControls.fifoDescBuffARdaddr = i)
    (hi : i < descSize R.p) : R.descRead k = (R.state k).fifoDescBuffA.contents i := by
  rw [descRead, hrd, readRam, if_pos hi]

theorem currFifo_add_two (k : Nat) : currFifo (R.state (k + 2)) = R.descRead k := by
  rw [currFifo, R.fifoDescBuffA_succ (k + 1), clockFifoDescBuff, R.fifoDescBuffA_succ k]
  rfl

theorem updateAddrs_add_five (k : Nat) :
    (R.state (k + 5)).updateAddrs.nextAddrDelay2 = nextAddr (R.descRead k) ∧
    (R.state (k + 5)).updateAddrs.lengthMinusOneDelay2 = fifoLengthMinusOne (R.descRead k) := by
  rw [R.updateAddrs_succ (k + 4), clockUpdateAddrs, R.updateAddrs_succ (k + 3), clockUpdateAddrs,
    R.updateAddrs_succ (k + 2), clockUpdateAddrs, R.currFifo_add_two k]
  exact ⟨rfl, rfl⟩

theorem fifoDescBuffWrdata_add_five (k : Nat) :
    fifoDescBuffWrdata (R.state (k + 5)) = pushed (R.descRead k) := by
  obtain ⟨hnext, hlength⟩ := R.updateAddrs_add_five k
  rw [fifoDescBuffWrdata, hnext, hlength, pushed]

theorem updateAddr_add_six {k : Nat} (h : (R.state (k + 5)).doUpdate.doUpdatePs2 = true) :
    (R.state (k + 6)).updateAddrs.updateAddr = nextAddr (R.descRead k) := by
  rw [R.updateAddrs_succ (k + 5), clockUpdateAddrs, if_pos h, (R.updateAddrs_add_five k).1]

end Descriptors

section Commits

variable {R} {k : Nat}

theorem not_rst_of_set {f : State δ → Bool}
    (hclear : ∀ inp s, inp.iRst = true → f (settle inp s) = false)
    (h : f (R.state k) = true) : (R.env k).iRst = false := by
  by_contra hrst
  have hcleared := hclear _ (run R.p R.dsp R.env R.s₀ k) (Bool.eq_true_of_not_eq_false hrst)
  exact Bool.false_ne_true (hcleared.symm.trans h)

theorem not_rst_of_ps3 (h : (R.state k).commit.ps3 = true) : (R.env k).iRst = false := by
  refine not_rst_of_set (f := fun s => s.commit.ps3) (fun inp s hrst => ?_) h
  rw [settle, if_pos hrst]

theorem not_rst_of_doUpdate (h : (R.state k).doUpdate.doUpdatePs2 = true) :
    (R.env k).iRst = false := by
  refine not_rst_of_set (f := fun s => s.doUpdate.doUpdatePs2) (fun inp s hrst => ?_) h
  rw [settle, if_pos hrst]

theorem doUpdate_of_ps3 (h : (R.state (k + 1)).commit.ps3 = true) :
    (R.state k).doUpdate.doUpdatePs2 = true ∧ doCommitPs2 (R.env k) (R.state k) = true := by
  rw [R.state_succ (not_rst_of_ps3 h)] at h
  change (clockCommit (R.env k) (R.state k)).ps3 = true at h
  rw [clockCommit] at h
  split at h
  · cases h
  · cases hup : (R.state k).doUpdate.doUpdatePs2 with
    | false => simp [hup] at h
    | true => simpa [hup] using h

theorem slot_of_doUpdate (h : (R.state (k + 1)).doUpdate.doUpdatePs2 = true) :
    (R.env k).iRst = false ∧ (R.state k).doUpdate.enableCounter = 3 ∧
      bitShifted R.p.doUpdate (R.state k).timeSlice.ps1 = true := by
  rw [R.state_succ (not_rst_of_doUpdate h)] at h
  change (clockDoUpdate R.p (R.env k) (R.state k)).doUpdatePs2 = true at h
  rw [clockDoUpdate] at h
  split at h
  · cases h
  · rename_i hrst
    split at h
    · cases h
    · rename_i hcount
      exact ⟨Bool.eq_false_of_not_eq_true hrst, not_not.mp hcount, h⟩

theorem timeSlice_succ (h : (R.env k).iRst = false) (hnext : (R.env (k + 1)).iRst = false) :
    (R.state (k + 1)).timeSlice =
      { psm1 := ((R.state k).timeSlice.psm1 + 1) % 2 ^ regWidth R.p.log2TimeSlices
        ps0 := (R.state k).timeSlice.psm1
        ps1 := (R.state k).timeSlice.ps0
        ps2 := (R.state k).timeSlice.ps1
        ps3 := (R.state k).timeSlice.ps2
        ps4 := (R.state k).timeSlice.ps3
        ps5 := (R.state k).timeSlice.ps4
        ps6 := (R.state k).timeSlice.ps5
        ps7 := (R.state k).timeSlice.ps6
        ps8 := (R.state k).timeSlice.ps7
        ps9 := (R.state k).timeSlice.ps8 } := by
  rw [R.state_succ hnext]
  change clockTimeSlices R.p (R.env k) (R.state k) = _
  rw [clockTimeSlices, if_neg (by simp [h])]

theorem commit_succ (h : (R.env k).iRst = false) (hnext : (R.env (k + 1)).iRst = false) :
    (R.state (k + 1)).commit =
      { ps3 := if (R.state k).doUpdate.doUpdatePs2 then doCommitPs2 (R.env k) (R.state k) else false
        ps4 := (R.state k).commit.ps3
        ps5 := (R.state k).commit.ps4
        ps6 := (R.state k).commit.ps5
        ps7 := (R.state k).commit.ps6
        ps8 := (R.state k).commit.ps7
        ps9 := (R.state k).commit.ps8 } := by
  rw [R.state_succ hnext]
  change clockCommit (R.env k) (R.state k) = _
  rw [clockCommit, if_neg (by simp [h])]

structure CommitSlot (R : Run δ) (k : Nat) : Prop where
  doUpdate : bitShifted R.p.doUpdate (R.state (k + 2)).timeSlice.ps3 = true
  wraddr : (R.state (k + 2)).fifoControls.fifoDescBuffWraddr =
    fieldAt R.p.updateFifoNum (R.state (k + 2)).timeSlice.ps3 (descWidth R.p)
  firstEngine : (R.state (k + 1)).dataMux.firstEnginePs2 =
    bitSelect R.p.firstEngine (R.state (k + 2)).timeSlice.ps3 (R.env k).unknownBit
  doUpdatePs2 : (R.state (k + 1)).doUpdate.doUpdatePs2 = true
  enabled : (R.state k).doUpdate.enableCounter = 3

theorem commitSlot_of_ps3 (h : (R.state (k + 2)).commit.ps3 = true) : CommitSlot R k := by
  obtain ⟨hup, _⟩ := doUpdate_of_ps3 h
  obtain ⟨hrst, hcount, hslot⟩ := slot_of_doUpdate hup
  have hrst₁ := not_rst_of_doUpdate hup
  have hps2 : (R.state (k + 1)).timeSlice.ps2 = (R.state k).timeSlice.ps1 := by
    rw [timeSlice_succ hrst hrst₁]
  have hps3 : (R.state (k + 2)).timeSlice.ps3 = (R.state (k + 1)).timeSlice.ps2 := by
    rw [timeSlice_succ hrst₁ (not_rst_of_ps3 h)]
  rw [← hps2, ← hps3] at hslot
  refine ⟨hslot, ?_, ?_, hup, hcount⟩
  · rw [R.fifoControls_succ (k + 1), hps3]
    rfl
  · rw [R.dataMux_succ k, hps3, hps2]
    rfl

theorem enableCounter_lt (h : (R.env 0).iRst = true) (k : Nat) :
    (R.state (k + 1)).doUpdate.enableCounter ≤ k := by
  induction k with
  | zero =>
    rw [state, seen_succ, settle]
    split
    · exact le_rfl
    · change (clockDoUpdate R.p (R.env 0) _).enableCounter ≤ 0
      rw [clockDoUpdate, if_pos h]
  | succ k ih =>
    rw [state, seen_succ, settle]
    split
    · exact Nat.zero_le _
    · change (clockDoUpdate R.p (R.env (k + 1)) (R.state (k + 1))).enableCounter ≤ k + 1
      rw [clockDoUpdate]
      split
      · exact Nat.zero_le _
      · split
        · exact (Nat.mod_le _ _).trans (Nat.succ_le_succ ih)
        · exact ih.trans (Nat.le_succ k)

theorem six_le_of_ps3 (h : (R.env 0).iRst = true) (hcommit : (R.state (k + 2)).commit.ps3 = true) :
    4 ≤ k := by
  have hcount := (commitSlot_of_ps3 hcommit).enabled
  cases k with
  | zero =>
    rw [state, seen, settle, if_pos h] at hcount
    cases hcount
  | succ k =>
    have := enableCounter_lt h k
    omega

end Commits

section Slots

def slot (R : Run δ) (a : Nat) : Nat := a % 2 ^ regWidth R.p.log2TimeSlices

variable {R} {r : Nat}

theorem state_release (h : Released r R.env) : ∃ q, r = q + 1 ∧ (R.env q).iRst = true ∧
    R.state r = clock R.p R.dsp (R.env q) (R.state q) := by
  obtain ⟨q, rfl⟩ := Nat.exists_eq_add_one_of_ne_zero h.pos.ne'
  exact ⟨q, rfl, h.rst, R.state_succ (h.free 0)⟩

theorem state_add_succ (h : Released r R.env) (a : Nat) : R.state (r + a + 1) =
    clock R.p R.dsp (R.env (r + a)) (R.state (r + a)) := R.state_succ (h.free (a + 1))

theorem psm1_add (h : Released r R.env) (a : Nat) :
    (R.state (r + a)).timeSlice.psm1 = R.slot a := by
  induction a with
  | zero =>
    obtain ⟨q, rfl, hq, hstate⟩ := state_release h
    rw [Nat.add_zero, hstate]
    change (clockTimeSlices R.p (R.env q) (R.state q)).psm1 = _
    rw [clockTimeSlices, if_pos hq, slot, Nat.zero_mod]
  | succ a ih =>
    rw [← Nat.add_assoc, timeSlice_succ (h.free a) (h.free (a + 1)), ih]
    exact Nat.mod_add_mod a _ 1

theorem ps0_add (h : Released r R.env) (a : Nat) :
    (R.state (r + a + 1)).timeSlice.ps0 = R.slot a := by
  rw [timeSlice_succ (h.free a) (h.free (a + 1)), psm1_add h]

theorem ps1_add (h : Released r R.env) (a : Nat) :
    (R.state (r + a + 2)).timeSlice.ps1 = R.slot a := by
  have hstep := timeSlice_succ (k := r + a + 1) (h.free (a + 1)) (h.free (a + 2))
  rw [hstep, ps0_add h]

theorem ps3_add (h : Released r R.env) (a : Nat) :
    (R.state (r + a + 4)).timeSlice.ps3 = R.slot a := by
  have hps3 := timeSlice_succ (k := r + a + 3) (h.free (a + 3)) (h.free (a + 4))
  have hps2 := timeSlice_succ (k := r + a + 2) (h.free (a + 2)) (h.free (a + 3))
  rw [hps3, hps2, ps1_add h]

theorem enableCounter_add (h : Released r R.env) (a : Nat) :
    (R.state (r + a)).doUpdate.enableCounter = min a 3 := by
  induction a with
  | zero =>
    obtain ⟨q, rfl, hq, hstate⟩ := state_release h
    rw [Nat.add_zero, hstate]
    change (clockDoUpdate R.p (R.env q) (R.state q)).enableCounter = _
    rw [clockDoUpdate, if_pos hq]
    rfl
  | succ a ih =>
    rw [← Nat.add_assoc, state_add_succ h]
    change (clockDoUpdate R.p (R.env (r + a)) (R.state (r + a))).enableCounter = _
    rw [clockDoUpdate, if_neg (by simp [h.free a]), ih]
    split <;> simp only <;> omega

theorem doUpdatePs2_add (h : Released r R.env) (a : Nat) :
    (R.state (r + a + 3)).doUpdate.doUpdatePs2 =
      (decide (1 ≤ a) && bitShifted R.p.doUpdate (R.slot a)) := by
  have hstep : R.state (r + a + 3) = _ := state_add_succ h (a + 2)
  rw [hstep]
  change (clockDoUpdate R.p (R.env (r + (a + 2))) (R.state (r + (a + 2)))).doUpdatePs2 = _
  rw [clockDoUpdate, if_neg (by simp [h.free (a + 2)]), enableCounter_add h]
  cases a with
  | zero => rfl
  | succ a =>
    rw [if_neg (by omega), ← Nat.add_assoc, ps1_add h]
    rfl

theorem rdaddrA_add (h : Released r R.env) (a : Nat) :
    (R.state (r + a + 1)).fifoControls.fifoDescBuffARdaddr =
      fieldAt R.p.rdFifoNum (R.slot a) (descWidth R.p) := by
  rw [R.fifoControls_succ, clockFifoControls, psm1_add h]

theorem firstTapPs2_add (h : Released r R.env) (a : Nat) :
    (R.state (r + a + 3)).fifoControls.firstTapPs2 = bitShifted R.p.firstTap (R.slot a) := by
  rw [R.fifoControls_succ, clockFifoControls, ps1_add h]

end Slots

end Run

end Rtl

end FirEngine
