import EmbeddedProjects.FirEngine.DspSlice
import EmbeddedProjects.FirEngine.Pipeline
import EmbeddedProjects.FirEngine.Regions

namespace FirEngine

open FirEngineDesc FirEngineMacDesc Rtl AlignedRing

variable {δ : Type}

section Parameters

variable {sort : List FirEngineMacFifoDesc → List FirEngineMacFifoDesc} {spec : FirEngineSpec}
  {mac : FirEngineMacDesc} {p : RtlParameters} {T : Nat} {gs : List Nat}

theorem updateSlot_of_doUpdate (hgen : Generated sort spec mac p) {t : Nat}
    (h : bitShifted p.doUpdate t = true) :
    ∃ f, mac.firUpdateSlot[t]? = some ⟨some f⟩ := by
  rw [bitShifted, fieldAt, hgen.doUpdate, List.getD_eq_getElem?_getD, List.getElem?_map] at h
  cases hslot : mac.firUpdateSlot[t]? with
  | none => simp [hslot] at h
  | some s =>
    obtain ⟨firIndex⟩ := s
    cases firIndex with
    | none => simp [hslot, oneIfUsed, FirUpdateSlot.isSlotEmpty] at h
    | some f => exact ⟨f, rfl⟩

structure Driven (p : RtlParameters) : Prop where
  firstEngine : ∀ {t : Nat}, bitShifted p.doUpdate t = true → p.firstEngine[t]? = some 1
  fifo : ∀ {t : Nat}, bitShifted p.doUpdate t = true →
    ∃ k < p.numFifos, p.updateFifoNum[t]? = some k
  fits : p.numFifos ≤ descSize p
  descs : p.initialDescs.length = p.numFifos

theorem le_two_pow_regWidth (n : Nat) : 1 <<< n ≤ 2 ^ regWidth n := by
  rw [Nat.shiftLeft_eq, Nat.one_mul, regWidth]
  split
  · next h =>
    rw [h]
    decide
  · exact le_rfl

theorem descSize_le (p : RtlParameters) : descSize p ≤ 2 ^ descWidth p := le_two_pow_regWidth _

theorem bufferSize_le (p : RtlParameters) : bufferSize p ≤ 2 ^ addrWidth p := le_two_pow_regWidth _

theorem numFifos_eq (harr : Arranged spec mac sort gs) (hgen : Generated sort spec mac p) :
    p.numFifos = gs.length := by
  rw [hgen.numFifos, getNumFifos, harr.fifos, List.length_map]

theorem driven_of_generated (hb : BuiltMac spec T mac)
    (hr : ∀ f ∈ mac.inputFirs, InRange spec f) (harr : Arranged spec mac sort gs)
    (hgen : Generated sort spec mac p) : Driven p where
  firstEngine := by
    intro t h
    obtain ⟨f, hf⟩ := updateSlot_of_doUpdate hgen h
    rw [hgen.firstEngine, List.getElem?_map, hf]
    rfl
  fifo := by
    intro t h
    obtain ⟨f, hf⟩ := updateSlot_of_doUpdate hgen h
    obtain ⟨k, hk, hup⟩ := updateFifoNum_of_slot hb hgen hf
    refine ⟨k, ?_, hup⟩
    rw [numFifos_eq harr hgen, harr.perm.length_eq]
    exact (List.getElem?_eq_some_iff.mp hk).1
  fits := by
    have hlog : p.log2NumFifos = IntUtils.bitWidthForEncodingValues p.numFifos := by
      rw [hgen.numFifos]
      exact congrArg (·.log2NumFifos) hgen.result
    have hle : p.numFifos ≤ 2 ^ 32 := by
      rw [numFifos_eq harr hgen, harr.perm.length_eq]
      exact hb.inv.inputs_le.trans (by decide)
    rw [descSize, Nat.shiftLeft_eq, Nat.one_mul, hlog]
    exact IntUtils.le_two_pow_bitWidth hle
  descs := (length_initialDescs hr harr hgen).trans (numFifos_eq harr hgen).symm

theorem driven_of_isSort (hb : BuiltMac spec T mac) (hsort : IsSort sort)
    (hgen : Generated sort spec mac p) : Driven p := by
  obtain ⟨gs, harr, _⟩ := hb.inv.arranged hsort
  exact driven_of_generated hb (renderable_of_generated hb hsort hgen).firs harr hgen

def RingBelow (bound : Nat) (desc : BitVec 16) : Prop :=
  ∃ o n, HoldsRing o n desc ∧ o + 2 ^ regionBits (n - 1) ≤ bound

theorem coeffValues_le_bufferSize (hgen : Generated sort spec mac p) :
    p.coeffValues.length ≤ bufferSize p := by
  have hlog : p.log2BufferDepth = IntUtils.bitWidthForEncodingValues p.coeffValues.length :=
    congrArg (·.log2BufferDepth) hgen.result
  rw [bufferSize, Nat.shiftLeft_eq, Nat.one_mul, hlog]
  exact IntUtils.le_two_pow_bitWidth (hgen.coeffValues_le.trans (by decide))

theorem FifoAt.ringBelow {k g o bound : Nat} (h : FifoAt spec mac sort p k g o)
    (hg : InRange spec g) (hbound : p.coeffValues.length ≤ bound) (heven : 2 ∣ bound) :
    RingBelow bound (BitVec.ofNat 16 (o * 64 + (spec.numCoeff g - 1))) := by
  have hfits := h.fits.trans hbound
  rcases Nat.lt_or_ge (spec.numCoeff g) 2 with hone | htwo
  · -- one word is reserved, and the ring is the pair of words around it
    have hpos := hg.pos
    have hn : spec.numCoeff g = 1 := by omega
    have hwords := memWordsFor_of_one hn
    refine ⟨o / 2 * 2, 1, ⟨h.length.trans (by rw [hn]), Nat.dvd_mul_left 2 _, ?_⟩, ?_⟩
    · rw [h.offset]
      exact ⟨Nat.div_mul_le_self o 2, Nat.lt_div_mul_add (by decide)⟩
    · change o / 2 * 2 + 2 ≤ bound
      omega
  · have hwords := memWordsFor_eq_regionBits hg htwo
    exact ⟨o, _, h.holdsRing hwords, hwords ▸ hfits⟩

theorem ringBelow_initial (hb : BuiltMac spec T mac) (hr : ∀ f ∈ mac.inputFirs, InRange spec f)
    (harr : Arranged spec mac sort gs) (hgen : Generated sort spec mac p) {bound : Nat}
    (hbound : p.coeffValues.length ≤ bound) (heven : 2 ∣ bound) :
    ∀ desc ∈ p.initialDescs, RingBelow bound desc := by
  intro desc hdesc
  obtain ⟨k, hk⟩ := List.getElem?_of_mem hdesc
  have hlt : k < gs.length := by
    rw [← length_initialDescs hr harr hgen]
    exact (List.getElem?_eq_some_iff.mp hk).1
  obtain ⟨o, hat⟩ := harr.fifoAt hb hr hgen (List.getElem?_eq_getElem hlt)
  rw [hat.desc, Option.some.injEq] at hk
  exact hk ▸ hat.ringBelow (hr _ hat.mem) hbound heven

theorem two_dvd_bufferSize (hgen : Generated sort spec mac p) (hroom : 1 < p.bufferDepth) :
    2 ∣ bufferSize p := by
  have hdepth := hgen.bufferDepth
  have hle := coeffValues_le_bufferSize hgen
  rw [bufferSize, Nat.shiftLeft_eq, Nat.one_mul] at hle ⊢
  refine dvd_pow_self 2 fun hzero => ?_
  rw [hzero] at hle
  omega

theorem holdsRing_pushAll {descs : List (BitVec 16)} {i o n : Nat} {desc₀ : BitVec 16}
    (h : descs[i]? = some desc₀) (hring : HoldsRing o n desc₀) (pushes : List Nat) :
    ∀ desc, (pushAll descs pushes)[i]? = some desc → HoldsRing o n desc := by
  induction pushes generalizing descs desc₀ with
  | nil =>
    intro desc hdesc
    obtain rfl := Option.some.inj (h.symm.trans hdesc)
    exact hring
  | cons k pushes ih =>
    have hnext : (descs.modify k pushed)[i]? = some (if k = i then pushed desc₀ else desc₀) := by
      rw [List.getElem?_modify, h]
      rfl
    refine ih hnext ?_
    split
    · exact hring.pushed
    · exact hring

end Parameters

namespace Rtl.Run

section Bank

variable (R : Run δ)

def commitTarget (k : Nat) : Option Nat :=
  if (R.state k).commit.ps3 then R.p.updateFifoNum[(R.state k).timeSlice.ps3]? else none

def pushes : Nat → List Nat
  | 0 => []
  | k + 1 => pushes k ++ (R.commitTarget k).toList

def bank (k : Nat) : List (BitVec 16) := pushAll R.p.initialDescs (R.pushes k)

variable {R} {k i : Nat}

theorem bank_succ_of_some (h : R.commitTarget k = some i) :
    R.bank (k + 1) = (R.bank k).modify i pushed := by
  rw [bank, pushes, h, pushAll, List.foldl_append]
  rfl

theorem bank_succ_of_none (h : R.commitTarget k = none) : R.bank (k + 1) = R.bank k := by
  rw [bank, pushes, h, Option.toList_none, List.append_nil, bank]

theorem length_bank (R : Run δ) (k : Nat) : (R.bank k).length = R.p.initialDescs.length := by
  induction k with
  | zero => rfl
  | succ k ih =>
    cases h : R.commitTarget k with
    | none => rw [bank_succ_of_none h, ih]
    | some i => rw [bank_succ_of_some h, List.length_modify, ih]

theorem bank_succ_of_ne (h : R.commitTarget k ≠ some i) :
    (R.bank (k + 1))[i]? = (R.bank k)[i]? := by
  cases htarget : R.commitTarget k with
  | none => rw [bank_succ_of_none htarget]
  | some l =>
    have hne : l ≠ i := fun hl => h (hl ▸ htarget)
    rw [bank_succ_of_some htarget]
    exact List.getElem?_modify_ne _ _ hne

theorem ringBelow_of_bank {bound : Nat} {desc : BitVec 16}
    (h : ∀ desc ∈ R.p.initialDescs, RingBelow bound desc) (hdesc : (R.bank k)[i]? = some desc) :
    RingBelow bound desc := by
  have hlt : i < R.p.initialDescs.length := by
    rw [← length_bank R k]
    exact (List.getElem?_eq_some_iff.mp hdesc).1
  obtain ⟨o, n, hring, hbelow⟩ := h _ (List.getElem_mem hlt)
  exact ⟨o, n, holdsRing_pushAll (List.getElem?_eq_getElem hlt) hring _ desc hdesc, hbelow⟩

theorem bank_of_quiet {a b : Nat} (hab : a ≤ b)
    (h : ∀ k, a ≤ k → k < b → R.commitTarget k ≠ some i) : (R.bank b)[i]? = (R.bank a)[i]? := by
  induction b, hab using Nat.le_induction with
  | base => rfl
  | succ b hab ih =>
    rw [bank_succ_of_ne (h b hab (Nat.lt_succ_self b))]
    exact ih fun k ha hb => h k ha (Nat.lt_succ_of_lt hb)

end Bank

section Commit

variable {R : Run δ} {k i : Nat}

theorem exists_of_ps3 (h : (R.env 0).iRst = true) (hcommit : (R.state k).commit.ps3 = true) :
    ∃ m, k = m + 6 := by
  rcases k with _ | _ | k
  · exact absurd (not_rst_of_ps3 hcommit) (by simp [h])
  · exact absurd (not_rst_of_doUpdate (doUpdate_of_ps3 hcommit).1) (by simp [h])
  · have := six_le_of_ps3 h hcommit
    exact ⟨k - 4, by omega⟩

theorem ps3_of_commitTarget (h : R.commitTarget k = some i) : (R.state k).commit.ps3 = true := by
  rw [commitTarget] at h
  split at h
  · assumption
  · cases h

theorem commitTarget_of_ps3 (hd : Driven R.p) (h : (R.env 0).iRst = true)
    (hcommit : (R.state k).commit.ps3 = true) :
    ∃ i < R.p.numFifos, R.commitTarget k = some i ∧
      (R.state k).fifoControls.fifoDescBuffWraddr = i := by
  obtain ⟨m, rfl⟩ := exists_of_ps3 h hcommit
  have hslot := commitSlot_of_ps3 hcommit
  obtain ⟨i, hi, hfifo⟩ := hd.fifo hslot.doUpdate
  refine ⟨i, hi, ?_, ?_⟩
  · rw [commitTarget, if_pos hcommit, hfifo]
  · rw [hslot.wraddr]
    exact fieldAt_of_getElem? hfifo (hi.trans_le (hd.fits.trans (descSize_le R.p)))

theorem wraddr_of_commitTarget (hd : Driven R.p) (h : (R.env 0).iRst = true)
    (htarget : R.commitTarget k = some i) :
    i < R.p.numFifos ∧ (R.state k).fifoControls.fifoDescBuffWraddr = i := by
  obtain ⟨l, hl, htarget', hwraddr⟩ := commitTarget_of_ps3 hd h (ps3_of_commitTarget htarget)
  obtain rfl := Option.some.inj (htarget.symm.trans htarget')
  exact ⟨hl, hwraddr⟩

theorem clockFifoDescBuff_of_commit {p : RtlParameters} {inp : Inputs} {s : State δ}
    (hcommit : s.commit.ps3 = true) (hwraddr : s.fifoControls.fifoDescBuffWraddr = i)
    (hi : i < descSize p) (buff : FifoDescBuff) (rdaddr : Nat) :
    (clockFifoDescBuff p inp s buff rdaddr).contents =
      Function.update buff.contents i (fifoDescBuffWrdata s) := by
  change writeRam _ _ _ _ _ = _
  rw [hcommit, hwraddr, writeRam, if_pos ⟨rfl, hi⟩]

theorem clockFifoDescBuff_of_not_commit {p : RtlParameters} {inp : Inputs} {s : State δ}
    (hcommit : s.commit.ps3 = false) (buff : FifoDescBuff) (rdaddr : Nat) :
    (clockFifoDescBuff p inp s buff rdaddr).contents = buff.contents := by
  change writeRam _ _ _ _ _ = _
  rw [hcommit, writeRam]
  exact if_neg fun h => absurd h.1 Bool.false_ne_true

theorem descs_of_some (hd : Driven R.p) (h : (R.env 0).iRst = true)
    (htarget : R.commitTarget k = some i) :
    (R.state (k + 1)).fifoDescBuffA.contents =
      Function.update (R.state k).fifoDescBuffA.contents i (fifoDescBuffWrdata (R.state k)) ∧
    (R.state (k + 1)).fifoDescBuffB.contents =
      Function.update (R.state k).fifoDescBuffB.contents i (fifoDescBuffWrdata (R.state k)) := by
  obtain ⟨hi, hwraddr⟩ := wraddr_of_commitTarget hd h htarget
  have hcommit := ps3_of_commitTarget htarget
  rw [fifoDescBuffA_succ, fifoDescBuffB_succ]
  exact ⟨clockFifoDescBuff_of_commit hcommit hwraddr (hi.trans_le hd.fits) _ _,
    clockFifoDescBuff_of_commit hcommit hwraddr (hi.trans_le hd.fits) _ _⟩

theorem descs_of_none (hd : Driven R.p) (h : (R.env 0).iRst = true)
    (htarget : R.commitTarget k = none) :
    (R.state (k + 1)).fifoDescBuffA.contents = (R.state k).fifoDescBuffA.contents ∧
    (R.state (k + 1)).fifoDescBuffB.contents = (R.state k).fifoDescBuffB.contents := by
  have hcommit : (R.state k).commit.ps3 = false := by
    cases hcommit : (R.state k).commit.ps3 with
    | false => rfl
    | true =>
      obtain ⟨_, _, hsome, _⟩ := commitTarget_of_ps3 hd h hcommit
      rw [htarget] at hsome
      cases hsome
  rw [fifoDescBuffA_succ, fifoDescBuffB_succ]
  exact ⟨clockFifoDescBuff_of_not_commit hcommit _ _,
    clockFifoDescBuff_of_not_commit hcommit _ _⟩

theorem descs_of_ne (hd : Driven R.p) (h : (R.env 0).iRst = true)
    (hne : R.commitTarget k ≠ some i) :
    (R.state (k + 1)).fifoDescBuffA.contents i = (R.state k).fifoDescBuffA.contents i ∧
    (R.state (k + 1)).fifoDescBuffB.contents i = (R.state k).fifoDescBuffB.contents i := by
  cases htarget : R.commitTarget k with
  | none =>
    obtain ⟨hA, hB⟩ := descs_of_none hd h htarget
    rw [hA, hB]
    exact ⟨rfl, rfl⟩
  | some l =>
    have hil : i ≠ l := fun hl => hne (hl ▸ htarget)
    obtain ⟨hA, hB⟩ := descs_of_some hd h htarget
    rw [hA, hB, Function.update_of_ne hil, Function.update_of_ne hil]
    exact ⟨rfl, rfl⟩

end Commit

section Synced

-- what the stored word needs: RDFIFONUM of the slot two before is `i`, and no commit to `i`
-- in the five cycles before
structure DescriptorReady (R : Run δ) (k i : Nat) : Prop where
  portA : (R.state (k - 5)).fifoControls.fifoDescBuffARdaddr = i
  quiet : ∀ l, k - 5 ≤ l → l < k → R.commitTarget l ≠ some i

structure CommitReady (R : Run δ) (k i : Nat) : Prop where
  descriptor : DescriptorReady R k i
  portA : (R.state (k - 6)).fifoControls.fifoDescBuffARdaddr = i
  quiet : R.commitTarget (k - 6) ≠ some i

def Synced (R : Run δ) (k i : Nat) : Prop :=
  (R.bank k)[i]? = some ((R.state k).fifoDescBuffA.contents i) ∧
  (R.bank k)[i]? = some ((R.state k).fifoDescBuffB.contents i)

variable {R : Run δ} {k i : Nat}

theorem synced_zero (hon : PowerOn R.p R.s₀) (hd : Driven R.p) (hi : i < R.p.numFifos) :
    Synced R 0 i := by
  have hlt : i < R.p.fifoSizes.length := by
    rw [← List.length_map (f := BitVec.ofNat 16)]
    exact hi.trans_le hd.descs.ge
  have hbank : (R.bank 0)[i]? = some (BitVec.ofNat 16 (R.p.fifoSizes.getD i 0)) := by
    change (R.p.fifoSizes.map (BitVec.ofNat 16))[i]? = _
    rw [List.getElem?_map, List.getD_eq_getElem?_getD, List.getElem?_eq_getElem hlt]
    rfl
  rw [Synced, hbank, state, seen, settle_fifoDescBuffA, settle_fifoDescBuffB]
  exact ⟨congrArg some (hon.fifoDescBuffA i hi).symm, congrArg some (hon.fifoDescBuffB i hi).symm⟩

theorem descRead_of_synced (hd : Driven R.p) (hi : i < R.p.numFifos) (hsync : Synced R k i)
    (hport : (R.state k).fifoControls.fifoDescBuffARdaddr = i) :
    (R.bank k)[i]? = some (R.descRead k) := by
  rw [R.descRead_eq hport (hi.trans_le hd.fits)]
  exact hsync.1

theorem synced_of_ready (hon : PowerOn R.p R.s₀) (hd : Driven R.p) (h : (R.env 0).iRst = true)
    (hi : i < R.p.numFifos) (k : Nat)
    (hready : ∀ l < k, R.commitTarget l = some i → DescriptorReady R l i) : Synced R k i := by
  induction k using Nat.strong_induction_on with
  | h k ih =>
    cases k with
    | zero => exact synced_zero hon hd hi
    | succ k =>
      have hprev : ∀ a ≤ k, Synced R a i := fun a ha =>
        ih a (Nat.lt_succ_of_le ha) fun l hl => hready l (hl.trans (Nat.lt_succ_of_le ha))
      by_cases htarget : R.commitTarget k = some i
      · obtain ⟨m, rfl⟩ := exists_of_ps3 h (ps3_of_commitTarget htarget)
        have hr := hready (m + 6) (Nat.lt_succ_self _) htarget
        have hread : (R.bank (m + 6))[i]? = some (R.descRead (m + 1)) := by
          rw [bank_of_quiet (by omega : m + 1 ≤ m + 6) hr.quiet]
          exact descRead_of_synced hd hi (hprev (m + 1) (by omega)) hr.portA
        obtain ⟨hA, hB⟩ := descs_of_some hd h htarget
        rw [Synced, hA, hB, Function.update_self, Function.update_self,
          bank_succ_of_some htarget, List.getElem?_modify_eq, hread,
          R.fifoDescBuffWrdata_add_five (m + 1)]
        exact ⟨rfl, rfl⟩
      · obtain ⟨hA, hB⟩ := descs_of_ne hd h htarget
        rw [Synced, hA, hB, bank_succ_of_ne htarget]
        exact hprev k le_rfl

end Synced

section Lands

structure CommitLands (R : Run δ) (k i : Nat) (desc : BitVec 16) : Prop where
  bank : (R.bank k)[i]? = some desc
  next : (nextAddr desc).toNat =
    advance (fifoRegionOrigin desc).toNat (regionSize desc) (fifoOffset desc).toNat
  sample : (R.state (k + 1)).dataBuffA.contents =
    Function.update (R.state k).dataBuffA.contents (nextAddr desc).toNat
      (R.state (k - 1)).channels.chosenDataPs2
  storedA : (R.state (k + 1)).fifoDescBuffA.contents =
    Function.update (R.state k).fifoDescBuffA.contents i
      (fifoDescWord (nextAddr desc) (fifoLengthMinusOne desc))
  storedB : (R.state (k + 1)).fifoDescBuffB.contents =
    Function.update (R.state k).fifoDescBuffB.contents i
      (fifoDescWord (nextAddr desc) (fifoLengthMinusOne desc))

variable {R : Run δ} {k i : Nat}

theorem wrdata_of_commit (hd : Driven R.p) (hcommit : (R.state (k + 2)).commit.ps3 = true) :
    (R.state (k + 2)).dataMux.dataBuffA1Wrdata = (R.state (k + 1)).channels.chosenDataPs2 := by
  have hslot := commitSlot_of_ps3 hcommit
  have hfirst : (R.state (k + 1)).dataMux.firstEnginePs2 = true := by
    rw [hslot.firstEngine, bitSelect, hd.firstEngine hslot.doUpdate]
    rfl
  rw [R.dataMux_succ (k + 1), clockDataMux, if_pos hfirst]

theorem dataBuffA_of_commit (hd : Driven R.p)
    (hcommit : (R.state (k + 6)).commit.ps3 = true)
    (hfits : (nextAddr (R.descRead k)).toNat < bufferSize R.p) :
    (R.state (k + 7)).dataBuffA.contents =
      Function.update (R.state (k + 6)).dataBuffA.contents (nextAddr (R.descRead k)).toNat
        (R.state (k + 5)).channels.chosenDataPs2 := by
  have hup := (doUpdate_of_ps3 hcommit).1
  rw [R.dataBuffA_succ (k + 6), rwaddr1, R.updateAddr_add_six hup,
    Nat.mod_eq_of_lt (hfits.trans_le (bufferSize_le R.p)), hcommit, wrdata_of_commit hd hcommit]
  change writeRam _ _ _ _ _ = _
  rw [writeRam, if_pos ⟨rfl, hfits⟩]

theorem commitLands_of_ready (hon : PowerOn R.p R.s₀) (hd : Driven R.p)
    (hbuf : ∀ desc ∈ R.p.initialDescs, RingBelow (bufferSize R.p) desc)
    (h : (R.env 0).iRst = true)
    (htarget : R.commitTarget k = some i)
    (hready : ∀ l ≤ k, R.commitTarget l = some i → CommitReady R l i) :
    ∃ desc, CommitLands R k i desc := by
  have hcommit := ps3_of_commitTarget htarget
  obtain ⟨hi, _⟩ := wraddr_of_commitTarget hd h htarget
  obtain ⟨m, rfl⟩ := exists_of_ps3 h hcommit
  have hr := hready (m + 6) le_rfl htarget
  have hsync : ∀ a ≤ m + 6, Synced R a i := fun a ha =>
    synced_of_ready hon hd h hi a fun l hl hlt => (hready l (hl.le.trans ha) hlt).descriptor
  have hdesc := descRead_of_synced hd hi (hsync (m + 1) (by omega)) hr.descriptor.portA
  have haddr := descRead_of_synced hd hi (hsync m (by omega)) hr.portA
  have hbank : (R.bank (m + 6))[i]? = (R.bank (m + 1))[i]? :=
    bank_of_quiet (by omega) hr.descriptor.quiet
  have hsame : R.descRead m = R.descRead (m + 1) := by
    exact Option.some.inj (haddr.symm.trans ((bank_succ_of_ne hr.quiet).symm.trans hdesc))
  have hfits : (nextAddr (R.descRead m)).toNat < bufferSize R.p := by
    obtain ⟨o, n, hring, hbelow⟩ := ringBelow_of_bank hbuf haddr
    exact hring.within_next.2.trans_le hbelow
  obtain ⟨hA, hB⟩ := descs_of_some hd h htarget
  rw [R.fifoDescBuffWrdata_add_five (m + 1), pushed] at hA hB
  refine ⟨R.descRead (m + 1), hbank.trans hdesc, succAddr_eq_advance _ _, ?_, hA, hB⟩
  rw [← hsame]
  exact dataBuffA_of_commit hd hcommit hfits

end Lands

end Rtl.Run

theorem commits_land_when_ready (spec : FirEngineSpec) (T : Nat) (d : FirEngineDesc)
    (h : buildFirEngine spec T = .ok d) (mac : FirEngineMacDesc) (hmac : mac ∈ d.firEngineMacDesc)
    (sort : List FirEngineMacFifoDesc → List FirEngineMacFifoDesc) (hsort : IsSort sort)
    (R : Run δ) (hp : generateRtl sort spec mac = .ok R.p) (hon : PowerOn R.p R.s₀)
    (hrst : (R.env 0).iRst = true) (hroom : 1 < R.p.bufferDepth) (k i : Nat)
    (htarget : R.commitTarget k = some i)
    (hready : ∀ l ≤ k, R.commitTarget l = some i → Run.CommitReady R l i) :
    ∃ desc, Run.CommitLands R k i desc := by
  have hb := builtMac_of_buildFirEngine h hmac
  have hgen := generateRtl_eq_ok.mp hp
  have hr := (renderable_of_generated hb hsort hgen).firs
  obtain ⟨gs, harr, _⟩ := hb.inv.arranged hsort
  exact Run.commitLands_of_ready hon (driven_of_generated hb hr harr hgen)
    (ringBelow_initial hb hr harr hgen (coeffValues_le_bufferSize hgen)
      (two_dvd_bufferSize hgen hroom)) hrst htarget hready

def fastSpec : FirEngineSpec where
  clockFreq := 16
  firSpec := [⟨4, [1 / 4, 1 / 4]⟩]

def fastParameters : RtlParameters where
  numInputs := 1
  numOutputs := 1
  log2BufferDepth := 1
  bufferDepth := 2
  log2NumFifos := 0
  numFifos := 1
  log2TimeSlices := 3
  timeSlices := 8
  channelSelect := [0, 15, 15, 15, 0, 15, 15, 15]
  firstEngine := [1, 0, 0, 0, 1, 0, 0, 0]
  lastEngine := [1, 0, 0, 0, 1, 0, 0, 0]
  firstTap := [0, 0, 0, 1, 0, 0, 0, 1]
  preAddMode := [0, 0, 0, 0, 0, 0, 0, 0]
  mulMode := [1, 1, 1, 0, 1, 1, 1, 0]
  addPrevEngineAccum := [0, 0, 0, 0, 0, 0, 0, 0]
  rdFifoNum := [0, 0, 0, 0, 0, 0, 0, 0]
  updateFifoNum := [0, 0, 0, 0, 0, 0, 0, 0]
  doUpdate := [1, 0, 0, 0, 1, 0, 0, 0]
  fifoSizes := [1]
  coeffValues := [32768, 32768]

theorem generated_fastSpec : ∃ d mac, buildFirEngine fastSpec 8 = .ok d ∧
    mac ∈ d.firEngineMacDesc ∧
    generateRtl insertionSortByMemWords fastSpec mac = .ok fastParameters := by
  obtain ⟨d, hd, hcheck⟩ := Outcome.exists_of_okAnd (x := buildFirEngine fastSpec 8)
    (p := fun d => d.firEngineMacDesc.any fun mac =>
      Outcome.okAnd (generateRtl insertionSortByMemWords fastSpec mac)
        fun p => decide (p = fastParameters)) (by decide +kernel)
  obtain ⟨mac, hmac, hcheck⟩ := List.any_eq_true.mp hcheck
  obtain ⟨p, hp, hcheck⟩ := Outcome.exists_of_okAnd hcheck
  exact ⟨d, mac, hd, hmac, of_decide_eq_true hcheck ▸ hp⟩

def announce (cycles : List Nat) (k : Nat) : Inputs where
  iRst := k == 0
  iData := fun _ => BitVec.ofNat 18 (cycles.countP (· ≤ k))
  iDataChanged := fun _ => cycles.countP (· ≤ k) % 2 == 1
  iChainD := 0
  iChainR := 0
  iChainS := 0
  iInputChangeChain := false
  iCoefBuffWren := false
  iCoefBuffWraddr := 0
  iCoefBuffWrdata := 0
  unknownData := 0
  unknownDesc := 0
  unknownBit := false

theorem resetFor_announce (cycles : List Nat) : ResetFor 1 (announce cycles) := by
  intro k
  cases k <;> rfl

def fastRun : Run DspRegs where
  p := fastParameters
  dsp := pipelined
  env := announce [4, 8]
  s₀ := zeroState fastParameters {}

theorem first_fast_commit_lands : ∃ desc, Run.CommitLands fastRun 9 0 desc := by
  obtain ⟨d, mac, hd, hmac, hp⟩ := generated_fastSpec
  have hfirst : ∀ l < 9, fastRun.commitTarget l = none := by decide +kernel
  refine commits_land_when_ready fastSpec 8 d hd mac hmac insertionSortByMemWords
    isSort_insertionSortByMemWords fastRun hp (powerOn_zeroState _ _) rfl (by decide) 9 0
    (by decide +kernel) fun l hl htarget => ?_
  obtain rfl : l = 9 := by
    rcases Nat.lt_or_eq_of_le hl with hlt | rfl
    · rw [hfirst l hlt] at htarget
      cases htarget
    · rfl
  refine ⟨⟨by decide +kernel, fun l _ hlt => ?_⟩, by decide +kernel, ?_⟩
  · rw [hfirst l hlt]
    simp
  · rw [hfirst _ (by decide)]
    simp

theorem second_fast_commit_overwrites : ∃ d mac, buildFirEngine fastSpec 8 = .ok d ∧
    mac ∈ d.firEngineMacDesc ∧ IsSort insertionSortByMemWords ∧
    generateRtl insertionSortByMemWords fastSpec mac = .ok fastRun.p ∧
    PowerOn fastRun.p fastRun.s₀ ∧ ResetFor 1 fastRun.env ∧ fastRun.commitTarget 13 = some 0 ∧
    ¬ ∃ desc, Run.CommitLands fastRun 13 0 desc := by
  obtain ⟨d, mac, hd, hmac, hp⟩ := generated_fastSpec
  refine ⟨d, mac, hd, hmac, isSort_insertionSortByMemWords, hp, powerOn_zeroState _ _,
    resetFor_announce _, by decide +kernel, ?_⟩
  rintro ⟨desc, h⟩
  have hbank : fastRun.bank 13 = [65#16] := by decide +kernel
  have hdesc := h.bank
  rw [hbank] at hdesc
  obtain rfl := Option.some.inj hdesc
  have hnext : (nextAddr 65#16).toNat = 0 := by decide
  have hword := congrFun h.sample 0
  rw [hnext, Function.update_self] at hword
  exact absurd hword (by decide +kernel)

end FirEngine
