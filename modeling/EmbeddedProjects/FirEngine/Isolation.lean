import EmbeddedProjects.FirEngine.FifoNumbering
import EmbeddedProjects.FirEngine.DspSlice
import EmbeddedProjects.FirEngine.Pipeline

namespace FirEngine

open FirEngineMacDesc Rtl

variable {δ : Type} {p : RtlParameters} {dsp : Dsp48e2 δ}

def SelectsC (opmode : BitVec 9) : Prop :=
  opmode.extractLsb' 7 2 = 0b11#2 ∨ opmode.extractLsb' 4 3 = 0b011#3 ∨
    opmode.extractLsb' 2 2 = 0b11#2

def SelectsD (inmode : BitVec 5) : Prop := inmode.getLsbD 2 = true

instance (opmode : BitVec 9) : Decidable (SelectsC opmode) :=
  inferInstanceAs (Decidable (_ ∨ _ ∨ _))

instance (inmode : BitVec 5) : Decidable (SelectsD inmode) := inferInstanceAs (Decidable (_ = _))

structure SameSelected (ins ins' : DspInputs) : Prop where
  a : ins.a = ins'.a
  b : ins.b = ins'.b
  inmode : ins.inmode = ins'.inmode
  opmode : ins.opmode = ins'.opmode
  alumode : ins.alumode = ins'.alumode
  c : SelectsC ins.opmode → ins.c = ins'.c
  d : SelectsD ins.inmode → ins.d = ins'.d

def IgnoresUnselected (dsp : Dsp48e2 δ) (d₀ : δ) : Prop :=
  ∀ (ins ins' : Nat → DspInputs) (n : Nat), (∀ k < n, SameSelected (ins k) (ins' k)) →
    dsp.p (Clocked.run dsp.clock ins d₀ n) = dsp.p (Clocked.run dsp.clock ins' d₀ n)

structure SameButChain (inp inp' : Inputs) : Prop where
  iRst : inp.iRst = inp'.iRst
  iData : inp.iData = inp'.iData
  iDataChanged : inp.iDataChanged = inp'.iDataChanged
  iCoefBuffWren : inp.iCoefBuffWren = inp'.iCoefBuffWren
  iCoefBuffWraddr : inp.iCoefBuffWraddr = inp'.iCoefBuffWraddr
  iCoefBuffWrdata : inp.iCoefBuffWrdata = inp'.iCoefBuffWrdata
  unknownData : inp.unknownData = inp'.unknownData
  unknownDesc : inp.unknownDesc = inp'.unknownDesc
  unknownBit : inp.unknownBit = inp'.unknownBit

structure ChainUnused (p : RtlParameters) : Prop where
  preAddMode : ∀ v ∈ p.preAddMode, v = 0
  addPrevEngineAccum : ∀ v ∈ p.addPrevEngineAccum, v = 0
  firstEngine : ∀ t : Nat, p.doUpdate[t]? = some 1 → p.firstEngine[t]? = some 1

structure Twin (s s' : State δ) : Prop where
  timeSlice : s.timeSlice = s'.timeSlice
  inputLatch : s.inputLatch = s'.inputLatch
  channels : s.channels = s'.channels
  doUpdate : s.doUpdate = s'.doUpdate
  coefBuff : s.coefBuff = s'.coefBuff
  dataBuffA : s.dataBuffA = s'.dataBuffA
  firstEnginePs2 : s.dataMux.firstEnginePs2 = s'.dataMux.firstEnginePs2
  commit : s.commit = s'.commit
  dspModes : s.dspModes = s'.dspModes
  dataOutputs : s.dataOutputs = s'.dataOutputs
  fifoDescBuffA : s.fifoDescBuffA = s'.fifoDescBuffA
  fifoDescBuffB : s.fifoDescBuffB = s'.fifoDescBuffB
  fifoControls : s.fifoControls = s'.fifoControls
  readAddrs : s.readAddrs = s'.readAddrs
  updateAddrs : s.updateAddrs = s'.updateAddrs
  wrdata : s.commit.ps3 = true → s.dataMux.dataBuffA1Wrdata = s'.dataMux.dataBuffA1Wrdata

structure Closed (s : State δ) : Prop where
  update : s.doUpdate.doUpdatePs2 = true → s.dataMux.firstEnginePs2 = true
  noC : s.dspModes.addPrevEngineAccumPs7 = false
  noD : ¬ SelectsD (inmode s.dspModes.preaddModePs5)

section Step

variable {inp inp' : Inputs} {s s' : State δ}

theorem firstEngine_of_doUpdate (hp : ChainUnused p) (hbits : ∀ v ∈ p.doUpdate, v < 2)
    {slot : Nat} (h : bitShifted p.doUpdate slot = true) (unknown : Bool) :
    bitSelect p.firstEngine slot unknown = true := by
  rw [bitShifted_iff, List.getD_eq_getElem?_getD] at h
  cases hv : p.doUpdate[slot]? with
  | none => simp [hv] at h
  | some v =>
    have hlt := hbits v (List.mem_of_getElem? hv)
    rw [hv, Option.getD_some] at h
    have hone : v = 1 := by omega
    rw [bitSelect, hp.firstEngine slot (hone ▸ hv)]
    rfl

theorem not_selectsC_opmode (m : Nat) : ¬ SelectsC (opmode false m) := by
  rcases m with _ | _ | _ | n
  · decide
  · decide
  · decide
  · exact (by decide : ¬ SelectsC 0#9)

theorem Closed.clock (hp : ChainUnused p) (hbits : ∀ v ∈ p.doUpdate, v < 2) (s : State δ) :
    Closed (Rtl.clock p dsp inp s) where
  update := by
    intro h
    change (clockDoUpdate p inp s).doUpdatePs2 = true at h
    rw [clockDoUpdate] at h
    split at h
    · cases h
    · split at h
      · cases h
      · exact firstEngine_of_doUpdate hp hbits h _
  noC := by
    change bitShifted p.addPrevEngineAccum _ = false
    rw [bitShifted, fieldAt_of_zero hp.addPrevEngineAccum]
    rfl
  noD := by
    change ¬ SelectsD (inmode (fieldAt p.preAddMode _ 2))
    rw [fieldAt_of_zero hp.preAddMode]
    decide

theorem Closed.settle (h : Closed s) : Closed (Rtl.settle inp s) := by
  rw [Rtl.settle]
  split
  · exact ⟨(fun h => absurd h Bool.false_ne_true), h.noC, h.noD⟩
  · exact h

theorem Twin.settle (hinp : SameButChain inp inp') (h : Twin s s') :
    Twin (Rtl.settle inp s) (Rtl.settle inp' s') := by
  rw [Rtl.settle, Rtl.settle, ← hinp.iRst]
  split
  · exact { h with
      timeSlice := rfl
      inputLatch := rfl
      channels := by rw [h.channels]
      doUpdate := rfl
      commit := rfl
      dataOutputs := by rw [h.dataOutputs]
      wrdata := fun h => absurd h Bool.false_ne_true }
  · exact h

theorem Twin.sameSelected (h : Twin s s') (hc : Closed s) :
    SameSelected (dspInputs inp s) (dspInputs inp' s') where
  a := by rw [dspInputs, dspInputs, h.coefBuff]
  b := by rw [dspInputs, dspInputs, h.dataBuffA]
  inmode := by rw [dspInputs, dspInputs, h.dspModes]
  opmode := by rw [dspInputs, dspInputs, h.dspModes]
  alumode := by rw [dspInputs, dspInputs, h.dspModes]
  c := by
    intro hsel
    change SelectsC (Rtl.opmode s.dspModes.addPrevEngineAccumPs7 _) at hsel
    rw [hc.noC] at hsel
    exact absurd hsel (not_selectsC_opmode _)
  d := fun hsel => absurd hsel hc.noD

theorem doCommitPs2_eq (h : Twin s s') (hfirst : s.dataMux.firstEnginePs2 = true) :
    doCommitPs2 inp s = doCommitPs2 inp' s' := by
  rw [doCommitPs2, doCommitPs2, ← h.firstEnginePs2, hfirst, h.channels]
  rfl

theorem clockCommit_eq (hinp : SameButChain inp inp') (h : Twin s s') (hc : Closed s) :
    clockCommit inp s = clockCommit inp' s' := by
  rw [clockCommit, clockCommit, ← hinp.iRst, ← h.commit, ← h.doUpdate]
  cases hup : s.doUpdate.doUpdatePs2 with
  | false => rfl
  | true => rw [doCommitPs2_eq h (hc.update hup)]

theorem Twin.clock (hinp : SameButChain inp inp') (h : Twin s s') (hc : Closed s)
    (hP : dsp.p s.dsp = dsp.p s'.dsp) :
    Twin (Rtl.clock p dsp inp s) (Rtl.clock p dsp inp' s') where
  timeSlice := by
    change clockTimeSlices p inp s = clockTimeSlices p inp' s'
    rw [clockTimeSlices, clockTimeSlices, hinp.iRst, h.timeSlice]
  inputLatch := by
    change clockInputLatch inp s = clockInputLatch inp' s'
    rw [clockInputLatch, clockInputLatch, hinp.iRst, hinp.iData, hinp.iDataChanged, h.channels,
      h.inputLatch]
  channels := by
    change clockChannels p inp s = clockChannels p inp' s'
    rw [clockChannels, clockChannels, hinp.iRst, hinp.unknownData, h.timeSlice, h.channels,
      h.inputLatch]
  doUpdate := by
    change clockDoUpdate p inp s = clockDoUpdate p inp' s'
    rw [clockDoUpdate, clockDoUpdate, hinp.iRst, h.timeSlice, h.doUpdate]
  coefBuff := by
    change clockCoefBuff p inp s = clockCoefBuff p inp' s'
    rw [clockCoefBuff, clockCoefBuff, hinp.iCoefBuffWren, hinp.iCoefBuffWraddr,
      hinp.iCoefBuffWrdata, hinp.unknownData, h.coefBuff, h.readAddrs]
  dataBuffA := by
    change clockDataBuff p inp s.dataBuffA _ _ _ _ = clockDataBuff p inp' s'.dataBuffA _ _ _ _
    have hwr : ∀ contents addr, writeRam (bufferSize p) contents s.commit.ps3 addr
        s.dataMux.dataBuffA1Wrdata =
        writeRam (bufferSize p) contents s'.commit.ps3 addr s'.dataMux.dataBuffA1Wrdata := by
      intro contents addr
      rw [← h.commit]
      cases hcommit : s.commit.ps3 with
      | false => rfl
      | true => rw [h.wrdata hcommit]
    rw [clockDataBuff, clockDataBuff, hwr, rwaddr1, rwaddr1, hinp.unknownData, h.dataBuffA,
      h.readAddrs, h.updateAddrs]
  firstEnginePs2 := by
    change bitSelect p.firstEngine _ _ = bitSelect p.firstEngine _ _
    rw [hinp.unknownBit, h.timeSlice]
  commit := clockCommit_eq hinp h hc
  dspModes := by
    change clockDspModes p s = clockDspModes p s'
    rw [clockDspModes, clockDspModes, h.timeSlice]
  dataOutputs := by
    change clockDataOutputs p dsp inp s = clockDataOutputs p dsp inp' s'
    rw [clockDataOutputs, clockDataOutputs, hinp.iRst, h.timeSlice, h.dataOutputs, h.commit, hP]
  fifoDescBuffA := by
    change clockFifoDescBuff p inp s s.fifoDescBuffA _ =
      clockFifoDescBuff p inp' s' s'.fifoDescBuffA _
    rw [clockFifoDescBuff, clockFifoDescBuff, fifoDescBuffWrdata, fifoDescBuffWrdata,
      hinp.unknownDesc, h.commit, h.fifoDescBuffA, h.fifoControls, h.updateAddrs]
  fifoDescBuffB := by
    change clockFifoDescBuff p inp s s.fifoDescBuffB _ =
      clockFifoDescBuff p inp' s' s'.fifoDescBuffB _
    rw [clockFifoDescBuff, clockFifoDescBuff, fifoDescBuffWrdata, fifoDescBuffWrdata,
      hinp.unknownDesc, h.commit, h.fifoDescBuffB, h.fifoControls, h.updateAddrs]
  fifoControls := by
    change clockFifoControls p s = clockFifoControls p s'
    rw [clockFifoControls, clockFifoControls, h.timeSlice]
  readAddrs := by
    change clockReadAddrs p s = clockReadAddrs p s'
    rw [clockReadAddrs, clockReadAddrs, currFifo, currFifo, h.fifoDescBuffA, h.fifoControls,
      h.readAddrs]
  updateAddrs := by
    change clockUpdateAddrs s = clockUpdateAddrs s'
    rw [clockUpdateAddrs, clockUpdateAddrs, currFifo, currFifo, updateFifo, updateFifo,
      h.fifoDescBuffA, h.fifoDescBuffB, h.doUpdate, h.updateAddrs]
  wrdata := by
    intro hcommit
    change (clockCommit inp s).ps3 = true at hcommit
    have hup : s.doUpdate.doUpdatePs2 = true := by
      rw [clockCommit] at hcommit
      split at hcommit
      · cases hcommit
      · by_contra hup
        rw [Bool.not_eq_true] at hup
        simp [hup] at hcommit
    have hfirst := hc.update hup
    change (if s.dataMux.firstEnginePs2 then s.channels.chosenDataPs2 else inp.iChainD) =
      if s'.dataMux.firstEnginePs2 then s'.channels.chosenDataPs2 else inp'.iChainD
    rw [← h.firstEnginePs2, hfirst, h.channels]
    rfl

end Step

section Runs

variable {env env' : Nat → Inputs} {s₀ : State δ}

theorem dsp_seen (k : Nat) : (seen p dsp env s₀ k).dsp =
    Clocked.run dsp.clock (fun i => dspInputs (env i) (seen p dsp env s₀ i)) s₀.dsp k := by
  induction k with
  | zero => exact settle_dsp _ _
  | succ k ih =>
    rw [seen_succ, settle_dsp, Clocked.run_succ, ← ih]
    rfl

theorem twin_runs (hp : ChainUnused p) (hbits : ∀ v ∈ p.doUpdate, v < 2)
    (hdsp : IgnoresUnselected dsp s₀.dsp) (hon : PowerOn p s₀) (hrst : (env 0).iRst = true)
    (henv : ∀ k, SameButChain (env k) (env' k)) (n : Nat) :
    Twin (seen p dsp env s₀ n) (seen p dsp env' s₀ n) ∧ Closed (seen p dsp env s₀ n) ∧
      ∀ k < n, SameSelected (dspInputs (env k) (seen p dsp env s₀ k))
        (dspInputs (env' k) (seen p dsp env' s₀ k)) := by
  induction n with
  | zero =>
    have htwin : Twin s₀ s₀ := by constructor <;> intros <;> rfl
    have hnoD : ¬ SelectsD (inmode s₀.dspModes.preaddModePs5) := by
      rcases hon.preaddMode with h | h <;> rw [h] <;> decide
    refine ⟨htwin.settle (henv 0), ?_, by simp⟩
    rw [seen, run, Clocked.run_zero, settle, if_pos hrst]
    exact ⟨(fun h => absurd h Bool.false_ne_true), hon.opmode, hnoD⟩
  | succ n ih =>
    obtain ⟨htwin, hclosed, hsame⟩ := ih
    have hnext : SameSelected (dspInputs (env n) _) (dspInputs (env' n) _) :=
      htwin.sameSelected hclosed
    have hP : dsp.p (seen p dsp env s₀ n).dsp = dsp.p (seen p dsp env' s₀ n).dsp := by
      rw [dsp_seen, dsp_seen]
      exact hdsp _ _ n hsame
    rw [seen_succ, seen_succ]
    refine ⟨(htwin.clock (henv n) hclosed hP).settle (henv (n + 1)),
      (Closed.clock hp hbits _).settle, fun k hk => ?_⟩
    rcases Nat.lt_succ_iff_lt_or_eq.mp hk with hk | rfl
    · exact hsame k hk
    · exact hnext

end Runs

theorem chainUnused_of_generated
    {sort : List FirEngineMacFifoDesc → List FirEngineMacFifoDesc} {spec : FirEngineSpec}
    {mac : FirEngineMacDesc} (h : Generated sort spec mac p) :
    ChainUnused p ∧ ∀ v ∈ p.doUpdate, v < 2 := by
  have hresult := h.result
  have hpre : p.preAddMode = mac.establishPreAddModeCtrl := congrArg (·.preAddMode) hresult
  have hadd : p.addPrevEngineAccum = mac.establishAddPrevEngineAccumCtrl :=
    congrArg (·.addPrevEngineAccum) hresult
  refine ⟨⟨?_, ?_, ?_⟩, ?_⟩
  · rw [hpre]
    exact fun v hv => List.eq_of_mem_replicate hv
  · rw [hadd]
    exact fun v hv => List.eq_of_mem_replicate hv
  · rw [h.firstEngine, h.doUpdate]
    exact fun _ h => h
  · rw [h.doUpdate]
    intro v hv
    obtain ⟨slot, _, rfl⟩ := List.mem_map.mp hv
    rw [oneIfUsed]
    split <;> decide

theorem chained_macs_isolated (sort : List FirEngineMacFifoDesc → List FirEngineMacFifoDesc)
    (spec : FirEngineSpec) (mac : FirEngineMacDesc) (p : RtlParameters)
    (hp : generateRtl sort spec mac = .ok p) (dsp : Dsp48e2 δ) (s₀ : State δ)
    (hdsp : IgnoresUnselected dsp s₀.dsp) (hon : PowerOn p s₀) (env env' : Nat → Inputs)
    (hrst : (env 0).iRst = true) (henv : ∀ k, SameButChain (env k) (env' k)) (k i : Nat) :
    (seen p dsp env s₀ k).dataOutputs.oData i = (seen p dsp env' s₀ k).dataOutputs.oData i ∧
    (seen p dsp env s₀ k).dataOutputs.oDataChanged i =
      (seen p dsp env' s₀ k).dataOutputs.oDataChanged i := by
  obtain ⟨hunused, hbits⟩ := chainUnused_of_generated (generateRtl_eq_ok.mp hp)
  obtain ⟨htwin, _, _⟩ := twin_runs hunused hbits hdsp hon hrst henv k
  rw [htwin.dataOutputs]
  exact ⟨rfl, rfl⟩

section Pipeline

structure SameRegs (r r' : DspRegs) : Prop where
  a1 : r.a1 = r'.a1
  b1 : r.b1 = r'.b1
  inmode1 : r.inmode1 = r'.inmode1
  a2 : r.a2 = r'.a2
  ad : r.ad = r'.ad
  m : r.m = r'.m
  opmode1 : r.opmode1 = r'.opmode1
  alumode1 : r.alumode1 = r'.alumode1
  p : r.p = r'.p
  c1 : SelectsC r.opmode1 → r.c1 = r'.c1
  d1 : SelectsD r.inmode1 → r.d1 = r'.d1

theorem SameRegs.accumulate {r r' : DspRegs} (h : SameRegs r r') :
    Rtl.accumulate r = Rtl.accumulate r' := by
  simp only [Rtl.accumulate, ← h.opmode1, ← h.alumode1, ← h.m, ← h.p]
  by_cases hsel : SelectsC r.opmode1
  · rw [h.c1 hsel]
  · simp only [SelectsC, not_or] at hsel
    simp only [hsel, if_false]

theorem SameRegs.preAdd {r r' : DspRegs} (h : SameRegs r r') :
    Rtl.preAdd r.inmode1 r.b1 r.d1 = Rtl.preAdd r'.inmode1 r'.b1 r'.d1 := by
  simp only [Rtl.preAdd, ← h.inmode1, ← h.b1]
  cases hsel : r.inmode1.getLsbD 2 with
  | false => rfl
  | true => rw [h.d1 hsel]

theorem SameRegs.clock {r r' : DspRegs} {ins ins' : DspInputs} (h : SameRegs r r')
    (hin : SameSelected ins ins') : SameRegs (pipelined.clock ins r) (pipelined.clock ins' r') where
  a1 := hin.a
  b1 := hin.b
  inmode1 := hin.inmode
  a2 := h.a1
  ad := h.preAdd
  m := by
    change ((operandA 1 r).extractLsb' 0 27).signExtend 48 * _ =
      ((operandA 1 r').extractLsb' 0 27).signExtend 48 * _
    rw [operandA, operandA, h.a1, h.a2, h.ad]
  opmode1 := hin.opmode
  alumode1 := hin.alumode
  p := h.accumulate
  c1 := hin.c
  d1 := hin.d

theorem ignoresUnselected_pipelined (r : DspRegs) : IgnoresUnselected pipelined r := by
  intro ins ins' n hsame
  have hstart : SameRegs r r := by constructor <;> intros <;> rfl
  have hregs : n ≤ n → SameRegs (Clocked.run pipelined.clock ins r n)
      (Clocked.run pipelined.clock ins' r n) := by
    apply Clocked.simulation (R := fun k r r' => k ≤ n → SameRegs r r')
    · exact fun _ => hstart
    · intro k r r' h hk
      exact (h (Nat.le_of_succ_le hk)).clock (hsame k hk)
  exact (hregs le_rfl).p

end Pipeline

section Example

def heldChain (chain : Nat) (k : Nat) : Inputs where
  iRst := k == 0
  iData := fun _ => 0
  iDataChanged := fun _ => false
  iChainD := BitVec.ofNat 18 chain
  iChainR := BitVec.ofNat 18 chain
  iChainS := BitVec.ofNat 36 chain
  iInputChangeChain := chain == 1
  iCoefBuffWren := false
  iCoefBuffWraddr := 0
  iCoefBuffWrdata := 0
  unknownData := 0
  unknownDesc := 0
  unknownBit := false

theorem sameButChain_heldChain (c c' k : Nat) :
    SameButChain (heldChain c k) (heldChain c' k) := by
  constructor <;> rfl

theorem chained_macs_isolated_two_firs :
    ∃ p, generateRtl insertionSortByMemWords twoFirSpec twoFirMac = .ok p ∧ ∀ k i,
      (seen p pipelined (heldChain 0) (zeroState p ({} : DspRegs)) k).dataOutputs.oData i =
        (seen p pipelined (heldChain 1) (zeroState p ({} : DspRegs)) k).dataOutputs.oData i ∧
      (seen p pipelined (heldChain 0) (zeroState p ({} : DspRegs)) k).dataOutputs.oDataChanged i =
        (seen p pipelined (heldChain 1) (zeroState p ({} : DspRegs)) k).dataOutputs.oDataChanged i := by
  obtain ⟨p, hp, _⟩ := Outcome.exists_of_okAnd
    (x := generateRtl insertionSortByMemWords twoFirSpec twoFirMac) (p := fun _ => true)
    (by decide +kernel)
  exact ⟨p, hp, chained_macs_isolated insertionSortByMemWords twoFirSpec twoFirMac p hp
    pipelined (zeroState p ({} : DspRegs)) (ignoresUnselected_pipelined _)
    (powerOn_zeroState p _) (heldChain 0) (heldChain 1) rfl (sameButChain_heldChain 0 1)⟩

end Example

end FirEngine
