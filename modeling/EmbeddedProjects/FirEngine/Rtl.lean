import EmbeddedProjects.Lib.Clocked
import EmbeddedProjects.FirEngine.FifoRegion
import EmbeddedProjects.FirEngine.FixedPoint

namespace FirEngine

namespace Rtl

-- `reg [N-1:0]` has two bits when N = 0
def regWidth (n : Nat) : Nat := if n = 0 then 2 else n

-- `VECTOR >> {slot, ..}` into a register: the field of the slot, 0 past the end, cut to width
def fieldAt (values : List Nat) (slot width : Nat) : Nat := values.getD slot 0 % 2 ^ width

def bitShifted (values : List Nat) (slot : Nat) : Bool := fieldAt values slot 1 == 1

-- `VECTOR[slot]`: unknown past the end
def bitSelect (values : List Nat) (slot : Nat) (unknown : Bool) : Bool :=
  match values[slot]? with
  | some v => v == 1
  | none => unknown

abbrev Ram (w : Nat) := Nat → BitVec w

def readRam {w : Nat} (size : Nat) (contents : Ram w) (addr : Nat) (unknown : BitVec w) :
    BitVec w :=
  if addr < size then contents addr else unknown

def writeRam {w : Nat} (size : Nat) (contents : Ram w) (wren : Bool) (addr : Nat)
    (data : BitVec w) : Ram w :=
  if wren ∧ addr < size then Function.update contents addr data else contents

structure Inputs where
  iRst : Bool
  iData : Nat → BitVec 18
  iDataChanged : Nat → Bool
  iChainD : BitVec 18
  iChainR : BitVec 18
  iChainS : BitVec 36
  iInputChangeChain : Bool
  iCoefBuffWren : Bool
  iCoefBuffWraddr : Nat
  iCoefBuffWrdata : BitVec 18
  -- what an unknown value reads as in this cycle
  unknownData : BitVec 18
  unknownDesc : BitVec 16
  unknownBit : Bool

structure DspInputs where
  a : BitVec 30
  b : BitVec 18
  c : BitVec 48
  d : BitVec 27
  inmode : BitVec 5
  opmode : BitVec 9
  alumode : BitVec 4

structure Dsp48e2 (δ : Type) where
  clock : DspInputs → δ → δ
  p : δ → BitVec 48

structure TimeSlices where
  psm1 : Nat := 0
  ps0 : Nat := 0
  ps1 : Nat := 0
  ps2 : Nat := 0
  ps3 : Nat := 0
  ps4 : Nat := 0
  ps5 : Nat := 0
  ps6 : Nat := 0
  ps7 : Nat := 0
  ps8 : Nat := 0
  ps9 : Nat := 0

structure InputLatch where
  dataPs1 : Nat → BitVec 18
  changedPs1 : Nat → Bool

structure Channels where
  channelSelPs1 : Nat
  chosenDataPs2 : BitVec 18
  chosenDataChangedPs2 : Bool
  prevChanged : Nat → Bool

structure DoUpdate where
  doUpdatePs2 : Bool
  enableCounter : Nat

structure CoefBuff where
  contents : Ram 18
  rddataInt : BitVec 18
  rddata : BitVec 18

structure DataBuff where
  contents : Ram 18
  rddata0Int : BitVec 18
  rddata0 : BitVec 18
  rddata1Int : BitVec 18
  rddata1 : BitVec 18

structure DataMux where
  firstEnginePs2 : Bool
  lastEnginePs2 : Bool
  dataBuffA1Wrdata : BitVec 18
  dataBuffB1Wrdata : BitVec 18

structure CommitChain where
  ps3 : Bool := false
  ps4 : Bool := false
  ps5 : Bool := false
  ps6 : Bool := false
  ps7 : Bool := false
  ps8 : Bool := false
  ps9 : Bool := false

structure DspModes where
  preaddModePs5 : Nat
  mulModePs7 : Nat
  addPrevEngineAccumPs7 : Bool

structure DataOutputs where
  channelSelPs9 : Nat
  oData : Nat → BitVec 18
  dataOutChanged : Nat → Bool
  oDataChanged : Nat → Bool

structure FifoDescBuff where
  contents : Ram 16
  rddataInt : BitVec 16
  rddata : BitVec 16

structure FifoControls where
  fifoDescBuffARdaddr : Nat
  fifoDescBuffBRdaddr : Nat
  fifoDescBuffWraddr : Nat
  firstTapPs2 : Bool

structure ReadAddrs where
  coefBuffRdaddr : Nat
  dataBuffA0Rdaddr : Nat
  dataBuffB0Rdaddr : Nat

structure UpdateAddrs where
  updateAddr : BitVec 10
  nextAddr : BitVec 10
  lengthMinusOne : BitVec 10
  nextAddrDelay1 : BitVec 10
  lengthMinusOneDelay1 : BitVec 10
  nextAddrDelay2 : BitVec 10
  lengthMinusOneDelay2 : BitVec 10

structure State (δ : Type) where
  timeSlice : TimeSlices
  inputLatch : InputLatch
  channels : Channels
  doUpdate : DoUpdate
  coefBuff : CoefBuff
  dataBuffA : DataBuff
  dataBuffB : DataBuff
  dataMux : DataMux
  commit : CommitChain
  dspModes : DspModes
  dsp : δ
  dataOutputs : DataOutputs
  fifoDescBuffA : FifoDescBuff
  fifoDescBuffB : FifoDescBuff
  fifoControls : FifoControls
  readAddrs : ReadAddrs
  updateAddrs : UpdateAddrs

variable {δ : Type} (p : RtlParameters) (dsp : Dsp48e2 δ) (inp : Inputs) (s : State δ)

-- posedge iRst: every block with an asynchronous reset drops to its reset values at once
def settle : State δ :=
  if inp.iRst then
    { s with
      timeSlice := {}
      inputLatch := ⟨fun _ => 0, fun _ => false⟩
      channels := { s.channels with
        chosenDataPs2 := 0, chosenDataChangedPs2 := false, prevChanged := fun _ => false }
      doUpdate := ⟨false, 0⟩
      commit := {}
      dataOutputs := { s.dataOutputs with
        oData := fun _ => 0, dataOutChanged := fun _ => false, oDataChanged := fun _ => false } }
  else s

-- from here on, one function per always block, on the settled state

def clockTimeSlices : TimeSlices :=
  if inp.iRst then {} else
    { psm1 := (s.timeSlice.psm1 + 1) % 2 ^ regWidth p.log2TimeSlices
      ps0 := s.timeSlice.psm1
      ps1 := s.timeSlice.ps0
      ps2 := s.timeSlice.ps1
      ps3 := s.timeSlice.ps2
      ps4 := s.timeSlice.ps3
      ps5 := s.timeSlice.ps4
      ps6 := s.timeSlice.ps5
      ps7 := s.timeSlice.ps6
      ps8 := s.timeSlice.ps7
      ps9 := s.timeSlice.ps8 }

def clockInputLatch : InputLatch :=
  if inp.iRst then ⟨fun _ => 0, fun _ => false⟩ else
    { dataPs1 := fun i => if s.channels.prevChanged i != inp.iDataChanged i then inp.iData i
        else s.inputLatch.dataPs1 i
      changedPs1 := inp.iDataChanged }

def clockChannels : Channels :=
  let channelSelPs1 := fieldAt p.channelSelect s.timeSlice.ps0 4
  let i := s.channels.channelSelPs1
  if inp.iRst then ⟨channelSelPs1, 0, false, fun _ => false⟩
  else if i < p.numInputs then
    { channelSelPs1
      chosenDataPs2 := s.inputLatch.dataPs1 i
      chosenDataChangedPs2 := s.inputLatch.changedPs1 i ^^ s.channels.prevChanged i
      prevChanged := Function.update s.channels.prevChanged i (s.inputLatch.changedPs1 i) }
  else
    { channelSelPs1
      chosenDataPs2 := inp.unknownData
      chosenDataChangedPs2 := false
      prevChanged := s.channels.prevChanged }

def clockDoUpdate : DoUpdate :=
  if inp.iRst then ⟨false, 0⟩
  else if s.doUpdate.enableCounter ≠ 3 then ⟨false, (s.doUpdate.enableCounter + 1) % 4⟩
  else ⟨bitShifted p.doUpdate s.timeSlice.ps1, s.doUpdate.enableCounter⟩

def bufferSize : Nat := 1 <<< p.log2BufferDepth

def addrWidth : Nat := regWidth p.log2BufferDepth

def clockCoefBuff : CoefBuff where
  contents := writeRam (bufferSize p) s.coefBuff.contents inp.iCoefBuffWren inp.iCoefBuffWraddr
    inp.iCoefBuffWrdata
  rddataInt := readRam (bufferSize p) s.coefBuff.contents s.readAddrs.coefBuffRdaddr
    inp.unknownData
  rddata := s.coefBuff.rddataInt

def clockDataBuff (buff : DataBuff) (rdaddr0 rwaddr1 : Nat) (wren1 : Bool)
    (wrdata1 : BitVec 18) : DataBuff where
  contents := writeRam (bufferSize p) buff.contents wren1 rwaddr1 wrdata1
  rddata1Int := readRam (bufferSize p) buff.contents rwaddr1 inp.unknownData
  rddata1 := buff.rddata1Int
  rddata0Int := readRam (bufferSize p) buff.contents rdaddr0 inp.unknownData
  rddata0 := buff.rddata0Int

def rwaddr1 : Nat := s.updateAddrs.updateAddr.toNat % 2 ^ addrWidth p

def clockDataMux : DataMux where
  firstEnginePs2 := bitSelect p.firstEngine s.timeSlice.ps1 inp.unknownBit
  lastEnginePs2 := bitSelect p.lastEngine s.timeSlice.ps1 inp.unknownBit
  dataBuffA1Wrdata := if s.dataMux.firstEnginePs2 then s.channels.chosenDataPs2 else inp.iChainD
  dataBuffB1Wrdata := if s.dataMux.lastEnginePs2 then s.dataBuffA.rddata1 else inp.iChainR

def doCommitPs2 : Bool :=
  if s.dataMux.firstEnginePs2 then s.channels.chosenDataChangedPs2
  else s.channels.chosenDataChangedPs2 || inp.iInputChangeChain

def clockCommit : CommitChain :=
  if inp.iRst then {} else
    { ps3 := if s.doUpdate.doUpdatePs2 then doCommitPs2 inp s else false
      ps4 := s.commit.ps3
      ps5 := s.commit.ps4
      ps6 := s.commit.ps5
      ps7 := s.commit.ps6
      ps8 := s.commit.ps7
      ps9 := s.commit.ps8 }

def clockDspModes : DspModes where
  preaddModePs5 := fieldAt p.preAddMode s.timeSlice.ps4 2
  mulModePs7 := fieldAt p.mulMode s.timeSlice.ps6 2
  addPrevEngineAccumPs7 := bitShifted p.addPrevEngineAccum s.timeSlice.ps6

def inmode : Nat → BitVec 5
  | 0 => 0b10001#5
  | 1 => 0b10101#5
  | 2 => 0b11101#5
  | _ => 0#5

def alumode : Nat → BitVec 4
  | 2 => 0b0011#4
  | _ => 0b0000#4

def opmode : Bool → Nat → BitVec 9
  | false, 0 => 0b000000101#9
  | false, 1 => 0b000100101#9
  | false, 2 => 0b000100101#9
  | true, 0 => 0b110000101#9
  | true, 1 => 0b110100101#9
  | true, 2 => 0b110100101#9
  | _, _ => 0#9

def dspInputs : DspInputs where
  a := portA s.coefBuff.rddata
  b := s.dataBuffA.rddata0
  c := 0#12 ++ inp.iChainS
  d := 0#9 ++ s.dataBuffB.rddata0
  inmode := inmode s.dspModes.preaddModePs5
  opmode := opmode s.dspModes.addPrevEngineAccumPs7 s.dspModes.mulModePs7
  alumode := alumode s.dspModes.mulModePs7

def clockDataOutputs : DataOutputs :=
  let channelSelPs9 := fieldAt p.channelSelect s.timeSlice.ps8 4
  let out := s.dataOutputs
  let selected := fun i => out.channelSelPs9 = i ∧ i < p.numOutputs
  if inp.iRst then ⟨channelSelPs9, fun _ => 0, fun _ => false, fun _ => false⟩ else
    { channelSelPs9
      oData := fun i => if selected i then dspout (dsp.p s.dsp) else out.oData i
      dataOutChanged := fun i => if selected i then s.commit.ps9 else false
      oDataChanged := fun i => if out.dataOutChanged i then !out.oDataChanged i
        else out.oDataChanged i }

def descSize : Nat := 1 <<< p.log2NumFifos

def descWidth : Nat := regWidth p.log2NumFifos

def fifoDescBuffWrdata : BitVec 16 :=
  fifoDescWord s.updateAddrs.nextAddrDelay2 s.updateAddrs.lengthMinusOneDelay2

def clockFifoDescBuff (buff : FifoDescBuff) (rdaddr : Nat) : FifoDescBuff where
  contents := writeRam (descSize p) buff.contents s.commit.ps3 s.fifoControls.fifoDescBuffWraddr
    (fifoDescBuffWrdata s)
  rddataInt := readRam (descSize p) buff.contents rdaddr inp.unknownDesc
  rddata := buff.rddataInt

def clockFifoControls : FifoControls where
  fifoDescBuffARdaddr := fieldAt p.rdFifoNum s.timeSlice.psm1 (descWidth p)
  fifoDescBuffBRdaddr := fieldAt p.updateFifoNum s.timeSlice.psm1 (descWidth p)
  fifoDescBuffWraddr := fieldAt p.updateFifoNum s.timeSlice.ps2 (descWidth p)
  firstTapPs2 := bitShifted p.firstTap s.timeSlice.ps1

def currFifo : BitVec 16 := s.fifoDescBuffA.rddata

def updateFifo : BitVec 16 := s.fifoDescBuffB.rddata

def clockReadAddrs : ReadAddrs :=
  let desc := currFifo s
  let cut := fun addr : BitVec 10 => addr.toNat % 2 ^ addrWidth p
  if s.fifoControls.firstTapPs2 then
    { coefBuffRdaddr := cut (fifoRegionOrigin desc)
      dataBuffA0Rdaddr := cut (fifoOffset desc)
      dataBuffB0Rdaddr := cut (popAddr desc) }
  else
    { coefBuffRdaddr := (s.readAddrs.coefBuffRdaddr + 1) % 2 ^ addrWidth p
      dataBuffA0Rdaddr := cut (prevAddr desc (BitVec.ofNat 10 s.readAddrs.dataBuffA0Rdaddr))
      dataBuffB0Rdaddr := cut (succAddr desc (BitVec.ofNat 10 s.readAddrs.dataBuffB0Rdaddr)) }

def clockUpdateAddrs : UpdateAddrs where
  updateAddr := if s.doUpdate.doUpdatePs2 then s.updateAddrs.nextAddrDelay2
    else popAddr (updateFifo s)
  nextAddr := nextAddr (currFifo s)
  lengthMinusOne := fifoLengthMinusOne (currFifo s)
  nextAddrDelay1 := s.updateAddrs.nextAddr
  lengthMinusOneDelay1 := s.updateAddrs.lengthMinusOne
  nextAddrDelay2 := s.updateAddrs.nextAddrDelay1
  lengthMinusOneDelay2 := s.updateAddrs.lengthMinusOneDelay1

def clock : State δ where
  timeSlice := clockTimeSlices p inp s
  inputLatch := clockInputLatch inp s
  channels := clockChannels p inp s
  doUpdate := clockDoUpdate p inp s
  coefBuff := clockCoefBuff p inp s
  dataBuffA := clockDataBuff p inp s.dataBuffA s.readAddrs.dataBuffA0Rdaddr (rwaddr1 p s)
    s.commit.ps3 s.dataMux.dataBuffA1Wrdata
  dataBuffB := clockDataBuff p inp s.dataBuffB s.readAddrs.dataBuffB0Rdaddr (rwaddr1 p s)
    s.commit.ps3 s.dataMux.dataBuffB1Wrdata
  dataMux := clockDataMux p inp s
  commit := clockCommit inp s
  dspModes := clockDspModes p s
  dsp := dsp.clock (dspInputs inp s) s.dsp
  dataOutputs := clockDataOutputs p dsp inp s
  fifoDescBuffA := clockFifoDescBuff p inp s s.fifoDescBuffA s.fifoControls.fifoDescBuffARdaddr
  fifoDescBuffB := clockFifoDescBuff p inp s s.fifoDescBuffB s.fifoControls.fifoDescBuffBRdaddr
  fifoControls := clockFifoControls p s
  readAddrs := clockReadAddrs p s
  updateAddrs := clockUpdateAddrs s

def step (inp : Inputs) (s : State δ) : State δ := clock p dsp inp (settle inp s)

def run (env : Nat → Inputs) (s₀ : State δ) : Nat → State δ := Clocked.run (step p dsp) env s₀

def seen (env : Nat → Inputs) (s₀ : State δ) (k : Nat) : State δ :=
  settle (env k) (run p dsp env s₀ k)

theorem seen_succ (env : Nat → Inputs) (s₀ : State δ) (k : Nat) :
    seen p dsp env s₀ (k + 1) = settle (env (k + 1)) (clock p dsp (env k) (seen p dsp env s₀ k)) :=
  rfl

-- the registers and memories with an initial value; the mode registers are unknown until the
-- first edge, and an unknown mode takes the default of its case statement
structure PowerOn (s : State δ) : Prop where
  coefBuff : ∀ i < bufferSize p, s.coefBuff.contents i = BitVec.ofNat 18 (p.coeffValues.getD i 0)
  dataBuffA : ∀ i < bufferSize p, s.dataBuffA.contents i = 0
  dataBuffB : ∀ i < bufferSize p, s.dataBuffB.contents i = 0
  fifoDescBuffA : ∀ i < p.numFifos,
    s.fifoDescBuffA.contents i = BitVec.ofNat 16 (p.fifoSizes.getD i 0)
  fifoDescBuffB : ∀ i < p.numFifos,
    s.fifoDescBuffB.contents i = BitVec.ofNat 16 (p.fifoSizes.getD i 0)
  preaddMode : inmode s.dspModes.preaddModePs5 = inmode 0 ∨
    inmode s.dspModes.preaddModePs5 = inmode 3
  opmode : s.dspModes.addPrevEngineAccumPs7 = false

def zeroState (dsp₀ : δ) : State δ where
  timeSlice := {}
  inputLatch := ⟨fun _ => 0, fun _ => false⟩
  channels := ⟨0, 0, false, fun _ => false⟩
  doUpdate := ⟨false, 0⟩
  coefBuff := ⟨fun i => BitVec.ofNat 18 (p.coeffValues.getD i 0), 0, 0⟩
  dataBuffA := ⟨fun _ => 0, 0, 0, 0, 0⟩
  dataBuffB := ⟨fun _ => 0, 0, 0, 0, 0⟩
  dataMux := ⟨false, false, 0, 0⟩
  commit := {}
  dspModes := ⟨0, 0, false⟩
  dsp := dsp₀
  dataOutputs := ⟨0, fun _ => 0, fun _ => false, fun _ => false⟩
  fifoDescBuffA := ⟨fun i => BitVec.ofNat 16 (p.fifoSizes.getD i 0), 0, 0⟩
  fifoDescBuffB := ⟨fun i => BitVec.ofNat 16 (p.fifoSizes.getD i 0), 0, 0⟩
  fifoControls := ⟨0, 0, 0, false⟩
  readAddrs := ⟨0, 0, 0⟩
  updateAddrs := ⟨0, 0, 0, 0, 0, 0, 0⟩

theorem powerOn_zeroState (dsp₀ : δ) : PowerOn p (zeroState p dsp₀) where
  coefBuff := fun _ _ => rfl
  dataBuffA := fun _ _ => rfl
  dataBuffB := fun _ _ => rfl
  fifoDescBuffA := fun _ _ => rfl
  fifoDescBuffB := fun _ _ => rfl
  preaddMode := Or.inl rfl
  opmode := rfl

def ResetFor (r : Nat) (env : Nat → Inputs) : Prop := ∀ k, (env k).iRst = decide (k < r)

structure Released (r : Nat) (env : Nat → Inputs) : Prop where
  pos : 0 < r
  rst : (env (r - 1)).iRst = true
  free : ∀ a, (env (r + a)).iRst = false

theorem Released.free_add {r : Nat} {env : Nat → Inputs} (h : Released r env) (a j : Nat) :
    (env (r + a + j)).iRst = false := by
  rw [Nat.add_assoc]
  exact h.free (a + j)

theorem ResetFor.rst {r k : Nat} {env : Nat → Inputs} (h : ResetFor r env) (hk : k < r) :
    (env k).iRst = true := by
  rw [h]
  exact decide_eq_true hk

theorem ResetFor.released {r : Nat} {env : Nat → Inputs} (h : ResetFor r env) (hr : 0 < r) :
    Released r env where
  pos := hr
  rst := h.rst (Nat.sub_lt hr Nat.zero_lt_one)
  free := by
    intro a
    rw [h]
    exact decide_eq_false (Nat.not_lt.mpr (Nat.le_add_right r a))

end Rtl

end FirEngine
