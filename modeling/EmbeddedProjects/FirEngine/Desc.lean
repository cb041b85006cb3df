import EmbeddedProjects.FirEngine.MacDesc

namespace FirEngine

structure FirBinding where
  firIndex : Nat := 0
  firstFirMacIndex : Nat := 0
  timeSliceOrigin : Nat := 0
  timeSliceInterval : Nat := 1
  deriving DecidableEq, Repr

structure FirEngineDesc where
  firUpdateLatency : Nat := 2
  numTimeSlots : Nat
  numFirs : Nat := 0
  firEngineMacDesc : List FirEngineMacDesc := []
  deriving DecidableEq, Repr

-- for (t = origin; t < numTimeSlots; t += interval); `fuel` rounds cover it when 0 < interval
def slotsFrom (interval numTimeSlots : Nat) : Nat → Nat → List Nat
  | 0, _ => []
  | fuel + 1, t =>
    if t < numTimeSlots then t :: slotsFrom interval numTimeSlots fuel (t + interval) else []

def FirBinding.timeSliceOffsets (b : FirBinding) (numTimeSlots : Nat) : List Nat :=
  slotsFrom b.timeSliceInterval numTimeSlots numTimeSlots b.timeSliceOrigin

def slotBefore (numTimeSlots t i : Nat) : Nat := IntUtils.modulo ((t : Int) - i) numTimeSlots

namespace FirEngineDesc

def canBindMac (d : FirEngineDesc) (mac : FirEngineMacDesc) (firSpec : FirSpec)
    (b : FirBinding) : Bool :=
  let offsets := b.timeSliceOffsets d.numTimeSlots
  mac.inputFirs.length != 15 && mac.outputFirs.length != 15 && mac.getNumFifos != 256 &&
  offsets.all (fun t => (mac.updateSlotAt t).isSlotEmpty &&
    (mac.updateSlotAt (slotBefore d.numTimeSlots t d.firUpdateLatency)).isSlotEmpty) &&
  offsets.all (fun t => (List.range firSpec.coeff.length).all fun i =>
    (mac.coeffRefAt (slotBefore d.numTimeSlots t i)).isNull)

def canBind (d : FirEngineDesc) (firSpec : FirSpec) (b : FirBinding) : Bool :=
  match d.firEngineMacDesc[b.firstFirMacIndex]? with
  | none => true
  | some mac => d.canBindMac mac firSpec b

def bindUpdateSlots (numTimeSlots : Nat) (b : FirBinding) (slots : List FirUpdateSlot) :
    List FirUpdateSlot :=
  (b.timeSliceOffsets numTimeSlots).foldl (fun slots t => slots.set t ⟨some b.firIndex⟩) slots

def bindCoeffRefs (numTimeSlots numCoeff : Nat) (b : FirBinding) (refs : List FirCoeffRef) :
    List FirCoeffRef :=
  (b.timeSliceOffsets numTimeSlots).foldl (fun refs t =>
    (List.range numCoeff).foldl (fun refs i =>
      refs.set (slotBefore numTimeSlots t i) ⟨some b.firIndex, numCoeff - 1 - i⟩) refs) refs

def fifoFor (firSpec : FirSpec) (firIndex : Nat) : FirEngineMacFifoDesc where
  firIndex := firIndex
  fifoDepth := firSpec.coeff.length
  numFifoMemWords := IntUtils.roundUpToPowerOfTwo firSpec.coeff.length
  firCoeffRef := (List.range firSpec.coeff.length).map fun i => ⟨some firIndex, i⟩

def bindMac (numTimeSlots : Nat) (firSpec : FirSpec) (b : FirBinding)
    (mac : FirEngineMacDesc) : FirEngineMacDesc where
  inputFirs := mac.inputFirs ++ [b.firIndex]
  outputFirs := mac.outputFirs ++ [b.firIndex]
  firUpdateSlot := bindUpdateSlots numTimeSlots b mac.firUpdateSlot
  firCoeffRef := bindCoeffRefs numTimeSlots firSpec.coeff.length b mac.firCoeffRef
  firEngineMacFifoDesc := mac.firEngineMacFifoDesc ++ [fifoFor firSpec b.firIndex]

def withMac (d : FirEngineDesc) (m : Nat) : List FirEngineMacDesc :=
  if m ≥ d.firEngineMacDesc.length then
    d.firEngineMacDesc ++ [FirEngineMacDesc.new d.numTimeSlots]
  else d.firEngineMacDesc

def bind (d : FirEngineDesc) (firSpec : FirSpec) (b : FirBinding) : FirEngineDesc :=
  { d with
    firEngineMacDesc :=
      (d.withMac b.firstFirMacIndex).modify b.firstFirMacIndex (bindMac d.numTimeSlots firSpec b)
    numFirs := d.numFirs + 1 }

def candidates (d : FirEngineDesc) (firIndex timeSliceInterval : Nat) : List FirBinding :=
  (List.range (d.firEngineMacDesc.length + 1)).flatMap fun m =>
    (List.range timeSliceInterval).map fun o => ⟨firIndex, m, o, timeSliceInterval⟩

def findValidBinding (d : FirEngineDesc) (firSpec : FirSpec) (firIndex timeSliceInterval : Nat) :
    Except Fault FirBinding :=
  match (d.candidates firIndex timeSliceInterval).find? (d.canBind firSpec) with
  | some b => .ok b
  | none => .error .assertion

-- unsigned(floor(x)) is undefined outside the range of unsigned
def toUnsigned (x : ℚ) : Except Fault Nat :=
  if 0 ≤ ⌊x⌋ ∧ ⌊x⌋ < 2 ^ 32 then .ok ⌊x⌋.toNat else .error .conversion

-- division by the integer 0 gives an infinity or a NaN, which has no unsigned value
def slicesPerSample (clockFreq : ℚ) (sampleFreq : Nat) : Except Fault Nat :=
  if sampleFreq = 0 then .error .conversion else toUnsigned (clockFreq / sampleFreq)

def evenInterval (numTimeSlots interval : Nat) : Nat :=
  numTimeSlots / IntUtils.ceilDiv numTimeSlots interval

def timeSliceInterval (numTimeSlots : Nat) (clockFreq : ℚ) (sampleFreq : Nat) :
    Except Fault Nat := do
  let slices ← slicesPerSample clockFreq sampleFreq
  let interval := min slices numTimeSlots
  if interval = 0 then .error .divisionByZero else
  .ok (evenInterval numTimeSlots interval)

def bindFir (d : FirEngineDesc) (spec : FirEngineSpec) (firIdx : Nat) :
    Except Fault FirEngineDesc :=
  match spec.firSpec[firIdx]? with
  | none => .error .outOfRange
  | some firSpec =>
    if (firSpec.sampleFreq : ℚ) > 2 * spec.clockFreq then
      .error (.thrown "FIR sample frequencies must be less than half of the clock frequency")
    else do
      let interval ← timeSliceInterval d.numTimeSlots spec.clockFreq firSpec.sampleFreq
      if interval < firSpec.coeff.length then
        .error (.thrown ("Too many coefficients for sample rate required " ++
          "(currently multi-MAC FIR is not supported)"))
      else do
        let b ← d.findValidBinding firSpec firIdx interval
        .ok (d.bind firSpec b)

end FirEngineDesc

def roundedInterval (T : Nat) (clockFreq : ℚ) (sampleFreq : Nat) : Nat :=
  FirEngineDesc.evenInterval T (min ⌊clockFreq / sampleFreq⌋.toNat T)

def bindFirs (spec : FirEngineSpec) (numTimeSlots : Nat) : Nat → Except Fault FirEngineDesc
  | 0 => .ok { numTimeSlots := numTimeSlots }
  | n + 1 => do
    let d ← bindFirs spec numTimeSlots n
    d.bindFir spec n

def buildFirEngine (spec : FirEngineSpec) (numTimeSlots : Nat) : Except Fault FirEngineDesc :=
  bindFirs spec numTimeSlots spec.firSpec.length

end FirEngine
