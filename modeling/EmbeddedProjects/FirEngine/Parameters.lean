import Mathlib.Data.Rat.Defs
import Mathlib.Data.List.Perm.Basic
import EmbeddedProjects.FirEngine.Desc

namespace FirEngine

namespace FirEngineMacDesc

-- std::sort: nothing is promised about elements that compare equal
def IsSort (sort : List FirEngineMacFifoDesc → List FirEngineMacFifoDesc) : Prop :=
  ∀ l, (sort l).Perm l ∧
    (sort l).Pairwise fun a b => FirEngineMacFifoDesc.memWordsLessThan b a = false

def sortFifosInDescendingSizeOrder
    (sort : List FirEngineMacFifoDesc → List FirEngineMacFifoDesc) (mac : FirEngineMacDesc) :
    FirEngineMacDesc :=
  { mac with firEngineMacFifoDesc := (sort mac.firEngineMacFifoDesc).reverse }

def check (ok : Bool) : Except Fault Unit := if ok then .ok () else .error .assertion

-- `fifoDepth - 1` is unsigned
def fifoSizeWord (offset fifoDepth : Nat) : Nat :=
  (offset <<< 6) ||| ((fifoDepth + 0xFFFFFFFF) % 2 ^ 32)

def fifoSizesFrom : Nat → List FirEngineMacFifoDesc → Except Fault (List Nat)
  | _, [] => .ok []
  | offset, fifo :: rest => do
    let offset := IntUtils.alignAddressOnOrAfter offset fifo.numFifoMemWords
    check (fifo.fifoDepth ≤ 1 <<< 6)
    let sizes ← fifoSizesFrom (offset + fifo.numFifoMemWords) rest
    .ok (fifoSizeWord offset fifo.fifoDepth :: sizes)

def establishFifoSizes (mac : FirEngineMacDesc) : Except Fault (List Nat) :=
  fifoSizesFrom 0 mac.firEngineMacFifoDesc

-- int(x) rounds towards zero
def truncate (x : ℚ) : Int := x.num.tdiv x.den

def coeffVal1p17 (coeffVal : ℚ) : Nat := (truncate (coeffVal * 2 ^ 17) % 2 ^ 18).toNat

def coeffWord (spec : FirEngineSpec) (r : FirCoeffRef) : Except Fault Nat := do
  let coeffVal ← spec.lookupCoeff r
  check (coeffVal ≤ 1)
  check (coeffVal > -1)
  .ok (coeffVal1p17 coeffVal)

def resize (values : List Nat) (n : Nat) : List Nat :=
  values.take n ++ List.replicate (n - values.length) 0

def setFrom : Nat → List Nat → List Nat → List Nat
  | _, [], values => values
  | i, word :: words, values => setFrom (i + 1) words (values.set i word)

def coeffValuesFrom (spec : FirEngineSpec) :
    Nat → List FirEngineMacFifoDesc → List Nat → Except Fault (List Nat)
  | _, [], values => .ok values
  | offset, fifo :: rest, values => do
    let offset := IntUtils.alignAddressOnOrAfter offset fifo.numFifoMemWords
    let words ← fifo.firCoeffRef.mapM (coeffWord spec)
    if fifo.numFifoMemWords < words.length then .error .outOfRange else
    coeffValuesFrom spec (offset + fifo.numFifoMemWords) rest
      (setFrom offset words (resize values (offset + fifo.numFifoMemWords)))

def establishCoeffValues (mac : FirEngineMacDesc) (spec : FirEngineSpec) :
    Except Fault (List Nat) :=
  coeffValuesFrom spec 0 mac.firEngineMacFifoDesc []

end FirEngineMacDesc

structure RtlParameters where
  numInputs : Nat
  numOutputs : Nat
  log2BufferDepth : Nat
  bufferDepth : Nat
  log2NumFifos : Nat
  numFifos : Nat
  log2TimeSlices : Nat
  timeSlices : Nat
  channelSelect : List Nat
  firstEngine : List Nat
  lastEngine : List Nat
  firstTap : List Nat
  preAddMode : List Nat
  mulMode : List Nat
  addPrevEngineAccum : List Nat
  rdFifoNum : List Nat
  updateFifoNum : List Nat
  doUpdate : List Nat
  fifoSizes : List Nat
  coeffValues : List Nat
  deriving DecidableEq, Repr

namespace FirEngineMacDesc

def renderVector (bitsPerValue : Nat) (values : List Nat) : Except Fault Unit :=
  check (values.all fun v => v < 2 ^ bitsPerValue)

def rtlParameters (mac : FirEngineMacDesc) (numFifos : Nat)
    (channelSelect rdFifoNum updateFifoNum fifoSizes coeffValues : List Nat) : RtlParameters where
  numInputs := mac.inputFirs.length
  numOutputs := mac.outputFirs.length
  log2BufferDepth := IntUtils.bitWidthForEncodingValues coeffValues.length
  bufferDepth := coeffValues.length
  log2NumFifos := IntUtils.bitWidthForEncodingValues numFifos
  numFifos := numFifos
  log2TimeSlices := IntUtils.bitWidthForEncodingValues mac.getNumTimeSlots
  timeSlices := mac.getNumTimeSlots
  channelSelect := channelSelect
  firstEngine := mac.establishFirstEngineCtrl
  lastEngine := mac.establishLastEngineCtrl
  firstTap := mac.establishFirstTapCtrl
  preAddMode := mac.establishPreAddModeCtrl
  mulMode := mac.establishMulModeCtrl
  addPrevEngineAccum := mac.establishAddPrevEngineAccumCtrl
  rdFifoNum := rdFifoNum
  updateFifoNum := updateFifoNum
  doUpdate := mac.establishDoUpdateCtrl
  fifoSizes := fifoSizes
  coeffValues := coeffValues

def generateRtl (sort : List FirEngineMacFifoDesc → List FirEngineMacFifoDesc)
    (spec : FirEngineSpec) (mac : FirEngineMacDesc) : Except Fault RtlParameters := do
  let channelSelect ← mac.establishChannelSelectCtrl
  let rdFifoNum ← mac.establishRdFifoNumCtrl
  let updateFifoNum ← mac.establishUpdateFifoNumCtrl
  let sorted := mac.sortFifosInDescendingSizeOrder sort
  let fifoSizes ← sorted.establishFifoSizes
  let coeffValues ← sorted.establishCoeffValues spec
  check (coeffValues.length ≤ 1024)
  check (sorted.getNumFifos ≤ 256)
  check (mac.getNumTimeSlots ≤ 256)
  renderVector 4 channelSelect
  renderVector 8 rdFifoNum
  renderVector 8 updateFifoNum
  renderVector 16 fifoSizes
  renderVector 24 coeffValues
  .ok (mac.rtlParameters sorted.getNumFifos channelSelect rdFifoNum updateFifoNum fifoSizes
    coeffValues)

end FirEngineMacDesc

end FirEngine
