import EmbeddedProjects.FirEngine.IntUtils
import EmbeddedProjects.FirEngine.Spec

namespace FirEngine

structure FirEngineMacFifoDesc where
  firIndex : Nat := 0
  fifoDepth : Nat := 0
  numFifoMemWords : Nat := 1
  firCoeffRef : List FirCoeffRef := []
  deriving DecidableEq, Repr

def FirEngineMacFifoDesc.memWordsLessThan (d0 d1 : FirEngineMacFifoDesc) : Bool :=
  d0.numFifoMemWords < d1.numFifoMemWords

structure FirEngineMacDesc where
  inputFirs : List Nat := []
  outputFirs : List Nat := []
  firCoeffRef : List FirCoeffRef
  firUpdateSlot : List FirUpdateSlot
  firEngineMacFifoDesc : List FirEngineMacFifoDesc := []
  deriving DecidableEq, Repr

namespace FirEngineMacDesc

def new (numTimeSlots : Nat) : FirEngineMacDesc where
  firCoeffRef := List.replicate numTimeSlots {}
  firUpdateSlot := List.replicate numTimeSlots {}

def getNumTimeSlots (mac : FirEngineMacDesc) : Nat := mac.firCoeffRef.length

def getNumFifos (mac : FirEngineMacDesc) : Nat := mac.firEngineMacFifoDesc.length

def coeffRefAt (mac : FirEngineMacDesc) (t : Nat) : FirCoeffRef := mac.firCoeffRef.getD t {}

def updateSlotAt (mac : FirEngineMacDesc) (t : Nat) : FirUpdateSlot :=
  mac.firUpdateSlot.getD t {}

theorem isNull_coeffRefAt_eq_false {mac : FirEngineMacDesc} {t : Nat} :
    (mac.coeffRefAt t).isNull = false ↔
      ∃ f j, mac.firCoeffRef[t]? = some { firIndex := some f, coeffIndex := j } := by
  rw [coeffRefAt, List.getD_eq_getElem?_getD]
  cases mac.firCoeffRef[t]? with
  | none => simp [FirCoeffRef.isNull]
  | some r => rcases r with ⟨_ | f, j⟩ <;> simp [FirCoeffRef.isNull]

theorem isSlotEmpty_updateSlotAt_eq_false {mac : FirEngineMacDesc} {t : Nat} :
    (mac.updateSlotAt t).isSlotEmpty = false ↔
      ∃ f, mac.firUpdateSlot[t]? = some { firIndex := some f } := by
  rw [updateSlotAt, List.getD_eq_getElem?_getD]
  cases mac.firUpdateSlot[t]? with
  | none => simp [FirUpdateSlot.isSlotEmpty]
  | some s => rcases s with ⟨_ | f⟩ <;> simp [FirUpdateSlot.isSlotEmpty]

-- `assert(false)` stands behind the two search loops
def orAssert : Option Nat → Except Fault Nat
  | some i => .ok i
  | none => .error .assertion

def findInputIndexForFirIndex (mac : FirEngineMacDesc) (f : Nat) : Except Fault Nat :=
  orAssert (mac.inputFirs.findIdx? (· == f))

def findFifoIndexForFirIndex (mac : FirEngineMacDesc) (f : Nat) : Except Fault Nat :=
  orAssert (mac.firEngineMacFifoDesc.findIdx? (·.firIndex == f))

def lookupOr (unused : Nat) (find : Nat → Except Fault Nat) : Option Nat → Except Fault Nat
  | none => .ok unused
  | some f => find f

def establishChannelSelectCtrl (mac : FirEngineMacDesc) : Except Fault (List Nat) :=
  mac.firUpdateSlot.mapM fun s => lookupOr 0xF mac.findInputIndexForFirIndex s.firIndex

def oneIfUsed (s : FirUpdateSlot) : Nat := if s.isSlotEmpty then 0 else 1

def establishFirstEngineCtrl (mac : FirEngineMacDesc) : List Nat := mac.firUpdateSlot.map oneIfUsed

def establishLastEngineCtrl (mac : FirEngineMacDesc) : List Nat := mac.firUpdateSlot.map oneIfUsed

def isFirstTap (r : FirCoeffRef) : Bool := !r.isNull && r.coeffIndex == 0

def establishFirstTapCtrl (mac : FirEngineMacDesc) : List Nat :=
  mac.firCoeffRef.map fun r => if isFirstTap r then 1 else 0

def establishPreAddModeCtrl (mac : FirEngineMacDesc) : List Nat :=
  List.replicate mac.getNumTimeSlots 0

def establishMulModeCtrl (mac : FirEngineMacDesc) : List Nat :=
  mac.firCoeffRef.map fun r => if isFirstTap r then 0 else 1

def establishAddPrevEngineAccumCtrl (mac : FirEngineMacDesc) : List Nat :=
  List.replicate mac.getNumTimeSlots 0

def establishRdFifoNumCtrl (mac : FirEngineMacDesc) : Except Fault (List Nat) :=
  mac.firCoeffRef.mapM fun r => lookupOr 0 mac.findFifoIndexForFirIndex r.firIndex

def establishUpdateFifoNumCtrl (mac : FirEngineMacDesc) : Except Fault (List Nat) :=
  mac.firUpdateSlot.mapM fun s => lookupOr 0 mac.findFifoIndexForFirIndex s.firIndex

def establishDoUpdateCtrl (mac : FirEngineMacDesc) : List Nat := mac.firUpdateSlot.map oneIfUsed

end FirEngineMacDesc

end FirEngine
