import Mathlib.Data.Rat.Floor

namespace FirEngine

-- what a call can end with besides a result: a thrown string, a failed assert, or a step
-- the language leaves undefined
inductive Fault where
  | thrown (message : String)
  | assertion
  | divisionByZero
  | conversion
  | outOfRange
  deriving DecidableEq, Repr

structure FirSpec where
  sampleFreq : Nat := 16000000
  coeff : List ℚ := []
  deriving DecidableEq, Repr

-- `firIndex = none` is the source's -1
structure FirCoeffRef where
  firIndex : Option Nat := none
  coeffIndex : Nat := 0
  deriving DecidableEq, Repr

def FirCoeffRef.isNull (r : FirCoeffRef) : Bool := r.firIndex.isNone

structure FirUpdateSlot where
  firIndex : Option Nat := none
  deriving DecidableEq, Repr

def FirUpdateSlot.isSlotEmpty (s : FirUpdateSlot) : Bool := s.firIndex.isNone

-- frequencies and coefficients are exact rationals where the source has doubles
structure FirEngineSpec where
  clockFreq : ℚ
  firSpec : List FirSpec := []
  deriving DecidableEq, Repr

def FirEngineSpec.numCoeff (spec : FirEngineSpec) (f : Nat) : Nat :=
  (spec.firSpec.getD f {}).coeff.length

def FirEngineSpec.lookupCoeff (spec : FirEngineSpec) (r : FirCoeffRef) : Except Fault ℚ :=
  match r.firIndex with
  | none => throw .assertion
  | some f =>
    match spec.firSpec[f]? with
    | none => throw .outOfRange
    | some firSpec =>
      match firSpec.coeff[r.coeffIndex]? with
      | none => throw .outOfRange
      | some c => pure c

end FirEngine
