import EmbeddedProjects.FirEngine.Rtl

namespace FirEngine

namespace Rtl

structure DspRegs where
  a1 : BitVec 30 := 0
  b1 : BitVec 18 := 0
  d1 : BitVec 27 := 0
  inmode1 : BitVec 5 := 0
  a2 : BitVec 30 := 0
  ad : BitVec 27 := 0
  m : BitVec 48 := 0
  c1 : BitVec 48 := 0
  opmode1 : BitVec 9 := 0
  alumode1 : BitVec 4 := 0
  p : BitVec 48 := 0

def preAdd (inmode : BitVec 5) (b : BitVec 18) (d : BitVec 27) : BitVec 27 :=
  let d := if inmode.getLsbD 2 then d else 0
  if inmode.getLsbD 3 then d - b.signExtend 27 else d + b.signExtend 27

def accumulate (r : DspRegs) : BitVec 48 :=
  let w := if r.opmode1.extractLsb' 7 2 = 0b11#2 then r.c1 else 0
  let xy := if r.opmode1.extractLsb' 2 2 = 0b11#2 then r.c1
    else if r.opmode1.extractLsb' 2 2 = 0b01#2 then r.m else 0
  let z := if r.opmode1.extractLsb' 4 3 = 0b011#3 then r.c1
    else if r.opmode1.extractLsb' 4 3 = 0b010#3 then r.p else 0
  if r.alumode1 = 0b0011#4 then z - (w + xy) else z + (w + xy)

-- the operand A of the multiplier, behind AREG registers; B comes through BREG and ADREG
def operandA (areg : Nat) (r : DspRegs) : BitVec 30 := if areg = 2 then r.a2 else r.a1

def dsp48e2 (areg : Nat) : Dsp48e2 DspRegs where
  p := DspRegs.p
  clock ins r :=
    { a1 := ins.a
      b1 := ins.b
      d1 := ins.d
      inmode1 := ins.inmode
      a2 := r.a1
      ad := preAdd r.inmode1 r.b1 r.d1
      m := (((operandA areg r).extractLsb' 0 27).signExtend 48) *
        ((r.ad.extractLsb' 0 18).signExtend 48)
      c1 := ins.c
      opmode1 := ins.opmode
      alumode1 := ins.alumode
      p := accumulate r }

-- the slice as instantiated, AREG(1)
abbrev pipelined : Dsp48e2 DspRegs := dsp48e2 1

end Rtl

end FirEngine
