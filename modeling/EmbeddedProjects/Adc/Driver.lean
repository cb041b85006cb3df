import Mathlib.Logic.Function.Basic

namespace Adc

def atmelTsadccCh (n : Nat) : BitVec 32 := 1#32 <<< n
def atmelTsadccEoc (n : Nat) : BitVec 32 := 1#32 <<< (n + 0)

structure Registers where
  chsr : BitVec 32 := 0
  imr : BitVec 32 := 0
  sr : BitVec 32 := 0
  cdr : Nat → BitVec 32 := fun _ => 0

structure InsyncAdcc where
  absx : BitVec 32 := 0
  absy : BitVec 32 := 0
  deriving DecidableEq, Repr

-- for ( i = 0; i<7; ++i )
def channels (bit : Nat → BitVec 32) : BitVec 32 :=
  (List.range 7).foldl (fun chnl i => chnl ||| bit i) 0

def insyncAdccProbe (adcChannelMask : BitVec 32) : Registers where
  chsr := channels atmelTsadccCh &&& adcChannelMask
  imr := channels atmelTsadccEoc &&& adcChannelMask

-- reading a channel's data register clears its EOC bit
def Registers.readCdr (regs : Registers) (n : Nat) : BitVec 32 × Registers :=
  (regs.cdr n, { regs with sr := regs.sr &&& ~~~atmelTsadccEoc n })

-- the first of the eight branches that is taken
def servicedChannel (status : BitVec 32) : Option Nat :=
  (List.range 8).find? fun n => status &&& atmelTsadccEoc n ≠ 0

-- the handler reads SR and IMR first; conversions may end before it goes on
def readStatus (regs : Registers) : BitVec 32 := regs.sr &&& regs.imr

def insyncAdccInterrupt (status : BitVec 32) (tsDev : InsyncAdcc) (regs : Registers) :
    InsyncAdcc × Registers × List (BitVec 32) :=
  match servicedChannel status with
  | none => ({ tsDev with absy := 0 }, regs, [])
  | some n =>
    let (reading, regs) := regs.readCdr n
    let tsDev : InsyncAdcc := { absx := BitVec.ofNat 32 n, absy := reading }
    if tsDev.absy > 0 then (tsDev, regs, [tsDev.absy <<< 3 ||| tsDev.absx])
    else (tsDev, regs, [])

def adcIdMask : BitVec 32 := 0x0007
def adcReadingMask : BitVec 32 := 0x1FF8

def decodeEvent (value : BitVec 32) : Nat × BitVec 32 :=
  ((value &&& adcIdMask).toNat, (value &&& adcReadingMask) >>> 3)

end Adc
