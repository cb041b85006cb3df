import Mathlib.Data.Nat.Notation

namespace KeyPanel

def inKpNumKeys : Nat := 19

def inKpRotaryEncoder : Nat := inKpNumKeys

def inKpKeyMask (n : Nat) : BitVec 32 := if n < inKpNumKeys then 1#32 <<< n else 0

def inKpRotaryEncoderOffset : Nat := 24
def inKpRotaryEncoderMask : BitVec 32 := 0xFF000000
def inKpKeyStatesMask : BitVec 32 := 0x0007FFFF

def inKpEventKeyUp : BitVec 32 := 0
def inKpEventKeyDown : BitVec 32 := 1
def inKpEventRotaryRightTurn : BitVec 32 := 2
def inKpEventRotaryLeftTurn : BitVec 32 := 3

def inKpLedActiveStatesMask : BitVec 32 := 0x0000FFFF

def inSinglePress : BitVec 32 := 4
def inPressAndHold : BitVec 32 := 5
def inDoublePress : BitVec 32 := 6
def inTriplePress : BitVec 32 := 7
def inQuadPress : BitVec 32 := 8

def inSimKeyUpTime : Nat := 200
def inSimNextPressTime : Nat := 400
def inSimHoldUpTime : Nat := 1200

-- VVVVVVVV EEEKKKKK
def inKpEventKeyIdMask : BitVec 32 := 0x001F
def inKpEventEventIdMask : BitVec 32 := 0x00E0
def inKpEventValueMask : BitVec 32 := 0xFF00
def inKpEventKeyIdOffset : Nat := 0
def inKpEventEventIdOffset : Nat := 5
def inKpEventRotaryValueOffset : Nat := 8

end KeyPanel
