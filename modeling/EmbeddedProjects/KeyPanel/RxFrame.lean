import EmbeddedProjects.KeyPanel.Header

namespace KeyPanel

structure InsyncKeypanel where
  user : Nat := 0
  rxFrame : BitVec 32 := 0
  prevRxFrame : BitVec 32 := 0
  deriving DecidableEq, Repr

def keyEvent (keyStates : BitVec 32) (keyId : Nat) : BitVec 32 :=
  if keyStates &&& 1#32 <<< keyId ≠ 0 then
    inKpEventKeyDown <<< inKpEventEventIdOffset ||| BitVec.ofNat 32 keyId
  else inKpEventKeyUp <<< inKpEventEventIdOffset ||| BitVec.ofNat 32 keyId

-- while ( xor && key_id < max ), with max - key_id rounds left
def keyEventsFrom (keyStates : BitVec 32) : Nat → Nat → BitVec 32 → List (BitVec 32)
  | 0, _, _ => []
  | rounds + 1, keyId, xor =>
    if xor = 0 then [] else
    let mask : BitVec 32 := 1#32 <<< keyId
    if xor &&& mask ≠ 0 then
      keyEvent keyStates keyId :: keyEventsFrom keyStates rounds (keyId + 1) (xor &&& ~~~mask)
    else keyEventsFrom keyStates rounds (keyId + 1) xor

def keyEvents (keyStates prevKeyStates : BitVec 32) : List (BitVec 32) :=
  let xor := keyStates ^^^ prevKeyStates
  let max := if xor < 1024 then 10 else inKpNumKeys
  keyEventsFrom keyStates max 0 xor

-- `encoder > 0` compares an unsigned
def rotaryEvents (rxFrame : BitVec 32) : List (BitVec 32) :=
  let encoder := rxFrame &&& inKpRotaryEncoderMask
  if encoder ≠ 0 then
    let evalue := encoder >>> (inKpRotaryEncoderOffset - inKpEventRotaryValueOffset)
    let evalue := evalue ||| BitVec.ofNat 32 inKpRotaryEncoder
    if encoder > 0 then [evalue ||| inKpEventRotaryRightTurn <<< inKpEventEventIdOffset]
    else [evalue ||| inKpEventRotaryLeftTurn <<< inKpEventEventIdOffset]
  else []

def plainKeyEvents (keyStates prevKeyStates : BitVec 32) : List (BitVec 32) :=
  if keyStates ^^^ prevKeyStates ≠ 0 then
    (List.range inKpNumKeys).flatMap fun keyId =>
      let keyState := keyStates &&& inKpKeyMask keyId
      let prevKeyState := prevKeyStates &&& inKpKeyMask keyId
      if keyState ^^^ prevKeyState ≠ 0 then
        if keyState ≠ 0 then
          [inKpEventKeyDown <<< inKpEventEventIdOffset ||| BitVec.ofNat 32 keyId]
        else [inKpEventKeyUp <<< inKpEventEventIdOffset ||| BitVec.ofNat 32 keyId]
      else []
  else []

def processFrame (keypanel : InsyncKeypanel) (frame : BitVec 32) :
    InsyncKeypanel × List (BitVec 32) :=
  let keypanel := { keypanel with prevRxFrame := keypanel.rxFrame, rxFrame := frame }
  let keyStates := keypanel.rxFrame &&& inKpKeyStatesMask
  let prevKeyStates := keypanel.prevRxFrame &&& inKpKeyStatesMask
  (keypanel, keyEvents keyStates prevKeyStates ++ rotaryEvents keypanel.rxFrame)

namespace Insync

def processRxDataFrame (keypanel : InsyncKeypanel) (rhr : BitVec 32) :
    InsyncKeypanel × List (BitVec 32) := processFrame keypanel rhr

end Insync

namespace Virtual

-- the holding register is cleared by the read
def processRxDataFrame (keypanel : InsyncKeypanel) (rxHoldingRegister : BitVec 32) :
    InsyncKeypanel × BitVec 32 × List (BitVec 32) :=
  let (keypanel, events) := processFrame keypanel rxHoldingRegister
  (keypanel, 0, events)

end Virtual

end KeyPanel
