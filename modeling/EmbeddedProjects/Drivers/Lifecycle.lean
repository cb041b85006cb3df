import EmbeddedProjects.Lib.Ledger
import EmbeddedProjects.Adc.Driver
import EmbeddedProjects.KeyPanel.Header

namespace Drivers

open Ledger

def enxio : Int := 6
def enomem : Int := 12
def ebusy : Int := 16
def enodev : Int := 19

structure Resource where
  start : BitVec 32
  size : BitVec 32
  deriving DecidableEq, Repr

-- what the kernel hands to a driver, and wants back
inductive Held where
  | platformDevice
  | attributeGroup
  | chrdevRegion
  | driverData
  | inputDev
  | registered
  | memRegion (res : Resource)
  | mapping
  | irq (irq : BitVec 32)
  | clk
  | clkEnabled
  | sscList
  deriving DecidableEq, Repr

structure PlatformDevice where
  res : Option Resource
  irq : BitVec 32

inductive Action where
  | write (reg : Nat) (val : BitVec 32)
  | read (reg : Nat)
  deriving DecidableEq, Repr

abbrev Command := Prog Held Action

def inputUnregisterDevice {β : Type} (next : Command β) : Command β :=
  .give .registered (.give .inputDev next)

namespace Adcc

def atmelTsadccCr : Nat := 0x00
def atmelTsadccMr : Nat := 0x04
def atmelTsadccTrgr : Nat := 0x08
def atmelTsadccCher : Nat := 0x10
def atmelTsadccSr : Nat := 0x1C
def atmelTsadccIer : Nat := 0x24

def atmelTsadccSwrst : BitVec 32 := 1 <<< 0
def atmelTsadccTsamodAdcOnlyMode : BitVec 32 := 0x0
def atmelTsadccLowres : BitVec 32 := 1 <<< 4
def atmelTsadccSleep : BitVec 32 := 1 <<< 5
def atmelTsadccPrescal : BitVec 32 := 0x3f <<< 8
def atmelTsadccEprescal : BitVec 32 := 0xff <<< 8
def atmelTsadccStartup : BitVec 32 := 0x7f <<< 16
def atmelTsadccShtim : BitVec 32 := 0xf <<< 24
def atmelTsadccPendbc : BitVec 32 := 0xf <<< 28
def atmelTsadccTrgmodExtRising : BitVec 32 := 1 <<< 0

def prescalerVal (x : BitVec 32) : BitVec 32 := x >>> 8

def adcDefaultClock : BitVec 32 := 100000

structure TsadccData where
  adcClock : BitVec 32
  pendetDebounce : BitVec 8
  tsSampleHoldTime : BitVec 8

def prescaler (cpuIsAt91sam9rl : Bool) (rate adcClock : BitVec 32) : BitVec 32 :=
  let prsc := rate / (2 * adcClock) - 1
  let limit :=
    if cpuIsAt91sam9rl then prescalerVal atmelTsadccPrescal else prescalerVal atmelTsadccEprescal
  if prsc > limit then limit else prsc

def modeRegister (prsc : BitVec 32) (pdata : TsadccData) : BitVec 32 :=
  atmelTsadccTsamodAdcOnlyMode ||| (0x00 <<< 4 &&& atmelTsadccLowres) |||
    (0x00 <<< 5 &&& atmelTsadccSleep) ||| prsc <<< 8 ||| (0x26 <<< 16 &&& atmelTsadccStartup) |||
    (pdata.tsSampleHoldTime.setWidth 32 <<< 24 &&& atmelTsadccShtim) |||
    (pdata.pendetDebounce.setWidth 32 <<< 28 &&& atmelTsadccPendbc)

section Labels

variable (pdev : PlatformDevice) (res : Resource)

def errFreeMem (err : Int) : Command Int := .give .driverData (.done err)

def errFreeDev (err : Int) : Command Int := .give .inputDev (errFreeMem err)

def errReleaseMem (err : Int) : Command Int := .give (.memRegion res) (errFreeDev err)

def errUnmapRegs (err : Int) : Command Int := .give .mapping (errReleaseMem res err)

def errFreeIrq (err : Int) : Command Int := .give (.irq pdev.irq) (errUnmapRegs res err)

def errFail (err : Int) : Command Int :=
  .give .clkEnabled (.give .clk (errFreeIrq pdev res err))

end Labels

variable (adcChannelMask : BitVec 32) (cpuIsAt91sam9rl : Bool) (clkGetRate : BitVec 32)

def insyncAdccProbe (pdata : Option TsadccData) (pdev : PlatformDevice) : Command Int :=
  match pdev.res with
  | none => .done (-enxio)
  | some res =>
    .attempt .driverData (fun _ => .done (-enomem)) <|
    .attempt .inputDev (fun _ => errFreeMem (-ebusy)) <|
    if pdev.irq.slt 0 then errFreeDev (-enodev) else
    .attempt (.memRegion res) (fun _ => errFreeDev (-ebusy)) <|
    .attempt .mapping (fun _ => errReleaseMem res (-enomem)) <|
    .attempt (.irq pdev.irq) (fun err => errUnmapRegs res err.code) <|
    .attempt .clk (fun err => errFreeIrq pdev res err.code) <|
    .hold .clkEnabled <|
    match pdata with
    -- `err` still holds what request_irq returned
    | none => errFail pdev res 0
    | some pdata =>
      let adcClock := if pdata.adcClock = 0 then adcDefaultClock else pdata.adcClock
      let prsc := prescaler cpuIsAt91sam9rl clkGetRate adcClock
      .act (.write atmelTsadccCr atmelTsadccSwrst) <|
      .act (.write atmelTsadccMr (modeRegister prsc pdata)) <|
      .act (.write atmelTsadccTrgr atmelTsadccTrgmodExtRising) <|
      .act (.write atmelTsadccCher (Adc.channels Adc.atmelTsadccCh &&& adcChannelMask)) <|
      .act (.write atmelTsadccIer (Adc.channels Adc.atmelTsadccEoc &&& adcChannelMask)) <|
      .act (.read atmelTsadccSr) <|
      .attempt .registered (fun err => errFail pdev res err.code) <|
      .done 0

def insyncAdccRemove (pdev : PlatformDevice) : Command Unit :=
  .give .clkEnabled <| .give .clk <| .give (.irq pdev.irq) <| .give .mapping <|
  match pdev.res with
  | none => .done ()
  | some res =>
    .give (.memRegion res) <|
    inputUnregisterDevice <| .give .inputDev <| .give .driverData <| .done ()

def driver (pdata : Option TsadccData) (pdev : PlatformDevice) : Driver Held Action where
  probe := insyncAdccProbe adcChannelMask cpuIsAt91sam9rl clkGetRate pdata pdev
  remove := insyncAdccRemove pdev

end Adcc

namespace Keypanel

def sscCr : Nat := 0x00
def sscCmr : Nat := 0x04
def sscRcmr : Nat := 0x10
def sscRfmr : Nat := 0x14
def sscTcmr : Nat := 0x18
def sscTfmr : Nat := 0x1c
def sscTshr : Nat := 0x34
def sscSr : Nat := 0x40
def sscIer : Nat := 0x44

def inSscMaxClkDiv : BitVec 32 := 4095
def inSscDesiredClkSpeedHz : BitVec 32 := 10000000

def inKpRxFrameLenLess1 : BitVec 32 := 0x1F
def inKpTxFrameLenLess1 : BitVec 32 := 0x1F
def inKpNumFrameSyncBits : BitVec 32 := 1

def clkDiv (mck : BitVec 32) : BitVec 32 :=
  let clkDiv := mck / (2 * inSscDesiredClkSpeedHz)
  let clkDiv := if clkDiv > 0 then clkDiv else 1
  if clkDiv > inSscMaxClkDiv then inSscMaxClkDiv else clkDiv

section Labels

variable (pdev : PlatformDevice) (res : Resource)

def exitFreeMem (rtn : Int) : Command Int := .give .driverData (.done rtn)

def exitFreeIdev (rtn : Int) : Command Int := .give .inputDev (exitFreeMem rtn)

def exitReleaseMem (rtn : Int) : Command Int := .give (.memRegion res) (exitFreeIdev rtn)

def exitIounmap (rtn : Int) : Command Int := .give .mapping (exitReleaseMem res rtn)

def exitFreeIrq (rtn : Int) : Command Int := .give (.irq pdev.irq) (exitIounmap res rtn)

def errFail (rtn : Int) : Command Int :=
  .give .clkEnabled (.give .clk (exitFreeIrq pdev res rtn))

end Labels

def inKeypanelProbe (clkGetRate : BitVec 32) (pdev : PlatformDevice) : Command Int :=
  .attempt .driverData (fun _ => .done (-enomem)) <|
  .attempt .inputDev (fun _ => exitFreeMem (-ebusy)) <|
  match pdev.res with
  | none => exitFreeIdev (-enxio)
  | some res =>
    .attempt (.memRegion res) (fun _ => exitFreeIdev (-ebusy)) <|
    .attempt .mapping (fun _ => exitReleaseMem res (-enomem)) <|
    if pdev.irq.slt 0 then exitIounmap res (-enodev) else
    .attempt (.irq pdev.irq) (fun err => exitIounmap res err.code) <|
    .attempt .clk (fun _ => exitFreeIrq pdev res (-enxio)) <|
    .hold .clkEnabled <|
    .act (.write sscCr (0x1 <<< 0 ||| 0x1 <<< 8 ||| 0x1 <<< 15)) <|
    .act (.write sscCmr (clkDiv clkGetRate)) <|
    .act (.write sscRcmr 0) <|
    .act (.write sscRfmr (inKpRxFrameLenLess1 <<< 0 ||| 0x0 <<< 7 |||
      inKpNumFrameSyncBits <<< 16)) <|
    .act (.write sscTcmr 0) <|
    .act (.write sscTfmr (inKpTxFrameLenLess1 <<< 0 ||| 0x1 <<< 5 ||| 0x0 <<< 7 |||
      inKpNumFrameSyncBits <<< 16 ||| 0x1 <<< 23)) <|
    .act (.write sscTshr 0) <|
    .act (.write sscIer (0x1 <<< 6 ||| 0x1 <<< 5)) <|
    .act (.read sscSr) <|
    .attempt .registered (fun err => errFail pdev res err.code) <|
    .hold .sscList <|
    .done 0

def inKeypanelUnlist : Command Unit :=
  inputUnregisterDevice <| .give .inputDev <| .give .sscList <| .give .driverData <| .done ()

def inKeypanelRemove (pdev : PlatformDevice) : Command Unit :=
  .give .clkEnabled <| .give .clk <| .give (.irq pdev.irq) <| .give .mapping <|
  match pdev.res with
  | none => inKeypanelUnlist
  | some res => .give (.memRegion res) inKeypanelUnlist

def driver (clkGetRate : BitVec 32) (pdev : PlatformDevice) : Driver Held Action where
  probe := inKeypanelProbe clkGetRate pdev
  remove := inKeypanelRemove pdev

end Keypanel

namespace Vkeypanel

def inKeypanelProbe : Command Int :=
  .attempt .driverData (fun _ => .done (-enomem)) <|
  .attempt .inputDev (fun _ => Keypanel.exitFreeMem (-ebusy)) <|
  .attempt .registered (fun _ => Keypanel.exitFreeIdev (-ebusy)) <|
  .hold .sscList <|
  .done 0

def inKeypanelRemove : Command Unit := Keypanel.inKeypanelUnlist

def driver : Driver Held Action where
  probe := inKeypanelProbe
  remove := inKeypanelRemove

end Vkeypanel

namespace Vadcc

def vadccCleanup {β : Type} (next : Command β) : Command β :=
  inputUnregisterDevice <| .give .inputDev <| .give .chrdevRegion <| .give .attributeGroup <|
  .give .platformDevice next

def vadccInit : Command Int :=
  .attempt .platformDevice (fun err => .done err.code) <|
  .attempt .attributeGroup (fun err => .give .platformDevice (.done err.code)) <|
  -- a refusal is only printed
  .take .chrdevRegion fun _ =>
  .attempt .inputDev (fun _ => .give .chrdevRegion <| .give .attributeGroup <|
    -- PTR_ERR of NULL
    .give .platformDevice <| .done 0) <|
  .attempt .registered (fun err => vadccCleanup (.done err.code)) <|
  .done 0

def driver : Driver Held Action where
  probe := vadccInit
  remove := vadccCleanup (.done ())

end Vadcc

inductive PlatformDriver where
  | insyncAdcc (adcChannelMask : BitVec 32) (cpuIsAt91sam9rl : Bool) (clkGetRate : BitVec 32)
      (pdata : Option Adcc.TsadccData)
  | insyncKeypanel (clkGetRate : BitVec 32)
  | vkeypanel

namespace PlatformDriver

def driver (pdev : PlatformDevice) : PlatformDriver → Driver Held Action
  | insyncAdcc adcChannelMask cpuIsAt91sam9rl clkGetRate pdata =>
    Adcc.driver adcChannelMask cpuIsAt91sam9rl clkGetRate pdata pdev
  | insyncKeypanel clkGetRate => Keypanel.driver clkGetRate pdev
  | vkeypanel => Vkeypanel.driver

def Present (pdev : PlatformDevice) : PlatformDriver → Prop
  | vkeypanel => True
  | _ => pdev.res.isSome ∧ ¬ pdev.irq.slt 0

def calls : PlatformDriver → Nat
  | insyncAdcc _ _ _ pdata => pdata.toList.length + 6
  | insyncKeypanel _ => 7
  | vkeypanel => 3

def hardware (pdev : PlatformDevice) : List Held :=
  [.clkEnabled, .clk, .irq pdev.irq, .mapping] ++ (pdev.res.map Held.memRegion).toList ++
    [.inputDev, .driverData]

def kept (pdev : PlatformDevice) : PlatformDriver → List Held
  | insyncAdcc _ _ _ none => []
  | insyncAdcc _ _ _ (some _) => .registered :: hardware pdev
  | insyncKeypanel _ => .sscList :: .registered :: hardware pdev
  | vkeypanel => [.sscList, .registered, .inputDev, .driverData]

def overgiven (pdev : PlatformDevice) : PlatformDriver → List Held
  | insyncAdcc _ _ _ none => .inputDev :: .registered :: hardware pdev
  | _ => [.inputDev]

end PlatformDriver

def Unwound (kept : List Held) (err : Int) (s : List Held) : Prop :=
  s = if err = 0 then kept else []

section Labels

open Adcc

variable {kept : List Held} {err : Int} (pdev : PlatformDevice) (res : Resource)

theorem unwound_of_ne (h : err ≠ 0) : Unwound kept err [] := (if_neg h).symm

theorem unwound_zero : Unwound kept 0 kept := (if_pos rfl).symm

theorem enxio_ne : -enxio ≠ 0 := by decide

theorem enomem_ne : -enomem ≠ 0 := by decide

theorem ebusy_ne : -ebusy ≠ 0 := by decide

theorem enodev_ne : -enodev ≠ 0 := by decide

theorem refused_nests (h : err ≠ 0) :
    (Prog.done err : Command Int).Nests [] (Unwound kept) := .done (unwound_of_ne h)

theorem errFreeMem_nests (h : Unwound kept err []) :
    (errFreeMem err).Nests [.driverData] (Unwound kept) := .give (.done h)

theorem errFreeDev_nests (h : Unwound kept err []) :
    (errFreeDev err).Nests [.inputDev, .driverData] (Unwound kept) := .give (errFreeMem_nests h)

theorem errReleaseMem_nests (h : Unwound kept err []) :
    (errReleaseMem res err).Nests [.memRegion res, .inputDev, .driverData] (Unwound kept) :=
  .give (errFreeDev_nests h)

theorem errUnmapRegs_nests (h : Unwound kept err []) :
    (errUnmapRegs res err).Nests [.mapping, .memRegion res, .inputDev, .driverData]
      (Unwound kept) :=
  .give (errReleaseMem_nests res h)

theorem errFreeIrq_nests (h : Unwound kept err []) :
    (errFreeIrq pdev res err).Nests
      [.irq pdev.irq, .mapping, .memRegion res, .inputDev, .driverData] (Unwound kept) :=
  .give (errUnmapRegs_nests res h)

theorem errFail_nests (h : Unwound kept err []) :
    (errFail pdev res err).Nests
      [.clkEnabled, .clk, .irq pdev.irq, .mapping, .memRegion res, .inputDev, .driverData]
      (Unwound kept) :=
  .give (.give (errFreeIrq_nests pdev res h))

end Labels

section Probe

variable (adcChannelMask : BitVec 32) (cpuIsAt91sam9rl : Bool) (clkGetRate : BitVec 32)
  (pdev : PlatformDevice)

open Adcc in
theorem insyncAdccProbe_nests (pdata : Option TsadccData) :
    (insyncAdccProbe adcChannelMask cpuIsAt91sam9rl clkGetRate pdata pdev).Nests []
      (Unwound (PlatformDriver.kept pdev (.insyncAdcc adcChannelMask cpuIsAt91sam9rl clkGetRate
        pdata))) := by
  rw [insyncAdccProbe]
  cases hres : pdev.res with
  | none => exact refused_nests enxio_ne
  | some res =>
    refine .attempt (fun _ => refused_nests enomem_ne) ?_
    refine .attempt (fun _ => errFreeMem_nests (unwound_of_ne ebusy_ne)) ?_
    by_cases hirq : pdev.irq.slt 0
    · rw [if_pos hirq]
      exact errFreeDev_nests (unwound_of_ne enodev_ne)
    · rw [if_neg hirq]
      refine .attempt (fun _ => errFreeDev_nests (unwound_of_ne ebusy_ne)) ?_
      refine .attempt (fun _ => errReleaseMem_nests res (unwound_of_ne enomem_ne)) ?_
      refine .attempt (fun err => errUnmapRegs_nests res (unwound_of_ne err.nonzero)) ?_
      refine .attempt (fun err => errFreeIrq_nests pdev res (unwound_of_ne err.nonzero)) ?_
      refine .hold ?_
      cases pdata with
      | none => exact errFail_nests pdev res unwound_zero
      | some pdata =>
        refine .act (.act (.act (.act (.act (.act ?_)))))
        refine .attempt (fun err => errFail_nests pdev res (unwound_of_ne err.nonzero)) ?_
        refine .done ?_
        simp [Unwound, PlatformDriver.kept, PlatformDriver.hardware, hres]

theorem insyncKeypanelProbe_nests :
    (Keypanel.inKeypanelProbe clkGetRate pdev).Nests []
      (Unwound (PlatformDriver.kept pdev (.insyncKeypanel clkGetRate))) := by
  rw [Keypanel.inKeypanelProbe]
  refine .attempt (fun _ => refused_nests enomem_ne) ?_
  refine .attempt (fun _ => errFreeMem_nests (unwound_of_ne ebusy_ne)) ?_
  cases hres : pdev.res with
  | none => exact errFreeDev_nests (unwound_of_ne enxio_ne)
  | some res =>
    refine .attempt (fun _ => errFreeDev_nests (unwound_of_ne ebusy_ne)) ?_
    refine .attempt (fun _ => errReleaseMem_nests res (unwound_of_ne enomem_ne)) ?_
    by_cases hirq : pdev.irq.slt 0
    · rw [if_pos hirq]
      exact errUnmapRegs_nests res (unwound_of_ne enodev_ne)
    · rw [if_neg hirq]
      refine .attempt (fun err => errUnmapRegs_nests res (unwound_of_ne err.nonzero)) ?_
      refine .attempt (fun _ => errFreeIrq_nests pdev res (unwound_of_ne enxio_ne)) ?_
      refine .hold ?_
      refine .act (.act (.act (.act (.act (.act (.act (.act (.act ?_))))))))
      refine .attempt (fun err => errFail_nests pdev res (unwound_of_ne err.nonzero)) ?_
      refine .hold (.done ?_)
      simp [Unwound, PlatformDriver.kept, PlatformDriver.hardware, hres]

theorem vkeypanelProbe_nests :
    Vkeypanel.inKeypanelProbe.Nests [] (Unwound (PlatformDriver.kept pdev .vkeypanel)) := by
  rw [Vkeypanel.inKeypanelProbe]
  refine .attempt (fun _ => refused_nests enomem_ne) ?_
  refine .attempt (fun _ => errFreeMem_nests (unwound_of_ne ebusy_ne)) ?_
  refine .attempt (fun _ => errFreeDev_nests (unwound_of_ne ebusy_ne)) ?_
  exact .hold (.done unwound_zero)

end Probe

section Granted

variable {pdev : PlatformDevice} {res : Resource}

open Adcc in
theorem insyncAdccProbe_granted (adcChannelMask : BitVec 32) (cpuIsAt91sam9rl : Bool)
    (clkGetRate : BitVec 32) (pdata : Option TsadccData) (hres : pdev.res = some res)
    (hirq : ¬ pdev.irq.slt 0) :
    (insyncAdccProbe adcChannelMask cpuIsAt91sam9rl clkGetRate pdata pdev).Granted
      (PlatformDriver.calls (.insyncAdcc adcChannelMask cpuIsAt91sam9rl clkGetRate pdata)) := by
  rw [insyncAdccProbe, hres]
  refine .attempt (fun _ _ => enomem_ne) ?_
  refine .attempt (fun _ _ => ebusy_ne) ?_
  rw [if_neg hirq]
  refine .attempt (fun _ _ => ebusy_ne) ?_
  refine .attempt (fun _ _ => enomem_ne) ?_
  refine .attempt (fun err _ => err.nonzero) ?_
  refine .attempt (fun err _ => err.nonzero) ?_
  refine .hold ?_
  cases pdata with
  | none => exact .give (.give (.give (.give (.give (.give (.give .done))))))
  | some pdata =>
    refine .act (.act (.act (.act (.act (.act ?_)))))
    exact .attempt (fun err _ => err.nonzero) .done

namespace Adcc

def writesOf (prsc adcChannelMask : BitVec 32) (pdata : TsadccData) : List Action :=
  [.write atmelTsadccCr atmelTsadccSwrst,
    .write atmelTsadccMr (modeRegister prsc pdata),
    .write atmelTsadccTrgr atmelTsadccTrgmodExtRising,
    .write atmelTsadccCher (Adc.channels Adc.atmelTsadccCh &&& adcChannelMask),
    .write atmelTsadccIer (Adc.channels Adc.atmelTsadccEoc &&& adcChannelMask),
    .read atmelTsadccSr]

theorem insyncAdccProbe_does (adcChannelMask : BitVec 32) (cpuIsAt91sam9rl : Bool)
    (clkGetRate : BitVec 32) (pdata : TsadccData) (hres : pdev.res = some res)
    (hirq : ¬ pdev.irq.slt 0) :
    (insyncAdccProbe adcChannelMask cpuIsAt91sam9rl clkGetRate (some pdata) pdev).Does
      (writesOf (prescaler cpuIsAt91sam9rl clkGetRate
        (if pdata.adcClock = 0 then adcDefaultClock else pdata.adcClock)) adcChannelMask
        pdata) := by
  rw [insyncAdccProbe, hres]
  refine .attempt (fun _ _ => enomem_ne) ?_
  refine .attempt (fun _ _ => ebusy_ne) ?_
  rw [if_neg hirq]
  refine .attempt (fun _ _ => ebusy_ne) ?_
  refine .attempt (fun _ _ => enomem_ne) ?_
  refine .attempt (fun err _ => err.nonzero) ?_
  refine .attempt (fun err _ => err.nonzero) ?_
  refine .hold (.act (.act (.act (.act (.act (.act ?_))))))
  exact .attempt (fun err _ => err.nonzero) .done

def perform (regs : Adc.Registers) : Action → Adc.Registers
  | .write reg val =>
    if reg = atmelTsadccCr ∧ val &&& atmelTsadccSwrst ≠ 0 then {}
    else if reg = atmelTsadccCher then { regs with chsr := regs.chsr ||| val }
    else if reg = atmelTsadccIer then { regs with imr := regs.imr ||| val }
    else regs
  | .read _ => regs

theorem perform_writesOf (prsc adcChannelMask : BitVec 32) (pdata : TsadccData)
    (regs : Adc.Registers) :
    (writesOf prsc adcChannelMask pdata).foldl perform regs =
      Adc.insyncAdccProbe adcChannelMask := by
  simp [writesOf, perform, Adc.insyncAdccProbe, atmelTsadccCr, atmelTsadccMr, atmelTsadccTrgr,
    atmelTsadccCher, atmelTsadccIer, atmelTsadccSwrst]

theorem registers_of_probe (adcChannelMask : BitVec 32) (cpuIsAt91sam9rl : Bool)
    (clkGetRate : BitVec 32) (pdata : TsadccData) (hres : pdev.res = some res)
    (hirq : ¬ pdev.irq.slt 0) (regs : Adc.Registers) (o : Answers)
    (h : (insyncAdccProbe adcChannelMask cpuIsAt91sam9rl clkGetRate (some pdata) pdev).result o
      = 0) :
    ((insyncAdccProbe adcChannelMask cpuIsAt91sam9rl clkGetRate (some pdata) pdev).acts o).foldl
      perform regs = Adc.insyncAdccProbe adcChannelMask := by
  rw [insyncAdccProbe_does adcChannelMask cpuIsAt91sam9rl clkGetRate pdata hres hirq o h]
  exact perform_writesOf _ adcChannelMask pdata regs

end Adcc

theorem insyncKeypanelProbe_granted (clkGetRate : BitVec 32) (hres : pdev.res = some res)
    (hirq : ¬ pdev.irq.slt 0) :
    (Keypanel.inKeypanelProbe clkGetRate pdev).Granted
      (PlatformDriver.calls (.insyncKeypanel clkGetRate)) := by
  rw [Keypanel.inKeypanelProbe, hres]
  refine .attempt (fun _ _ => enomem_ne) ?_
  refine .attempt (fun _ _ => ebusy_ne) ?_
  refine .attempt (fun _ _ => ebusy_ne) ?_
  refine .attempt (fun _ _ => enomem_ne) ?_
  rw [if_neg hirq]
  refine .attempt (fun err _ => err.nonzero) ?_
  refine .attempt (fun _ _ => enxio_ne) ?_
  refine .hold (.act (.act (.act (.act (.act (.act (.act (.act (.act ?_)))))))))
  exact .attempt (fun err _ => err.nonzero) (.hold .done)

open Adcc in
theorem insyncAdccProbe_fails (adcChannelMask : BitVec 32) (cpuIsAt91sam9rl : Bool)
    (clkGetRate : BitVec 32) (pdata : Option TsadccData)
    (h : pdev.res = none ∨ pdev.irq.slt 0) :
    (insyncAdccProbe adcChannelMask cpuIsAt91sam9rl clkGetRate pdata pdev).Fails := by
  rw [insyncAdccProbe]
  cases hres : pdev.res with
  | none => exact fun _ => enxio_ne
  | some res =>
    obtain hnone | hirq := h
    · rw [hnone] at hres
      cases hres
    · refine .attempt (fun _ _ => enomem_ne) (.attempt (fun _ _ => ebusy_ne) ?_)
      rw [if_pos hirq]
      exact fun _ => enodev_ne

theorem insyncKeypanelProbe_fails (clkGetRate : BitVec 32)
    (h : pdev.res = none ∨ pdev.irq.slt 0) :
    (Keypanel.inKeypanelProbe clkGetRate pdev).Fails := by
  rw [Keypanel.inKeypanelProbe]
  refine .attempt (fun _ _ => enomem_ne) (.attempt (fun _ _ => ebusy_ne) ?_)
  cases hres : pdev.res with
  | none => exact fun _ => enxio_ne
  | some res =>
    obtain hnone | hirq := h
    · rw [hnone] at hres
      cases hres
    · refine .attempt (fun _ _ => ebusy_ne) (.attempt (fun _ _ => enomem_ne) ?_)
      rw [if_pos hirq]
      exact fun _ => enodev_ne

theorem vkeypanelProbe_granted :
    Vkeypanel.inKeypanelProbe.Granted (PlatformDriver.calls .vkeypanel) := by
  refine .attempt (fun _ _ => enomem_ne) ?_
  refine .attempt (fun _ _ => ebusy_ne) ?_
  exact .attempt (fun _ _ => ebusy_ne) (.hold .done)

end Granted

namespace PlatformDriver

variable (d : PlatformDriver) (pdev : PlatformDevice)

theorem probe_nests : (d.driver pdev).probe.Nests [] (Unwound (d.kept pdev)) := by
  cases d with
  | insyncAdcc mask rl rate pdata => exact insyncAdccProbe_nests mask rl rate pdev pdata
  | insyncKeypanel rate => exact insyncKeypanelProbe_nests rate pdev
  | vkeypanel => exact vkeypanelProbe_nests pdev

theorem probe_granted (h : d.Present pdev) : (d.driver pdev).probe.Granted d.calls := by
  cases d with
  | insyncAdcc mask rl rate pdata =>
    obtain ⟨res, hres⟩ := Option.isSome_iff_exists.mp h.1
    exact insyncAdccProbe_granted mask rl rate pdata hres h.2
  | insyncKeypanel rate =>
    obtain ⟨res, hres⟩ := Option.isSome_iff_exists.mp h.1
    exact insyncKeypanelProbe_granted rate hres h.2
  | vkeypanel => exact vkeypanelProbe_granted

theorem present_of_result {o : Answers} (h : (d.driver pdev).probe.result o = 0) :
    d.Present pdev := by
  cases d with
  | insyncAdcc mask rl rate pdata =>
    by_contra hpresent
    refine insyncAdccProbe_fails mask rl rate pdata ?_ o h
    simpa [Present, imp_iff_or_not, or_comm] using hpresent
  | insyncKeypanel rate =>
    by_contra hpresent
    refine insyncKeypanelProbe_fails rate ?_ o h
    simpa [Present, imp_iff_or_not, or_comm] using hpresent
  | vkeypanel => trivial

theorem removed_perm (d : PlatformDriver) (h : d.Present pdev) (o : Answers) :
    ∃ given : List Held, (d.driver pdev).remove.events o = given.map .gave ∧
      given.Perm (d.kept pdev ++ d.overgiven pdev) := by
  cases d with
  | insyncAdcc mask rl rate pdata =>
    obtain ⟨res, hres⟩ := Option.isSome_iff_exists.mp h.1
    refine ⟨[.clkEnabled, .clk, .irq pdev.irq, .mapping, .memRegion res, .registered,
      .inputDev, .inputDev, .driverData], ?_, ?_⟩
    · simp only [driver, Adcc.driver, Adcc.insyncAdccRemove, hres]
      rfl
    · rw [List.perm_iff_count]
      intro r
      cases pdata <;> simp only [kept, overgiven, hardware, hres, Option.map_some,
        Option.toList_some, List.cons_append, List.nil_append, List.count_cons, List.count_nil] <;>
        ac_rfl
  | insyncKeypanel rate =>
    obtain ⟨res, hres⟩ := Option.isSome_iff_exists.mp h.1
    refine ⟨[.clkEnabled, .clk, .irq pdev.irq, .mapping, .memRegion res, .registered,
      .inputDev, .inputDev, .sscList, .driverData], ?_, ?_⟩
    · simp only [driver, Keypanel.driver, Keypanel.inKeypanelRemove, hres]
      rfl
    · rw [List.perm_iff_count]
      intro r
      simp only [kept, overgiven, hardware, hres, Option.map_some, Option.toList_some,
        List.cons_append, List.nil_append, List.count_cons, List.count_nil]
      ac_rfl
  | vkeypanel =>
    refine ⟨[.registered, .inputDev, .inputDev, .sscList, .driverData], rfl, ?_⟩
    rw [List.perm_iff_count]
    intro r
    simp only [kept, overgiven, List.cons_append, List.nil_append, List.count_cons,
      List.count_nil]
    ac_rfl

theorem gives : (d.driver pdev).Gives (d.kept pdev) (d.overgiven pdev) where
  probe := d.probe_nests pdev
  remove o h := removed_perm pdev d (d.present_of_result pdev h) o

theorem overgiven_ne_nil : d.overgiven pdev ≠ [] := by
  rcases d with ⟨_, _, _, _ | _⟩ | _ | _ <;> exact List.cons_ne_nil _ _

theorem probe_leaves_all_or_nothing (o : Answers) :
    piled [] ((d.driver pdev).probe.events o) =
        some (if (d.driver pdev).probe.result o = 0 then d.kept pdev else []) ∧
      ((d.driver pdev).probe.result o = 0 ↔
        d.Present pdev ∧ ∀ i < d.calls, o.get i = none) := by
  obtain ⟨s, hs, rfl⟩ := d.probe_nests pdev o
  refine ⟨hs, fun h => ?_, fun h => (d.probe_granted pdev h.1 o).mpr h.2⟩
  have hpresent := d.present_of_result pdev h
  exact ⟨hpresent, (d.probe_granted pdev hpresent o).mp h⟩

theorem unloading_gives_too_much (os : List Answers) :
    held [] ((d.driver pdev).rounds os) =
        (if (d.driver pdev).bound os = 0 then some [] else none) ∧
      ∀ r, ((d.driver pdev).rounds os).count (.gave r) =
        ((d.driver pdev).rounds os).count (.took r) +
          (d.driver pdev).bound os * (d.overgiven pdev).count r :=
  ⟨(d.gives pdev).held_rounds (d.overgiven_ne_nil pdev) os,
    fun r => (d.gives pdev).count_rounds r os⟩

end PlatformDriver

namespace Vadcc

def stopped (o : Answers) : Bool := (o.get 0).isSome || (o.get 1).isSome

variable (c d e : Option Errno) (o : Answers)

def answers (a b c d e : Option Errno) (o : Answers) : Answers :=
  Stream'.cons a <| Stream'.cons b <| Stream'.cons c <| Stream'.cons d <| Stream'.cons e o

theorem exists_answers (o : Answers) : ∃ a b c d e o', o = answers a b c d e o' := by
  refine ⟨o.head, o.tail.head, o.tail.tail.head, o.tail.tail.tail.head,
    o.tail.tail.tail.tail.head, o.tail.tail.tail.tail.tail, ?_⟩
  simp only [answers, Stream'.eta]

theorem result_platformDevice_refused (err : Errno) (b : Option Errno) :
    vadccInit.result (answers (some err) b c d e o) = err.code := rfl

theorem result_attributeGroup_refused (err : Errno) :
    vadccInit.result (answers none (some err) c d e o) = err.code := rfl

theorem result_inputDev_refused (err : Errno) :
    vadccInit.result (answers none none c (some err) e o) = 0 := rfl

theorem result_registered_refused (err : Errno) :
    vadccInit.result (answers none none c none (some err) o) = err.code := rfl

theorem result_granted : vadccInit.result (answers none none c none none o) = 0 := rfl

theorem result_eq_zero_iff (o : Answers) :
    vadccInit.result o = 0 ↔
      o.get 0 = none ∧ o.get 1 = none ∧ (o.get 3 = none → o.get 4 = none) := by
  obtain ⟨a, b, c, d, e, o, rfl⟩ := exists_answers o
  change _ ↔ a = none ∧ b = none ∧ (d = none → e = none)
  cases a with
  | some err => simp [result_platformDevice_refused, err.nonzero]
  | none =>
    cases b with
    | some err => simp [result_attributeGroup_refused, err.nonzero]
    | none =>
      cases d with
      | some err => simp [result_inputDev_refused]
      | none =>
        cases e with
        | some err => simp [result_registered_refused, err.nonzero]
        | none => simp [result_granted]

theorem held_round_registered_refused (err : Errno) :
    held [] (driver.round (answers none none c none (some err) o)) = none := by
  rw [Driver.round, held_append]
  cases c <;> rfl

theorem held_round (o : Answers) :
    held [] (driver.round o) = if stopped o then some [] else none := by
  obtain ⟨a, b, c, d, e, o, rfl⟩ := exists_answers o
  change _ = if a.isSome || b.isSome then some [] else none
  cases a with
  | some err =>
    have hresult : driver.probe.result (answers (some err) b c d e o) ≠ 0 := err.nonzero
    rw [Driver.round, if_neg hresult]
    rfl
  | none =>
    cases b with
    | some err =>
      have hresult : driver.probe.result (answers none (some err) c d e o) ≠ 0 := err.nonzero
      rw [Driver.round, if_neg hresult]
      rfl
    | none =>
      cases d with
      | some err => cases c <;> rfl
      | none =>
        cases e with
        | some err => exact held_round_registered_refused c o err
        | none => cases c <;> rfl

theorem load_past_attributeGroup_faults (os : List Answers) :
    held [] (driver.rounds os) = (if ∀ o ∈ os, stopped o then some [] else none) ∧
      ∀ o, vadccInit.result o = 0 ↔
        o.get 0 = none ∧ o.get 1 = none ∧ (o.get 3 = none → o.get 4 = none) :=
  ⟨driver.held_rounds_of_round _ held_round os, result_eq_zero_iff⟩

end Vadcc

end Drivers
