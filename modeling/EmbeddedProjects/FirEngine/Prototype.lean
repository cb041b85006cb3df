import EmbeddedProjects.FirEngine.SlotCounter
import EmbeddedProjects.FirEngine.Filter

namespace FirEngine

open FirEngineDesc FirEngineMacDesc Rtl

variable {δ : Type}

-- rtl/firengine.v, written by hand for five channels
namespace Prototype

-- the case labels 4'b0001 to 4'b0101
def channelOf : Nat → Option Nat
  | 1 => some 0
  | 2 => some 1
  | 3 => some 2
  | 4 => some 3
  | 5 => some 4
  | _ => none

section Module

variable (p : RtlParameters) (dsp : Dsp48e2 δ) (inp : Inputs) (s : State δ)

-- the selector registers are `reg [2:0]`, the slots of CHANNEL_SELECT still 4 bits
def clockChannels : Channels :=
  let channelSelPs1 := fieldAt p.channelSelect s.timeSlice.ps0 3
  if inp.iRst then ⟨channelSelPs1, 0, false, fun _ => false⟩
  else match channelOf s.channels.channelSelPs1 with
    | some i =>
      { channelSelPs1
        chosenDataPs2 := s.inputLatch.dataPs1 i
        chosenDataChangedPs2 := s.inputLatch.changedPs1 i ^^ s.channels.prevChanged i
        prevChanged := Function.update s.channels.prevChanged i (s.inputLatch.changedPs1 i) }
    | none =>
      { channelSelPs1
        chosenDataPs2 := inp.unknownData
        chosenDataChangedPs2 := false
        prevChanged := s.channels.prevChanged }

def clockCoefBuff : CoefBuff where
  contents := writeRam (bufferSize p) s.coefBuff.contents inp.iCoefBuffWren
    (inp.iCoefBuffWraddr % 2 ^ addrWidth p) inp.iCoefBuffWrdata
  rddataInt := readRam (bufferSize p) s.coefBuff.contents s.readAddrs.coefBuffRdaddr
    inp.unknownData
  rddata := s.coefBuff.rddataInt

def clockDataOutputs : DataOutputs :=
  let channelSelPs9 := fieldAt p.channelSelect s.timeSlice.ps8 3
  let out := s.dataOutputs
  let selected := fun i => channelOf out.channelSelPs9 = some i
  if inp.iRst then ⟨channelSelPs9, fun _ => 0, fun _ => false, fun _ => false⟩ else
    { channelSelPs9
      oData := fun i => if selected i then dspout (dsp.p s.dsp) else out.oData i
      dataOutChanged := fun i => if selected i then s.commit.ps9 else false
      oDataChanged := fun i => if out.dataOutChanged i then !out.oDataChanged i
        else out.oDataChanged i }

-- the other always blocks are those of the generated module
def clock : State δ :=
  { Rtl.clock p dsp inp s with
    channels := clockChannels p inp s
    coefBuff := clockCoefBuff p inp s
    dataOutputs := clockDataOutputs p dsp inp s }

def step (inp : Inputs) (s : State δ) : State δ := clock p dsp inp (settle inp s)

def run (env : Nat → Inputs) (s₀ : State δ) : Nat → State δ := Clocked.run (step p dsp) env s₀

def seen (env : Nat → Inputs) (s₀ : State δ) (k : Nat) : State δ :=
  settle (env k) (run p dsp env s₀ k)

theorem seen_succ (env : Nat → Inputs) (s₀ : State δ) (k : Nat) :
    seen p dsp env s₀ (k + 1) = settle (env (k + 1)) (clock p dsp (env k) (seen p dsp env s₀ k)) :=
  rfl

end Module

def code (p : RtlParameters) (c : Nat) : Nat := if c < p.numInputs then c + 1 else 0

def recode (p : RtlParameters) : RtlParameters :=
  { p with channelSelect := p.channelSelect.map (code p) }

def withSelectors (s : State δ) (a b : Nat) : State δ :=
  { s with
    channels := { s.channels with channelSelPs1 := a }
    dataOutputs := { s.dataOutputs with channelSelPs9 := b } }

structure FiveChannels (p : RtlParameters) : Prop where
  words : HandshakeWords p
  counted : p.timeSlices = 2 ^ regWidth p.log2TimeSlices
  inputs : p.numInputs ≤ 5

structure Follows (p : RtlParameters) (inp : Inputs) (s t : State δ) : Prop where
  same : ∃ a b, t = withSelectors s a b
  stages : ∀ j ≤ 10, s.timeSlice.stage j < p.timeSlices
  ps1 : inp.iRst = false → t.channels.channelSelPs1 = code p s.channels.channelSelPs1
  ps9 : inp.iRst = false → t.dataOutputs.channelSelPs9 = code p s.dataOutputs.channelSelPs9

section Blocks

variable {p : RtlParameters} {dsp : Dsp48e2 δ} {inp : Inputs} {s : State δ}

theorem code_le (hp : FiveChannels p) (c : Nat) : code p c ≤ 5 := by
  have hfive := hp.inputs
  rw [code]
  split <;> omega

theorem channelOf_code (hp : FiveChannels p) (c : Nat) :
    channelOf (code p c) = if c < p.numInputs then some c else none := by
  have hfive := hp.inputs
  rw [code]
  split
  · next hc =>
    have hlt : c < 5 := by omega
    rcases c with _ | _ | _ | _ | _ | c
    all_goals first | rfl | omega
  · rfl

theorem channelOf_code_eq_some (hp : FiveChannels p) (c i : Nat) :
    channelOf (code p c) = some i ↔ c = i ∧ i < p.numOutputs := by
  rw [channelOf_code hp, hp.words.outputs]
  split
  · next hc =>
    rw [Option.some.injEq]
    exact ⟨fun h => ⟨h, h ▸ hc⟩, And.left⟩
  · next hc =>
    refine ⟨fun h => absurd h (Option.some_ne_none i).symm, ?_⟩
    rintro ⟨rfl, hlt⟩
    exact absurd hlt hc

theorem if_selected {α : Type} (hp : FiveChannels p) (c i : Nat) (x y : α) :
    (if channelOf (code p c) = some i then x else y) =
      if c = i ∧ i < p.numOutputs then x else y :=
  if_congr (channelOf_code_eq_some hp c i) rfl rfl

theorem fieldAt_recode (hp : FiveChannels p) {slot : Nat} (h : slot < p.timeSlices) :
    fieldAt (recode p).channelSelect slot 3 = code p (fieldAt p.channelSelect slot 4) := by
  have hlt : slot < p.channelSelect.length := by rwa [hp.words.length]
  have hslot : p.channelSelect[slot]? = some p.channelSelect[slot] := List.getElem?_eq_getElem hlt
  have hcode : (recode p).channelSelect[slot]? = some (code p p.channelSelect[slot]) := by
    rw [recode, List.getElem?_map, hslot, Option.map_some]
  rw [fieldAt_of_getElem? hslot (hp.words.width _ (List.getElem_mem hlt)),
    fieldAt_of_getElem? hcode (Nat.lt_of_le_of_lt (code_le hp _) (by decide))]

theorem channelSelPs1_clockChannels :
    (Rtl.clockChannels p inp s).channelSelPs1 = fieldAt p.channelSelect s.timeSlice.ps0 4 := by
  simp only [Rtl.clockChannels]
  split
  · rfl
  · split <;> rfl

theorem clockChannels_withSelectors (hp : FiveChannels p) {a b : Nat}
    (ha : inp.iRst = false → a = code p s.channels.channelSelPs1) :
    clockChannels (recode p) inp (withSelectors s a b) =
      { Rtl.clockChannels p inp s with
        channelSelPs1 := fieldAt (recode p).channelSelect s.timeSlice.ps0 3 } := by
  cases hrst : inp.iRst with
  | true => simp only [clockChannels, Rtl.clockChannels, hrst, if_true, withSelectors]
  | false =>
    obtain rfl := ha hrst
    by_cases hsel : s.channels.channelSelPs1 < p.numInputs
    · simp only [clockChannels, Rtl.clockChannels, hrst, withSelectors, channelOf_code hp,
        if_pos hsel, Bool.false_eq_true, if_false]
    · simp only [clockChannels, Rtl.clockChannels, hrst, withSelectors, channelOf_code hp,
        if_neg hsel, Bool.false_eq_true, if_false]

theorem clockDataOutputs_withSelectors (hp : FiveChannels p) {a b : Nat}
    (hb : inp.iRst = false → b = code p s.dataOutputs.channelSelPs9) :
    clockDataOutputs (recode p) dsp inp (withSelectors s a b) =
      { Rtl.clockDataOutputs p dsp inp s with
        channelSelPs9 := fieldAt (recode p).channelSelect s.timeSlice.ps8 3 } := by
  cases hrst : inp.iRst with
  | true => simp only [clockDataOutputs, Rtl.clockDataOutputs, hrst, if_true, withSelectors]
  | false =>
    obtain rfl := hb hrst
    simp only [clockDataOutputs, Rtl.clockDataOutputs, hrst, withSelectors, Bool.false_eq_true,
      if_false]
    congr 1
    · exact funext fun i => if_selected hp _ i _ _
    · exact funext fun i => if_selected hp _ i _ _

theorem channelSelPs9_clockDataOutputs : (Rtl.clockDataOutputs p dsp inp s).channelSelPs9 =
    fieldAt p.channelSelect s.timeSlice.ps8 4 := by
  simp only [Rtl.clockDataOutputs]
  split <;> rfl

theorem bufferSize_le_addrWidth : bufferSize p ≤ 2 ^ addrWidth p := by
  rw [bufferSize, addrWidth, regWidth, Nat.one_shiftLeft]
  split
  · next hzero =>
    rw [hzero]
    decide
  · exact Nat.le_refl _

theorem clockCoefBuff_eq
    (h : inp.iCoefBuffWren = true → inp.iCoefBuffWraddr < bufferSize p) :
    clockCoefBuff p inp s = Rtl.clockCoefBuff p inp s := by
  rw [clockCoefBuff, Rtl.clockCoefBuff]
  cases hwren : inp.iCoefBuffWren with
  | false => simp [writeRam]
  | true =>
    rw [Nat.mod_eq_of_lt (Nat.lt_of_lt_of_le (h hwren) bufferSize_le_addrWidth)]

theorem clock_withSelectors (hp : FiveChannels p) {a b : Nat}
    (ha : inp.iRst = false → a = code p s.channels.channelSelPs1)
    (hb : inp.iRst = false → b = code p s.dataOutputs.channelSelPs9)
    (haddr : inp.iCoefBuffWren = true → inp.iCoefBuffWraddr < bufferSize p) :
    clock (recode p) dsp inp (withSelectors s a b) =
      withSelectors (Rtl.clock p dsp inp s)
        (fieldAt (recode p).channelSelect s.timeSlice.ps0 3)
        (fieldAt (recode p).channelSelect s.timeSlice.ps8 3) := by
  have hchannels : clockChannels (recode p) inp (withSelectors s a b) = _ :=
    clockChannels_withSelectors hp ha
  have houtputs : clockDataOutputs (recode p) dsp inp (withSelectors s a b) = _ :=
    clockDataOutputs_withSelectors hp hb
  have hcoef : clockCoefBuff (recode p) inp (withSelectors s a b) = Rtl.clockCoefBuff p inp s :=
    clockCoefBuff_eq (p := p) haddr
  rw [clock, hchannels, houtputs, hcoef]
  rfl

theorem stage_clock (hp : FiveChannels p) (h : ∀ j ≤ 10, s.timeSlice.stage j < p.timeSlices) :
    ∀ j ≤ 10, (clockTimeSlices p inp s).stage j < p.timeSlices := by
  have hpos := hp.words.pos
  intro j hj
  rw [clockTimeSlices]
  split
  · rcases j with _ | _ | _ | _ | _ | _ | _ | _ | _ | _ | _ | j <;> exact hpos
  · cases j with
    | zero =>
      rw [hp.counted]
      exact Nat.mod_lt _ (Nat.two_pow_pos _)
    | succ j =>
      have hprev := h j (Nat.le_of_succ_le hj)
      rcases j with _ | _ | _ | _ | _ | _ | _ | _ | _ | _ | j
      all_goals first | exact hprev | omega

theorem stage_settle (hp : FiveChannels p) (h : ∀ j ≤ 10, s.timeSlice.stage j < p.timeSlices) :
    ∀ j ≤ 10, (settle inp s).timeSlice.stage j < p.timeSlices := by
  intro j hj
  rw [settle]
  split
  · have hpos := hp.words.pos
    rcases j with _ | _ | _ | _ | _ | _ | _ | _ | _ | _ | _ | j <;> exact hpos
  · exact h j hj

theorem settle_withSelectors (a b : Nat) :
    settle inp (withSelectors s a b) = withSelectors (settle inp s) a b := by
  rw [settle, settle]
  split <;> rfl

theorem follows_reset (hp : FiveChannels p) (hrst : inp.iRst = true) (a b : Nat) :
    Follows p inp (settle inp s) (settle inp (withSelectors s a b)) where
  same := ⟨a, b, settle_withSelectors a b⟩
  stages := by
    have hpos := hp.words.pos
    intro j hj
    rw [settle, if_pos hrst]
    rcases j with _ | _ | _ | _ | _ | _ | _ | _ | _ | _ | _ | j <;> exact hpos
  ps1 := fun hoff => absurd hrst (Bool.eq_false_iff.mp hoff)
  ps9 := fun hoff => absurd hrst (Bool.eq_false_iff.mp hoff)

theorem settle_channelSelPs1 :
    (settle inp s).channels.channelSelPs1 = s.channels.channelSelPs1 := by
  rw [settle]
  split <;> rfl

theorem settle_channelSelPs9 :
    (settle inp s).dataOutputs.channelSelPs9 = s.dataOutputs.channelSelPs9 := by
  rw [settle]
  split <;> rfl

theorem Follows.clock {t : State δ} (h : Follows p inp s t) (hp : FiveChannels p)
    (haddr : inp.iCoefBuffWren = true → inp.iCoefBuffWraddr < bufferSize p) (inp' : Inputs) :
    Follows p inp' (settle inp' (Rtl.clock p dsp inp s))
      (settle inp' (clock (recode p) dsp inp t)) := by
  obtain ⟨a, b, rfl⟩ := h.same
  have hclock : Prototype.clock (recode p) dsp inp (withSelectors s a b) = _ :=
    clock_withSelectors hp h.ps1 h.ps9 haddr
  rw [hclock, settle_withSelectors]
  refine ⟨⟨_, _, rfl⟩, stage_settle hp (stage_clock hp h.stages), fun _ => ?_, fun _ => ?_⟩
  · rw [settle_channelSelPs1]
    change _ = code p (Rtl.clockChannels p inp s).channelSelPs1
    rw [channelSelPs1_clockChannels]
    exact fieldAt_recode hp (h.stages 1 (by decide))
  · rw [settle_channelSelPs9]
    change _ = code p (Rtl.clockDataOutputs p dsp inp s).channelSelPs9
    rw [channelSelPs9_clockDataOutputs]
    exact fieldAt_recode hp (h.stages 9 (by decide))

theorem follows_seen (hp : FiveChannels p) {env : Nat → Inputs} (hreset : (env 0).iRst = true)
    (haddr : ∀ k, (env k).iCoefBuffWren = true → (env k).iCoefBuffWraddr < bufferSize p)
    (a b k : Nat) :
    Follows p (env k) (Rtl.seen p dsp env s k)
      (seen (recode p) dsp env (withSelectors s a b) k) := by
  induction k with
  | zero => exact follows_reset hp hreset a b
  | succ k ih => exact ih.clock hp (haddr k) (env (k + 1))

end Blocks

theorem fiveChannels_of_generated
    {sort : List FirEngineMacFifoDesc → List FirEngineMacFifoDesc} {spec : FirEngineSpec}
    {mac : FirEngineMacDesc} {p : RtlParameters} {T : Nat} (hb : BuiltMac spec T mac)
    (hgen : Generated sort spec mac p) (hpow : ∃ n, 0 < n ∧ T = 2 ^ n)
    (hfive : mac.inputFirs.length ≤ 5) : FiveChannels p := by
  obtain ⟨n, hn, rfl⟩ := hpow
  have hslots : mac.getNumTimeSlots = 2 ^ n := hb.inv.refs_length
  have hsmall : 2 ^ n ≤ 2 ^ 8 := hslots ▸ hgen.timeSlots_le
  have hn8 : n ≤ 8 := (Nat.pow_le_pow_iff_right (by decide)).mp hsmall
  have hslices : p.timeSlices = 2 ^ n := hgen.timeSlices.trans hslots
  have hlog : p.log2TimeSlices = n := by
    rw [hgen.result]
    change IntUtils.bitWidthForEncodingValues mac.getNumTimeSlots = n
    rw [hslots, bitWidth_two_pow (by omega)]
  have hinputs : p.numInputs = mac.inputFirs.length := congrArg (·.numInputs) hgen.result
  refine ⟨handshakeWords_of_generated hb hgen (by rw [hslices, hlog]), ?_, hinputs ▸ hfive⟩
  rw [hslices, hlog, regWidth, if_neg (by omega)]

theorem runs_on_prototype (spec : FirEngineSpec) (T : Nat) (d : FirEngineDesc)
    (h : buildFirEngine spec T = .ok d) (mac : FirEngineMacDesc) (hmac : mac ∈ d.firEngineMacDesc)
    (sort : List FirEngineMacFifoDesc → List FirEngineMacFifoDesc) (p : RtlParameters)
    (hp : generateRtl sort spec mac = .ok p) (hpow : ∃ n, 0 < n ∧ T = 2 ^ n)
    (hfive : mac.inputFirs.length ≤ 5) (dsp : Dsp48e2 δ) (env : Nat → Inputs)
    (hreset : (env 0).iRst = true)
    (haddr : ∀ k, (env k).iCoefBuffWren = true → (env k).iCoefBuffWraddr < bufferSize p)
    (s₀ : State δ) (a b k : Nat) :
    ∃ a' b', seen (recode p) dsp env (withSelectors s₀ a b) k =
      withSelectors (Rtl.seen p dsp env s₀ k) a' b' := by
  have hb := builtMac_of_buildFirEngine h hmac
  have hwords := fiveChannels_of_generated hb (generateRtl_eq_ok.mp hp) hpow hfive
  exact (follows_seen hwords hreset haddr a b k).same

theorem runs_on_prototype_pacedSpec : ∃ a' b',
    seen (recode pacedParameters) pipelined pacedRun.env
        (withSelectors (zeroState pacedParameters {}) 3 6) 40 =
      withSelectors (pacedRun.state 40) a' b' := by
  obtain ⟨d, mac, hd, hmac, hfirs, hslot, hp⟩ := generated_pacedSpec
  exact runs_on_prototype pacedSpec 8 d hd mac hmac insertionSortByMemWords pacedParameters hp
    ⟨3, by decide, rfl⟩ (by rw [hfirs]; decide) pipelined pacedRun.env rfl
    (fun k hwren => absurd hwren Bool.false_ne_true) _ 3 6 40

end Prototype

end FirEngine
