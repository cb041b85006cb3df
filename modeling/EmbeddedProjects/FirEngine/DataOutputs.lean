import EmbeddedProjects.FirEngine.Handshake

namespace FirEngine

open FirEngineMacDesc Rtl

variable {δ : Type}

namespace Rtl.Run

variable (R : Run δ) (i : Nat)

def Delivers (k : Nat) : Prop :=
  (R.state k).dataOutputs.channelSelPs9 = i ∧ i < R.p.numOutputs

instance (k : Nat) : Decidable (R.Delivers i k) := inferInstanceAs (Decidable (_ ∧ _))

def Flips (k : Nat) : Prop :=
  (R.state (k + 1)).dataOutputs.oDataChanged i ≠ (R.state k).dataOutputs.oDataChanged i

def FlaggedOutput : Prop := ∀ k, (R.env (k + 1)).iRst = false → (R.env (k + 2)).iRst = false →
  (R.state (k + 1)).dataOutputs.oData i ≠ (R.state k).dataOutputs.oData i → R.Flips i (k + 1)

def ConstantBetweenFlips : Prop := ∀ a b, a ≤ b →
  (∀ k, a < k → k ≤ b + 1 → (R.env k).iRst = false) → (∀ k, a < k → k ≤ b → ¬ R.Flips i k) →
  (R.state b).dataOutputs.oData i = (R.state a).dataOutputs.oData i

variable {R i} {k : Nat}

theorem oData_of_rst (hrst : (R.env k).iRst = true) (hnext : (R.env (k + 1)).iRst = false) :
    (R.state (k + 1)).dataOutputs.oData i = (R.state k).dataOutputs.oData i := by
  have hzero : (R.state k).dataOutputs.oData i = 0 := by
    rw [state, seen, settle, if_pos hrst]
  rw [hzero, state_succ R hnext]
  change (clockDataOutputs R.p R.dsp (R.env k) (R.state k)).oData i = 0
  rw [clockDataOutputs, if_pos hrst]

theorem oData_succ (h : (R.env k).iRst = false) (hnext : (R.env (k + 1)).iRst = false) :
    (R.state (k + 1)).dataOutputs.oData i =
      if R.Delivers i k then dspout (R.dsp.p (R.state k).dsp)
      else (R.state k).dataOutputs.oData i := by
  rw [state_succ R hnext]
  change (clockDataOutputs R.p R.dsp (R.env k) (R.state k)).oData i = _
  rw [clockDataOutputs, if_neg (by simp [h])]
  rfl

theorem flips_succ (h : (R.env k).iRst = false) (hnext : (R.env (k + 1)).iRst = false)
    (hnext₂ : (R.env (k + 2)).iRst = false) :
    R.Flips i (k + 1) ↔ R.Delivers i k ∧ (R.state k).commit.ps9 = true := by
  rw [Flips, (dataOutputs_succ hnext hnext₂).2, (dataOutputs_succ h hnext).1, Delivers]
  split
  · next hsel => simp [hsel]
  · next hsel => simp [hsel]

theorem flaggedOutput_iff_constant : R.FlaggedOutput i ↔ R.ConstantBetweenFlips i := by
  constructor
  · intro h a b hab hrst hquiet
    refine Clocked.eq_of_quiet (f := fun k => (R.state k).dataOutputs.oData i) hab ?_
    intro k hk hkb
    by_contra hne
    exact hquiet (k + 1) (by omega) hkb (h k (hrst _ (by omega) (by omega))
      (hrst _ (by omega) (by omega)) hne)
  · intro h k hnext hnext₂ hne hstill
    refine hne (h k (k + 1) (by omega) (fun l hl hlk => ?_) fun l hl hlk => ?_)
    · obtain rfl | rfl : l = k + 1 ∨ l = k + 2 := by omega
      · exact hnext
      · exact hnext₂
    · obtain rfl : l = k + 1 := by omega
      exact not_not.mpr hstill

end Rtl.Run

def Turn (p : RtlParameters) (i a : Nat) : Prop :=
  fieldAt p.channelSelect (a % 2 ^ regWidth p.log2TimeSlices) 4 = i

instance (p : RtlParameters) (i a : Nat) : Decidable (Turn p i a) :=
  inferInstanceAs (Decidable (_ = _))

def lookedAt (p : RtlParameters) (env : Nat → Inputs) (r i : Nat) : Nat → Bool
  | 0 => false
  | a + 1 => if Turn p i a then (env (r + a + 1)).iDataChanged i else lookedAt p env r i a

structure FreshTurn (p : RtlParameters) (env : Nat → Inputs) (r i a : Nat) : Prop where
  update : a % 2 ^ regWidth p.log2TimeSlices < p.timeSlices
  flipped : (env (r + a + 1)).iDataChanged i ≠ lookedAt p env r i a

def EveryTurnFresh (p : RtlParameters) (env : Nat → Inputs) (r i : Nat) : Prop :=
  ∀ a, 1 ≤ a → Turn p i a → FreshTurn p env r i a

namespace Rtl.Run

-- until the first turn after slot 0 the output stage still stores under the select of slot 0
def QuietStart (R : Run δ) (r i : Nat) : Prop :=
  Turn R.p i 0 → ∀ a ≤ 10, dspout (R.dsp.p (R.state (r + a)).dsp) = 0

section Start

variable {R : Run δ} {r i a : Nat}

theorem timeSlice_add (hrel : Released r R.env) (a : Nat) : (R.state (r + a)).timeSlice =
    { psm1 := R.slot a, ps0 := R.slot (a - 1), ps1 := R.slot (a - 2), ps2 := R.slot (a - 3)
      ps3 := R.slot (a - 4), ps4 := R.slot (a - 5), ps5 := R.slot (a - 6), ps6 := R.slot (a - 7)
      ps7 := R.slot (a - 8), ps8 := R.slot (a - 9), ps9 := R.slot (a - 10) } := by
  induction a with
  | zero =>
    obtain ⟨q, rfl, hq, hstate⟩ := state_release hrel
    rw [Nat.add_zero, hstate]
    change clockTimeSlices R.p (R.env q) (R.state q) = _
    simp [clockTimeSlices, hq, slot]
  | succ a ih =>
    rw [← Nat.add_assoc, timeSlice_succ (hrel.free a) (hrel.free (a + 1)), ih]
    rw [TimeSlices.mk.injEq]
    exact ⟨Nat.mod_add_mod a _ 1, rfl, rfl, rfl, rfl, rfl, rfl, rfl, rfl, rfl, rfl⟩

theorem channelSelPs9_from (hrel : Released r R.env) (a : Nat) :
    (R.state (r + a)).dataOutputs.channelSelPs9 =
      fieldAt R.p.channelSelect (R.slot (a - 10)) 4 := by
  cases a with
  | zero =>
    obtain ⟨q, rfl, hq, _⟩ := state_release hrel
    rw [Nat.add_zero, channelSelPs9_succ, state, seen, settle, if_pos hq]
    simp [slot]
  | succ a =>
    rw [← Nat.add_assoc, channelSelPs9_succ, timeSlice_add hrel]
    simp only [Nat.reduceSubDiff]

theorem ps3_before (hrel : Released r R.env) (ha : a ≤ 4) :
    (R.state (r + a)).commit.ps3 = false := by
  refine Bool.eq_false_iff.mpr fun hps3 => ?_
  obtain ⟨q, rfl, hq, _⟩ := state_release hrel
  rcases a with _ | _ | a
  · have hfree := not_rst_of_doUpdate (doUpdate_of_ps3 hps3).1
    rw [hq] at hfree
    cases hfree
  · have hfree := (slot_of_doUpdate (doUpdate_of_ps3 hps3).1).1
    rw [hq] at hfree
    cases hfree
  · have hcount := (commitSlot_of_ps3 (k := q + 1 + a) hps3).enabled
    rw [enableCounter_add hrel] at hcount
    omega

theorem ps9_before (hrel : Released r R.env) (ha : a ≤ 10) :
    (R.state (r + a)).commit.ps9 = false := by
  rcases Nat.lt_or_ge a 6 with hlt | hge
  · exact commit_ps9_before hrel hlt
  · obtain ⟨b, rfl⟩ := Nat.exists_eq_add_of_le' hge
    rw [← Nat.add_assoc, commit_ps9_add hrel]
    exact ps3_before hrel (by omega)

theorem channelSelPs1_from (hrel : Released r R.env) (a : Nat) :
    (R.state (r + a)).channels.channelSelPs1 = fieldAt R.p.channelSelect (R.slot (a - 2)) 4 := by
  cases a with
  | zero =>
    obtain ⟨q, rfl, hq, _⟩ := state_release hrel
    rw [Nat.add_zero, channelSelPs1_succ, state, seen, settle, if_pos hq]
    simp [slot]
  | succ a =>
    rw [← Nat.add_assoc, channelSelPs1_succ, timeSlice_add hrel]
    rfl

theorem latch_release (hrel : Released r R.env) :
    (R.latch i r).changed = false ∧ (R.latch i r).prev = false := by
  obtain ⟨q, rfl, hq, hstate⟩ := state_release hrel
  rw [latch, hstate]
  change (clockInputLatch (R.env q) (R.state q)).changedPs1 i = false ∧
    (clockChannels R.p (R.env q) (R.state q)).prevChanged i = false
  rw [clockInputLatch, clockChannels, if_pos hq, if_pos hq]
  exact ⟨rfl, rfl⟩

theorem select_iff_turn (hrel : Released r R.env) :
    (R.wires i (r + a)).select = true ↔ Turn R.p i (a - 2) := by
  rw [wires, channelSelPs1_from hrel, beq_iff_eq]
  rfl

theorem prev_succ (hi : i < R.p.numInputs) (hrel : Released r R.env) (a : Nat) :
    (R.latch i (r + a + 1)).prev =
      if Turn R.p i (a - 2) then (R.latch i (r + a)).changed else (R.latch i (r + a)).prev := by
  rw [latch_succ hi (hrel.free a) (hrel.free (a + 1)), Toggle.step]
  exact if_congr (select_iff_turn hrel) rfl rfl

theorem prev_add_three (hi : i < R.p.numInputs) (hrel : Released r R.env) (a : Nat) :
    (R.latch i (r + a + 3)).prev = if Turn R.p i a then (R.env (r + a + 1)).iDataChanged i
      else (R.latch i (r + a + 2)).prev := by
  have hchanged : (R.latch i (r + (a + 2))).changed = (R.env (r + a + 1)).iDataChanged i :=
    changedPs1_succ hrel (a + 1)
  have hprev := prev_succ hi hrel (a + 2)
  rw [hchanged, Nat.add_sub_cancel] at hprev
  exact hprev

theorem prev_eq_lookedAt (hi : i < R.p.numInputs) (hrel : Released r R.env) (a : Nat) :
    (R.latch i (r + a + 3)).prev = lookedAt R.p R.env r i (a + 1) := by
  induction a with
  | zero =>
    refine (prev_add_three hi hrel 0).trans ?_
    rw [lookedAt]
    split
    · rfl
    · next hturn =>
      have h0 := prev_succ hi hrel 0
      have h1 := prev_succ hi hrel 1
      rw [if_neg hturn] at h0 h1
      exact h1.trans (h0.trans (latch_release hrel).2)
  | succ a ih =>
    refine (prev_add_three hi hrel (a + 1)).trans ?_
    rw [lookedAt, ← ih]
    rfl

end Start

section Passes

variable {R : Run δ} {r i a : Nat}

theorem turn_iff_select (hw : SlotWords R.p) (hturn : Turn R.p i a)
    (ht : R.slot a < R.p.timeSlices) : R.p.channelSelect[R.slot a]? = some i := by
  have hlt : R.slot a < R.p.channelSelect.length := hw.length.symm ▸ ht
  have hget := List.getElem?_eq_getElem hlt
  rw [hget, ← fieldAt_of_getElem? hget (hw.width _ (List.getElem_mem hlt))]
  exact congrArg some hturn

theorem ps9_iff_freshTurn (hw : SlotWords R.p) (hi : i < R.p.numInputs)
    (hrel : Released r R.env) (ha : 1 ≤ a) (hturn : Turn R.p i a) :
    (R.state (r + a + 10)).commit.ps9 = true ↔ FreshTurn R.p R.env r i a := by
  have hps9 : (R.state (r + a + 10)).commit.ps9 = (R.state (r + a + 4)).commit.ps3 :=
    commit_ps9_add hrel (a + 4)
  rw [hps9]
  rcases Nat.lt_or_ge (R.slot a) R.p.timeSlices with hlt | hge
  · obtain ⟨hupdate, hfirst⟩ := hw.bits_of_channel hi hlt (turn_iff_select hw hturn hlt)
    have hsel : (R.state (r + a + 2)).channels.channelSelPs1 = i :=
      (channelSelPs1_add hrel a).trans hturn
    have hchanged : (R.latch i (r + a + 2)).changed = (R.env (r + a + 1)).iDataChanged i :=
      changedPs1_succ hrel (a + 1)
    obtain ⟨b, rfl⟩ := Nat.exists_eq_add_of_le' ha
    have hprev : (R.latch i (r + (b + 1) + 2)).prev = lookedAt R.p R.env r i (b + 1) := by
      rw [← prev_eq_lookedAt hi hrel b, ← Nat.add_assoc r b 1]
    rw [(ps3_of_update hrel ha hupdate hfirst).1, (chosen_add hi hrel hsel).2, hchanged, hprev,
      bne_iff_ne]
    exact ⟨fun h => ⟨hlt, h⟩, FreshTurn.flipped⟩
  · refine ⟨fun hps3 => ?_, fun h => absurd h.update (Nat.not_lt.mpr hge)⟩
    have hup := (doUpdate_of_ps3 (k := r + a + 3) hps3).1
    have hbit : bitShifted R.p.doUpdate (R.slot a) = false := by
      rw [bitShifted, fieldAt, List.getD_eq_default _ _ (hw.updates ▸ hge)]
      rfl
    rw [doUpdatePs2_add hrel, hbit, Bool.and_false] at hup
    cases hup

theorem delivers_iff_turn (hrel : Released r R.env) (hi : i < R.p.numOutputs) (a : Nat) :
    R.Delivers i (r + a) ↔ Turn R.p i (a - 10) := by
  rw [Delivers, channelSelPs9_from hrel]
  exact and_iff_left hi

theorem oData_release (hrel : Released r R.env) : (R.state r).dataOutputs.oData i = 0 := by
  obtain ⟨q, rfl, hq, hstate⟩ := state_release hrel
  rw [hstate]
  change (clockDataOutputs R.p R.dsp (R.env q) (R.state q)).oData i = 0
  rw [clockDataOutputs, if_pos hq]

theorem oData_of_quiet (hrel : Released r R.env)
    (hquiet : ∀ b < a, R.Delivers i (r + b) → dspout (R.dsp.p (R.state (r + b)).dsp) = 0) :
    (R.state (r + a)).dataOutputs.oData i = 0 := by
  induction a with
  | zero => exact oData_release hrel
  | succ a ih =>
    have hbefore := ih fun b hb => hquiet b (Nat.lt_succ_of_lt hb)
    rw [← Nat.add_assoc, oData_succ (hrel.free a) (hrel.free (a + 1)), hbefore]
    split
    · next hdelivers => exact hquiet a (Nat.lt_succ_self a) hdelivers
    · rfl

theorem QuietStart.result (h : R.QuietStart r i) (hrel : Released r R.env)
    (hi : i < R.p.numOutputs) (ha : a ≤ 10) (hdelivers : R.Delivers i (r + a)) :
    dspout (R.dsp.p (R.state (r + a)).dsp) = 0 := by
  have hturn := (delivers_iff_turn hrel hi a).mp hdelivers
  rw [Nat.sub_eq_zero_of_le ha] at hturn
  exact h hturn a ha

theorem flips_add (hrel : Released r R.env) (a : Nat) :
    R.Flips i (r + a + 1) ↔ R.Delivers i (r + a) ∧ (R.state (r + a)).commit.ps9 = true :=
  flips_succ (hrel.free a) (hrel.free (a + 1)) (hrel.free (a + 2))

theorem flaggedOutput_of_fresh (hw : SlotWords R.p) (hi : i < R.p.numInputs) (hr : 0 < r)
    (hrst : ResetFor r R.env) (hfresh : EveryTurnFresh R.p R.env r i)
    (hquiet : R.QuietStart r i) : R.FlaggedOutput i := by
  have hrel := hrst.released hr
  have hout : i < R.p.numOutputs := hw.outputs ▸ hi
  intro k hnext _ hne
  rcases Nat.lt_or_ge k r with hlt | hge
  · exact absurd (oData_of_rst (hrst.rst hlt) hnext) hne
  obtain ⟨a, rfl⟩ := Nat.exists_eq_add_of_le hge
  rw [flips_add hrel]
  rcases Nat.lt_or_ge 10 a with hlate | hstart
  · obtain ⟨c, rfl⟩ := Nat.exists_eq_add_of_le' hlate
    have hdelivers : R.Delivers i (r + (c + 11)) := by
      by_contra hidle
      refine hne ?_
      rw [oData_succ (hrel.free _) hnext, if_neg hidle]
    have hturn : Turn R.p i (c + 1) := (delivers_iff_turn hrel hout (c + 11)).mp hdelivers
    exact ⟨hdelivers, (ps9_iff_freshTurn hw hi hrel (Nat.le_add_left 1 c) hturn).mpr
      (hfresh (c + 1) (Nat.le_add_left 1 c) hturn)⟩
  · have hzero : ∀ b ≤ 11, (R.state (r + b)).dataOutputs.oData i = 0 := fun b hb =>
      oData_of_quiet hrel fun c hc => hquiet.result hrel hout (by omega)
    exact absurd ((hzero (a + 1) (by omega)).trans (hzero a (by omega)).symm) hne

theorem quietStart_of_flaggedOutput (hi : i < R.p.numOutputs) (hrel : Released r R.env)
    (h : R.FlaggedOutput i) : R.QuietStart r i := by
  intro hturn a
  have hdelivers : ∀ b ≤ 10, R.Delivers i (r + b) := by
    intro b hb
    rw [delivers_iff_turn hrel hi, Nat.sub_eq_zero_of_le hb]
    exact hturn
  induction a using Nat.strong_induction_on with
  | h a ih =>
    intro ha
    by_contra hne
    have hzero : (R.state (r + a)).dataOutputs.oData i = 0 :=
      oData_of_quiet hrel fun b hb _ => ih b hb (hb.le.trans ha)
    have hflips : R.Flips i (r + a + 1) := by
      refine h (r + a) (hrel.free (a + 1)) (hrel.free (a + 2)) ?_
      rw [oData_succ (hrel.free a) (hrel.free (a + 1)), if_pos (hdelivers a ha), hzero]
      exact hne
    have hps9 := ((flips_add hrel a).mp hflips).2
    rw [ps9_before hrel ha] at hps9
    cases hps9

end Passes

end Rtl.Run

def AlwaysFlagged (p : RtlParameters) (env : Nat → Inputs) (r i : Nat) : Prop :=
  ∀ (δ : Type) (R : Run δ), R.p = p → R.env = env → PowerOn p R.s₀ → R.QuietStart r i →
    R.FlaggedOutput i ∧ R.ConstantBetweenFlips i

section Results

def showing (results : Nat → BitVec 48) : Dsp48e2 Nat where
  clock := fun _ n => n + 1
  p := results

def pulseRun (p : RtlParameters) (env : Nat → Inputs) (k : Nat) : Run Nat where
  p := p
  dsp := showing fun n => if n = k then 65536#48 else 0#48
  env := env
  s₀ := zeroState p 0

variable {p : RtlParameters} {env : Nat → Inputs} {r i a k : Nat}

theorem dsp_pulseRun (n : Nat) : ((pulseRun p env k).state n).dsp = n := by
  induction n with
  | zero =>
    rw [Run.state, seen, settle_dsp]
    rfl
  | succ n ih =>
    rw [Run.state, seen_succ, settle_dsp]
    exact congrArg (· + 1) ih

theorem result_pulseRun (n : Nat) :
    dspout ((pulseRun p env k).dsp.p ((pulseRun p env k).state n).dsp) =
      if n = k then 1 else 0 := by
  rw [dsp_pulseRun]
  change dspout (if n = k then 65536#48 else 0#48) = _
  split <;> rfl

theorem not_flagged_pulseRun (hw : SlotWords p) (hi : i < p.numInputs) (hrel : Released r env)
    (ha : 1 ≤ a) (hturn : Turn p i a) (hstale : ¬ FreshTurn p env r i a) :
    (pulseRun p env (r + a + 10)).QuietStart r i ∧
      ¬ (pulseRun p env (r + a + 10)).FlaggedOutput i := by
  have hout : i < p.numOutputs := hw.outputs ▸ hi
  have hdelivers : (pulseRun p env (r + a + 10)).Delivers i (r + (a + 10)) :=
    (Run.delivers_iff_turn (R := pulseRun p env (r + a + 10)) hrel hout (a + 10)).mpr hturn
  refine ⟨fun _ b hb => ?_, fun h => ?_⟩
  · rw [result_pulseRun, if_neg (by omega)]
  · have hzero : ((pulseRun p env (r + a + 10)).state (r + (a + 10))).dataOutputs.oData i = 0 := by
      refine Run.oData_of_quiet hrel fun b hb _ => ?_
      rw [result_pulseRun, if_neg (by omega)]
    have hflips : (pulseRun p env (r + a + 10)).Flips i (r + (a + 10) + 1) := by
      refine h _ (hrel.free (a + 11)) (hrel.free (a + 12)) ?_
      rw [Run.oData_succ (hrel.free (a + 10)) (hrel.free (a + 11)), if_pos hdelivers, hzero,
        result_pulseRun, if_pos (Nat.add_assoc r a 10).symm]
      decide
    have hps9 := ((Run.flips_add (R := pulseRun p env (r + a + 10)) hrel (a + 10)).mp hflips).2
    exact hstale ((Run.ps9_iff_freshTurn (R := pulseRun p env (r + a + 10)) hw hi hrel ha
      hturn).mp hps9)

end Results

theorem data_changes_flagged_iff (spec : FirEngineSpec) (T : Nat) (d : FirEngineDesc)
    (h : buildFirEngine spec T = .ok d) (mac : FirEngineMacDesc) (hmac : mac ∈ d.firEngineMacDesc)
    (sort : List FirEngineMacFifoDesc → List FirEngineMacFifoDesc) (p : RtlParameters)
    (hp : generateRtl sort spec mac = .ok p) (env : Nat → Inputs) (r : Nat) (hr : 0 < r)
    (hrst : ResetFor r env) (i : Nat) (hi : i < p.numInputs) :
    (AlwaysFlagged p env r i ↔ EveryTurnFresh p env r i) ∧
    ∀ (δ : Type) (R : Run δ), R.p = p → R.env = env →
      (R.FlaggedOutput i ↔ R.ConstantBetweenFlips i) ∧
        (R.FlaggedOutput i → R.QuietStart r i) := by
  have hw := slotWords_of_generated (builtMac_of_buildFirEngine h hmac) (generateRtl_eq_ok.mp hp)
  have hrel := hrst.released hr
  refine ⟨⟨fun halways a ha hturn => ?_, fun hfresh δ R => ?_⟩, fun δ R => ?_⟩
  · by_contra hstale
    obtain ⟨hquiet, hnot⟩ := not_flagged_pulseRun hw hi hrel ha hturn hstale
    exact hnot (halways Nat _ rfl rfl (powerOn_zeroState p 0) hquiet).1
  · rintro rfl rfl _ hquiet
    have hflagged := Run.flaggedOutput_of_fresh hw hi hr hrst hfresh hquiet
    exact ⟨hflagged, Run.flaggedOutput_iff_constant.mp hflagged⟩
  · rintro rfl rfl
    exact ⟨Run.flaggedOutput_iff_constant, Run.quietStart_of_flaggedOutput (hw.outputs ▸ hi) hrel⟩

section Example

def everyTurn (k : Nat) : Inputs :=
  { announce [] k with iData := fun _ => 16384, iDataChanged := fun _ => (k + 2) / 4 % 2 == 1 }

def everyTurnRun : Run DspRegs := { fastRun with env := everyTurn }

theorem resetFor_everyTurn : ResetFor 1 everyTurn := by
  intro k
  cases k <;> rfl

theorem turn_fastParameters (a : Nat) : Turn fastParameters 0 a ↔ a % 4 = 0 :=
  (fieldAt_channelSelect handshakeWords_fastParameters channelSlots_fastParameters a).trans
    (selects_fastParameters a)

theorem lookedAt_everyTurn (a : Nat) :
    lookedAt fastParameters everyTurn 1 0 (a + 1) = ((a / 4 + 1) % 2 == 1) := by
  induction a with
  | zero => rfl
  | succ a ih =>
    rw [lookedAt]
    split
    · change ((1 + (a + 1) + 1 + 2) / 4 % 2 == 1) = _
      have hnext : (1 + (a + 1) + 1 + 2) / 4 = (a + 1) / 4 + 1 := by omega
      rw [hnext]
    · next hturn =>
      rw [turn_fastParameters] at hturn
      have hsame : a / 4 = (a + 1) / 4 := by omega
      rw [ih, hsame]

theorem everyTurnFresh_everyTurn : EveryTurnFresh fastParameters everyTurn 1 0 := by
  intro a ha hturn
  rw [turn_fastParameters] at hturn
  obtain ⟨b, rfl⟩ := Nat.exists_eq_add_of_le' ha
  refine ⟨Nat.mod_lt _ (by decide), ?_⟩
  rw [lookedAt_everyTurn]
  change ((1 + (b + 1) + 1 + 2) / 4 % 2 == 1) ≠ _
  have hnext : (1 + (b + 1) + 1 + 2) / 4 = b / 4 + 1 + 1 := by omega
  rw [hnext, Ne, beq_eq_beq]
  omega

theorem data_changes_flagged_every_turn : everyTurnRun.FlaggedOutput 0 ∧
    everyTurnRun.ConstantBetweenFlips 0 ∧ (everyTurnRun.state 60).dataOutputs.oData 0 = 16384 := by
  obtain ⟨d, mac, hd, hmac, hp⟩ := generated_fastSpec
  have hiff := (data_changes_flagged_iff fastSpec 8 d hd mac hmac insertionSortByMemWords
    fastParameters hp everyTurn 1 Nat.one_pos resetFor_everyTurn 0 (by decide)).1
  obtain ⟨hflagged, hconstant⟩ := hiff.mpr everyTurnFresh_everyTurn DspRegs everyTurnRun rfl rfl
    (powerOn_zeroState _ _) fun _ => by decide +kernel
  exact ⟨hflagged, hconstant, by decide +kernel⟩

end Example

def oneSample (k : Nat) : Inputs := { announce [4] k with iData := fun _ => 1000 }

def oneSampleRun : Run DspRegs := { fastRun with env := oneSample }

theorem late_result_not_flagged : ∃ d mac, buildFirEngine fastSpec 8 = .ok d ∧
    mac ∈ d.firEngineMacDesc ∧ IsSort insertionSortByMemWords ∧
    generateRtl insertionSortByMemWords fastSpec mac = .ok oneSampleRun.p ∧
    PowerOn oneSampleRun.p oneSampleRun.s₀ ∧ ResetFor 1 oneSampleRun.env ∧
    (oneSampleRun.state 19).dataOutputs.oData 0 = 0 ∧
    (oneSampleRun.state 20).dataOutputs.oData 0 = 500 ∧
    ¬ oneSampleRun.FlaggedOutput 0 ∧ ¬ oneSampleRun.ConstantBetweenFlips 0 := by
  obtain ⟨d, mac, hd, hmac, hp⟩ := generated_fastSpec
  have hbefore : (oneSampleRun.state 19).dataOutputs.oData 0 = 0 := by decide +kernel
  have hafter : (oneSampleRun.state 20).dataOutputs.oData 0 = 500 := by decide +kernel
  have hflip : ¬ oneSampleRun.Flips 0 20 := not_not.mpr (by decide +kernel)
  have hnot : ¬ oneSampleRun.FlaggedOutput 0 := by
    intro h
    refine hflip (h 19 rfl rfl ?_)
    rw [hbefore, hafter]
    decide
  refine ⟨d, mac, hd, hmac, isSort_insertionSortByMemWords, hp, powerOn_zeroState _ _,
    resetFor_announce [4], hbefore, hafter, hnot, mt Run.flaggedOutput_iff_constant.mpr hnot⟩

end FirEngine
