import EmbeddedProjects.Lib.Toggle
import EmbeddedProjects.FirEngine.Commits

namespace FirEngine

open FirEngineDesc FirEngineMacDesc Rtl

variable {δ : Type}

def Selects (p : RtlParameters) (i a : Nat) : Prop :=
  p.channelSelect[a % p.timeSlices]? = some i

-- the words of a slot as the builder emits them: an update slot has a channel and is the first
-- engine of its chain, and no other slot has either
structure SlotWords (p : RtlParameters) : Prop where
  outputs : p.numOutputs = p.numInputs
  length : p.channelSelect.length = p.timeSlices
  width : ∀ c ∈ p.channelSelect, c < 2 ^ 4
  update : ∀ t < p.timeSlices,
    (p.doUpdate[t]? = some 1 ↔ ∃ c < p.numInputs, p.channelSelect[t]? = some c)
  updates : p.doUpdate.length = p.timeSlices
  first : ∀ t < p.timeSlices, (p.firstEngine[t]? = some 1 ↔ p.doUpdate[t]? = some 1)

structure HandshakeWords (p : RtlParameters) : Prop extends SlotWords p where
  slices : p.timeSlices = 2 ^ p.log2TimeSlices

structure ChannelSlots (p : RtlParameters) (i G : Nat) : Prop where
  nonempty : ∃ a, Selects p i a
  apart : ∀ a, Selects p i a → ¬ Selects p i (a + 1)
  gap : ∀ a, Selects p i a → ∃ g, 0 < g ∧ g ≤ G ∧ Selects p i (a + g)

section Slots

variable {p : RtlParameters} {i G : Nat}

theorem ChannelSlots.served_from (h : ChannelSlots p i G) {a : Nat} (ha : Selects p i a) (n : Nat) :
    ∃ l, a + n ≤ l ∧ l < a + n + G ∧ Selects p i l := by
  induction n with
  | zero =>
    obtain ⟨g, hpos, hle, _⟩ := h.gap a ha
    exact ⟨a, Nat.le_refl a, by omega, ha⟩
  | succ n ih =>
    obtain ⟨l, hle, hlt, hl⟩ := ih
    rcases Nat.lt_or_eq_of_le hle with hgt | rfl
    · exact ⟨l, hgt, by omega, hl⟩
    · obtain ⟨g, hpos, hg, hnext⟩ := h.gap _ hl
      exact ⟨a + n + g, by omega, by omega, hnext⟩

theorem selects_add_mul {a : Nat} (m : Nat) :
    Selects p i (a + p.timeSlices * m) ↔ Selects p i a := by
  rw [Selects, Selects, Nat.add_mul_mod_self_left]

theorem ChannelSlots.served (h : ChannelSlots p i G) (hpos : 0 < p.timeSlices) (n : Nat) :
    ∃ l, n ≤ l ∧ l < n + G ∧ Selects p i l := by
  obtain ⟨a, ha⟩ := h.nonempty
  have hle : a ≤ n + p.timeSlices * a := (Nat.le_mul_of_pos_left a hpos).trans (Nat.le_add_left _ _)
  obtain ⟨m, hm⟩ := Nat.exists_eq_add_of_le hle
  obtain ⟨l, hl, hlt, hsel⟩ := h.served_from ha m
  rw [← hm] at hl hlt
  obtain ⟨q, rfl⟩ := Nat.exists_eq_add_of_le ((Nat.le_add_left _ n).trans hl)
  rw [Nat.add_comm, selects_add_mul] at hsel
  exact ⟨q, by omega, by omega, hsel⟩

theorem HandshakeWords.pos (h : HandshakeWords p) : 0 < p.timeSlices := by
  rw [h.slices]
  exact Nat.two_pow_pos _

theorem regWidth_of_apart (hw : HandshakeWords p) (h : ChannelSlots p i G) :
    2 ^ regWidth p.log2TimeSlices = p.timeSlices := by
  rw [regWidth]
  split
  · next hzero =>
    obtain ⟨a, ha⟩ := h.nonempty
    have hone : p.timeSlices = 1 := by rw [hw.slices, hzero, Nat.pow_zero]
    have hnext : Selects p i (a + 1) := by
      rw [Selects, hone, Nat.mod_one] at ha ⊢
      exact ha
    exact absurd hnext (h.apart a ha)
  · exact hw.slices.symm

theorem fieldAt_channelSelect (hw : HandshakeWords p) (h : ChannelSlots p i G) (a : Nat) :
    fieldAt p.channelSelect (a % 2 ^ regWidth p.log2TimeSlices) 4 = i ↔ Selects p i a := by
  have hlt : a % p.timeSlices < p.channelSelect.length := by
    rw [hw.length]
    exact Nat.mod_lt a hw.pos
  have hslot : p.channelSelect[a % p.timeSlices]? = some p.channelSelect[a % p.timeSlices] :=
    List.getElem?_eq_getElem hlt
  rw [regWidth_of_apart hw h, Selects, hslot, Option.some.injEq,
    fieldAt_of_getElem? hslot (hw.width _ (List.getElem_mem hlt))]

theorem SlotWords.bits_of_channel (hw : SlotWords p) (hi : i < p.numInputs) {t : Nat}
    (ht : t < p.timeSlices) (h : p.channelSelect[t]? = some i) :
    bitShifted p.doUpdate t = true ∧ p.firstEngine[t]? = some 1 := by
  have hup := (hw.update t ht).mpr ⟨i, hi, h⟩
  refine ⟨?_, (hw.first t ht).mpr hup⟩
  rw [bitShifted, fieldAt_of_getElem? hup (by decide)]
  rfl

theorem HandshakeWords.bits_of_selects (hw : HandshakeWords p) (hi : i < p.numInputs) {a : Nat}
    (h : Selects p i a) : bitShifted p.doUpdate (a % p.timeSlices) = true ∧
      p.firstEngine[a % p.timeSlices]? = some 1 :=
  hw.bits_of_channel hi (Nat.mod_lt a hw.pos) h

end Slots

section Words

variable {sort : List FirEngineMacFifoDesc → List FirEngineMacFifoDesc} {spec : FirEngineSpec}
  {mac : FirEngineMacDesc} {p : RtlParameters} {T : Nat}

theorem slotWords_of_generated (hb : BuiltMac spec T mac) (hgen : Generated sort spec mac p) :
    SlotWords p := by
  have hslices : p.timeSlices = mac.firUpdateSlot.length := by
    rw [hgen.timeSlices, hb.inv.refs_length, hb.inv.slots_length]
  have hinputs : p.numInputs = mac.inputFirs.length := congrArg (·.numInputs) hgen.result
  have houtputs : p.numOutputs = mac.outputFirs.length := congrArg (·.numOutputs) hgen.result
  refine ⟨?_, ?_, hgen.render_channelSelect, fun t ht => ?_, ?_, fun t _ => ?_⟩
  · rw [houtputs, hb.inv.outputs, hinputs]
  · rw [hslices]
    exact Outcome.length_of_mapM hgen.channelSelect
  · rw [hslices] at ht
    have hslot := List.getElem?_eq_getElem ht
    rw [hgen.doUpdate, List.getElem?_map, hslot, Option.map_some, Option.some.injEq]
    cases hfir : mac.firUpdateSlot[t].firIndex with
    | none =>
      -- an unused slot has channel 15, which is never an input
      obtain ⟨c, hc, hlookup⟩ := Outcome.getElem?_of_mapM hgen.channelSelect hslot
      rw [hfir] at hlookup
      obtain rfl : 0xF = c := Except.ok.inj hlookup
      have hle := hb.inv.inputs_le
      have hfree : ¬ 15 < mac.inputFirs.length := Nat.not_lt.mpr hle
      rw [oneIfUsed, FirUpdateSlot.isSlotEmpty, hfir, hc, hinputs]
      simp [hfree]
    | some f =>
      have hused : mac.firUpdateSlot[t]? = some ⟨some f⟩ := by rw [hslot, ← hfir]
      obtain ⟨k, hk, hc⟩ := channelSelect_of_slot hb hgen hused
      have hlt : k < mac.inputFirs.length := (List.getElem?_eq_some_iff.mp hk).1
      rw [oneIfUsed, FirUpdateSlot.isSlotEmpty, hfir, hc, hinputs]
      simp [hlt]
  · rw [hgen.doUpdate, List.length_map, hslices]
  · rw [hgen.firstEngine, hgen.doUpdate]

theorem handshakeWords_of_generated (hb : BuiltMac spec T mac) (hgen : Generated sort spec mac p)
    (hT : p.timeSlices = 2 ^ p.log2TimeSlices) : HandshakeWords p where
  toSlotWords := slotWords_of_generated hb hgen
  slices := hT

end Words

namespace Rtl.Run

section Input

variable (R : Run δ) (i : Nat)

def wires (k : Nat) : Toggle.Input (BitVec 18) where
  data := (R.env k).iData i
  changed := (R.env k).iDataChanged i
  select := (R.state k).channels.channelSelPs1 == i

def latch (k : Nat) : Toggle.Latch (BitVec 18) where
  data := (R.state k).inputLatch.dataPs1 i
  changed := (R.state k).inputLatch.changedPs1 i
  prev := (R.state k).channels.prevChanged i

def announcedAt (k : Nat) : Option (BitVec 18) :=
  if (R.env k).iDataChanged i != (R.env (k - 1)).iDataChanged i then some ((R.env k).iData i)
  else none

def committedAt (k : Nat) : Option (BitVec 18) :=
  if (R.state k).commit.ps3 && fieldAt R.p.channelSelect (R.state k).timeSlice.ps3 4 == i then
    some (R.state k).dataMux.dataBuffA1Wrdata
  else none

variable {R} {i} {k r G : Nat}

theorem latch_succ (hi : i < R.p.numInputs) (h : (R.env k).iRst = false)
    (hnext : (R.env (k + 1)).iRst = false) :
    R.latch i (k + 1) = Toggle.step (R.wires i k) (R.latch i k) := by
  have hrst : ¬ (R.env k).iRst = true := by simp [h]
  have hlatch : (R.state (k + 1)).inputLatch = clockInputLatch (R.env k) (R.state k) := by
    rw [R.state_succ hnext]
    rfl
  have hprev : (R.state (k + 1)).channels.prevChanged i =
      if (R.state k).channels.channelSelPs1 == i then (R.state k).inputLatch.changedPs1 i
      else (R.state k).channels.prevChanged i := by
    rw [R.state_succ hnext]
    change (clockChannels R.p (R.env k) (R.state k)).prevChanged i = _
    rw [clockChannels, if_neg hrst]
    by_cases hsel : (R.state k).channels.channelSelPs1 = i
    · rw [hsel, if_pos hi, if_pos (beq_self_eq_true i)]
      exact Function.update_self _ _ _
    · have hother : ((R.state k).channels.channelSelPs1 == i) = false := beq_false_of_ne hsel
      rw [hother]
      split
      · exact Function.update_of_ne (Ne.symm hsel) _ _
      · rfl
  rw [latch, hlatch, hprev, clockInputLatch, if_neg hrst]
  rfl

theorem latch_add (hi : i < R.p.numInputs) (hrel : Released r R.env) (a j : Nat) :
    R.latch i (r + a + j) =
      Toggle.state (fun j => R.wires i (r + a + j)) (R.latch i (r + a)) j := by
  induction j with
  | zero => rfl
  | succ j ih =>
    rw [Toggle.state_succ, ← ih]
    exact latch_succ hi (hrel.free_add a j) (hrel.free_add a (j + 1))

theorem changedPs1_succ (hrel : Released r R.env) (a : Nat) :
    (R.state (r + a + 1)).inputLatch.changedPs1 i = (R.env (r + a)).iDataChanged i := by
  rw [state_add_succ hrel]
  change (clockInputLatch (R.env (r + a)) (R.state (r + a))).changedPs1 i = _
  rw [clockInputLatch, if_neg (by simp [hrel.free a])]

theorem channelSelPs1_succ (k : Nat) : (R.state (k + 1)).channels.channelSelPs1 =
    fieldAt R.p.channelSelect (R.state k).timeSlice.ps0 4 := by
  have hclock : (clockChannels R.p (R.env k) (R.state k)).channelSelPs1 =
      fieldAt R.p.channelSelect (R.state k).timeSlice.ps0 4 := by
    rw [clockChannels]
    split
    · rfl
    · split <;> rfl
  rw [← hclock, state, seen_succ, settle]
  split <;> rfl

theorem channelSelPs1_add (hrel : Released r R.env) (a : Nat) :
    (R.state (r + a + 2)).channels.channelSelPs1 = fieldAt R.p.channelSelect (R.slot a) 4 := by
  rw [channelSelPs1_succ (r + a + 1), ps0_add hrel]

theorem select_wires (hw : HandshakeWords R.p) (hslots : ChannelSlots R.p i G)
    (hrel : Released r R.env) (a : Nat) :
    (R.wires i (r + a + 2)).select = true ↔ Selects R.p i a := by
  rw [wires, channelSelPs1_add hrel, beq_iff_eq, slot, fieldAt_channelSelect hw hslots]

theorem chosen_add (hi : i < R.p.numInputs) (hrel : Released r R.env) {a : Nat}
    (hsel : (R.state (r + a + 2)).channels.channelSelPs1 = i) :
    (R.state (r + a + 3)).channels.chosenDataPs2 = (R.latch i (r + a + 2)).data ∧
    (R.state (r + a + 3)).channels.chosenDataChangedPs2 =
      ((R.latch i (r + a + 2)).changed != (R.latch i (r + a + 2)).prev) := by
  have hstep : (R.state (r + a + 3)).channels =
      clockChannels R.p (R.env (r + a + 2)) (R.state (r + a + 2)) := by
    have hclock : R.state (r + a + 3) = _ := state_add_succ hrel (a + 2)
    rw [hclock]
    rfl
  rw [hstep, clockChannels, if_neg (by simp [hrel.free_add a 2]), hsel, if_pos hi]
  exact ⟨rfl, rfl⟩

theorem ps3_of_update (hrel : Released r R.env) {a : Nat} (ha : 1 ≤ a)
    (hupdate : bitShifted R.p.doUpdate (R.slot a) = true)
    (hfirst : R.p.firstEngine[R.slot a]? = some 1) :
    (R.state (r + a + 4)).commit.ps3 = (R.state (r + a + 3)).channels.chosenDataChangedPs2 ∧
    (R.state (r + a + 4)).dataMux.dataBuffA1Wrdata =
      (R.state (r + a + 3)).channels.chosenDataPs2 := by
  have hdo : (R.state (r + a + 3)).doUpdate.doUpdatePs2 = true := by
    rw [doUpdatePs2_add hrel, hupdate, Bool.and_true]
    exact decide_eq_true ha
  have hengine : (R.state (r + a + 3)).dataMux.firstEnginePs2 = true := by
    rw [R.dataMux_succ (r + a + 2), clockDataMux, ps1_add hrel, bitSelect, hfirst]
    rfl
  have hcommit := commit_succ (k := r + a + 3) (hrel.free_add a 3) (hrel.free_add a 4)
  have hmux := R.dataMux_succ (r + a + 3)
  constructor
  · rw [hcommit, doCommitPs2, hdo, hengine]
    rfl
  · rw [hmux, clockDataMux, hengine]
    rfl

theorem ps3_of_selects (hw : HandshakeWords R.p) (hslots : ChannelSlots R.p i G)
    (hi : i < R.p.numInputs) (hrel : Released r R.env) {a : Nat} (ha : 1 ≤ a)
    (hsel : Selects R.p i a) :
    (R.state (r + a + 4)).commit.ps3 = (R.state (r + a + 3)).channels.chosenDataChangedPs2 ∧
    (R.state (r + a + 4)).dataMux.dataBuffA1Wrdata =
      (R.state (r + a + 3)).channels.chosenDataPs2 := by
  obtain ⟨hupdate, hfirst⟩ := hw.bits_of_selects hi hsel
  rw [← regWidth_of_apart hw hslots] at hupdate hfirst
  exact ps3_of_update hrel ha hupdate hfirst

theorem committedAt_add (hw : HandshakeWords R.p) (hslots : ChannelSlots R.p i G)
    (hi : i < R.p.numInputs) (hrel : Released r R.env) {a : Nat} (ha : 1 ≤ a) :
    R.committedAt i (r + a + 4) =
      Toggle.taken (R.wires i (r + a + 2)) (R.latch i (r + a + 2)) := by
  by_cases hsel : Selects R.p i a
  · have hselect := (select_wires hw hslots hrel a).mpr hsel
    obtain ⟨hdata, hchanged⟩ := chosen_add hi hrel (eq_of_beq hselect)
    obtain ⟨hps3, hwrdata⟩ := ps3_of_selects hw hslots hi hrel ha hsel
    have hfield := (fieldAt_channelSelect hw hslots a).mpr hsel
    rw [committedAt, ps3_add hrel, slot, hfield, hps3, hwrdata, hdata, hchanged, Toggle.taken,
      hselect, beq_self_eq_true, Bool.and_true, Bool.true_and]
  · have hfield := mt (fieldAt_channelSelect hw hslots a).mp hsel
    have hselect := mt (select_wires hw hslots hrel a).mp hsel
    rw [committedAt, ps3_add hrel, slot, beq_false_of_ne hfield, Bool.and_false, Toggle.taken,
      Bool.eq_false_of_not_eq_true hselect, Bool.false_and]
    rfl

theorem committedAt_before (hrel : Released r R.env) {j : Nat} (hj : j < 2) :
    R.committedAt i (r + 3 + j) = none := by
  have hcommit : (R.state (r + (1 + j) + 2)).commit.ps3 = false := by
    by_contra hps3
    have hcount := (commitSlot_of_ps3 (Bool.eq_true_of_not_eq_false hps3)).enabled
    rw [enableCounter_add hrel] at hcount
    omega
  have hindex : r + 3 + j = r + (1 + j) + 2 := by omega
  rw [committedAt, hindex, hcommit, Bool.false_and]
  rfl

theorem collect_committedAt (hw : HandshakeWords R.p) (hslots : ChannelSlots R.p i G)
    (hi : i < R.p.numInputs) (hrel : Released r R.env) (n : Nat) :
    Toggle.collect (fun j => R.committedAt i (r + 3 + j)) (n + 2) =
      Toggle.collect (Toggle.takenAt (fun j => R.wires i (r + 3 + j)) (R.latch i (r + 3))) n := by
  rw [Nat.add_comm n 2, Toggle.collect_add, Toggle.collect_of_none
    fun j hj => committedAt_before hrel hj, List.nil_append]
  refine Toggle.collect_congr fun j _ => ?_
  rw [Toggle.takenAt, ← latch_add hi hrel 3 j]
  have hcommit : r + (j + 1) + 4 = r + 3 + (2 + j) := by omega
  have hselect : r + (j + 1) + 2 = r + 3 + j := by omega
  have hadd := committedAt_add hw hslots hi hrel (Nat.le_add_left 1 j)
  rw [hcommit, hselect] at hadd
  exact hadd

theorem announcedAt_add (hi : i < R.p.numInputs) (hrel : Released r R.env) (j : Nat) :
    R.announcedAt i (r + 3 + j) =
      Toggle.sentAt (fun j => R.wires i (r + 3 + j)) (R.latch i (r + 3)) j := by
  have hchanged : (R.state (r + (2 + j) + 1)).inputLatch.changedPs1 i = _ :=
    changedPs1_succ hrel (2 + j)
  have hnow : r + (2 + j) + 1 = r + 3 + j := by omega
  have hprev : r + (2 + j) = r + 3 + j - 1 := by omega
  rw [hnow, hprev] at hchanged
  rw [Toggle.sentAt, ← latch_add hi hrel 3 j, announcedAt, ← hchanged]
  rfl

-- the sender of channel `i` from cycle `k` on: flips are G cycles apart, and the data changes
-- only with a flip
structure Announces (R : Run δ) (i G k : Nat) : Prop where
  spaced : ∀ l m, k ≤ l → l < m → (R.announcedAt i l).isSome → (R.announcedAt i m).isSome →
    l + G ≤ m
  held : ∀ l, k ≤ l → R.announcedAt i (l + 1) = none → (R.env (l + 1)).iData i = (R.env l).iData i

theorem fair_of_announces (hw : HandshakeWords R.p) (hslots : ChannelSlots R.p i G)
    (hi : i < R.p.numInputs) (hrel : Released r R.env) (h : Announces R i G (r + 3)) :
    Toggle.Fair (fun j => R.wires i (r + 3 + j)) (R.latch i (r + 3)) G := by
  have hselect : ∀ j, (R.wires i (r + 3 + j)).select = true ↔ Selects R.p i (j + 1) := by
    intro j
    have hindex : r + (j + 1) + 2 = r + 3 + j := by omega
    rw [← select_wires hw hslots hrel (j + 1), hindex]
  refine ⟨fun k hk => ?_, fun k l hkl hk hl => ?_, fun k hk => ?_, fun k => ?_⟩
  · rw [← announcedAt_add hi hrel] at hk
    exact h.held (r + 3 + k) (Nat.le_add_right _ _) hk
  · rw [← announcedAt_add hi hrel] at hk hl
    have := h.spaced _ _ (Nat.le_add_right _ _) (Nat.add_lt_add_left hkl _) hk hl
    omega
  · have hnext := mt (hselect (k + 1)).mp (hslots.apart _ ((hselect k).mp hk))
    exact Bool.eq_false_of_not_eq_true hnext
  · obtain ⟨l, hle, hlt, hl⟩ := hslots.served hw.pos (k + 1)
    obtain ⟨m, rfl⟩ := Nat.exists_eq_add_one_of_ne_zero (by omega : l ≠ 0)
    exact ⟨m, by omega, by omega, (hselect m).mpr hl⟩

end Input

section Output

variable {R : Run δ} {i k r a : Nat}

theorem channelSelPs9_succ (k : Nat) : (R.state (k + 1)).dataOutputs.channelSelPs9 =
    fieldAt R.p.channelSelect (R.state k).timeSlice.ps8 4 := by
  rw [state, seen_succ, settle_channelSelPs9]
  change (clockDataOutputs R.p R.dsp (R.env k) (R.state k)).channelSelPs9 = _
  rw [clockDataOutputs]
  split <;> rfl

theorem dataOutputs_succ (h : (R.env k).iRst = false) (hnext : (R.env (k + 1)).iRst = false) :
    (R.state (k + 1)).dataOutputs.dataOutChanged i =
      (if (R.state k).dataOutputs.channelSelPs9 = i ∧ i < R.p.numOutputs then
        (R.state k).commit.ps9 else false) ∧
    ((R.state (k + 1)).dataOutputs.oDataChanged i ≠ (R.state k).dataOutputs.oDataChanged i ↔
      (R.state k).dataOutputs.dataOutChanged i = true) := by
  have hstep : (R.state (k + 1)).dataOutputs =
      clockDataOutputs R.p R.dsp (R.env k) (R.state k) := by
    rw [state_succ R hnext]
    rfl
  rw [hstep, clockDataOutputs, if_neg (by simp [h])]
  refine ⟨rfl, ?_⟩
  cases hchanged : (R.state k).dataOutputs.dataOutChanged i <;> simp [hchanged]

theorem commit_ps9_add (hrel : Released r R.env) (a : Nat) :
    (R.state (r + a + 6)).commit.ps9 = (R.state (r + a)).commit.ps3 := by
  have h := fun j => commit_succ (k := r + a + j) (hrel.free_add a j) (hrel.free_add a (j + 1))
  rw [h 5, h 4, h 3, h 2, h 1, h 0]
  rfl

theorem timeSlice_ps8_add (hrel : Released r R.env) (a : Nat) :
    (R.state (r + a + 5)).timeSlice.ps8 = (R.state (r + a)).timeSlice.ps3 := by
  have h := fun j => timeSlice_succ (k := r + a + j) (hrel.free_add a j) (hrel.free_add a (j + 1))
  rw [h 4, h 3, h 2, h 1, h 0]
  rfl

theorem channelSelPs9_add (hrel : Released r R.env) (a : Nat) :
    (R.state (r + a + 10)).dataOutputs.channelSelPs9 =
      fieldAt R.p.channelSelect (R.slot a) 4 := by
  have hps8 : (R.state (r + a + 9)).timeSlice.ps8 = (R.state (r + a + 4)).timeSlice.ps3 :=
    timeSlice_ps8_add hrel (a + 4)
  rw [← ps3_add hrel a, ← hps8]
  exact channelSelPs9_succ (r + a + 9)

theorem dataOutChanged_add (hrel : Released r R.env) (hi : i < R.p.numOutputs) (a : Nat) :
    (R.state (r + a + 7)).dataOutputs.dataOutChanged i = (R.committedAt i (r + a)).isSome := by
  have hout := (dataOutputs_succ (i := i) (hrel.free_add a 6) (hrel.free_add a 7)).1
  have hsel := channelSelPs9_succ (R := R) (r + a + 5)
  rw [timeSlice_ps8_add hrel] at hsel
  change (R.state (r + a + 7)).dataOutputs.dataOutChanged i =
    if (R.state (r + a + 6)).dataOutputs.channelSelPs9 = i ∧ i < R.p.numOutputs then
      (R.state (r + a + 6)).commit.ps9 else false at hout
  rw [hout, hsel, commit_ps9_add hrel, committedAt]
  by_cases hfield : fieldAt R.p.channelSelect (R.state (r + a)).timeSlice.ps3 4 = i
  · rw [if_pos ⟨hfield, hi⟩, hfield, beq_self_eq_true, Bool.and_true]
    cases (R.state (r + a)).commit.ps3 <;> rfl
  · rw [if_neg fun h => hfield h.1, beq_false_of_ne hfield, Bool.and_false]
    rfl

theorem oDataChanged_add (hrel : Released r R.env) (hi : i < R.p.numOutputs) (a : Nat) :
    (R.state (r + a + 8)).dataOutputs.oDataChanged i ≠
      (R.state (r + a + 7)).dataOutputs.oDataChanged i ↔ (R.committedAt i (r + a)).isSome := by
  rw [← dataOutChanged_add hrel hi a]
  exact (dataOutputs_succ (i := i) (hrel.free_add a 7) (hrel.free_add a 8)).2

theorem commit_ps9_before (hrel : Released r R.env) (ha : a < 6) :
    (R.state (r + a)).commit.ps9 = false := by
  obtain ⟨q, hq, hrst, hstate⟩ := state_release hrel
  have h0 : (R.state (r + 0)).commit = {} := by
    rw [Nat.add_zero, hstate]
    change clockCommit (R.env q) (R.state q) = _
    rw [clockCommit, if_pos hrst]
  have h := fun j => commit_succ (k := r + j) (hrel.free j) (hrel.free (j + 1))
  rcases a with _ | _ | _ | _ | _ | _ | n
  · rw [h0]
  · rw [h 0, h0]
  · rw [h 1, h 0, h0]
  · rw [h 2, h 1, h 0, h0]
  · rw [h 3, h 2, h 1, h 0, h0]
  · rw [h 4, h 3, h 2, h 1, h 0, h0]
  · omega

theorem oDataChanged_before (hrel : Released r R.env) (ha : a < 7) :
    (R.state (r + a + 1)).dataOutputs.oDataChanged i =
      (R.state (r + a)).dataOutputs.oDataChanged i := by
  have hout : (R.state (r + a)).dataOutputs.dataOutChanged i = false := by
    cases a with
    | zero =>
      obtain ⟨q, hq, hrst, hstate⟩ := state_release hrel
      rw [Nat.add_zero, hstate]
      change (clockDataOutputs R.p R.dsp (R.env q) (R.state q)).dataOutChanged i = _
      rw [clockDataOutputs, if_pos hrst]
    | succ a =>
      rw [← Nat.add_assoc, (dataOutputs_succ (i := i) (hrel.free a) (hrel.free (a + 1))).1,
        commit_ps9_before hrel (Nat.lt_of_succ_lt_succ ha), ite_self]
  have hflip := mt (dataOutputs_succ (i := i) (hrel.free a) (hrel.free (a + 1))).2.mp
    (by simp [hout])
  exact not_not.mp hflip

end Output

end Rtl.Run

theorem handshake_lossless (R : Run δ) (hw : HandshakeWords R.p) (r : Nat)
    (hrel : Released r R.env) (i G : Nat) (hi : i < R.p.numInputs)
    (hslots : ChannelSlots R.p i G)
    (hidle : (R.state (r + 3)).inputLatch.changedPs1 i =
      (R.state (r + 3)).channels.prevChanged i) (hsender : Run.Announces R i G (r + 3)) :
    (∀ n, ∃ rest,
      Toggle.collect (fun j => R.announcedAt i (r + 3 + j)) n =
        Toggle.collect (fun j => R.committedAt i (r + 3 + j)) (n + 2) ++ rest ∧
      rest.length ≤ 1 ∧
      (rest ≠ [] → ∃ f < n, n ≤ f + G ∧ (R.announcedAt i (r + 3 + f)).isSome)) ∧
    (∀ k, r ≤ k → ((R.state (k + 8)).dataOutputs.oDataChanged i ≠
      (R.state (k + 7)).dataOutputs.oDataChanged i ↔ (R.committedAt i k).isSome)) ∧
    ∀ k, r ≤ k → k < r + 7 → (R.state (k + 1)).dataOutputs.oDataChanged i =
      (R.state k).dataOutputs.oDataChanged i := by
  refine ⟨fun n => ?_, fun k hk => ?_, fun k hk hlt => ?_⟩
  · have hfair := Run.fair_of_announces hw hslots hi hrel hsender
    obtain ⟨rest, heq, hlen, hlast⟩ := Toggle.lossless hfair hidle n
    rw [← Run.collect_committedAt hw hslots hi hrel] at heq
    have hsent : Toggle.collect (fun j => R.announcedAt i (r + 3 + j)) n = _ :=
      Toggle.collect_congr fun j _ => Run.announcedAt_add hi hrel j
    refine ⟨rest, hsent.trans heq, hlen, fun hne => ?_⟩
    obtain ⟨f, hf, hle, hsome⟩ := hlast hne
    exact ⟨f, hf, hle, (Run.announcedAt_add hi hrel f).symm ▸ hsome⟩
  · obtain ⟨a, rfl⟩ := Nat.exists_eq_add_of_le hk
    exact Run.oDataChanged_add hrel (hw.outputs ▸ hi) a
  · obtain ⟨a, rfl⟩ := Nat.exists_eq_add_of_le hk
    exact Run.oDataChanged_before hrel (Nat.lt_of_add_lt_add_left hlt)

section Example

theorem handshakeWords_fastParameters : HandshakeWords fastParameters := by
  obtain ⟨d, mac, hd, hmac, hp⟩ := generated_fastSpec
  exact handshakeWords_of_generated (builtMac_of_buildFirEngine hd hmac) (generateRtl_eq_ok.mp hp)
    rfl

theorem selects_fastParameters (a : Nat) : Selects fastParameters 0 a ↔ a % 4 = 0 := by
  have hslots : ∀ t < 8, fastParameters.channelSelect[t]? = some 0 ↔ t % 4 = 0 := by decide
  change fastParameters.channelSelect[a % 8]? = some 0 ↔ a % 4 = 0
  rw [hslots _ (Nat.mod_lt a (by decide)), Nat.mod_mod_of_dvd a (by decide)]

theorem channelSlots_fastParameters : ChannelSlots fastParameters 0 4 where
  nonempty := ⟨0, (selects_fastParameters 0).mpr rfl⟩
  apart := by
    intro a
    rw [selects_fastParameters, selects_fastParameters]
    omega
  gap := by
    intro a ha
    refine ⟨4, by decide, Nat.le_refl 4, ?_⟩
    rw [selects_fastParameters] at ha ⊢
    omega

theorem count_announce (k : Nat) : [4, 8].countP (· ≤ k) =
    (if 8 ≤ k then 1 else 0) + if 4 ≤ k then 1 else 0 := by
  simp [List.countP_cons]

theorem level_announce (k : Nat) :
    (announce [4, 8] k).iDataChanged 0 = decide (4 ≤ k ∧ k < 8) := by
  change ([4, 8].countP (· ≤ k) % 2 == 1) = _
  rw [count_announce]
  rcases Nat.lt_or_ge k 4 with h4 | h4
  · have h8 : ¬ 8 ≤ k := by omega
    simp [Nat.not_le.mpr h4, h8]
  · rcases Nat.lt_or_ge k 8 with h8 | h8
    · simp [h4, h8, Nat.not_le.mpr h8]
    · simp [h4, h8, Nat.not_lt.mpr h8]

theorem announcedAt_fastRun (k : Nat) :
    (fastRun.announcedAt 0 k).isSome ↔ k = 4 ∨ k = 8 := by
  change (if (announce [4, 8] k).iDataChanged 0 != (announce [4, 8] (k - 1)).iDataChanged 0 then
    some _ else none).isSome ↔ _
  rw [level_announce, level_announce]
  by_cases hk : k = 4 ∨ k = 8
  · rcases hk with rfl | rfl <;> simp
  · have hsame : (4 ≤ k ∧ k < 8) ↔ (4 ≤ k - 1 ∧ k - 1 < 8) := by omega
    simp [hsame, hk]

theorem announces_fastRun : Run.Announces fastRun 0 4 4 where
  spaced := by
    intro l m _ hlt hl hm
    rw [announcedAt_fastRun] at hl hm
    omega
  held := by
    intro l hl hnone
    have hquiet := mt (announcedAt_fastRun (l + 1)).mpr (by simp [hnone])
    change BitVec.ofNat 18 ([4, 8].countP (· ≤ l + 1)) = BitVec.ofNat 18 ([4, 8].countP (· ≤ l))
    rw [count_announce, count_announce]
    have h8 : 8 ≤ l + 1 ↔ 8 ≤ l := by omega
    have h4 : 4 ≤ l + 1 ↔ 4 ≤ l := by omega
    simp only [h8, h4]

theorem handshake_lossless_fastRun :
    (∃ rest, Toggle.collect (fun j => fastRun.announcedAt 0 (4 + j)) 5 =
      Toggle.collect (fun j => fastRun.committedAt 0 (4 + j)) 7 ++ rest ∧ rest.length ≤ 1 ∧
      (rest ≠ [] → ∃ f < 5, 5 ≤ f + 4 ∧ (fastRun.announcedAt 0 (4 + f)).isSome)) ∧
    ((fastRun.state 17).dataOutputs.oDataChanged 0 ≠
      (fastRun.state 16).dataOutputs.oDataChanged 0 ↔ (fastRun.committedAt 0 9).isSome) := by
  obtain ⟨hsamples, hflips, _⟩ := handshake_lossless fastRun handshakeWords_fastParameters 1
    ((resetFor_announce _).released Nat.one_pos) 0 4 (by decide) channelSlots_fastParameters
    (by decide +kernel) announces_fastRun
  exact ⟨hsamples 5, hflips 9 (by decide)⟩

end Example

end FirEngine
