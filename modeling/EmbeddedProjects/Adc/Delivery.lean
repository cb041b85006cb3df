import EmbeddedProjects.Lib.Bits
import EmbeddedProjects.Lib.Mailbox
import EmbeddedProjects.Adc.Driver

namespace Adc

open Bits

structure State where
  regs : Registers
  tsDev : InsyncAdcc := {}
  status : Option (BitVec 32) := none
  reported : List (BitVec 32) := []

-- the handler is in two steps, and readings may be posted between them
inductive Action where
  | post (channel : Nat) (reading : BitVec 32)
  | enter
  | service

def Registers.convert (regs : Registers) (c : Nat) (reading : BitVec 32) : Registers :=
  if regs.chsr.getLsbD c = true then
    { regs with
      sr := regs.sr ||| atmelTsadccEoc c
      cdr := Function.update regs.cdr c reading }
  else regs

def step (adcChannelMask : BitVec 32) (s : State) : Action → Option State
  | .post c reading =>
    if c < 8 ∧ adcChannelMask.getLsbD c = true ∧ 0 < reading ∧ reading < 1024 ∧
        s.regs.sr.getLsbD c = false then
      some { s with regs := s.regs.convert c reading }
    else none
  | .enter =>
    if s.status = none ∧ readStatus s.regs ≠ 0 then
      some { s with status := some (readStatus s.regs) }
    else none
  | .service =>
    match s.status with
    | none => none
    | some status =>
      let (tsDev, regs, events) := insyncAdccInterrupt status s.tsDev s.regs
      some { regs := regs, tsDev := tsDev, status := none, reported := s.reported ++ events }

def run (adcChannelMask : BitVec 32) (actions : List Action) : Option State :=
  actions.foldlM (step adcChannelMask) { regs := insyncAdccProbe adcChannelMask }

def postedBy : Action → Option (Nat × BitVec 32)
  | .post c reading => some (c, reading)
  | .enter => none
  | .service => none

def posted (actions : List Action) : List (Nat × BitVec 32) := actions.filterMap postedBy

def Registers.slot (regs : Registers) (c : Nat) : Option (BitVec 32) :=
  if regs.sr.getLsbD c = true then some (regs.cdr c) else none

def Registers.pending (regs : Registers) : List (Nat × BitVec 32) :=
  Mailbox.contents (List.range 8) regs.slot

section Decode

variable {c i : Nat} {reading : BitVec 32}

theorem getLsbD_of_lt (h : reading < 1024) (hi : 10 ≤ i) : reading.getLsbD i = false := by
  have hpow : 2 ^ 10 ≤ 2 ^ i := Nat.pow_le_pow_right (by decide) hi
  exact Nat.testBit_lt_two_pow (Nat.lt_of_lt_of_le (BitVec.lt_def.mp h) hpow)

theorem decode_channel (hc : c < 8) :
    (reading <<< 3 ||| BitVec.ofNat 32 c) &&& adcIdMask = BitVec.ofNat 32 c := by
  have hlow : reading <<< 3 &&& adcIdMask = 0 := by
    refine BitVec.eq_of_getLsbD_eq fun i hi => ?_
    have hmask : ∀ j < 32, 3 ≤ j → adcIdMask.getLsbD j = false := by decide
    rw [BitVec.getLsbD_and, BitVec.getLsbD_shiftLeft]
    by_cases h3 : i < 3
    · simp [h3]
    · simp [hmask i hi (Nat.le_of_not_lt h3)]
  have hchannel : ∀ k < 8, BitVec.ofNat 32 k &&& adcIdMask = BitVec.ofNat 32 k := by decide
  rw [BitVec.and_or_distrib_right, hlow, hchannel c hc]
  exact BitVec.zero_or

theorem decode_reading (hc : c < 8) (h : reading < 1024) :
    ((reading <<< 3 ||| BitVec.ofNat 32 c) &&& adcReadingMask) >>> 3 = reading := by
  have hchannel : ∀ k < 8, BitVec.ofNat 32 k &&& adcReadingMask = 0#32 := by decide
  have hmask : ∀ j < 10, adcReadingMask.getLsbD (3 + j) = true := by decide
  rw [BitVec.and_or_distrib_right, hchannel c hc]
  refine BitVec.eq_of_getLsbD_eq fun i hi => ?_
  rw [BitVec.or_zero, BitVec.getLsbD_ushiftRight, BitVec.getLsbD_and, BitVec.getLsbD_shiftLeft]
  by_cases h10 : i < 10
  · have hlt : 3 + i < 32 := by omega
    have hge : ¬ 3 + i < 3 := by omega
    rw [hmask i h10, Nat.add_sub_cancel_left]
    simp [hlt, hge]
  · simp [getLsbD_of_lt h (Nat.le_of_not_lt h10)]

theorem decodeEvent_eq (hc : c < 8) (h : reading < 1024) :
    decodeEvent (reading <<< 3 ||| BitVec.ofNat 32 c) = (c, reading) := by
  have hnat : ∀ k < 8, (BitVec.ofNat 32 k).toNat = k := by decide
  rw [decodeEvent, decode_channel hc, decode_reading hc h, hnat c hc]

end Decode

section Registers

variable {regs : Registers} {c i : Nat} {reading : BitVec 32}

theorem slot_convert (hc : c < 32) (hchsr : regs.chsr.getLsbD c = true) :
    (regs.convert c reading).slot = Function.update regs.slot c (some reading) := by
  funext i
  rw [Registers.convert, if_pos hchsr, Function.update_apply]
  simp only [Registers.slot, atmelTsadccEoc, Nat.add_zero, getLsbD_set _ hc]
  by_cases hi : i = c
  · simp [hi]
  · simp [hi]

theorem slot_readCdr : (regs.readCdr c).2.slot = Function.update regs.slot c none := by
  funext i
  rw [Registers.readCdr, Function.update_apply]
  simp only [Registers.slot, atmelTsadccEoc, Nat.add_zero, getLsbD_clear]
  by_cases hi : i = c
  · simp [hi]
  · simp [hi]

theorem slot_eq_some (h : regs.sr.getLsbD c = true) : regs.slot c = some (regs.cdr c) := if_pos h

theorem slot_eq_none (h : regs.sr.getLsbD c = false) : regs.slot c = none := if_neg (by simp [h])

theorem pending_convert (reading : BitVec 32) (hc : c < 8) (hchsr : regs.chsr.getLsbD c = true)
    (hsr : regs.sr.getLsbD c = false) :
    (regs.convert c reading).pending.Perm ((c, reading) :: regs.pending) := by
  rw [Registers.pending, slot_convert (by omega) hchsr]
  exact Mailbox.contents_put List.nodup_range (List.mem_range.mpr hc) (slot_eq_none hsr)

theorem pending_readCdr (hc : c < 8) (hsr : regs.sr.getLsbD c = true) :
    regs.pending.Perm ((c, regs.cdr c) :: (regs.readCdr c).2.pending) := by
  rw [Registers.pending, Registers.pending, slot_readCdr]
  exact Mailbox.contents_take List.nodup_range (List.mem_range.mpr hc) (slot_eq_some hsr)

theorem pending_of_sr_eq_zero (h : regs.sr = 0) : regs.pending = [] :=
  Mailbox.contents_empty fun c _ => slot_eq_none (by simp [h])

-- the loop of the probe stops before channel 7
theorem getLsbD_channels (adcChannelMask : BitVec 32) (hc : c < 8) :
    (channels atmelTsadccCh &&& adcChannelMask).getLsbD c = true ↔
      adcChannelMask.getLsbD c = true ∧ c ≠ 7 := by
  have hbits : ∀ k < 8, (channels atmelTsadccCh).getLsbD k = decide (k ≠ 7) := by decide
  rw [BitVec.getLsbD_and, hbits c hc]
  simp [and_comm]

theorem servicedChannel_spec {status : BitVec 32} (h : servicedChannel status = some c) :
    c < 8 ∧ status.getLsbD c = true := by
  have hc : c < 8 := List.mem_range.mp (List.mem_of_find?_eq_some h)
  have hbit := List.find?_some h
  exact ⟨hc, (and_mask_ne_zero status (by omega)).mp (of_decide_eq_true hbit)⟩

end Registers

section Run

variable {adcChannelMask : BitVec 32} {s s' : State} {posts : List (Nat × BitVec 32)}

structure Inv (adcChannelMask : BitVec 32) (s : State) (posts : List (Nat × BitVec 32)) :
    Prop where
  chsr : s.regs.chsr = channels atmelTsadccCh &&& adcChannelMask
  reading : ∀ c < 8, s.regs.sr.getLsbD c = true → 0 < s.regs.cdr c ∧ s.regs.cdr c < 1024
  status : ∀ status, s.status = some status →
    ∀ c < 8, status.getLsbD c = true → s.regs.sr.getLsbD c = true
  delivered : (s.reported.map decodeEvent ++ s.regs.pending).Perm
    (posts.filter fun p => decide (p.1 ≠ 7))

theorem inv_probe (adcChannelMask : BitVec 32) :
    Inv adcChannelMask { regs := insyncAdccProbe adcChannelMask } [] where
  chsr := rfl
  reading := by simp [insyncAdccProbe]
  status := by simp
  delivered := by
    rw [pending_of_sr_eq_zero rfl]
    exact .nil

theorem Inv.post {c : Nat} {reading : BitVec 32} (h : Inv adcChannelMask s posts) (hc : c < 8)
    (hmask : adcChannelMask.getLsbD c = true) (hpos : 0 < reading) (hlt : reading < 1024)
    (hsr : s.regs.sr.getLsbD c = false) :
    Inv adcChannelMask { s with regs := s.regs.convert c reading } (posts ++ [(c, reading)]) := by
  have henabled := getLsbD_channels adcChannelMask hc
  rw [← h.chsr, and_iff_right hmask] at henabled
  by_cases h7 : c = 7
  · have hlost : s.regs.convert c reading = s.regs := if_neg fun he => henabled.mp he h7
    have hfilter : (posts ++ [(c, reading)]).filter (fun p => decide (p.1 ≠ 7)) =
        posts.filter fun p => decide (p.1 ≠ 7) := by simp [h7]
    rw [hlost]
    exact ⟨h.chsr, h.reading, h.status, hfilter ▸ h.delivered⟩
  · have hchsr := henabled.mpr h7
    have hkept : s.regs.convert c reading = { s.regs with
        sr := s.regs.sr ||| atmelTsadccEoc c
        cdr := Function.update s.regs.cdr c reading } := if_pos hchsr
    refine ⟨by rw [hkept]; exact h.chsr, ?_, ?_, ?_⟩
    · intro i hi hbit
      rw [hkept] at hbit ⊢
      dsimp only at hbit ⊢
      rw [Function.update_apply]
      split
      · exact ⟨hpos, hlt⟩
      · next hne =>
        rw [atmelTsadccEoc, Nat.add_zero, getLsbD_set _ (by omega)] at hbit
        exact h.reading i hi (by simpa [hne] using hbit)
    · intro status hstatus i hi hbit
      rw [hkept]
      dsimp only
      rw [atmelTsadccEoc, Nat.add_zero, getLsbD_set _ (by omega), h.status status hstatus i hi hbit,
        Bool.true_or]
    · have hfilter : (posts ++ [(c, reading)]).filter (fun p => decide (p.1 ≠ 7)) =
          posts.filter (fun p => decide (p.1 ≠ 7)) ++ [(c, reading)] := by simp [h7]
      rw [hfilter]
      have hnew := (pending_convert reading hc hchsr hsr).append_left
        (s.reported.map decodeEvent)
      refine hnew.trans (List.perm_middle.trans ?_)
      exact (h.delivered.cons _).trans (List.perm_append_singleton _ _).symm

theorem Inv.enter (h : Inv adcChannelMask s posts) :
    Inv adcChannelMask { s with status := some (readStatus s.regs) } posts where
  chsr := h.chsr
  reading := h.reading
  status := by
    rintro _ ⟨⟩ c hc hbit
    rw [readStatus, BitVec.getLsbD_and] at hbit
    exact (Bool.and_eq_true_iff.mp hbit).1
  delivered := h.delivered

theorem Inv.service {status : BitVec 32} {tsDev : InsyncAdcc} {regs : Registers}
    {events : List (BitVec 32)} (h : Inv adcChannelMask s posts) (hstatus : s.status = some status)
    (hisr : insyncAdccInterrupt status s.tsDev s.regs = (tsDev, regs, events)) :
    Inv adcChannelMask { regs, tsDev, status := none, reported := s.reported ++ events }
      posts := by
  rw [insyncAdccInterrupt] at hisr
  cases hchannel : servicedChannel status with
  | none =>
    rw [hchannel] at hisr
    cases hisr
    exact ⟨h.chsr, h.reading, by simp, by simpa using h.delivered⟩
  | some c =>
    obtain ⟨hc, hbit⟩ := servicedChannel_spec hchannel
    have hsr := h.status status hstatus c hc hbit
    obtain ⟨hpos, hlt⟩ := h.reading c hc hsr
    rw [hchannel] at hisr
    have hreport : (0 < (s.regs.readCdr c).1) := hpos
    simp only [gt_iff_lt, hreport, if_true] at hisr
    cases hisr
    have hreading : ∀ i < 8, (s.regs.readCdr c).2.sr.getLsbD i = true →
        0 < s.regs.cdr i ∧ s.regs.cdr i < 1024 := by
      intro i hi hbit
      rw [Registers.readCdr, atmelTsadccEoc, Nat.add_zero] at hbit
      dsimp only at hbit
      rw [getLsbD_clear] at hbit
      exact h.reading i hi (Bool.and_eq_true_iff.mp hbit).1
    refine ⟨h.chsr, hreading, by simp, ?_⟩
    have htake := (pending_readCdr hc hsr).append_left (s.reported.map decodeEvent)
    rw [List.map_append, List.append_assoc]
    change (_ ++ (decodeEvent (s.regs.cdr c <<< 3 ||| BitVec.ofNat 32 c) ::
      (s.regs.readCdr c).2.pending)).Perm _
    rw [decodeEvent_eq hc hlt]
    exact htake.symm.trans h.delivered

theorem Inv.step {action : Action} (h : Inv adcChannelMask s posts)
    (hstep : step adcChannelMask s action = some s') :
    Inv adcChannelMask s' (posts ++ (postedBy action).toList) := by
  cases action with
  | post c reading =>
    rw [Adc.step] at hstep
    split at hstep
    · next hlegal =>
      cases hstep
      obtain ⟨hc, hmask, hpos, hlt, hsr⟩ := hlegal
      exact h.post hc hmask hpos hlt hsr
    · cases hstep
  | enter =>
    rw [Adc.step] at hstep
    split at hstep
    · cases hstep
      exact (List.append_nil posts).symm ▸ h.enter
    · cases hstep
  | service =>
    rw [Adc.step] at hstep
    cases hstatus : s.status with
    | none =>
      rw [hstatus] at hstep
      cases hstep
    | some status =>
      rw [hstatus] at hstep
      cases hstep
      exact (List.append_nil posts).symm ▸ h.service hstatus rfl

theorem Inv.run {actions : List Action} (h : Inv adcChannelMask s posts)
    (hrun : actions.foldlM (Adc.step adcChannelMask) s = some s') :
    Inv adcChannelMask s' (posts ++ posted actions) := by
  induction actions generalizing s posts with
  | nil =>
    cases hrun
    simpa [posted] using h
  | cons action actions ih =>
    obtain ⟨s₁, hstep, hrest⟩ := Option.bind_eq_some_iff.mp hrun
    have hnext := ih (h.step hstep) hrest
    have hposted : posted (action :: actions) = (postedBy action).toList ++ posted actions := by
      rw [posted, List.filterMap_cons]
      cases postedBy action with
      | none => rfl
      | some p => rfl
    rwa [hposted, ← List.append_assoc]

end Run

theorem readings_reach_reader_iff (adcChannelMask : BitVec 32) (actions : List Action)
    (s : State) (hrun : run adcChannelMask actions = some s) (hidle : s.regs.sr = 0) :
    (s.reported.map decodeEvent).Perm (posted actions) ↔
      ∀ reading, (7, reading) ∉ posted actions := by
  have hdelivered := ((inv_probe adcChannelMask).run hrun).delivered
  rw [pending_of_sr_eq_zero hidle, List.append_nil, List.nil_append] at hdelivered
  constructor
  · intro hperm reading hmem
    have hlen := (hdelivered.symm.trans hperm).length_eq
    have h7 := List.length_filter_eq_length_iff.mp hlen (7, reading) hmem
    simp at h7
  · intro hnone
    have hall : (posted actions).filter (fun p => decide (p.1 ≠ 7)) = posted actions := by
      refine List.filter_eq_self.mpr fun p hp => decide_eq_true fun h7 => ?_
      exact hnone p.2 (h7 ▸ hp)
    rwa [hall] at hdelivered

theorem readings_reach_reader_iff_two_channels :
    ∃ s, run 0x0E [.post 3 1023, .enter, .post 1 5, .service, .enter, .service] = some s ∧
      ((s.reported.map decodeEvent).Perm [(3, 1023), (1, 5)] ↔
        ∀ reading, (7, reading) ∉ ([(3, 1023), (1, 5)] : List (Nat × BitVec 32))) :=
  ⟨_, rfl, readings_reach_reader_iff 0x0E
    [.post 3 1023, .enter, .post 1 5, .service, .enter, .service] _ rfl (by decide)⟩

theorem channel_seven_never_converts : ∃ s, run 0xFF [.post 7 5] = some s ∧ s.regs.sr = 0 ∧
    ¬ (s.reported.map decodeEvent).Perm (posted [.post 7 5]) :=
  ⟨_, rfl, rfl, by decide⟩

end Adc
