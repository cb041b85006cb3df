import EmbeddedProjects.FirEngine.Reachable

namespace FirEngine

open FirEngineDesc

def FirEngineSpec.specOf (spec : FirEngineSpec) (f : Nat) : FirSpec := spec.firSpec.getD f {}

structure Placed (spec : FirEngineSpec) (T : Nat) (mac : FirEngineMacDesc) (f : Nat)
    (b : FirBinding) : Prop where
  firIndex : b.firIndex = f
  interval : timeSliceInterval T spec.clockFreq (spec.specOf f).sampleFreq =
    .ok b.timeSliceInterval
  fits : (spec.specOf f).coeff.length ≤ b.timeSliceInterval
  origin : b.timeSliceOrigin < b.timeSliceInterval
  slots : ∀ t : Nat, mac.firUpdateSlot[t]? = some ⟨some f⟩ ↔ t ∈ b.timeSliceOffsets T
  refs : ∀ s j : Nat, mac.firCoeffRef[s]? = some ⟨some f, j⟩ ↔
    (soloRefs T (spec.specOf f).coeff.length b)[s]? = some ⟨some f, j⟩

structure MacInv (spec : FirEngineSpec) (T : Nat) (mac : FirEngineMacDesc) : Prop where
  refs_length : mac.firCoeffRef.length = T
  slots_length : mac.firUpdateSlot.length = T
  outputs : mac.outputFirs = mac.inputFirs
  nodup : mac.inputFirs.Nodup
  inputs_le : mac.inputFirs.length ≤ 15
  fifos : mac.firEngineMacFifoDesc = mac.inputFirs.map fun f => fifoFor (spec.specOf f) f
  slot_owner : ∀ {t f : Nat}, mac.firUpdateSlot[t]? = some ⟨some f⟩ → f ∈ mac.inputFirs
  ref_owner : ∀ {s f j : Nat}, mac.firCoeffRef[s]? = some ⟨some f, j⟩ → f ∈ mac.inputFirs
  placed : ∀ f ∈ mac.inputFirs, ∃ b, Placed spec T mac f b

theorem macInv_new (spec : FirEngineSpec) (T : Nat) : MacInv spec T (FirEngineMacDesc.new T) where
  refs_length := by simp [FirEngineMacDesc.new]
  slots_length := by simp [FirEngineMacDesc.new]
  outputs := rfl
  nodup := List.nodup_nil
  inputs_le := by simp [FirEngineMacDesc.new]
  fifos := rfl
  slot_owner := by
    intro t f h
    simp [FirEngineMacDesc.new, List.getElem?_replicate] at h
  ref_owner := by
    intro s f j h
    simp [FirEngineMacDesc.new, List.getElem?_replicate] at h
  placed := by simp [FirEngineMacDesc.new]

section BindMac

variable {spec : FirEngineSpec} {T : Nat} {mac : FirEngineMacDesc} {b : FirBinding}
  {firSpec : FirSpec}

theorem slot_bindMac_of_ne {t g : Nat} (hlen : mac.firUpdateSlot.length = T)
    (hroom : Room T firSpec.coeff.length b mac) (hg : g ≠ b.firIndex) :
    (bindMac T firSpec b mac).firUpdateSlot[t]? = some ⟨some g⟩ ↔
      mac.firUpdateSlot[t]? = some ⟨some g⟩ := by
  change (bindUpdateSlots T b mac.firUpdateSlot)[t]? = _ ↔ _
  by_cases ht : t < T
  · rw [getElem?_bindUpdateSlots (by omega)]
    split
    · next hmem =>
      have hempty := hroom.slots t hmem
      constructor
      · intro h
        simp only [Option.some.injEq, FirUpdateSlot.mk.injEq] at h
        exact absurd h.symm hg
      · intro h
        rw [FirEngineMacDesc.isSlotEmpty_updateSlotAt_eq_false.mpr ⟨g, h⟩] at hempty
        cases hempty
    · rfl
  · rw [List.getElem?_eq_none (by simp; omega), List.getElem?_eq_none (by omega)]

theorem ref_bindMac_of_ne {s g j : Nat} (hlen : mac.firCoeffRef.length = T)
    (hroom : Room T firSpec.coeff.length b mac) (hg : g ≠ b.firIndex) :
    (bindMac T firSpec b mac).firCoeffRef[s]? = some ⟨some g, j⟩ ↔
      mac.firCoeffRef[s]? = some ⟨some g, j⟩ := by
  change (bindCoeffRefs T firSpec.coeff.length b mac.firCoeffRef)[s]? = _ ↔ _
  by_cases hs : s < T
  · rcases getElem?_bindCoeffRefs_cases mac.firCoeffRef (T := T) (n := firSpec.coeff.length)
      (b := b) (s := s) (by omega) with ⟨t, ht, i, hi, rfl, hget⟩ | ⟨_, hget⟩
    · have hnull := hroom.refs t ht i hi
      rw [hget]
      constructor
      · intro h
        simp only [Option.some.injEq, FirCoeffRef.mk.injEq] at h
        exact absurd h.1.symm hg
      · intro h
        rw [FirEngineMacDesc.isNull_coeffRefAt_eq_false.mpr ⟨g, j, h⟩] at hnull
        cases hnull
    · rw [hget]
  · rw [List.getElem?_eq_none (by simp; omega), List.getElem?_eq_none (by omega)]

theorem slot_bindMac_self {t : Nat} (hlen : mac.firUpdateSlot.length = T)
    (hfree : mac.firUpdateSlot[t]? ≠ some ⟨some b.firIndex⟩) :
    (bindMac T firSpec b mac).firUpdateSlot[t]? = some ⟨some b.firIndex⟩ ↔
      t ∈ b.timeSliceOffsets T := by
  change (bindUpdateSlots T b mac.firUpdateSlot)[t]? = _ ↔ _
  by_cases ht : t < T
  · rw [getElem?_bindUpdateSlots (by omega)]
    split
    · next h => simp [h]
    · next h => simp [h, hfree]
  · rw [List.getElem?_eq_none (by simp; omega)]
    simp only [reduceCtorEq, false_iff]
    exact fun h => ht (FirBinding.lt_of_mem_timeSliceOffsets h)

theorem Placed.bindMac_of_ne {g : Nat} {c : FirBinding} (h : Placed spec T mac g c)
    (hinv : MacInv spec T mac) (hroom : Room T firSpec.coeff.length b mac)
    (hg : g ≠ b.firIndex) : Placed spec T (bindMac T firSpec b mac) g c where
  firIndex := h.firIndex
  interval := h.interval
  fits := h.fits
  origin := h.origin
  slots t := (slot_bindMac_of_ne hinv.slots_length hroom hg).trans (h.slots t)
  refs s j := (ref_bindMac_of_ne hinv.refs_length hroom hg).trans (h.refs s j)

theorem MacInv.bindMac (hinv : MacInv spec T mac) (hroom : Room T firSpec.coeff.length b mac)
    (hnew : b.firIndex ∉ mac.inputFirs) (hspec : spec.specOf b.firIndex = firSpec)
    (hI : timeSliceInterval T spec.clockFreq firSpec.sampleFreq = .ok b.timeSliceInterval)
    (hfits : firSpec.coeff.length ≤ b.timeSliceInterval)
    (horigin : b.timeSliceOrigin < b.timeSliceInterval) :
    MacInv spec T (bindMac T firSpec b mac) where
  refs_length := by simpa [FirEngineDesc.bindMac] using hinv.refs_length
  slots_length := by simpa [FirEngineDesc.bindMac] using hinv.slots_length
  outputs := by simp [FirEngineDesc.bindMac, hinv.outputs]
  nodup := by
    change (mac.inputFirs ++ [b.firIndex]).Nodup
    exact List.nodup_append.mpr ⟨hinv.nodup, by simp, by
      rintro f hf g hg rfl
      rw [List.mem_singleton] at hg
      exact hnew (hg ▸ hf)⟩
  inputs_le := by
    have h1 := hinv.inputs_le
    have h2 := hroom.inputs
    simp only [FirEngineDesc.bindMac, List.length_append, List.length_singleton]
    omega
  fifos := by
    simp [FirEngineDesc.bindMac, hinv.fifos, hspec]
  slot_owner := by
    intro t g h
    change g ∈ mac.inputFirs ++ [b.firIndex]
    by_cases hg : g = b.firIndex
    · simp [hg]
    · exact List.mem_append_left _
        (hinv.slot_owner ((slot_bindMac_of_ne hinv.slots_length hroom hg).mp h))
  ref_owner := by
    intro s g j h
    change g ∈ mac.inputFirs ++ [b.firIndex]
    by_cases hg : g = b.firIndex
    · simp [hg]
    · exact List.mem_append_left _
        (hinv.ref_owner ((ref_bindMac_of_ne hinv.refs_length hroom hg).mp h))
  placed := by
    intro g hg
    change g ∈ mac.inputFirs ++ [b.firIndex] at hg
    rcases List.mem_append.mp hg with hg | hg
    · have hne : g ≠ b.firIndex := fun h => hnew (h ▸ hg)
      obtain ⟨c, hc⟩ := hinv.placed g hg
      exact ⟨c, hc.bindMac_of_ne hinv hroom hne⟩
    · rw [List.mem_singleton] at hg
      subst hg
      refine ⟨b, rfl, by rw [hspec]; exact hI, by rw [hspec]; exact hfits, horigin,
        fun t => slot_bindMac_self hinv.slots_length fun h => hnew (hinv.slot_owner h),
        fun s j => ?_⟩
      rw [hspec]
      exact bindCoeffRefs_of_clear hinv.refs_length fun h => hnew (hinv.ref_owner h)

end BindMac

structure Inv (spec : FirEngineSpec) (T n : Nat) (d : FirEngineDesc) : Prop where
  latency : d.firUpdateLatency = 2
  numTimeSlots : d.numTimeSlots = T
  numFirs : d.numFirs = n
  mac : ∀ {m : Nat} {mac : FirEngineMacDesc}, d.firEngineMacDesc[m]? = some mac →
    MacInv spec T mac
  bound : ∀ {m : Nat} {mac : FirEngineMacDesc}, d.firEngineMacDesc[m]? = some mac →
    ∀ f ∈ mac.inputFirs, f < n
  cover : ∀ f < n, ∃ (m : Nat) (mac : FirEngineMacDesc),
    d.firEngineMacDesc[m]? = some mac ∧ f ∈ mac.inputFirs
  unique : ∀ {m m' : Nat} {mac mac' : FirEngineMacDesc}, d.firEngineMacDesc[m]? = some mac →
    d.firEngineMacDesc[m']? = some mac' → ∀ f ∈ mac.inputFirs, f ∈ mac'.inputFirs → m = m'

theorem inv_empty (spec : FirEngineSpec) (T : Nat) : Inv spec T 0 { numTimeSlots := T } where
  latency := rfl
  numTimeSlots := rfl
  numFirs := rfl
  mac := by simp
  bound := by simp
  cover := by simp
  unique := by simp

section BindStep

variable {spec : FirEngineSpec} {T n : Nat} {d d' : FirEngineDesc} {firSpec : FirSpec}
  {b : FirBinding}

theorem FirEngineDesc.BindStep.specOf (h : BindStep d spec n firSpec b d') :
    spec.specOf n = firSpec := by
  rw [FirEngineSpec.specOf, List.getD_eq_getElem?_getD, h.firSpec_eq, Option.getD_some]

theorem Inv.macInv (hinv : Inv spec T n d) : ∀ mac ∈ d.firEngineMacDesc, MacInv spec T mac := by
  intro mac hmac
  obtain ⟨m, hm⟩ := List.getElem?_of_mem hmac
  exact hinv.mac hm

theorem Inv.inputs_lt (hinv : Inv spec T n d) :
    ∀ mac ∈ d.firEngineMacDesc, ∀ f ∈ mac.inputFirs, f < n := by
  intro mac hmac
  obtain ⟨m, hm⟩ := List.getElem?_of_mem hmac
  exact hinv.bound hm

theorem Inv.targetMac (hinv : Inv spec T n d) : MacInv spec T (d.targetMac b) :=
  targetMac_of_forall (hinv.numTimeSlots ▸ macInv_new spec T) hinv.macInv

theorem Inv.bound_targetMac (hinv : Inv spec T n d) :
    ∀ f ∈ (d.targetMac b).inputFirs, f < n :=
  targetMac_of_forall (P := fun mac => ∀ f ∈ mac.inputFirs, f < n)
    (by simp [FirEngineMacDesc.new]) hinv.inputs_lt

theorem FirEngineDesc.BindStep.mac_cases (h : BindStep d spec n firSpec b d') {m : Nat}
    {mac : FirEngineMacDesc} (hm : d'.firEngineMacDesc[m]? = some mac) :
    (m = b.firstFirMacIndex ∧ mac = bindMac d.numTimeSlots firSpec b (d.targetMac b)) ∨
      (m ≠ b.firstFirMacIndex ∧ d.firEngineMacDesc[m]? = some mac) := by
  rw [h.result] at hm
  by_cases hmb : m = b.firstFirMacIndex
  · subst hmb
    rw [bind_target h.found.mac, Option.some.injEq] at hm
    exact .inl ⟨rfl, hm.symm⟩
  · rw [bind_other hmb h.found.mac] at hm
    exact .inr ⟨hmb, hm⟩

theorem FirEngineDesc.BindStep.forall_mac {P : FirEngineMacDesc → Prop}
    (h : BindStep d spec n firSpec b d')
    (hnew : P (bindMac d.numTimeSlots firSpec b (d.targetMac b)))
    (hold : ∀ mac ∈ d.firEngineMacDesc, P mac) : ∀ mac ∈ d'.firEngineMacDesc, P mac := by
  intro mac hmac
  obtain ⟨m, hm⟩ := List.getElem?_of_mem hmac
  rcases h.mac_cases hm with ⟨_, rfl⟩ | ⟨_, hm⟩
  · exact hnew
  · exact hold mac (List.mem_of_getElem? hm)

theorem FirEngineDesc.BindStep.target (h : BindStep d spec n firSpec b d') :
    d'.firEngineMacDesc[b.firstFirMacIndex]? =
      some (bindMac d.numTimeSlots firSpec b (d.targetMac b)) := by
  rw [h.result]
  exact bind_target h.found.mac

theorem FirEngineDesc.BindStep.room (h : BindStep d spec n firSpec b d') :
    Room d.numTimeSlots firSpec.coeff.length b (d.targetMac b) :=
  room_of_canBind h.found.canBind

theorem mem_inputs_bindMac {f : Nat} {mac : FirEngineMacDesc} :
    f ∈ (bindMac T firSpec b mac).inputFirs ↔ f ∈ mac.inputFirs ∨ f = b.firIndex := by
  simp [bindMac]

theorem Inv.macInv_target (hinv : Inv spec T n d) (h : BindStep d spec n firSpec b d') :
    MacInv spec T (bindMac T firSpec b (d.targetMac b)) := by
  have hroom := h.room
  have hI := h.interval
  rw [hinv.numTimeSlots] at hroom hI
  have hnew : b.firIndex ∉ (d.targetMac b).inputFirs := by
    intro hmem
    have := hinv.bound_targetMac _ hmem
    rw [h.found.firIndex] at this
    omega
  have hspec : spec.specOf b.firIndex = firSpec := by
    rw [h.found.firIndex]
    exact h.specOf
  exact hinv.targetMac.bindMac hroom hnew hspec hI h.fits h.found.origin

theorem FirEngineDesc.BindStep.targetMac_eq {mac : FirEngineMacDesc}
    (hm : d.firEngineMacDesc[b.firstFirMacIndex]? = some mac) : d.targetMac b = mac := by
  rw [FirEngineDesc.targetMac, List.getD_eq_getElem?_getD, hm, Option.getD_some]

theorem Inv.owner_targetMac {f : Nat} (hf : f ∈ (d.targetMac b).inputFirs) :
    ∃ mac, d.firEngineMacDesc[b.firstFirMacIndex]? = some mac ∧ f ∈ mac.inputFirs := by
  rw [FirEngineDesc.targetMac, List.getD_eq_getElem?_getD] at hf
  cases hm : d.firEngineMacDesc[b.firstFirMacIndex]? with
  | none => rw [hm] at hf; simp [FirEngineMacDesc.new] at hf
  | some mac => rw [hm] at hf; exact ⟨mac, rfl, hf⟩

theorem Inv.bindStep (hinv : Inv spec T n d) (h : BindStep d spec n firSpec b d') :
    Inv spec T (n + 1) d' where
  latency := by rw [h.result]; exact hinv.latency
  numTimeSlots := by rw [h.result]; exact hinv.numTimeSlots
  numFirs := by rw [h.result]; exact congrArg (· + 1) hinv.numFirs
  mac := by
    intro m mac hm
    rcases h.mac_cases hm with ⟨_, rfl⟩ | ⟨_, hm⟩
    · rw [hinv.numTimeSlots]
      exact hinv.macInv_target h
    · exact hinv.mac hm
  bound := by
    intro m mac hm f hf
    rcases h.mac_cases hm with ⟨_, rfl⟩ | ⟨_, hm⟩
    · rcases mem_inputs_bindMac.mp hf with hf | rfl
      · exact Nat.lt_succ_of_lt (hinv.bound_targetMac f hf)
      · rw [h.found.firIndex]
        exact Nat.lt_succ_self n
    · exact Nat.lt_succ_of_lt (hinv.bound hm f hf)
  cover := by
    intro f hf
    rcases Nat.lt_succ_iff_lt_or_eq.mp hf with hf | rfl
    · obtain ⟨m, mac, hm, hmem⟩ := hinv.cover f hf
      by_cases hmb : m = b.firstFirMacIndex
      · subst hmb
        refine ⟨_, _, h.target, mem_inputs_bindMac.mpr (.inl ?_)⟩
        rw [FirEngineDesc.BindStep.targetMac_eq hm]
        exact hmem
      · refine ⟨m, mac, ?_, hmem⟩
        rw [h.result, bind_other hmb h.found.mac, hm]
    · exact ⟨_, _, h.target, mem_inputs_bindMac.mpr (.inr h.found.firIndex.symm)⟩
  unique := by
    intro m m' mac mac' hm hm' f hf hf'
    have fresh : ∀ {m : Nat} {mac : FirEngineMacDesc}, d.firEngineMacDesc[m]? = some mac →
        f ∈ mac.inputFirs → f ∈ (bindMac d.numTimeSlots firSpec b (d.targetMac b)).inputFirs →
        m = b.firstFirMacIndex := by
      intro m mac hm hmem htarget
      rcases mem_inputs_bindMac.mp htarget with htarget | heq
      · obtain ⟨mac', hmac', hmem'⟩ := Inv.owner_targetMac htarget
        exact hinv.unique hm hmac' f hmem hmem'
      · have := hinv.bound hm f hmem
        rw [heq, h.found.firIndex] at this
        omega
    rcases h.mac_cases hm with ⟨rfl, rfl⟩ | ⟨_, hm⟩
    · rcases h.mac_cases hm' with ⟨rfl, rfl⟩ | ⟨_, hm'⟩
      · rfl
      · exact (fresh hm' hf' hf).symm
    · rcases h.mac_cases hm' with ⟨rfl, rfl⟩ | ⟨_, hm'⟩
      · exact fresh hm hf hf'
      · exact hinv.unique hm hm' f hf hf'

end BindStep

theorem inv_bindFirs {spec : FirEngineSpec} {T n : Nat} {d : FirEngineDesc}
    (h : bindFirs spec T n = .ok d) : Inv spec T n d := by
  induction n generalizing d with
  | zero =>
    cases h
    exact inv_empty spec T
  | succ n ih =>
    obtain ⟨d₀, h₀, hstep⟩ := Outcome.bind_eq_ok.mp h
    obtain ⟨firSpec, b, hb⟩ := bindFir_eq_ok hstep
    exact (ih h₀).bindStep hb

end FirEngine
