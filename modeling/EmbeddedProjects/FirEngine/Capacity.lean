import EmbeddedProjects.Lib.Counting
import EmbeddedProjects.FirEngine.Periodicity

namespace FirEngine

open FirEngineDesc SlotArithmetic

def FirEngineMacDesc.usedSlots (mac : FirEngineMacDesc) : Nat :=
  mac.firCoeffRef.countP (·.firIndex.isSome)

def FirEngineMacDesc.updateSlots (mac : FirEngineMacDesc) : Nat :=
  mac.firUpdateSlot.countP (·.firIndex.isSome)

namespace FirEngineSpec

variable (spec : FirEngineSpec) (T f : Nat)

def passes : Nat := T / roundedInterval T spec.clockFreq (spec.specOf f).sampleFreq

def load : Nat := spec.passes T f * (spec.specOf f).coeff.length

end FirEngineSpec

section Load

variable {spec : FirEngineSpec} {T N f s : Nat} {d : FirEngineDesc} {b : FirBinding}
  {mac : FirEngineMacDesc}

theorem Placed.ref_iff (h : Placed spec T mac f b) (hdvd : b.timeSliceInterval ∣ T)
    (hs : s < T) : (∃ j, mac.firCoeffRef[s]? = some ⟨some f, j⟩) ↔
      ∃ i < (spec.specOf f).coeff.length,
        (s + i) % b.timeSliceInterval = b.timeSliceOrigin := by
  have hT : 0 < T := Nat.zero_lt_of_lt hs
  constructor
  · rintro ⟨j, hj⟩
    rw [h.refs, soloRefs] at hj
    rcases getElem?_bindCoeffRefs_cases (List.replicate T {}) (T := T) (b := b)
      (n := (spec.specOf f).coeff.length) (s := s) (by simpa using hs) with
      ⟨t, ht, i, hi, rfl, _⟩ | ⟨_, hnull⟩
    · obtain ⟨htT, hmod⟩ := (mem_timeSliceOffsets_iff_mod h.origin).mp ht
      refine ⟨i, hi, ?_⟩
      have hwrap : (slotBefore T t i + i) % T = t % T := (slotBefore_eq_iff hs).mp rfl
      rw [← hmod, ← Nat.mod_mod_of_dvd _ hdvd, hwrap, Nat.mod_mod_of_dvd _ hdvd]
    · rw [hnull, List.getElem?_replicate, if_pos hs] at hj
      cases hj
  · rintro ⟨i, hi, hmod⟩
    have ht : (s + i) % T ∈ b.timeSliceOffsets T := by
      refine (mem_timeSliceOffsets_iff_mod h.origin).mpr ⟨Nat.mod_lt _ hT, ?_⟩
      rw [Nat.mod_mod_of_dvd _ hdvd, hmod]
    have hslot : slotBefore T ((s + i) % T) i = s :=
      (slotBefore_eq_iff hs).mpr (Nat.mod_mod _ _).symm
    have hsolo := soloRefs_of_dvd h.fits h.origin hdvd ht hi
    rw [hslot, h.firIndex] at hsolo
    exact ⟨_, (h.refs s _).mpr hsolo⟩

theorem Placed.passes_eq (h : Placed spec T mac f b) :
    spec.passes T f = T / b.timeSliceInterval := by
  obtain ⟨_, _, _, _, hround⟩ := h.interval_eq
  rw [FirEngineSpec.passes, hround]

theorem Placed.countP_refs (h : Placed spec T mac f b) (hinv : MacInv spec T mac)
    (hdvd : b.timeSliceInterval ∣ T) :
    mac.firCoeffRef.countP (·.firIndex = some f) = spec.load T f := by
  have hwindow : ∀ s ∈ List.range T, (mac.firCoeffRef[s]?).any (·.firIndex = some f) =
      Counting.before b.timeSliceInterval (spec.specOf f).coeff.length b.timeSliceOrigin s := by
    intro s hs
    rw [Bool.eq_iff_iff, Counting.before_iff, ← h.ref_iff hdvd (List.mem_range.mp hs),
      Option.any_eq_true]
    constructor
    · rintro ⟨r, hr, hfir⟩
      exact ⟨r.coeffIndex, by rw [hr, ← of_decide_eq_true hfir]⟩
    · rintro ⟨j, hj⟩
      exact ⟨_, hj, decide_eq_true rfl⟩
  have hcount := Counting.countP_mul_of_periodic
    (Counting.before_add (I := b.timeSliceInterval) (n := (spec.specOf f).coeff.length)
      (o := b.timeSliceOrigin)) (T / b.timeSliceInterval)
  rw [Nat.div_mul_cancel hdvd, Counting.countP_before h.fits h.origin] at hcount
  rw [Counting.countP_eq_range, hinv.refs_length, List.countP_congr fun s hs => by
    rw [hwindow s hs], hcount, FirEngineSpec.load, h.passes_eq]

theorem Placed.countP_slots (h : Placed spec T mac f b) (hinv : MacInv spec T mac)
    (hdvd : b.timeSliceInterval ∣ T) :
    mac.firUpdateSlot.countP (·.firIndex = some f) = spec.passes T f := by
  have horigin := h.origin
  have hslot : ∀ s ∈ List.range T, (mac.firUpdateSlot[s]?).any (·.firIndex = some f) =
      Counting.before b.timeSliceInterval 1 b.timeSliceOrigin s := by
    intro s hs
    have hiff := congrFun h.slots_iff_mod s
    rw [Bool.eq_iff_iff, Counting.before_iff, Option.any_eq_true]
    constructor
    · rintro ⟨r, hr, hfir⟩
      have hused : mac.firUpdateSlot[s]? = some ⟨some f⟩ := by
        rw [hr, ← of_decide_eq_true hfir]
      exact ⟨0, Nat.one_pos, (hiff ▸ hused).2⟩
    · rintro ⟨i, hi, hmod⟩
      obtain rfl := Nat.lt_one_iff.mp hi
      exact ⟨_, hiff ▸ ⟨List.mem_range.mp hs, hmod⟩, decide_eq_true rfl⟩
  have hcount := Counting.countP_mul_of_periodic
    (Counting.before_add (I := b.timeSliceInterval) (n := 1) (o := b.timeSliceOrigin))
    (T / b.timeSliceInterval)
  rw [Nat.div_mul_cancel hdvd, Counting.countP_before (by omega) h.origin, Nat.mul_one] at hcount
  rw [Counting.countP_eq_range, hinv.slots_length, List.countP_congr fun s hs => by
    rw [hslot s hs], hcount, h.passes_eq]

theorem dvd_interval (h : Placed spec T mac f b)
    (hdvd : roundedInterval T spec.clockFreq (spec.specOf f).sampleFreq ∣ T) :
    b.timeSliceInterval ∣ T := by
  obtain ⟨_, _, _, _, hround⟩ := h.interval_eq
  rwa [hround]

theorem MacInv.usedSlots_eq (hinv : MacInv spec T mac) (hdvd : ∀ f ∈ mac.inputFirs,
    roundedInterval T spec.clockFreq (spec.specOf f).sampleFreq ∣ T) :
    mac.usedSlots = (mac.inputFirs.map (spec.load T)).sum := by
  have hcount : ∀ f ∈ mac.inputFirs,
      mac.firCoeffRef.countP (·.firIndex = some f) = spec.load T f := by
    intro f hf
    obtain ⟨b, hb⟩ := hinv.placed f hf
    exact hb.countP_refs hinv (dvd_interval hb (hdvd f hf))
  rw [FirEngineMacDesc.usedSlots, ← List.map_congr_left hcount]
  refine Counting.countP_isSome hinv.nodup fun r hr f hf => ?_
  obtain ⟨s, hs⟩ := List.getElem?_of_mem hr
  exact hinv.ref_owner (s := s) (f := f) (j := r.coeffIndex) (by rw [hs, ← hf])

theorem MacInv.updateSlots_eq (hinv : MacInv spec T mac) (hdvd : ∀ f ∈ mac.inputFirs,
    roundedInterval T spec.clockFreq (spec.specOf f).sampleFreq ∣ T) :
    mac.updateSlots = (mac.inputFirs.map (spec.passes T)).sum := by
  have hcount : ∀ f ∈ mac.inputFirs,
      mac.firUpdateSlot.countP (·.firIndex = some f) = spec.passes T f := by
    intro f hf
    obtain ⟨b, hb⟩ := hinv.placed f hf
    exact hb.countP_slots hinv (dvd_interval hb (hdvd f hf))
  rw [FirEngineMacDesc.updateSlots, ← List.map_congr_left hcount]
  refine Counting.countP_isSome hinv.nodup fun slot hslot f hf => ?_
  obtain ⟨s, hs⟩ := List.getElem?_of_mem hslot
  exact hinv.slot_owner (t := s) (f := f) (by rw [hs, ← hf])

theorem MacInv.usedSlots_le (hinv : MacInv spec T mac) : mac.usedSlots ≤ T :=
  List.countP_le_length.trans_eq hinv.refs_length

theorem Inv.inputs_perm (hinv : Inv spec T N d) :
    (d.firEngineMacDesc.flatMap (·.inputFirs)).Perm (List.range N) := by
  refine (List.perm_ext_iff_of_nodup ?_ List.nodup_range).mpr fun f => ?_
  · refine List.nodup_flatMap.mpr ⟨fun mac hmac => ?_, ?_⟩
    · exact (hinv.macInv mac hmac).nodup
    · refine List.pairwise_iff_getElem.mpr fun m m' hm hm' hlt f hf hf' => ?_
      have heq := hinv.unique (List.getElem?_eq_getElem hm) (List.getElem?_eq_getElem hm') f hf hf'
      omega
  · rw [List.mem_flatMap, List.mem_range]
    constructor
    · rintro ⟨mac, hmac, hf⟩
      exact hinv.inputs_lt mac hmac f hf
    · intro hf
      obtain ⟨m, mac, hm, hmem⟩ := hinv.cover f hf
      exact ⟨mac, List.mem_of_getElem? hm, hmem⟩

end Load

theorem engine_carries_its_load (spec : FirEngineSpec) (T N : Nat) (hpos : 0 < T)
    (hT : T < 2 ^ 31) (d : FirEngineDesc) (h : bindFirs spec T N = .ok d)
    (hdvd : ∀ f < N, roundedInterval T spec.clockFreq (spec.specOf f).sampleFreq ∣ T) :
    SumsExact T ∧ (d.firEngineMacDesc.flatMap (·.inputFirs)).Perm (List.range N) ∧
    (∀ mac ∈ d.firEngineMacDesc, mac.usedSlots = (mac.inputFirs.map (spec.load T)).sum ∧
      mac.updateSlots = (mac.inputFirs.map (spec.passes T)).sum) ∧
    (d.firEngineMacDesc.map FirEngineMacDesc.usedSlots).sum =
      ((List.range N).map (spec.load T)).sum ∧
    ((List.range N).map (spec.load T)).sum ≤ d.firEngineMacDesc.length * T := by
  have hinv := inv_bindFirs h
  have hused : ∀ mac ∈ d.firEngineMacDesc,
      mac.usedSlots = (mac.inputFirs.map (spec.load T)).sum := fun mac hmac =>
    (hinv.macInv mac hmac).usedSlots_eq fun f hf => hdvd f (hinv.inputs_lt mac hmac f hf)
  have htotal : (d.firEngineMacDesc.map FirEngineMacDesc.usedSlots).sum =
      ((List.range N).map (spec.load T)).sum := by
    rw [List.map_congr_left hused, ← (hinv.inputs_perm.map (spec.load T)).sum_eq,
      Counting.sum_map_flatMap]
  refine ⟨sumsExact hpos hT, hinv.inputs_perm, fun mac hmac => ⟨hused mac hmac, ?_⟩, htotal, ?_⟩
  · exact (hinv.macInv mac hmac).updateSlots_eq fun f hf => hdvd f (hinv.inputs_lt mac hmac f hf)
  · have hbound : ∀ n ∈ d.firEngineMacDesc.map FirEngineMacDesc.usedSlots, n ≤ T := by
      intro n hn
      obtain ⟨mac, hmac, rfl⟩ := List.mem_map.mp hn
      exact (hinv.macInv mac hmac).usedSlots_le
    have hsum := Counting.sum_le_length_mul hbound
    rwa [List.length_map, htotal] at hsum

theorem engine_carries_its_load_two_firs :
    SumsExact 8 ∧ (twoFirDesc.firEngineMacDesc.flatMap (·.inputFirs)).Perm (List.range 2) ∧
    (∀ mac ∈ twoFirDesc.firEngineMacDesc,
      mac.usedSlots = (mac.inputFirs.map (twoFirSpec.load 8)).sum ∧
      mac.updateSlots = (mac.inputFirs.map (twoFirSpec.passes 8)).sum) ∧
    (twoFirDesc.firEngineMacDesc.map FirEngineMacDesc.usedSlots).sum =
      ((List.range 2).map (twoFirSpec.load 8)).sum ∧
    ((List.range 2).map (twoFirSpec.load 8)).sum ≤ twoFirDesc.firEngineMacDesc.length * 8 :=
  engine_carries_its_load twoFirSpec 8 2 (by decide) (by decide) twoFirDesc (by decide +kernel)
    (by decide +kernel)

end FirEngine
