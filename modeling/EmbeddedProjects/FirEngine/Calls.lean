import EmbeddedProjects.FirEngine.ReadSlots

namespace FirEngine

open FirEngineDesc

structure MacBound (T : Nat) (mac : FirEngineMacDesc) : Prop where
  refs_length : mac.firCoeffRef.length = T
  slots_length : mac.firUpdateSlot.length = T
  outputs : mac.outputFirs = mac.inputFirs
  inputs_le : mac.inputFirs.length ≤ 15
  fifos : mac.firEngineMacFifoDesc.map (·.firIndex) = mac.inputFirs
  slot_owner : ∀ s ∈ mac.firUpdateSlot, ∀ f, s.firIndex = some f → f ∈ mac.inputFirs
  ref_owner : ∀ r ∈ mac.firCoeffRef, ∀ f, r.firIndex = some f → f ∈ mac.inputFirs

section Step

variable {T : Nat} {mac : FirEngineMacDesc} {b : FirBinding} {firSpec : FirSpec}

theorem macBound_new (T : Nat) : MacBound T (FirEngineMacDesc.new T) where
  refs_length := by simp [FirEngineMacDesc.new]
  slots_length := by simp [FirEngineMacDesc.new]
  outputs := rfl
  inputs_le := by simp [FirEngineMacDesc.new]
  fifos := rfl
  slot_owner := by
    intro s hs f hf
    rw [List.eq_of_mem_replicate hs] at hf
    cases hf
  ref_owner := by
    intro r hr f hf
    rw [List.eq_of_mem_replicate hr] at hf
    cases hf

theorem mem_bindUpdateSlots {slots : List FirUpdateSlot} {s : FirUpdateSlot}
    (h : s ∈ bindUpdateSlots T b slots) : s = ⟨some b.firIndex⟩ ∨ s ∈ slots := by
  obtain ⟨t, ht⟩ := List.getElem?_of_mem h
  have hlt : t < slots.length := by simpa using (List.getElem?_eq_some_iff.mp ht).1
  rw [getElem?_bindUpdateSlots hlt] at ht
  split at ht
  · exact .inl (Option.some.inj ht).symm
  · exact .inr (List.mem_of_getElem? ht)

theorem mem_bindCoeffRefs {n : Nat} {refs : List FirCoeffRef} {r : FirCoeffRef}
    (h : r ∈ bindCoeffRefs T n b refs) : r.firIndex = some b.firIndex ∨ r ∈ refs := by
  obtain ⟨s, hs⟩ := List.getElem?_of_mem h
  have hlt : s < refs.length := by simpa using (List.getElem?_eq_some_iff.mp hs).1
  rcases getElem?_bindCoeffRefs_cases refs (T := T) (n := n) (b := b) hlt with
    ⟨t, _, i, _, _, hget⟩ | ⟨_, hget⟩
  · rw [hget] at hs
    exact .inl (by rw [← Option.some.inj hs])
  · rw [hget] at hs
    exact .inr (List.mem_of_getElem? hs)

theorem MacBound.bindMac (h : MacBound T mac) (hroom : mac.inputFirs.length ≠ 15) :
    MacBound T (bindMac T firSpec b mac) where
  refs_length := by simpa [FirEngineDesc.bindMac] using h.refs_length
  slots_length := by simpa [FirEngineDesc.bindMac] using h.slots_length
  outputs := by simp [FirEngineDesc.bindMac, h.outputs]
  inputs_le := by
    have hle := h.inputs_le
    simp only [FirEngineDesc.bindMac, List.length_append, List.length_singleton]
    omega
  fifos := by simp [FirEngineDesc.bindMac, h.fifos, fifoFor]
  slot_owner := by
    intro s hs f hf
    refine mem_inputs_bindMac.mpr ?_
    rcases mem_bindUpdateSlots hs with rfl | hs
    · exact .inr (Option.some.inj hf).symm
    · exact .inl (h.slot_owner s hs f hf)
  ref_owner := by
    intro r hr f hf
    refine mem_inputs_bindMac.mpr ?_
    rcases mem_bindCoeffRefs hr with hr | hr
    · exact .inr (Option.some.inj (hf.symm.trans hr))
    · exact .inl (h.ref_owner r hr f hf)

end Step

structure Bound (T : Nat) (d : FirEngineDesc) : Prop where
  numTimeSlots : d.numTimeSlots = T
  mac : ∀ mac ∈ d.firEngineMacDesc, MacBound T mac

theorem bound_empty (T : Nat) : Bound T { numTimeSlots := T } where
  numTimeSlots := rfl
  mac := by simp

section Run

variable {T f : Nat} {d d' : FirEngineDesc} {spec : FirEngineSpec} {firSpec : FirSpec}
  {b : FirBinding}

theorem Bound.targetMac (h : Bound T d) : MacBound T (d.targetMac b) :=
  targetMac_of_forall (h.numTimeSlots ▸ macBound_new T) h.mac

theorem Bound.bindStep (h : Bound T d) (hb : BindStep d spec f firSpec b d') : Bound T d' where
  numTimeSlots := by rw [hb.result]; exact h.numTimeSlots
  mac := by
    refine hb.forall_mac ?_ h.mac
    rw [h.numTimeSlots]
    exact h.targetMac.bindMac hb.room.inputs

theorem bound_bindCalls (calls : List Call) (hd : Bound T d) (h : bindCalls d calls = .ok d') :
    Bound T d' := bindCalls_invariant Bound.bindStep calls hd h

end Run

namespace FirEngineMacDesc

variable {T : Nat} {mac : FirEngineMacDesc}

theorem index_of_mem {f : Nat}
    (hfifos : mac.firEngineMacFifoDesc.map (·.firIndex) = mac.inputFirs)
    (hle : mac.inputFirs.length ≤ 15) (hf : f ∈ mac.inputFirs) :
    ∃ k, mac.inputFirs[k]? = some f ∧ k < 15 ∧ mac.findInputIndexForFirIndex f = .ok k ∧
      mac.findFifoIndexForFirIndex f = .ok k := by
  have hsome := List.findIdx?_eq_some_of_exists (p := (· == f)) ⟨f, hf, beq_self_eq_true f⟩
  obtain ⟨hk, hval, _⟩ := List.findIdx?_eq_some_iff_getElem.mp hsome
  refine ⟨_, ?_, lt_of_lt_of_le hk hle, ?_, ?_⟩
  · rw [List.getElem?_eq_getElem hk, eq_of_beq hval]
  · rw [findInputIndexForFirIndex, hsome]
    rfl
  · have hmap : mac.firEngineMacFifoDesc.findIdx? (·.firIndex == f) =
        (mac.firEngineMacFifoDesc.map (·.firIndex)).findIdx? (· == f) := by
      rw [List.findIdx?_map]
      rfl
    rw [findFifoIndexForFirIndex, hmap, hfifos, hsome]
    rfl

end FirEngineMacDesc

end FirEngine
