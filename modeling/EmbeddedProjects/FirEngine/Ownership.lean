import Mathlib.Data.List.Nodup
import EmbeddedProjects.FirEngine.Invariant

namespace FirEngine

open FirEngineDesc

def coeffSlot (d : FirEngineDesc) (m t : Nat) : Option FirCoeffRef :=
  d.firEngineMacDesc[m]?.bind fun mac => mac.firCoeffRef[t]?

def updateSlot (d : FirEngineDesc) (m t : Nat) : Option FirUpdateSlot :=
  d.firEngineMacDesc[m]?.bind fun mac => mac.firUpdateSlot[t]?

def EarlierKept (n : Nat) (d d' : FirEngineDesc) : Prop :=
  ∀ m t f : Nat, f < n →
    (∀ j : Nat, coeffSlot d' m t = some ⟨some f, j⟩ ↔ coeffSlot d m t = some ⟨some f, j⟩) ∧
    (updateSlot d' m t = some ⟨some f⟩ ↔ updateSlot d m t = some ⟨some f⟩)

structure OwnedOnce (d : FirEngineDesc) (f m : Nat) (mac : FirEngineMacDesc) : Prop where
  mac_eq : d.firEngineMacDesc[m]? = some mac
  inputs : mac.inputFirs.count f = 1
  outputs : ∀ i : Nat, mac.inputFirs[i]? = some f ↔ mac.outputFirs[i]? = some f
  fifos : mac.firEngineMacFifoDesc.countP (·.firIndex == f) = 1
  only : ∀ (m' : Nat) (mac' : FirEngineMacDesc), d.firEngineMacDesc[m']? = some mac' →
    f ∈ mac'.inputFirs → m' = m

structure Capped (mac : FirEngineMacDesc) : Prop where
  inputs : mac.inputFirs.length ≤ 15
  outputs : mac.outputFirs.length ≤ 15
  fifos : mac.getNumFifos ≤ 256

section Kept

variable {spec : FirEngineSpec} {T n : Nat} {d d' : FirEngineDesc} {firSpec : FirSpec}
  {b : FirBinding}

theorem new_slots_free (T t f : Nat) :
    (FirEngineMacDesc.new T).firUpdateSlot[t]? ≠ some ⟨some f⟩ := by
  simp [FirEngineMacDesc.new, List.getElem?_replicate]

theorem new_refs_free (T t f j : Nat) :
    (FirEngineMacDesc.new T).firCoeffRef[t]? ≠ some ⟨some f, j⟩ := by
  simp [FirEngineMacDesc.new, List.getElem?_replicate]

theorem updateSlot_target {t f : Nat} :
    updateSlot d b.firstFirMacIndex t = some ⟨some f⟩ ↔
      (d.targetMac b).firUpdateSlot[t]? = some ⟨some f⟩ := by
  rw [updateSlot, targetMac, List.getD_eq_getElem?_getD]
  cases d.firEngineMacDesc[b.firstFirMacIndex]? with
  | none => simpa using new_slots_free d.numTimeSlots t f
  | some mac => rfl

theorem coeffSlot_target {t f j : Nat} :
    coeffSlot d b.firstFirMacIndex t = some ⟨some f, j⟩ ↔
      (d.targetMac b).firCoeffRef[t]? = some ⟨some f, j⟩ := by
  rw [coeffSlot, targetMac, List.getD_eq_getElem?_getD]
  cases d.firEngineMacDesc[b.firstFirMacIndex]? with
  | none => simpa using new_refs_free d.numTimeSlots t f j
  | some mac => rfl

theorem earlierKept_bindStep (hinv : Inv spec T n d) (h : BindStep d spec n firSpec b d') :
    EarlierKept n d d' := by
  intro m t f hf
  have hroom := h.room
  have htarget := h.target
  rw [hinv.numTimeSlots] at hroom htarget
  have hne : f ≠ b.firIndex := by
    rw [h.found.firIndex]
    omega
  by_cases hm : m = b.firstFirMacIndex
  · subst hm
    refine ⟨fun j => ?_, ?_⟩
    · rw [coeffSlot_target (d := d), coeffSlot, htarget]
      exact ref_bindMac_of_ne hinv.targetMac.refs_length hroom hne
    · rw [updateSlot_target (d := d), updateSlot, htarget]
      exact slot_bindMac_of_ne hinv.targetMac.slots_length hroom hne
  · have hother : d'.firEngineMacDesc[m]? = d.firEngineMacDesc[m]? := by
      rw [h.result]
      exact bind_other hm h.found.mac
    simp [coeffSlot, updateSlot, hother]

theorem MacInv.fifoCount {mac : FirEngineMacDesc} (h : MacInv spec T mac) (f : Nat) :
    mac.firEngineMacFifoDesc.countP (·.firIndex == f) = mac.inputFirs.count f := by
  rw [h.fifos, List.countP_map, List.count]
  rfl

theorem MacInv.capped {mac : FirEngineMacDesc} (h : MacInv spec T mac) : Capped mac where
  inputs := h.inputs_le
  outputs := by rw [h.outputs]; exact h.inputs_le
  fifos := by
    rw [FirEngineMacDesc.getNumFifos, h.fifos, List.length_map]
    exact h.inputs_le.trans (by decide)

theorem Inv.ownedOnce (hinv : Inv spec T n d) {f : Nat} (hf : f < n) :
    ∃ m mac, OwnedOnce d f m mac := by
  obtain ⟨m, mac, hm, hmem⟩ := hinv.cover f hf
  have hmac := hinv.mac hm
  have hcount : mac.inputFirs.count f = 1 := List.count_eq_one_of_mem hmac.nodup hmem
  refine ⟨m, mac, hm, hcount, ?_, ?_, ?_⟩
  · intro i
    rw [hmac.outputs]
  · rw [hmac.fifoCount, hcount]
  · intro m' mac' hm' hmem'
    exact hinv.unique hm' hm f hmem' hmem

end Kept

theorem bindFirs_prefix {spec : FirEngineSpec} {T N : Nat} {d : FirEngineDesc}
    (h : bindFirs spec T N = .ok d) {n : Nat} (hn : n ≤ N) :
    ∃ dn, bindFirs spec T n = .ok dn := by
  induction N generalizing d with
  | zero => exact ⟨d, by rwa [Nat.le_zero.mp hn]⟩
  | succ N ih =>
    rcases Nat.le_succ_iff.mp hn with hn | rfl
    · obtain ⟨d₀, h₀, _⟩ := Outcome.bind_eq_ok.mp h
      exact ih h₀ hn
    · exact ⟨d, h⟩

theorem bindFirs_keep_earlier (spec : FirEngineSpec) (T N : Nat) (d : FirEngineDesc)
    (h : bindFirs spec T N = .ok d) :
    (∀ n < N, ∃ dn dn', bindFirs spec T n = .ok dn ∧ dn.bindFir spec n = .ok dn' ∧
      bindFirs spec T (n + 1) = .ok dn' ∧ EarlierKept n dn dn') ∧
    d.numFirs = N ∧
    (∀ f < N, ∃ m mac, OwnedOnce d f m mac) ∧
    (∀ mac ∈ d.firEngineMacDesc, Capped mac) := by
  have hinv := inv_bindFirs h
  refine ⟨fun n hn => ?_, hinv.numFirs, fun f hf => hinv.ownedOnce hf, fun mac hmac => ?_⟩
  · obtain ⟨dn', hdn'⟩ := bindFirs_prefix h (by omega : n + 1 ≤ N)
    obtain ⟨dn, hdn, hstep⟩ := Outcome.bind_eq_ok.mp hdn'
    obtain ⟨firSpec, b, hb⟩ := bindFir_eq_ok hstep
    exact ⟨dn, dn', hdn, hstep, hdn', earlierKept_bindStep (inv_bindFirs hdn) hb⟩
  · obtain ⟨m, hm⟩ := List.getElem?_of_mem hmac
    exact (hinv.mac hm).capped

def twoFirSpec : FirEngineSpec where
  clockFreq := 16
  firSpec := [⟨4, [1 / 2]⟩, ⟨2, [1 / 4, 1 / 4, -1 / 2]⟩]

def twoFirDesc : FirEngineDesc where
  numTimeSlots := 8
  numFirs := 2
  firEngineMacDesc := [{
    inputFirs := [0, 1]
    outputFirs := [0, 1]
    firCoeffRef := [⟨some 0, 0⟩, ⟨some 1, 0⟩, ⟨some 1, 1⟩, ⟨some 1, 2⟩, ⟨some 0, 0⟩, {}, {}, {}]
    firUpdateSlot := [⟨some 0⟩, {}, {}, ⟨some 1⟩, ⟨some 0⟩, {}, {}, {}]
    firEngineMacFifoDesc := [
      { fifoDepth := 1, firCoeffRef := [⟨some 0, 0⟩] },
      { firIndex := 1, fifoDepth := 3, numFifoMemWords := 4
        firCoeffRef := [⟨some 1, 0⟩, ⟨some 1, 1⟩, ⟨some 1, 2⟩] }] }]

theorem bindFirs_keep_earlier_two_firs :
    ∃ d, bindFirs twoFirSpec 8 2 = .ok d ∧ d = twoFirDesc ∧
      (∀ n < 2, ∃ dn dn', bindFirs twoFirSpec 8 n = .ok dn ∧ dn.bindFir twoFirSpec n = .ok dn' ∧
        bindFirs twoFirSpec 8 (n + 1) = .ok dn' ∧ EarlierKept n dn dn') ∧
      (∀ f < 2, ∃ m mac, OwnedOnce d f m mac) := by
  have h : bindFirs twoFirSpec 8 2 = .ok twoFirDesc := by decide +kernel
  have hall := bindFirs_keep_earlier twoFirSpec 8 2 twoFirDesc h
  exact ⟨twoFirDesc, h, rfl, hall.1, hall.2.2.1⟩

end FirEngine
