import EmbeddedProjects.FirEngine.FifoLayout
import EmbeddedProjects.FirEngine.Netlist

namespace FirEngine

open FirEngineDesc FirEngineMacDesc Numbered

def Wired (inst : Instance) (k f : Nat) : Prop :=
  ∀ stem ∈ ["iData", "oData"], ∀ suffix ∈ ["Changed", ""], ∀ wire,
    (numbered stem k suffix, wire) ∈ inst.connections ↔ wire = numbered stem f suffix

structure SoundControls (T : Nat) (mac : FirEngineMacDesc) (inst : Instance)
    (channelSelect rdFifoNum updateFifoNum : List Nat) : Prop where
  channelSelect_ok : mac.establishChannelSelectCtrl = .ok channelSelect
  rdFifoNum_ok : mac.establishRdFifoNumCtrl = .ok rdFifoNum
  updateFifoNum_ok : mac.establishUpdateFifoNumCtrl = .ok updateFifoNum
  lengths : ∀ values ∈ [channelSelect, mac.establishFirstEngineCtrl, mac.establishLastEngineCtrl,
    mac.establishFirstTapCtrl, mac.establishPreAddModeCtrl, mac.establishMulModeCtrl,
    mac.establishAddPrevEngineAccumCtrl, rdFifoNum, updateFifoNum, mac.establishDoUpdateCtrl],
    values.length = T
  engines : mac.establishDoUpdateCtrl = mac.establishFirstEngineCtrl ∧
    mac.establishDoUpdateCtrl = mac.establishLastEngineCtrl
  update : ∀ t < T, mac.establishDoUpdateCtrl[t]? = some 1 ↔ channelSelect[t]? ≠ some 0xF
  channel : ∀ t c : Nat, channelSelect[t]? = some c → c ≠ 0xF →
    c ≤ 14 ∧ ∃ f, mac.firUpdateSlot[t]? = some ⟨some f⟩ ∧ Wired inst c f
  mulMode : ∀ t < T, mac.establishFirstTapCtrl[t]? = some 1 ↔ mac.establishMulModeCtrl[t]? = some 0
  firstTap : ∀ t < T, mac.establishFirstTapCtrl[t]? = some 1 ↔
    ∃ f, mac.firCoeffRef[t]? = some ⟨some f, 0⟩
  rendered : ∀ v ∈ [(4, channelSelect), (1, mac.establishFirstEngineCtrl),
    (1, mac.establishLastEngineCtrl), (1, mac.establishFirstTapCtrl),
    (4, mac.establishPreAddModeCtrl), (4, mac.establishMulModeCtrl),
    (1, mac.establishAddPrevEngineAccumCtrl), (8, rdFifoNum), (8, updateFifoNum),
    (1, mac.establishDoUpdateCtrl)], renderVector v.1 v.2 = .ok ()

section Wiring

variable {mac : FirEngineMacDesc} {name stem suffix wire : String} {m k : Nat}

theorem mem_data_iff {stem' : String} {firs : List Nat} (hstem : stem ∈ ["iData", "oData"])
    (hstem' : stem' ∈ ["iData", "oData"]) (hs : suffix ∈ ["Changed", ""]) :
    (numbered stem k suffix, wire) ∈ dataConnections stem' firs ↔
      stem = stem' ∧ ∃ f, firs[k]? = some f ∧ wire = numbered stem f suffix := by
  have hdigit := not_startsWithDigit_suffix
  have hapart : ∀ s ∈ ["iData", "oData"], ∀ s' ∈ ["iData", "oData"],
      StemOf s s' ∨ StemOf s' s → s = s' := by decide
  rw [mem_dataConnections]
  constructor
  · rintro ⟨i, f, hf, heq⟩
    obtain ⟨u, hu, heq⟩ : ∃ u ∈ ["Changed", ""],
        (numbered stem k suffix, wire) = (numbered stem' i u, numbered stem' f u) := by
      simpa using heq
    obtain ⟨hport, rfl⟩ := Prod.mk.inj heq
    have hstemOf := stemOf_numbered stem k suffix
    rw [hport] at hstemOf
    obtain rfl := hapart _ hstem _ hstem' (hstemOf.comparable (stemOf_numbered stem' i u))
    obtain ⟨rfl, rfl⟩ := (numbered_inj (hdigit _ hs) (hdigit _ hu)).mp hport
    exact ⟨rfl, f, hf, rfl⟩
  · rintro ⟨rfl, f, hf, rfl⟩
    refine ⟨k, f, hf, ?_⟩
    simp only [List.mem_cons, List.not_mem_nil, or_false] at hs
    rcases hs with rfl | rfl
    · exact .inl rfl
    · exact .inr rfl

def fixedPorts : List String :=
  ["iClk", "iRst", "iChainD", "oChainD", "iChainR", "oChainR", "iChainS", "oChainS",
    "iInputChangeChain", "oInputChangeChain", "iCoefBuff_wren", "iCoefBuff_wraddr",
    "iCoefBuff_wrdata"]

theorem not_mem_fixedPorts (hstem : stem ∈ ["iData", "oData"]) :
    numbered stem k suffix ∉ fixedPorts := by
  have hall : ∀ s ∈ ["iData", "oData"], ∀ p ∈ fixedPorts, ¬ StemOf s p := by decide
  intro hmem
  exact hall stem hstem _ hmem (stemOf_numbered stem k suffix)

theorem mem_connections_iff {c : String × String} :
    c ∈ (mac.rtlInstance name m).connections ↔ c ∈ dataConnections "iData" mac.inputFirs ∨
      c ∈ dataConnections "oData" mac.outputFirs ∨
      (c.1 ∈ fixedPorts ∧ c ∈ (mac.rtlInstance name m).connections) := by
  constructor
  · intro hc
    have hc' := hc
    simp only [FirEngineMacDesc.rtlInstance, List.mem_append] at hc
    rcases hc with hmem | hmem | hmem | hmem | hmem
    · have hall : ∀ c ∈ [("iClk", "iClk"), ("iRst", "iRst")], c.1 ∈ fixedPorts := by decide
      exact .inr (.inr ⟨hall c hmem, hc'⟩)
    · exact .inl hmem
    · exact .inr (.inl hmem)
    · have hports : chainPorts.map (·.name) ⊆ fixedPorts := by decide
      have hport : c.1 ∈ (chainConnections m).map Prod.fst := List.mem_map_of_mem hmem
      exact .inr (.inr ⟨hports hport, hc'⟩)
    · have hall : ∀ c ∈ [("iCoefBuff_wren", "1'b0"), ("iCoefBuff_wraddr", "32'b0"),
          ("iCoefBuff_wrdata", "18'b0")], c.1 ∈ fixedPorts := by decide
      exact .inr (.inr ⟨hall c hmem, hc'⟩)
  · rintro (hc | hc | hc)
    · simp [FirEngineMacDesc.rtlInstance, hc]
    · simp [FirEngineMacDesc.rtlInstance, hc]
    · exact hc.2

theorem wired_rtlInstance {f : Nat} (hin : mac.inputFirs[k]? = some f)
    (hout : mac.outputFirs[k]? = some f) : Wired (mac.rtlInstance name m) k f := by
  intro stem hstem suffix hs wire
  rw [mem_connections_iff, mem_data_iff hstem (by simp) hs, mem_data_iff hstem (by simp) hs]
  constructor
  · rintro (⟨_, g, hg, rfl⟩ | ⟨_, g, hg, rfl⟩ | ⟨hfixed, _⟩)
    · rw [Option.some.inj (hin.symm.trans hg)]
    · rw [Option.some.inj (hout.symm.trans hg)]
    · exact absurd hfixed (not_mem_fixedPorts hstem)
  · rintro rfl
    simp only [List.mem_cons, List.not_mem_nil, or_false] at hstem
    rcases hstem with rfl | rfl
    · exact .inl ⟨rfl, f, hin, rfl⟩
    · exact .inr (.inl ⟨rfl, f, hout, rfl⟩)

end Wiring

section Vectors

variable {T t : Nat} {mac : FirEngineMacDesc} {name : String} {m : Nat}

theorem renderVector_eq_ok {bits : Nat} {values : List Nat} (h : ∀ v ∈ values, v < 2 ^ bits) :
    renderVector bits values = .ok () := by
  refine check_eq_ok.mpr (List.all_eq_true.mpr fun v hv => ?_)
  simpa using h v hv

theorem MacBound.index (h : MacBound T mac) {f : Nat} (hf : f ∈ mac.inputFirs) :
    ∃ k, mac.inputFirs[k]? = some f ∧ k < 15 ∧ mac.findInputIndexForFirIndex f = .ok k ∧
      mac.findFifoIndexForFirIndex f = .ok k :=
  index_of_mem h.fifos h.inputs_le hf

theorem oneIfUsed_lt (slots : List FirUpdateSlot) : ∀ v ∈ slots.map oneIfUsed, v < 2 ^ 1 := by
  intro v hv
  obtain ⟨s, _, rfl⟩ := List.mem_map.mp hv
  rw [oneIfUsed]
  split <;> decide

theorem firstTap_lt : ∀ v ∈ mac.establishFirstTapCtrl, v < 2 ^ 1 := by
  intro v hv
  obtain ⟨r, _, rfl⟩ := List.mem_map.mp hv
  split <;> decide

theorem mulMode_lt : ∀ v ∈ mac.establishMulModeCtrl, v < 2 ^ 4 := by
  intro v hv
  obtain ⟨r, _, rfl⟩ := List.mem_map.mp hv
  split <;> decide

theorem zeros_lt (n bits : Nat) : ∀ v ∈ List.replicate n 0, v < 2 ^ bits := by
  intro v hv
  rw [List.eq_of_mem_replicate hv]
  exact Nat.two_pow_pos bits

theorem MacBound.channelSelect (h : MacBound T mac) : ∃ values,
    mac.establishChannelSelectCtrl = .ok values ∧ ∀ v ∈ values, v = 0xF ∨ v < 15 :=
  Outcome.exists_mapM_eq_ok fun s hs => lookupOr_ok 0xF
    (fun _ hf => (h.index hf).imp fun _ hk => ⟨hk.2.2.1, hk.2.1⟩) (h.slot_owner s hs)

theorem MacBound.rdFifoNum (h : MacBound T mac) : ∃ values,
    mac.establishRdFifoNumCtrl = .ok values ∧ ∀ v ∈ values, v = 0 ∨ v < 15 :=
  Outcome.exists_mapM_eq_ok fun r hr => lookupOr_ok 0
    (fun _ hf => (h.index hf).imp fun _ hk => ⟨hk.2.2.2, hk.2.1⟩) (h.ref_owner r hr)

theorem MacBound.updateFifoNum (h : MacBound T mac) : ∃ values,
    mac.establishUpdateFifoNumCtrl = .ok values ∧ ∀ v ∈ values, v = 0 ∨ v < 15 :=
  Outcome.exists_mapM_eq_ok fun s hs => lookupOr_ok 0
    (fun _ hf => (h.index hf).imp fun _ hk => ⟨hk.2.2.2, hk.2.1⟩) (h.slot_owner s hs)

theorem MacBound.channelSelect_get (h : MacBound T mac) {values : List Nat}
    (hvalues : mac.establishChannelSelectCtrl = .ok values) {s : FirUpdateSlot}
    (hs : mac.firUpdateSlot[t]? = some s) :
    (s = {} ∧ values[t]? = some 0xF) ∨
      ∃ f k, s = ⟨some f⟩ ∧ values[t]? = some k ∧ k < 15 ∧ mac.inputFirs[k]? = some f := by
  obtain ⟨v, hv, hlookup⟩ := Outcome.getElem?_of_mapM hvalues hs
  cases hf : s.firIndex with
  | none =>
    rw [hf] at hlookup
    cases hlookup
    exact .inl ⟨by rw [← hf], hv⟩
  | some f =>
    obtain ⟨k, hk, hlt, hfind, _⟩ := h.index (h.slot_owner s (List.mem_of_getElem? hs) f hf)
    rw [hf, lookupOr, hfind, Except.ok.injEq] at hlookup
    subst hlookup
    exact .inr ⟨f, k, by rw [← hf], hv, hlt, hk⟩

theorem isFirstTap_iff {r : FirCoeffRef} : isFirstTap r = true ↔ ∃ f, r = ⟨some f, 0⟩ := by
  obtain ⟨f, j⟩ := r
  cases f with
  | none => simp [isFirstTap, FirCoeffRef.isNull]
  | some f => simp [isFirstTap, FirCoeffRef.isNull]

theorem firstTap_iff : mac.establishFirstTapCtrl[t]? = some 1 ↔
    ∃ f, mac.firCoeffRef[t]? = some ⟨some f, 0⟩ := by
  rw [establishFirstTapCtrl, List.getElem?_map]
  cases hr : mac.firCoeffRef[t]? with
  | none => simp
  | some r =>
    by_cases htap : isFirstTap r = true
    · simpa [htap] using isFirstTap_iff.mp htap
    · simpa [htap] using mt isFirstTap_iff.mpr htap

theorem mulMode_iff : mac.establishFirstTapCtrl[t]? = some 1 ↔
    mac.establishMulModeCtrl[t]? = some 0 := by
  rw [establishFirstTapCtrl, establishMulModeCtrl, List.getElem?_map, List.getElem?_map]
  cases hr : mac.firCoeffRef[t]? with
  | none => simp
  | some r => by_cases htap : isFirstTap r = true <;> simp [htap]

theorem MacBound.doUpdate_iff (h : MacBound T mac) {channels : List Nat}
    (hchannels : mac.establishChannelSelectCtrl = .ok channels) (ht : t < T) :
    mac.establishDoUpdateCtrl[t]? = some 1 ↔ channels[t]? ≠ some 0xF := by
  have hs := List.getElem?_eq_getElem (h.slots_length.symm ▸ ht : t < mac.firUpdateSlot.length)
  rw [establishDoUpdateCtrl, List.getElem?_map, hs]
  rcases h.channelSelect_get hchannels hs with ⟨hempty, hc⟩ | ⟨f, k, hused, hc, hk, _⟩
  · simp [hempty, hc, oneIfUsed, FirUpdateSlot.isSlotEmpty]
  · have hne : k ≠ 15 := by omega
    simp [hused, hc, hne, oneIfUsed, FirUpdateSlot.isSlotEmpty]

theorem MacBound.wired_of_channelSelect (h : MacBound T mac) {channels : List Nat} {c : Nat}
    (hchannels : mac.establishChannelSelectCtrl = .ok channels) (hc : channels[t]? = some c)
    (hne : c ≠ 0xF) (name : String) (m : Nat) :
    c ≤ 14 ∧ ∃ f, mac.firUpdateSlot[t]? = some ⟨some f⟩ ∧ Wired (mac.rtlInstance name m) c f := by
  have ht : t < mac.firUpdateSlot.length := by
    rw [← Outcome.length_of_mapM hchannels]
    exact (List.getElem?_eq_some_iff.mp hc).1
  have hs := List.getElem?_eq_getElem ht
  rcases h.channelSelect_get hchannels hs with ⟨_, hc'⟩ | ⟨f, k, hused, hc', hk, hport⟩
  · exact absurd (Option.some.inj (hc.symm.trans hc')) hne
  · obtain rfl := Option.some.inj (hc.symm.trans hc')
    refine ⟨by omega, f, by rw [hs, hused], wired_rtlInstance hport ?_⟩
    rw [h.outputs]
    exact hport

theorem renderVector_of_lookup (bits : Nat) {unused : Nat} {values : List Nat}
    (hvalues : ∀ v ∈ values, v = unused ∨ v < 15) (hunused : unused < 2 ^ bits)
    (hbits : 4 ≤ bits) : renderVector bits values = .ok () := by
  have hpow : 2 ^ 4 ≤ 2 ^ bits := Nat.pow_le_pow_right (by decide) hbits
  refine renderVector_eq_ok fun v hv => ?_
  rcases hvalues v hv with rfl | hlt
  · exact hunused
  · omega

theorem MacBound.soundControls (h : MacBound T mac) (name : String) (m : Nat) :
    ∃ channelSelect rdFifoNum updateFifoNum,
      SoundControls T mac (mac.rtlInstance name m) channelSelect rdFifoNum updateFifoNum := by
  obtain ⟨channels, hchannels, hchannels_lt⟩ := h.channelSelect
  obtain ⟨rds, hrds, hrds_lt⟩ := h.rdFifoNum
  obtain ⟨updates, hupdates, hupdates_lt⟩ := h.updateFifoNum
  refine ⟨channels, rds, updates, hchannels, hrds, hupdates, ?_, ⟨rfl, rfl⟩,
    fun t ht => h.doUpdate_iff hchannels ht,
    fun t c hc hne => h.wired_of_channelSelect hchannels hc hne name m,
    fun t _ => mulMode_iff, fun t _ => firstTap_iff, ?_⟩
  · have hslots := h.slots_length
    have hrefs := h.refs_length
    have hc := Outcome.length_of_mapM hchannels
    have hr := Outcome.length_of_mapM hrds
    have hu := Outcome.length_of_mapM hupdates
    simp [establishFirstEngineCtrl, establishLastEngineCtrl, establishFirstTapCtrl,
      establishPreAddModeCtrl, establishMulModeCtrl, establishAddPrevEngineAccumCtrl,
      establishDoUpdateCtrl, getNumTimeSlots, hslots, hrefs, hc, hr, hu]
  · intro v hv
    simp only [List.mem_cons, List.not_mem_nil, or_false] at hv
    rcases hv with rfl | rfl | rfl | rfl | rfl | rfl | rfl | rfl | rfl | rfl
    · exact renderVector_of_lookup 4 hchannels_lt (by decide) (by decide)
    · exact renderVector_eq_ok (oneIfUsed_lt mac.firUpdateSlot)
    · exact renderVector_eq_ok (oneIfUsed_lt mac.firUpdateSlot)
    · exact renderVector_eq_ok firstTap_lt
    · exact renderVector_eq_ok (zeros_lt mac.getNumTimeSlots 4)
    · exact renderVector_eq_ok mulMode_lt
    · exact renderVector_eq_ok (zeros_lt mac.getNumTimeSlots 1)
    · exact renderVector_of_lookup 8 hrds_lt (by decide) (by decide)
    · exact renderVector_of_lookup 8 hupdates_lt (by decide) (by decide)
    · exact renderVector_eq_ok (oneIfUsed_lt mac.firUpdateSlot)

end Vectors

theorem control_vectors_sound (T : Nat) (calls : List Call) (d : FirEngineDesc)
    (h : bindCalls { numTimeSlots := T } calls = .ok d) (firEngineName : String) (m : Nat)
    (mac : FirEngineMacDesc) (hm : d.firEngineMacDesc[m]? = some mac) :
    ∃ inst channelSelect rdFifoNum updateFifoNum,
      (d.netlist firEngineName).top.instances[m]? = some inst ∧
      SoundControls T mac inst channelSelect rdFifoNum updateFifoNum := by
  have hbound := (bound_bindCalls calls (bound_empty T) h).mac mac (List.mem_of_getElem? hm)
  obtain ⟨channels, rds, updates, hsound⟩ := hbound.soundControls firEngineName m
  refine ⟨mac.rtlInstance firEngineName m, channels, rds, updates, ?_, hsound⟩
  simp [FirEngineDesc.netlist, rtlTop, hm]

theorem control_vectors_sound_two_firs :
    ∃ mac inst channelSelect rdFifoNum updateFifoNum, twoFirDesc.firEngineMacDesc[0]? = some mac ∧
      (twoFirDesc.netlist "test").top.instances[0]? = some inst ∧
      SoundControls 8 mac inst channelSelect rdFifoNum updateFifoNum := by
  obtain ⟨inst, channels, rds, updates, hinst, hsound⟩ := control_vectors_sound 8
    [(twoFirSpec, 0), (twoFirSpec, 1)] twoFirDesc (by decide +kernel) "test" 0 _ rfl
  exact ⟨_, inst, channels, rds, updates, rfl, hinst, hsound⟩

end FirEngine
