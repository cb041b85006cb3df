import EmbeddedProjects.FirEngine.FifoLayout
import EmbeddedProjects.FirEngine.Ownership

namespace FirEngine

open FirEngineDesc FirEngineMacDesc

structure SlotAgrees (spec : FirEngineSpec) (mac : FirEngineMacDesc) (p : RtlParameters)
    (t f j k e : Nat) : Prop where
  rdFifoNum : p.rdFifoNum[t]? = some k
  fifoSize : p.fifoSizes[k]? = some e
  length : e % 64 = spec.numCoeff f - 1
  coeff : ∃ c, (spec.specOf f).coeff[j]? = some c ∧
    p.coeffValues[e / 64 + j]? = some (coeffVal1p17 c)
  updateFifoNum : ∀ u : Nat, mac.firUpdateSlot[u]? = some ⟨some f⟩ → p.updateFifoNum[u]? = some k

def FifoNumberingAgrees (spec : FirEngineSpec) (mac : FirEngineMacDesc) (p : RtlParameters) :
    Prop :=
  ∀ t f j : Nat, mac.firCoeffRef[t]? = some ⟨some f, j⟩ → ∃ k e, SlotAgrees spec mac p t f j k e

def FifosInSizeOrder (spec : FirEngineSpec) (mac : FirEngineMacDesc) : Prop :=
  (mac.inputFirs.map (quantised spec)).Pairwise fun a b =>
    memWordsFor b < memWordsFor a ∨ a = b

variable {sort : List FirEngineMacFifoDesc → List FirEngineMacFifoDesc} {spec : FirEngineSpec}
  {mac : FirEngineMacDesc} {p : RtlParameters} {T : Nat} {gs : List Nat} {b : FirBinding} {f : Nat}

section Numbers

theorem rdFifoNum_of_ref (hb : BuiltMac spec T mac) (hgen : Generated sort spec mac p)
    {t f j : Nat} (ht : mac.firCoeffRef[t]? = some ⟨some f, j⟩) :
    ∃ k, mac.inputFirs[k]? = some f ∧ p.rdFifoNum[t]? = some k := by
  obtain ⟨k, hk, _, _, hfind⟩ := hb.inv.index (hb.inv.ref_owner ht)
  obtain ⟨v, hv, hlookup⟩ := Outcome.getElem?_of_mapM hgen.rdFifoNum ht
  have hkv : k = v := Except.ok.inj (hfind.symm.trans hlookup)
  exact ⟨k, hk, hkv ▸ hv⟩

theorem updateFifoNum_of_slot (hb : BuiltMac spec T mac) (hgen : Generated sort spec mac p)
    {u f : Nat} (hu : mac.firUpdateSlot[u]? = some ⟨some f⟩) :
    ∃ k, mac.inputFirs[k]? = some f ∧ p.updateFifoNum[u]? = some k := by
  obtain ⟨k, hk, _, _, hfind⟩ := hb.inv.index (hb.inv.slot_owner hu)
  obtain ⟨v, hv, hlookup⟩ := Outcome.getElem?_of_mapM hgen.updateFifoNum hu
  have hkv : k = v := Except.ok.inj (hfind.symm.trans hlookup)
  exact ⟨k, hk, hkv ▸ hv⟩

theorem channelSelect_of_slot (hb : BuiltMac spec T mac) (hgen : Generated sort spec mac p)
    {u f : Nat} (hu : mac.firUpdateSlot[u]? = some ⟨some f⟩) :
    ∃ k, mac.inputFirs[k]? = some f ∧ p.channelSelect[u]? = some k := by
  obtain ⟨k, hk, _, hfind, _⟩ := hb.inv.index (hb.inv.slot_owner hu)
  obtain ⟨v, hv, hlookup⟩ := Outcome.getElem?_of_mapM hgen.channelSelect hu
  have hkv : k = v := Except.ok.inj (hfind.symm.trans hlookup)
  exact ⟨k, hk, hkv ▸ hv⟩

theorem MacInv.position_unique (h : MacInv spec T mac) {k l f : Nat}
    (hk : mac.inputFirs[k]? = some f) (hl : mac.inputFirs[l]? = some f) : k = l :=
  (List.getElem?_inj (List.getElem?_eq_some_iff.mp hk).1 h.nodup).mp (hk.trans hl.symm)

end Numbers

section Slots

theorem Placed.coeff_slot (h : Placed spec T mac f b) {j : Nat} (hj : j < spec.numCoeff f) :
    ∃ t : Nat, mac.firCoeffRef[t]? = some ⟨some f, j⟩ := by
  obtain ⟨hIpos, hIT⟩ := timeSliceInterval_bounds h.interval
  have horigin := h.origin
  have hfits := h.fits
  obtain rfl := h.firIndex
  have hmem : b.timeSliceOrigin ∈ b.timeSliceOffsets T :=
    (FirBinding.mem_timeSliceOffsets hIpos).mpr ⟨by omega, 0, by omega⟩
  obtain ⟨init, last, heq⟩ := (List.eq_nil_or_concat _).resolve_left (List.ne_nil_of_mem hmem)
  change j < (spec.specOf b.firIndex).coeff.length at hj
  generalize hn : (spec.specOf b.firIndex).coeff.length = n at *
  refine ⟨slotBefore T last (n - 1 - j), (h.refs _ j).mpr ?_⟩
  rw [hn, soloRefs, bindCoeffRefs_eq, coeffWrites, heq, List.concat_eq_append,
    List.flatMap_append, Writes.applyWrites_append, List.flatMap_singleton]
  refine Writes.getElem?_applyWrites_of_agree
    (by simpa using slotBefore_lt (by omega : 0 < T) _ _) ?_ ?_
  · refine List.mem_map.mpr ⟨n - 1 - j, List.mem_range.mpr (by omega), ?_⟩
    have hj' : n - 1 - (n - 1 - j) = j := by omega
    rw [hj']
  · intro v hv
    obtain ⟨i, hi, hw⟩ := List.mem_map.mp hv
    have hin := List.mem_range.mp hi
    obtain ⟨hslot, rfl⟩ := Prod.mk.inj hw
    have hii : i = n - 1 - j := slotBefore_injective (by omega) (by omega) hslot
    have hj' : n - 1 - i = j := by omega
    rw [hj']

theorem Placed.coeffIndex_lt (h : Placed spec T mac f b) {t j : Nat}
    (ht : mac.firCoeffRef[t]? = some ⟨some f, j⟩) : j < spec.numCoeff f := by
  have hsolo := (h.refs t j).mp ht
  have hlt : t < (soloRefs T (spec.specOf f).coeff.length b).length :=
    (List.getElem?_eq_some_iff.mp hsolo).1
  rw [soloRefs] at hsolo hlt
  rw [length_bindCoeffRefs] at hlt
  rcases getElem?_bindCoeffRefs_cases _ hlt with ⟨s, _, i, hi, _, hget⟩ | ⟨_, hget⟩
  · rw [hget, Option.some.injEq] at hsolo
    cases hsolo
    change (spec.specOf b.firIndex).coeff.length - 1 - i < (spec.specOf b.firIndex).coeff.length
    omega
  · rw [hget, List.getElem?_replicate] at hsolo
    simp at hsolo

end Slots

section Agreement

theorem exists_of_positions (hpos : gs.map (quantised spec) = mac.inputFirs.map (quantised spec))
    {k : Nat} (hk : mac.inputFirs[k]? = some f) :
    ∃ g, gs[k]? = some g ∧ quantised spec g = quantised spec f ∧
      spec.numCoeff g = spec.numCoeff f := by
  have hq : (gs.map (quantised spec))[k]? = some (quantised spec f) := by
    rw [hpos, List.getElem?_map, hk]
    rfl
  rw [List.getElem?_map] at hq
  obtain ⟨g, hg, hgf⟩ := Option.map_eq_some_iff.mp hq
  refine ⟨g, hg, hgf, ?_⟩
  rw [← length_quantised, hgf, length_quantised]

theorem positions_of_agrees (hb : BuiltMac spec T mac) (hr : Renderable spec T mac)
    (hgen : Generated sort spec mac p) (harr : Arranged spec mac sort gs)
    (h : FifoNumberingAgrees spec mac p) :
    gs.map (quantised spec) = mac.inputFirs.map (quantised spec) := by
  apply List.ext_getElem (by simpa using harr.perm.length_eq)
  intro k hk hk'
  have hkf : k < mac.inputFirs.length := by simpa using hk'
  have hkg : k < gs.length := by simpa using hk
  obtain ⟨f, hf⟩ : ∃ f, mac.inputFirs[k]? = some f := ⟨_, List.getElem?_eq_getElem hkf⟩
  obtain ⟨g, hg⟩ : ∃ g, gs[k]? = some g := ⟨_, List.getElem?_eq_getElem hkg⟩
  have hfmem := List.mem_of_getElem? hf
  have hgmem := harr.perm.mem_iff.mp (List.mem_of_getElem? hg)
  obtain ⟨b, hplaced⟩ := hb.inv.placed f hfmem
  obtain ⟨o, _, hentry⟩ := harr.entry hb hr.firs hgen hg
  have hgle := (hr.firs g hgmem).le
  have hgpos := (hr.firs g hgmem).pos
  have hfpos := (hr.firs f hfmem).pos
  have hslot : ∀ j < spec.numCoeff f, spec.numCoeff g = spec.numCoeff f ∧
      ∃ c, (spec.specOf f).coeff[j]? = some c ∧
        p.coeffValues[o + j]? = some (coeffVal1p17 c) := by
    intro j hj
    obtain ⟨t, ht⟩ := hplaced.coeff_slot hj
    obtain ⟨k', e, hag⟩ := h t f j ht
    obtain ⟨l, hl, hrd⟩ := rdFifoNum_of_ref hb hgen ht
    obtain rfl := hb.inv.position_unique hl hf
    obtain rfl : l = k' := Option.some.inj (hrd.symm.trans hag.rdFifoNum)
    have he := hag.fifoSize
    rw [hentry.size, Option.some.injEq] at he
    have hlen := hag.length
    have hoff : e / 64 = o := by omega
    obtain ⟨c, hc, hcv⟩ := hag.coeff
    rw [hoff] at hcv
    exact ⟨by omega, c, hc, hcv⟩
  have hnum := (hslot 0 hfpos).1
  suffices heq : quantised spec g = quantised spec f by
    rw [List.getElem?_eq_getElem hkg, Option.some.injEq] at hg
    rw [List.getElem?_eq_getElem hkf, Option.some.injEq] at hf
    rw [List.getElem_map, List.getElem_map, hg, hf, heq]
  apply List.ext_getElem (by simpa using hnum)
  intro j hj hj'
  have hjf : j < spec.numCoeff f := by simpa using hj'
  obtain ⟨_, c, hc, hcv⟩ := hslot j hjf
  have hout := hentry.coeff j _ (List.getElem?_eq_getElem hj)
  rw [hcv, Option.some.injEq] at hout
  have hq : (quantised spec f)[j]? = some (coeffVal1p17 c) := by
    rw [quantised, List.getElem?_map, hc, Option.map_some]
  rw [List.getElem?_eq_getElem hj', Option.some.injEq] at hq
  rw [← hout, hq]

theorem agrees_of_positions (hb : BuiltMac spec T mac) (hr : Renderable spec T mac)
    (hgen : Generated sort spec mac p) (harr : Arranged spec mac sort gs)
    (hpos : gs.map (quantised spec) = mac.inputFirs.map (quantised spec)) :
    FifoNumberingAgrees spec mac p := by
  intro t f j ht
  obtain ⟨k, hk, hrd⟩ := rdFifoNum_of_ref hb hgen ht
  have hfmem := hb.inv.ref_owner ht
  obtain ⟨g, hg, hgf, hnum⟩ := exists_of_positions hpos hk
  obtain ⟨o, _, hentry⟩ := harr.entry hb hr.firs hgen hg
  have hle := (hr.firs f hfmem).le
  have hfpos := (hr.firs f hfmem).pos
  have hj : j < spec.numCoeff f := by
    obtain ⟨b, hplaced⟩ := hb.inv.placed f hfmem
    exact hplaced.coeffIndex_lt ht
  obtain ⟨c, hc⟩ : ∃ c, (spec.specOf f).coeff[j]? = some c := ⟨_, List.getElem?_eq_getElem hj⟩
  refine ⟨k, _, hrd, hentry.size, by omega, ⟨c, hc, ?_⟩, ?_⟩
  · have hoffset : (o * 64 + (spec.numCoeff g - 1)) / 64 = o := by omega
    rw [hoffset]
    apply hentry.coeff
    rw [hgf, quantised, List.getElem?_map, hc, Option.map_some]
  · intro u hu
    obtain ⟨l, hl, hup⟩ := updateFifoNum_of_slot hb hgen hu
    rw [hb.inv.position_unique hk hl]
    exact hup

theorem agrees_iff_positions (hb : BuiltMac spec T mac) (hr : Renderable spec T mac)
    (hgen : Generated sort spec mac p) (harr : Arranged spec mac sort gs) :
    FifoNumberingAgrees spec mac p ↔
      gs.map (quantised spec) = mac.inputFirs.map (quantised spec) :=
  ⟨positions_of_agrees hb hr hgen harr, agrees_of_positions hb hr hgen harr⟩

theorem sorts_agree_iff (hb : BuiltMac spec T mac) (hr : Renderable spec T mac) :
    (∀ sort, IsSort sort → ∀ p, generateRtl sort spec mac = .ok p →
      FifoNumberingAgrees spec mac p) ↔ FifosInSizeOrder spec mac := by
  rw [FifosInSizeOrder, ← Descending.Strict, ← Descending.only_arrangement_iff]
  constructor
  · intro h l hperm hdesc
    obtain ⟨gs, hgs, rfl⟩ := Descending.exists_map_eq_of_perm hperm
    obtain ⟨sort, hsort, harr⟩ := hb.inv.exists_sort hgs hdesc
    obtain ⟨p, hp⟩ := exists_generated hb hsort hr
    exact (agrees_iff_positions hb hr (generateRtl_eq_ok.mp hp) harr).mp (h sort hsort p hp)
  · intro h sort hsort p hp
    obtain ⟨gs, harr, hdesc⟩ := hb.inv.arranged hsort
    exact (agrees_iff_positions hb hr (generateRtl_eq_ok.mp hp) harr).mpr
      (h _ (harr.perm.map _) hdesc)

end Agreement

theorem fifo_numbering_agrees_iff (spec : FirEngineSpec) (T : Nat) (d : FirEngineDesc)
    (h : buildFirEngine spec T = .ok d) (mac : FirEngineMacDesc) (hmac : mac ∈ d.firEngineMacDesc)
    (hr : Renderable spec T mac) :
    (∀ sort, IsSort sort → ∀ p, generateRtl sort spec mac = .ok p →
      FifoNumberingAgrees spec mac p) ↔ FifosInSizeOrder spec mac :=
  sorts_agree_iff (builtMac_of_buildFirEngine h hmac) hr

def twoFirMac : FirEngineMacDesc := twoFirDesc.firEngineMacDesc.getD 0 (.new 0)

theorem renderable_twoFirMac : Renderable twoFirSpec 8 twoFirMac where
  timeSlots := by decide
  firs := by
    intro f hf
    have hf : f ∈ [0, 1] := hf
    simp only [List.mem_cons, List.not_mem_nil, or_false] at hf
    rcases hf with rfl | rfl
    · exact ⟨by decide, by decide, by decide +kernel⟩
    · exact ⟨by decide, by decide, by decide +kernel⟩

theorem fifo_numbering_agrees_iff_two_firs :
    (∀ sort, IsSort sort → ∀ p, generateRtl sort twoFirSpec twoFirMac = .ok p →
      FifoNumberingAgrees twoFirSpec twoFirMac p) ↔ FifosInSizeOrder twoFirSpec twoFirMac :=
  fifo_numbering_agrees_iff twoFirSpec 8 twoFirDesc (by decide +kernel) twoFirMac (by decide)
    renderable_twoFirMac

def insertionSortByMemWords (l : List FirEngineMacFifoDesc) : List FirEngineMacFifoDesc :=
  l.insertionSort fun a b => a.numFifoMemWords ≤ b.numFifoMemWords

theorem isSort_insertionSortByMemWords : IsSort insertionSortByMemWords := by
  intro l
  refine ⟨List.perm_insertionSort _ l, ?_⟩
  have htotal : Std.Total fun a b : FirEngineMacFifoDesc =>
      a.numFifoMemWords ≤ b.numFifoMemWords := ⟨fun a b => Nat.le_total _ _⟩
  have htrans : IsTrans FirEngineMacFifoDesc fun a b =>
      a.numFifoMemWords ≤ b.numFifoMemWords := ⟨fun _ _ _ => Nat.le_trans⟩
  refine (List.pairwise_insertionSort _ l).imp ?_
  intro a b hab
  simpa [FirEngineMacFifoDesc.memWordsLessThan] using hab

theorem two_firs_read_each_others_fifo :
    ∃ d mac p, buildFirEngine twoFirSpec 8 = .ok d ∧ mac ∈ d.firEngineMacDesc ∧
      IsSort insertionSortByMemWords ∧
      generateRtl insertionSortByMemWords twoFirSpec mac = .ok p ∧
      ¬ FifoNumberingAgrees twoFirSpec mac p := by
  obtain ⟨p, hp, hcheck⟩ := Outcome.exists_of_okAnd
    (x := generateRtl insertionSortByMemWords twoFirSpec twoFirMac)
    (p := fun p => decide (p.rdFifoNum[0]? = some 0 ∧ p.fifoSizes[0]? = some 2))
    (by decide +kernel)
  obtain ⟨hrd, hsize⟩ := of_decide_eq_true hcheck
  refine ⟨twoFirDesc, twoFirMac, p, by decide +kernel, by decide,
    isSort_insertionSortByMemWords, hp, fun hag => ?_⟩
  obtain ⟨k, e, hslot⟩ := hag 0 0 0 rfl
  obtain rfl := Option.some.inj (hrd.symm.trans hslot.rdFifoNum)
  obtain rfl := Option.some.inj (hsize.symm.trans hslot.fifoSize)
  exact absurd hslot.length (by decide)

end FirEngine
