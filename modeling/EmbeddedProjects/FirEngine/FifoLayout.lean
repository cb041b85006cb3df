import Mathlib.Algebra.Order.BigOperators.Group.List
import EmbeddedProjects.Lib.Descending
import EmbeddedProjects.FirEngine.Calls
import EmbeddedProjects.FirEngine.Generated

namespace FirEngine

open FirEngineDesc FirEngineMacDesc Layout

structure BuiltMac (spec : FirEngineSpec) (T : Nat) (mac : FirEngineMacDesc) : Prop where
  inv : MacInv spec T mac
  bound : ∀ f ∈ mac.inputFirs, f < spec.firSpec.length

theorem builtMac_of_buildFirEngine {spec : FirEngineSpec} {T : Nat} {d : FirEngineDesc}
    {mac : FirEngineMacDesc} (h : buildFirEngine spec T = .ok d)
    (hmac : mac ∈ d.firEngineMacDesc) : BuiltMac spec T mac := by
  have hinv := inv_bindFirs h
  exact ⟨hinv.macInv mac hmac, hinv.inputs_lt mac hmac⟩

def quantised (spec : FirEngineSpec) (f : Nat) : List Nat :=
  (spec.specOf f).coeff.map coeffVal1p17

def memWordsFor (coeffValues : List Nat) : Nat :=
  IntUtils.roundUpToPowerOfTwo coeffValues.length

def fifoOf (spec : FirEngineSpec) (f : Nat) : FirEngineMacFifoDesc := fifoFor (spec.specOf f) f

structure InRange (spec : FirEngineSpec) (f : Nat) : Prop where
  pos : 1 ≤ spec.numCoeff f
  le : spec.numCoeff f ≤ 64
  coeff : ∀ c ∈ (spec.specOf f).coeff, -1 < c ∧ c ≤ 1

structure Renderable (spec : FirEngineSpec) (T : Nat) (mac : FirEngineMacDesc) : Prop where
  timeSlots : T ≤ 256
  firs : ∀ f ∈ mac.inputFirs, InRange spec f

variable {sort : List FirEngineMacFifoDesc → List FirEngineMacFifoDesc} {spec : FirEngineSpec}
  {mac : FirEngineMacDesc} {p : RtlParameters} {T : Nat} {gs : List Nat}

@[simp] theorem length_quantised (f : Nat) : (quantised spec f).length = spec.numCoeff f := by
  simp [quantised, FirEngineSpec.specOf, FirEngineSpec.numCoeff]

theorem fifoOf_words (f : Nat) :
    (fifoOf spec f).numFifoMemWords = memWordsFor (quantised spec f) := by
  rw [memWordsFor, length_quantised]
  rfl

theorem fifoOf_depth (f : Nat) : (fifoOf spec f).fifoDepth = spec.numCoeff f := rfl

theorem fifoOf_ref {f j : Nat} (hj : j < spec.numCoeff f) :
    (fifoOf spec f).firCoeffRef[j]? = some ⟨some f, j⟩ := by
  change ((List.range (spec.numCoeff f)).map _)[j]? = _
  rw [List.getElem?_map, List.getElem?_range hj]
  rfl

section Arrangement

structure Arranged (spec : FirEngineSpec) (mac : FirEngineMacDesc)
    (sort : List FirEngineMacFifoDesc → List FirEngineMacFifoDesc) (gs : List Nat) : Prop where
  perm : gs.Perm mac.inputFirs
  fifos : (mac.sortFifosInDescendingSizeOrder sort).firEngineMacFifoDesc = gs.map (fifoOf spec)

theorem MacInv.arranged (h : MacInv spec T mac) (hsort : IsSort sort) :
    ∃ gs, Arranged spec mac sort gs ∧
      (gs.map (quantised spec)).Pairwise fun a b => memWordsFor b ≤ memWordsFor a := by
  obtain ⟨hperm, hdesc⟩ := hsort mac.firEngineMacFifoDesc
  have hperm' : (sort mac.firEngineMacFifoDesc).reverse.Perm
      (mac.inputFirs.map (fifoOf spec)) := by
    have := (List.reverse_perm _).trans hperm
    rwa [h.fifos] at this ⊢
  obtain ⟨gs, hgs, hmap⟩ := Descending.exists_map_eq_of_perm hperm'
  refine ⟨gs, ⟨hgs, hmap.symm⟩, ?_⟩
  have hrev := List.pairwise_reverse.mpr hdesc
  rw [← hmap, List.pairwise_map] at hrev
  rw [List.pairwise_map]
  refine hrev.imp ?_
  intro a b hab
  rw [← fifoOf_words, ← fifoOf_words]
  simpa [FirEngineMacFifoDesc.memWordsLessThan] using hab

theorem MacInv.exists_sort (h : MacInv spec T mac) (hperm : gs.Perm mac.inputFirs)
    (hdesc : (gs.map (quantised spec)).Pairwise fun a b => memWordsFor b ≤ memWordsFor a) :
    ∃ sort, IsSort sort ∧ Arranged spec mac sort gs := by
  classical
  let sort : List FirEngineMacFifoDesc → List FirEngineMacFifoDesc := fun l =>
    if l = mac.firEngineMacFifoDesc then (gs.map (fifoOf spec)).reverse
    else l.mergeSort fun a b => a.numFifoMemWords ≤ b.numFifoMemWords
  refine ⟨sort, fun l => ?_, hperm, ?_⟩
  · by_cases hl : l = mac.firEngineMacFifoDesc
    · simp only [sort, hl, if_true]
      constructor
      · rw [h.fifos]
        exact (List.reverse_perm _).trans (hperm.map _)
      · rw [List.pairwise_reverse, List.pairwise_map]
        rw [List.pairwise_map] at hdesc
        refine hdesc.imp ?_
        intro a b hab
        simpa [FirEngineMacFifoDesc.memWordsLessThan, fifoOf_words] using hab
    · simp only [sort, hl, if_false]
      refine ⟨List.mergeSort_perm _ _, ?_⟩
      have hsorted := @List.pairwise_mergeSort FirEngineMacFifoDesc
        (fun a b => decide (a.numFifoMemWords ≤ b.numFifoMemWords))
        (fun a b c hab hbc => by simpa using (of_decide_eq_true hab).trans (of_decide_eq_true hbc))
        (fun a b => by simpa using Nat.le_total a.numFifoMemWords b.numFifoMemWords) l
      refine hsorted.imp ?_
      intro a b hab
      simpa [FirEngineMacFifoDesc.memWordsLessThan] using hab
  · simp [sortFifosInDescendingSizeOrder, sort]

end Arrangement

section Checks

theorem fifoSizesFrom_depths {fifos : List FirEngineMacFifoDesc} {offset : Nat} {sizes : List Nat}
    (h : fifoSizesFrom offset fifos = .ok sizes) :
    ∀ fifo ∈ fifos, fifo.fifoDepth ≤ 64 ∧ ∃ o, fifoSizeWord o fifo.fifoDepth ∈ sizes := by
  induction fifos generalizing offset sizes with
  | nil => simp
  | cons fifo fifos ih =>
    rw [fifoSizesFrom, check_bind_eq_ok, Outcome.bind_eq_ok] at h
    obtain ⟨hdepth, rest, hrest, h⟩ := h
    cases h
    simp only [List.mem_cons, forall_eq_or_imp]
    refine ⟨⟨of_decide_eq_true hdepth, _, .inl rfl⟩, fun fifo' hfifo' => ?_⟩
    obtain ⟨hle, o, ho⟩ := ih hrest fifo' hfifo'
    exact ⟨hle, o, .inr ho⟩

theorem coeffValuesFrom_words {fifos : List FirEngineMacFifoDesc} {offset : Nat}
    {values out : List Nat} (h : coeffValuesFrom spec offset fifos values = .ok out) :
    ∀ fifo ∈ fifos, ∃ words, fifo.firCoeffRef.mapM (coeffWord spec) = .ok words := by
  induction fifos generalizing offset values with
  | nil => simp
  | cons fifo fifos ih =>
    obtain ⟨words, hwords, _, h⟩ := coeffValuesFrom_cons.mp h
    simp only [List.mem_cons, forall_eq_or_imp]
    exact ⟨⟨words, hwords⟩, ih h⟩

theorem fifoSizeWord_zero_ge (o : Nat) : 2 ^ 16 ≤ fifoSizeWord o 0 := by
  calc 2 ^ 16 ≤ (0 + 0xFFFFFFFF) % 2 ^ 32 := by decide
    _ ≤ fifoSizeWord o 0 := Nat.right_le_or

theorem coeffWord_eq_ok {f j v : Nat} (hf : f < spec.firSpec.length) (hj : j < spec.numCoeff f) :
    coeffWord spec ⟨some f, j⟩ = .ok v ↔ ∃ c, (spec.specOf f).coeff[j]? = some c ∧
      c ≤ 1 ∧ -1 < c ∧ v = coeffVal1p17 c := by
  have hspec : spec.firSpec[f]? = some (spec.specOf f) := by
    rw [FirEngineSpec.specOf, List.getD_eq_getElem?_getD, List.getElem?_eq_getElem hf,
      Option.getD_some]
  have hjlt : j < (spec.specOf f).coeff.length := hj
  have hcoeff : (spec.specOf f).coeff[j]? = some (spec.specOf f).coeff[j] :=
    List.getElem?_eq_getElem hjlt
  have hlookup : spec.lookupCoeff ⟨some f, j⟩ = .ok (spec.specOf f).coeff[j] := by
    simp only [FirEngineSpec.lookupCoeff, hspec, hcoeff]
    rfl
  rw [coeffWord, Outcome.bind_eq_ok, hcoeff]
  simp only [hlookup, Except.ok.injEq, check_bind_eq_ok, decide_eq_true_eq, Option.some.injEq]
  constructor
  · rintro ⟨c, rfl, hle, hgt, rfl⟩
    exact ⟨_, rfl, hle, hgt, rfl⟩
  · rintro ⟨c, rfl, hle, hgt, rfl⟩
    exact ⟨_, rfl, hle, hgt, rfl⟩

theorem coeffWords_eq_ok {f : Nat} (hf : f < spec.firSpec.length)
    (hr : ∀ c ∈ (spec.specOf f).coeff, -1 < c ∧ c ≤ 1) :
    (fifoOf spec f).firCoeffRef.mapM (coeffWord spec) = .ok (quantised spec f) := by
  rw [Outcome.mapM_eq_ok_iff, List.forall₂_iff_get]
  refine ⟨by simp [fifoOf, fifoFor, quantised], fun j h₁ h₂ => ?_⟩
  have hj : j < spec.numCoeff f := by simpa using h₂
  have hjlt : j < (spec.specOf f).coeff.length := hj
  have hmem : (spec.specOf f).coeff[j] ∈ (spec.specOf f).coeff := List.getElem_mem hjlt
  obtain ⟨hgt, hle⟩ := hr _ hmem
  simp only [fifoOf, fifoFor, List.get_eq_getElem, List.getElem_map, List.getElem_range,
    quantised]
  exact (coeffWord_eq_ok hf hj).mpr ⟨_, List.getElem?_eq_getElem hj, hle, hgt, rfl⟩

theorem sized_fifoOf {f : Nat} (hle : spec.numCoeff f ≤ 2 ^ 31) : Sized (fifoOf spec f) := by
  obtain ⟨i, hi, hroom, _⟩ := IntUtils.roundUpToPowerOfTwo_spec hle
  refine ⟨⟨i, hi⟩, ?_⟩
  change ((List.range (spec.numCoeff f)).map _).length ≤ IntUtils.roundUpToPowerOfTwo _
  rw [List.length_map, List.length_range]
  exact hi ▸ hroom

theorem InRange.sized {f : Nat} (h : InRange spec f) : Sized (fifoOf spec f) :=
  sized_fifoOf (h.le.trans (by decide))

theorem InRange.le_memWords {f : Nat} (h : InRange spec f) :
    spec.numCoeff f ≤ memWordsFor (quantised spec f) := by
  have hroom := h.sized.room
  rw [fifoOf_words] at hroom
  simpa [fifoOf, fifoFor, FirEngineSpec.specOf, FirEngineSpec.numCoeff] using hroom

theorem InRange.isPowerOfTwo {f : Nat} (h : InRange spec f) :
    0 < (fifoOf spec f).numFifoMemWords ∧
      IntUtils.isPowerOfTwo (fifoOf spec f).numFifoMemWords = true :=
  ⟨h.sized.pos, IntUtils.isPowerOfTwo_roundUpToPowerOfTwo (h.le.trans (by decide))⟩

theorem Arranged.sized (harr : Arranged spec mac sort gs)
    (hr : ∀ f ∈ mac.inputFirs, InRange spec f) :
    ∀ fifo ∈ gs.map (fifoOf spec), Sized fifo := by
  intro fifo hfifo
  obtain ⟨f, hf, rfl⟩ := List.mem_map.mp hfifo
  exact (hr f (harr.perm.mem_iff.mp hf)).sized

theorem memWordsFor_of_one {f : Nat} (h : spec.numCoeff f = 1) :
    memWordsFor (quantised spec f) = 1 := by
  rw [memWordsFor, length_quantised, h]
  decide

theorem memWordsFor_le {f : Nat} (h : InRange spec f) : memWordsFor (quantised spec f) ≤ 64 := by
  rw [memWordsFor, length_quantised]
  exact IntUtils.roundUpToPowerOfTwo_le (k := 6) (h.le.trans (by decide)) h.le

theorem memWords_map (gs : List Nat) :
    memWords (gs.map (fifoOf spec)) = gs.map fun f => memWordsFor (quantised spec f) := by
  simp [memWords, fifoOf_words]

theorem memWords_sum_le {fifos : List FirEngineMacFifoDesc} {b : Nat}
    (h : ∀ fifo ∈ fifos, fifo.numFifoMemWords ≤ b) : (memWords fifos).sum ≤ fifos.length * b := by
  have hle : ∀ w ∈ memWords fifos, w ≤ b := by
    intro w hw
    obtain ⟨fifo, hfifo, rfl⟩ := List.mem_map.mp hw
    exact h fifo hfifo
  simpa [memWords] using List.sum_le_card_nsmul _ b hle

theorem Arranged.finish_eq (harr : Arranged spec mac sort gs)
    (hr : ∀ f ∈ mac.inputFirs, InRange spec f)
    (hdesc : (gs.map (quantised spec)).Pairwise fun a b => memWordsFor b ≤ memWordsFor a) :
    finish 0 (memWords (gs.map (fifoOf spec))) = (memWords (gs.map (fifoOf spec))).sum := by
  have hsorted : (memWords (gs.map (fifoOf spec))).Pairwise fun a b => b ≤ a := by
    rw [memWords_map, List.pairwise_map]
    rwa [List.pairwise_map] at hdesc
  have hdvd := pairwise_dvd_of_descending (memWords_pow (harr.sized hr)) hsorted
  rw [finish_of_dvd (memWords_pos (harr.sized hr)) (fun w _ => Nat.dvd_zero w) hdvd, Nat.zero_add]

theorem Arranged.finish_le (harr : Arranged spec mac sort gs) (hinv : MacInv spec T mac)
    (hr : ∀ f ∈ mac.inputFirs, InRange spec f)
    (hdesc : (gs.map (quantised spec)).Pairwise fun a b => memWordsFor b ≤ memWordsFor a) :
    finish 0 (memWords (gs.map (fifoOf spec))) ≤ 15 * 64 := by
  have hlen : gs.length ≤ 15 := harr.perm.length_eq ▸ hinv.inputs_le
  have hsum : (memWords (gs.map (fifoOf spec))).sum ≤ (gs.map (fifoOf spec)).length * 64 := by
    refine memWords_sum_le fun fifo hfifo => ?_
    obtain ⟨f, hf, rfl⟩ := List.mem_map.mp hfifo
    rw [fifoOf_words]
    exact memWordsFor_le (hr f (harr.perm.mem_iff.mp hf))
  rw [List.length_map] at hsum
  rw [harr.finish_eq hr hdesc]
  omega

end Checks

section Index

theorem MacInv.index (h : MacInv spec T mac) {f : Nat} (hf : f ∈ mac.inputFirs) :
    ∃ k, mac.inputFirs[k]? = some f ∧ k < 15 ∧ mac.findInputIndexForFirIndex f = .ok k ∧
      mac.findFifoIndexForFirIndex f = .ok k :=
  index_of_mem (by simp [h.fifos, fifoFor, Function.comp_def]) h.inputs_le hf

theorem lookupOr_ok (unused : Nat) {find : Nat → Except Fault Nat}
    (hfind : ∀ f ∈ mac.inputFirs, ∃ k, find f = .ok k ∧ k < 15) {o : Option Nat}
    (ho : ∀ f, o = some f → f ∈ mac.inputFirs) :
    ∃ v, lookupOr unused find o = .ok v ∧ (v = unused ∨ v < 15) := by
  cases o with
  | none => exact ⟨unused, rfl, .inl rfl⟩
  | some f =>
    obtain ⟨k, hk, hlt⟩ := hfind f (ho f rfl)
    exact ⟨k, hk, .inr hlt⟩

theorem MacInv.slot_mem (h : MacInv spec T mac) {s : FirUpdateSlot} (hs : s ∈ mac.firUpdateSlot)
    {f : Nat} (hf : s.firIndex = some f) : f ∈ mac.inputFirs := by
  obtain ⟨t, ht⟩ := List.getElem?_of_mem hs
  have : s = ⟨some f⟩ := by rw [← hf]
  exact h.slot_owner (this ▸ ht)

theorem MacInv.ref_mem (h : MacInv spec T mac) {r : FirCoeffRef} (hr : r ∈ mac.firCoeffRef)
    {f : Nat} (hf : r.firIndex = some f) : f ∈ mac.inputFirs := by
  obtain ⟨t, ht⟩ := List.getElem?_of_mem hr
  have : r = ⟨some f, r.coeffIndex⟩ := by rw [← hf]
  exact h.ref_owner (this ▸ ht)

end Index

section Rendered

theorem renderable_of_generated (hb : BuiltMac spec T mac) (hsort : IsSort sort)
    (hgen : Generated sort spec mac p) : Renderable spec T mac := by
  obtain ⟨gs, harr, _⟩ := hb.inv.arranged hsort
  have hsizes := hgen.fifoSizes
  have hcoeffs := hgen.coeffValues
  rw [establishFifoSizes, harr.fifos] at hsizes
  rw [establishCoeffValues, harr.fifos] at hcoeffs
  refine ⟨?_, fun f hf => ?_⟩
  · rw [← hb.inv.refs_length]
    exact hgen.timeSlots_le
  · have hmem : fifoOf spec f ∈ gs.map (fifoOf spec) :=
      List.mem_map_of_mem (harr.perm.mem_iff.mpr hf)
    obtain ⟨hle, o, ho⟩ := fifoSizesFrom_depths hsizes _ hmem
    rw [fifoOf_depth] at hle ho
    refine ⟨?_, hle, fun c hc => ?_⟩
    · by_contra hlt
      have hzero : spec.numCoeff f = 0 := by omega
      rw [hzero] at ho
      exact absurd (hgen.render_fifoSizes _ ho) (Nat.not_lt.mpr (fifoSizeWord_zero_ge o))
    · obtain ⟨words, hwords⟩ := coeffValuesFrom_words hcoeffs _ hmem
      obtain ⟨j, hj⟩ := List.getElem?_of_mem hc
      have hjlt : j < spec.numCoeff f := (List.getElem?_eq_some_iff.mp hj).1
      obtain ⟨v, _, hv⟩ := Outcome.getElem?_of_mapM hwords (fifoOf_ref hjlt)
      obtain ⟨c', hc', hle', hgt', _⟩ := (coeffWord_eq_ok (hb.bound f hf) hjlt).mp hv
      rw [hj, Option.some.injEq] at hc'
      exact hc' ▸ ⟨hgt', hle'⟩

theorem coeffVal1p17_lt (c : ℚ) : coeffVal1p17 c < 2 ^ 18 := by
  have := Int.emod_lt_of_pos (truncate (c * 2 ^ 17)) (by decide : (0 : Int) < 2 ^ 18)
  rw [coeffVal1p17]
  omega

theorem Arranged.sizes_eq_ok (harr : Arranged spec mac sort gs)
    (hr : ∀ f ∈ mac.inputFirs, InRange spec f) :
    fifoSizesFrom 0 (gs.map (fifoOf spec)) =
      .ok (List.zipWith fifoSizeWord (starts 0 (memWords (gs.map (fifoOf spec))))
        ((gs.map (fifoOf spec)).map (·.fifoDepth))) := by
  refine (fifoSizesFrom_eq_ok (harr.sized hr)).mpr ⟨fun fifo hfifo => ?_, rfl⟩
  obtain ⟨f, hf, rfl⟩ := List.mem_map.mp hfifo
  exact (hr f (harr.perm.mem_iff.mp hf)).le

theorem Arranged.render_sizes (harr : Arranged spec mac sort gs) (hinv : MacInv spec T mac)
    (hr : ∀ f ∈ mac.inputFirs, InRange spec f)
    (hdesc : (gs.map (quantised spec)).Pairwise fun a b => memWordsFor b ≤ memWordsFor a) :
    ∀ v ∈ List.zipWith fifoSizeWord (starts 0 (memWords (gs.map (fifoOf spec))))
      ((gs.map (fifoOf spec)).map (·.fifoDepth)), v < 2 ^ 16 := by
  intro v hv
  obtain ⟨k, hk⟩ := List.getElem?_of_mem hv
  obtain ⟨o, n, ho, hn, rfl⟩ := List.getElem?_zipWith_eq_some.mp hk
  rw [List.getElem?_map] at hn
  obtain ⟨fifo, hfifo, rfl⟩ := Option.map_eq_some_iff.mp hn
  obtain ⟨f, hf, rfl⟩ := List.mem_map.mp (List.mem_of_getElem? hfifo)
  have hrange := hr f (harr.perm.mem_iff.mp hf)
  have hpos := hrange.pos
  have hle := hrange.le
  have hstart := start_spec (memWords_pos (harr.sized hr)) ho (getElem?_memWords hfifo)
  have hfinish := harr.finish_le hinv hr hdesc
  rw [fifoOf_depth, fifoSizeWord_eq hpos hle]
  omega

theorem Arranged.coeffs_eq_ok (harr : Arranged spec mac sort gs) (hb : BuiltMac spec T mac)
    (hr : ∀ f ∈ mac.inputFirs, InRange spec f) :
    ∃ coeffs, coeffValuesFrom spec 0 (gs.map (fifoOf spec)) [] = .ok coeffs ∧
      ∀ v ∈ coeffs, v < 2 ^ 24 := by
  refine coeffValuesFrom_ok (by decide) (fun fifo hfifo => ?_) (by simp)
  obtain ⟨f, hf, rfl⟩ := List.mem_map.mp hfifo
  have hmem := harr.perm.mem_iff.mp hf
  have hwords := coeffWords_eq_ok (hb.bound f hmem) (hr f hmem).coeff
  have hroom := (harr.sized hr _ hfifo).room
  rw [← Outcome.length_of_mapM hwords] at hroom
  refine ⟨_, hwords, hroom, fun w hw => ?_⟩
  obtain ⟨c, _, rfl⟩ := List.mem_map.mp hw
  exact (coeffVal1p17_lt c).trans (by decide)

theorem exists_generated (hb : BuiltMac spec T mac) (hsort : IsSort sort)
    (hr : Renderable spec T mac) : ∃ p, generateRtl sort spec mac = .ok p := by
  obtain ⟨gs, harr, hdesc⟩ := hb.inv.arranged hsort
  have hinput : ∀ f ∈ mac.inputFirs, ∃ k, mac.findInputIndexForFirIndex f = .ok k ∧ k < 15 :=
    fun f hf => by
      obtain ⟨k, _, hlt, hk, _⟩ := hb.inv.index hf
      exact ⟨k, hk, hlt⟩
  have hfifo : ∀ f ∈ mac.inputFirs, ∃ k, mac.findFifoIndexForFirIndex f = .ok k ∧ k < 15 :=
    fun f hf => by
      obtain ⟨k, _, hlt, _, hk⟩ := hb.inv.index hf
      exact ⟨k, hk, hlt⟩
  obtain ⟨channels, hchannels, hch⟩ := Outcome.exists_mapM_eq_ok fun s hs =>
    lookupOr_ok 0xF hinput fun f hf => hb.inv.slot_mem hs hf
  obtain ⟨rds, hrds, hrd⟩ := Outcome.exists_mapM_eq_ok fun r hr =>
    lookupOr_ok 0 hfifo fun f hf => hb.inv.ref_mem hr hf
  obtain ⟨updates, hupdates, hup⟩ := Outcome.exists_mapM_eq_ok fun s hs =>
    lookupOr_ok 0 hfifo fun f hf => hb.inv.slot_mem hs hf
  obtain ⟨coeffs, hcoeffs, hcv⟩ := harr.coeffs_eq_ok hb hr.firs
  have hfinish := harr.finish_le hb.inv hr.firs hdesc
  have hlen := (coeffValuesFrom_spec (harr.sized hr.firs) List.length_nil hcoeffs).length
  refine ⟨mac.rtlParameters (mac.sortFifosInDescendingSizeOrder sort).getNumFifos channels rds
    updates _ coeffs, generateRtl_eq_ok.mpr {
    channelSelect := hchannels, rdFifoNum := hrds, updateFifoNum := hupdates
    fifoSizes := by rw [establishFifoSizes, harr.fifos]; exact harr.sizes_eq_ok hr.firs
    coeffValues := by rw [establishCoeffValues, harr.fifos]; exact hcoeffs
    coeffValues_le := by change coeffs.length ≤ 1024; omega
    numFifos_le := ?_, timeSlots_le := ?_
    render_channelSelect := fun v hv => by rcases hch v hv with rfl | h <;> omega
    render_rdFifoNum := fun v hv => by rcases hrd v hv with rfl | h <;> omega
    render_updateFifoNum := fun v hv => by rcases hup v hv with rfl | h <;> omega
    render_fifoSizes := harr.render_sizes hb.inv hr.firs hdesc
    render_coeffValues := hcv
    result := rfl }⟩
  · have := hb.inv.inputs_le
    rw [getNumFifos, harr.fifos, List.length_map, harr.perm.length_eq]
    omega
  · rw [getNumTimeSlots, hb.inv.refs_length]
    exact hr.timeSlots

structure Entry (spec : FirEngineSpec) (p : RtlParameters) (k g o : Nat) : Prop where
  size : p.fifoSizes[k]? = some (o * 64 + (spec.numCoeff g - 1))
  aligned : memWordsFor (quantised spec g) ∣ o
  fits : o + memWordsFor (quantised spec g) ≤ p.coeffValues.length
  coeff : ∀ j c : Nat, (quantised spec g)[j]? = some c → p.coeffValues[o + j]? = some c

theorem Arranged.entry (harr : Arranged spec mac sort gs) (hb : BuiltMac spec T mac)
    (hr : ∀ f ∈ mac.inputFirs, InRange spec f) (hgen : Generated sort spec mac p) {k g : Nat}
    (hk : gs[k]? = some g) :
    ∃ o, (starts 0 (memWords (gs.map (fifoOf spec))))[k]? = some o ∧ Entry spec p k g o := by
  have hg := harr.perm.mem_iff.mp (List.mem_of_getElem? hk)
  have hsized := harr.sized hr
  have hsizes := hgen.fifoSizes
  have hcoeffs := hgen.coeffValues
  rw [establishFifoSizes, harr.fifos, fifoSizesFrom_eq_ok hsized] at hsizes
  rw [establishCoeffValues, harr.fifos] at hcoeffs
  have hfilled := coeffValuesFrom_spec hsized List.length_nil hcoeffs
  have hfifo : (gs.map (fifoOf spec))[k]? = some (fifoOf spec g) := by
    rw [List.getElem?_map, hk]
    rfl
  have hwords : (memWords (gs.map (fifoOf spec)))[k]? =
      some (memWordsFor (quantised spec g)) := by
    rw [getElem?_memWords hfifo, fifoOf_words]
  have hklt : k < (memWords (gs.map (fifoOf spec))).length :=
    (List.getElem?_eq_some_iff.mp hwords).1
  obtain ⟨o, ho⟩ : ∃ o, (starts 0 (memWords (gs.map (fifoOf spec))))[k]? = some o :=
    ⟨_, List.getElem?_eq_getElem (by rwa [length_starts])⟩
  obtain ⟨_, hdvd, hend⟩ := start_spec (memWords_pos hsized) ho hwords
  refine ⟨o, ho, ?_, hdvd, by rwa [hfilled.length], fun j c hc => ?_⟩
  · rw [hsizes.2]
    have hdepth : ((gs.map (fifoOf spec)).map (·.fifoDepth))[k]? = some (spec.numCoeff g) := by
      rw [List.getElem?_map, hfifo]
      rfl
    rw [List.getElem?_zipWith_eq_some]
    exact ⟨o, _, ho, hdepth, fifoSizeWord_eq (hr g hg).pos (hr g hg).le⟩
  · have hj : j < spec.numCoeff g := by
      rw [← length_quantised]
      exact (List.getElem?_eq_some_iff.mp hc).1
    obtain ⟨v, hv, hout⟩ := hfilled.written k o j _ _ hfifo ho (fifoOf_ref hj)
    obtain ⟨c', hc', _, _, rfl⟩ := (coeffWord_eq_ok (hb.bound g hg) hj).mp hv
    rw [quantised, List.getElem?_map, hc', Option.map_some, Option.some.injEq] at hc
    rw [hout, hc]

end Rendered

end FirEngine
