import EmbeddedProjects.FirEngine.DataMemory
import EmbeddedProjects.FirEngine.SpecLines

namespace FirEngine

open FirEngineDesc FirEngineMacDesc SpecLines

structure SoundFifoWord (offset fifoDepth w : Nat) : Prop where
  range : w < 2 ^ 16
  upper : w / 2 ^ 6 = offset
  lower : w % 2 ^ 6 + 1 = fifoDepth

structure SoundFifoWords (sort : List FirEngineMacFifoDesc → List FirEngineMacFifoDesc)
    (spec : FirEngineSpec) (mac : FirEngineMacDesc) : Prop where
  sizes : ∃ sizes, (mac.sortFifosInDescendingSizeOrder sort).establishFifoSizes = .ok sizes ∧
    ∀ (k : Nat) (fifo : FirEngineMacFifoDesc),
      (mac.sortFifosInDescendingSizeOrder sort).firEngineMacFifoDesc[k]? = some fifo →
      ∃ o w, (mac.sortFifosInDescendingSizeOrder sort).fifoOffsets[k]? = some o ∧
        sizes[k]? = some w ∧ SoundFifoWord o fifo.fifoDepth w
  memory : (mac.sortFifosInDescendingSizeOrder sort).memWordsTotal ≤ 1024
  coeffValues : ∀ values,
    (mac.sortFifosInDescendingSizeOrder sort).establishCoeffValues spec = .ok values →
      values.length ≤ 1024

variable {sort : List FirEngineMacFifoDesc → List FirEngineMacFifoDesc} {spec : FirEngineSpec}
  {mac : FirEngineMacDesc} {d : FirEngineDesc} {T : Nat}

theorem soundFifoWord_fifoSizeWord {offset fifoDepth : Nat} (hpos : 1 ≤ fifoDepth)
    (hle : fifoDepth ≤ 64) (hoffset : offset < 2 ^ 10) :
    SoundFifoWord offset fifoDepth (fifoSizeWord offset fifoDepth) := by
  rw [fifoSizeWord_eq hpos hle]
  exact ⟨by omega, by omega, by omega⟩

section Sound

variable (hsort : IsSort sort) (hlen : mac.firEngineMacFifoDesc.length ≤ 15)
  (hwell : ∀ fifo ∈ mac.firEngineMacFifoDesc, WellSized fifo)
  (hdepth : ∀ fifo ∈ mac.firEngineMacFifoDesc, 1 ≤ fifo.fifoDepth ∧ fifo.fifoDepth ≤ 64)

include hsort hlen hwell hdepth

theorem memWordsTotal_sorted_le :
    (mac.sortFifosInDescendingSizeOrder sort).memWordsTotal ≤ 15 * 64 := by
  have hsum : (memWords (mac.sortFifosInDescendingSizeOrder sort).firEngineMacFifoDesc).sum ≤
      (mac.sortFifosInDescendingSizeOrder sort).firEngineMacFifoDesc.length * 64 := by
    refine memWords_sum_le fun fifo hfifo => ?_
    have hfifo' := (mem_sorted hsort).mp hfifo
    have hle := (hdepth fifo hfifo').2
    rw [(hwell fifo hfifo').words]
    exact IntUtils.roundUpToPowerOfTwo_le (k := 6) (hle.trans (by decide)) hle
  rw [length_sorted hsort] at hsum
  rw [memWordsTotal]
  omega

theorem soundFifoWords : SoundFifoWords sort spec mac := by
  have hwell' : ∀ fifo ∈ (mac.sortFifosInDescendingSizeOrder sort).firEngineMacFifoDesc,
      WellSized fifo := fun fifo hfifo => hwell fifo ((mem_sorted hsort).mp hfifo)
  have hpow := powersOfTwo_of_wellSized hwell'
  have hdvd := memWords_dvd_sorted hsort hpow
  have hpacked := packed_starts hpow hdvd
  have htotal := memWordsTotal_sorted_le hsort hlen hwell hdepth
  refine ⟨⟨_, fifoSizesFrom_offsets.mpr ⟨fun fifo hfifo =>
    (hdepth fifo ((mem_sorted hsort).mp hfifo)).2, rfl⟩, fun k fifo hk => ?_⟩,
    htotal.trans (by decide), fun values hvalues => ?_⟩
  · have hklt : k < (fifoOffsetsFrom 0
        (mac.sortFifosInDescendingSizeOrder sort).firEngineMacFifoDesc).length := by
      rw [hpacked.length]
      exact (List.getElem?_eq_some_iff.mp hk).1
    obtain ⟨hpos, hle⟩ := hdepth fifo ((mem_sorted hsort).mp (List.mem_of_getElem? hk))
    have ho := List.getElem?_eq_getElem hklt
    have hoffset := hpacked.tight k _ ho
    have htake : (memWords ((mac.sortFifosInDescendingSizeOrder sort).firEngineMacFifoDesc.take
        k)).sum ≤ (mac.sortFifosInDescendingSizeOrder sort).memWordsTotal := by
      rw [memWordsTotal, memWords, memWords, List.map_take]
      exact (List.take_sublist k _).sum_le_sum fun w _ => Nat.zero_le w
    refine ⟨_, _, ho, ?_, soundFifoWord_fifoSizeWord hpos hle (by omega)⟩
    rw [List.getElem?_zipWith, ho, List.getElem?_map, hk]
    rfl
  · have hsized : ∀ fifo ∈ (mac.sortFifosInDescendingSizeOrder sort).firEngineMacFifoDesc,
        Sized fifo := fun fifo hfifo =>
      ⟨(hwell' fifo hfifo).pow, room_of_coeffValuesFrom hvalues fifo hfifo⟩
    rw [(holdsCoeffs_of_ok hsized hdvd hvalues).length]
    exact htotal.trans (by decide)

end Sound

theorem SoundFifoWords.depth (hsort : IsSort sort) (h : SoundFifoWords sort spec mac)
    {fifo : FirEngineMacFifoDesc} (hfifo : fifo ∈ mac.firEngineMacFifoDesc) :
    1 ≤ fifo.fifoDepth ∧ fifo.fifoDepth ≤ 64 := by
  obtain ⟨sizes, hsizes, hwords⟩ := h.sizes
  have hmem := (mem_sorted hsort).mpr hfifo
  obtain ⟨k, hk⟩ := List.getElem?_of_mem hmem
  obtain ⟨o, w, _, _, hsound⟩ := hwords k fifo hk
  have hlower := hsound.lower
  exact ⟨by omega, (fifoSizesFrom_offsets.mp hsizes).1 fifo hmem⟩

theorem fifo_words_sound_iff (sort : List FirEngineMacFifoDesc → List FirEngineMacFifoDesc)
    (hsort : IsSort sort) (spec : FirEngineSpec) (T : Nat) (d : FirEngineDesc)
    (h : buildFirEngine spec T = .ok d) :
    (∀ mac ∈ d.firEngineMacDesc, SoundFifoWords sort spec mac) ↔
      ∀ firSpec ∈ spec.firSpec, 1 ≤ firSpec.coeff.length ∧ firSpec.coeff.length ≤ 64 := by
  have hinv := inv_bindFirs h
  constructor
  · intro hsound firSpec hfirSpec
    obtain ⟨f, hf⟩ := List.getElem?_of_mem hfirSpec
    obtain ⟨m, mac, hm, hmem⟩ := hinv.cover f (List.getElem?_eq_some_iff.mp hf).1
    have hfifo : fifoOf spec f ∈ mac.firEngineMacFifoDesc := by
      rw [(hinv.mac hm).fifos]
      exact List.mem_map_of_mem hmem
    have hdepth := (hsound mac (List.mem_of_getElem? hm)).depth hsort hfifo
    rwa [fifoOf_depth, FirEngineSpec.numCoeff, List.getD_eq_getElem?_getD, hf] at hdepth
  · intro hcoeff mac hmac
    obtain ⟨hmacInv, hbound⟩ := builtMac_of_buildFirEngine h hmac
    have hfifos : ∀ fifo ∈ mac.firEngineMacFifoDesc, ∃ f ∈ mac.inputFirs, fifo = fifoOf spec f := by
      intro fifo hfifo
      rw [hmacInv.fifos] at hfifo
      obtain ⟨f, hf, rfl⟩ := List.mem_map.mp hfifo
      exact ⟨f, hf, rfl⟩
    have hdepth : ∀ fifo ∈ mac.firEngineMacFifoDesc, 1 ≤ fifo.fifoDepth ∧ fifo.fifoDepth ≤ 64 := by
      intro fifo hfifo
      obtain ⟨f, hf, rfl⟩ := hfifos fifo hfifo
      rw [fifoOf_depth, FirEngineSpec.numCoeff, List.getD_eq_getElem?_getD,
        List.getElem?_eq_getElem (hbound f hf)]
      exact hcoeff _ (List.getElem_mem _)
    refine soundFifoWords hsort ?_ (fun fifo hfifo => ?_) hdepth
    · rw [hmacInv.fifos, List.length_map]
      exact hmacInv.inputs_le
    · have hle := (hdepth fifo hfifo).2
      obtain ⟨f, _, rfl⟩ := hfifos fifo hfifo
      exact ⟨rfl, hle.trans (by decide)⟩

theorem fifo_words_sound_iff_two_firs :
    (∀ mac ∈ twoFirDesc.firEngineMacDesc,
        SoundFifoWords insertionSortByMemWords twoFirSpec mac) ↔
      ∀ firSpec ∈ twoFirSpec.firSpec, 1 ≤ firSpec.coeff.length ∧ firSpec.coeff.length ≤ 64 :=
  fifo_words_sound_iff _ isSort_insertionSortByMemWords twoFirSpec 8 _ (by decide +kernel)

theorem skipped_fir_word_too_wide : ∃ spec d,
    FirEngineSpec.readFromFile (fun _ => 1 / 2) { clockFreq := 16000000 }
      (fresh "FIR[1].sampleRate=8000000;\nFIR[1].coeff=[.5];\n".toList) = .ok spec ∧
    buildFirEngine spec 2 = .ok d ∧
    ¬ ∀ mac ∈ d.firEngineMacDesc, SoundFifoWords insertionSortByMemWords spec mac := by
  let spec : FirEngineSpec := ⟨16000000, [{}, ⟨8000000, [1 / 2]⟩]⟩
  have hbuild : Outcome.okAnd (buildFirEngine spec 2) (fun _ => true) = true := by decide +kernel
  obtain ⟨d, hd, _⟩ := Outcome.exists_of_okAnd hbuild
  refine ⟨spec, d, by decide +kernel, hd, fun hsound => ?_⟩
  have hcoeff := (fifo_words_sound_iff _ isSort_insertionSortByMemWords spec 2 d hd).mp hsound {}
    List.mem_cons_self
  exact absurd hcoeff.1 (by decide)

end FirEngine
