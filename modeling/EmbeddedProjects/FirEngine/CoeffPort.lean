import EmbeddedProjects.FirEngine.Filter

namespace FirEngine

open FirEngineDesc FirEngineMacDesc Rtl

variable {δ : Type}

theorem regions_apart {spec : FirEngineSpec} {T i l f g j j' : Nat} {mac : FirEngineMacDesc}
    {sort : List FirEngineMacFifoDesc → List FirEngineMacFifoDesc} {R : Run δ}
    (hb : BuiltMac spec T mac) (hsort : IsSort sort) (hgen : Generated sort spec mac R.p)
    (hi : OwnRegion spec mac sort R i f) (hl : OwnRegion spec mac sort R l g)
    (hf : f ∈ mac.inputFirs) (hg : g ∈ mac.inputFirs) (hne : l ≠ i)
    (hj : j < spec.numCoeff f) (hj' : j' < spec.numCoeff g) :
    R.p.regionOf l + j' ≠ R.p.regionOf i + j := by
  have hrange := (renderable_of_generated hb hsort hgen).firs
  obtain ⟨gs, harr, _⟩ := hb.inv.arranged hsort
  have hroom := (hrange f hf).le_memWords
  have hroom' := (hrange g hg).le_memWords
  rcases separate_reservedRanges harr hrange l i _ _ hne hl.range hi.range with hbelow | habove
  · change R.p.regionOf l + _ ≤ R.p.regionOf i at hbelow
    omega
  · change R.p.regionOf i + _ ≤ R.p.regionOf l at habove
    omega

theorem port_programs_filter (spec : FirEngineSpec) (T : Nat) (d : FirEngineDesc)
    (h : buildFirEngine spec T = .ok d) (mac : FirEngineMacDesc) (hmac : mac ∈ d.firEngineMacDesc)
    (sort : List FirEngineMacFifoDesc → List FirEngineMacFifoDesc) (hsort : IsSort sort)
    (R : Run δ) (lag : Nat) (hlag : lag ≤ 1) (hdsp : MulAccumulates lag R.dsp)
    (hp : generateRtl sort spec mac = .ok R.p)
    (hslices : R.p.timeSlices = 2 ^ R.p.log2TimeSlices) (hon : PowerOn R.p R.s₀) (r : Nat)
    (hr : 2 ≤ r) (hreset : ResetFor r R.env) (hpaced : ∀ f ∈ mac.inputFirs, Paced spec T f)
    (horder : FifosInSizeOrder spec mac) (f i : Nat) (hi : mac.inputFirs[i]? = some f)
    (hidle : (R.state (r + 3)).inputLatch.changedPs1 i =
      (R.state (r + 3)).channels.prevChanged i)
    (hsender : Run.Announces R i
      (roundedInterval T spec.clockFreq (spec.specOf f).sampleFreq) (r + 3))
    (u : Nat) (hfirst : spec.numCoeff f ≤ u + 1)
    (hslot : mac.firUpdateSlot[R.slot u]? = some ⟨some f⟩) :
    (∃ samples rest, Toggle.collect (fun j => R.announcedAt i (r + 3 + j)) (u - 1) =
        samples ++ rest ∧ rest.length ≤ 1 ∧
      (rest ≠ [] → ∃ k < u - 1,
        u - 1 ≤ k + roundedInterval T spec.clockFreq (spec.specOf f).sampleFreq ∧
        (R.announcedAt i (r + 3 + k)).isSome) ∧
      (R.state (r + u + 11)).dataOutputs.oData i =
        wordsFilter (laggedWords lag ((List.range (spec.numCoeff f)).map fun j =>
            R.programmed spec f i j (r + (u + 1 - spec.numCoeff f + j) + 4))
          (R.state (r + u + 7)).coefBuff.rddata) samples) ∧
    ∀ l g, l ≠ i → mac.inputFirs[l]? = some g → ∀ j < spec.numCoeff f, ∀ j' < spec.numCoeff g,
      R.p.regionOf l + j' ≠ R.p.regionOf i + j := by
  have hregion : ∀ l g, mac.inputFirs[l]? = some g → OwnRegion spec mac sort R l g :=
    fun l g hl => ownRegion_of_paced spec T d h mac hmac sort hsort R hp hslices hon r hr hreset
      hpaced horder hl
  obtain ⟨rest, hcollect, hlen, hlast⟩ := collect_announced spec T d h mac hmac sort hsort R hp
    hslices r hr hreset hpaced f i hi hidle hsender u hfirst
  refine ⟨⟨R.samples i (r + u + 4), rest, hcollect, hlen, hlast, ?_⟩,
    fun l g hne hl j hj j' hj' => ?_⟩
  · exact paced_mac_multiplies spec T d h mac hmac sort hsort R hlag hdsp hp hslices hon r hr hreset
      hpaced horder f i u hfirst hslot hi
  · exact regions_apart (builtMac_of_buildFirEngine h hmac) hsort (generateRtl_eq_ok.mp hp)
      (hregion i f hi) (hregion l g hl) (List.mem_of_getElem? hi) (List.mem_of_getElem? hl) hne
      hj hj'

def programmedRun : Run DspRegs :=
  { pacedRun with
    env := fun k => { pacedRun.env k with
      iCoefBuffWren := decide (k = 12)
      iCoefBuffWraddr := 1
      iCoefBuffWrdata := 4660 } }

theorem port_programs_filter_programmedRun :
    (programmedRun.state 29).dataOutputs.oData 0 ≠ (pacedRun.state 29).dataOutputs.oData 0 ∧
    (∃ samples rest, Toggle.collect (fun j => programmedRun.announcedAt 0 (2 + 3 + j)) (16 - 1) =
        samples ++ rest ∧ rest.length ≤ 1 ∧
      (programmedRun.state (2 + 16 + 11)).dataOutputs.oData 0 =
        wordsFilter (laggedWords 1 ((List.range (pacedSpec.numCoeff 0)).map fun j =>
            programmedRun.programmed pacedSpec 0 0 j (2 + (16 + 1 - pacedSpec.numCoeff 0 + j) + 4))
          (programmedRun.state (2 + 16 + 7)).coefBuff.rddata) samples) ∧
      programmedRun.programmed pacedSpec 0 0 1 (2 + (16 + 1 - pacedSpec.numCoeff 0 + 1) + 4) =
        4660 := by
  obtain ⟨d, mac, hd, hmac, hfirs, hslot, hp⟩ := generated_pacedSpec
  obtain ⟨⟨samples, rest, hcollect, hlen, _, hword⟩, _⟩ := port_programs_filter pacedSpec 8 d hd
    mac hmac insertionSortByMemWords isSort_insertionSortByMemWords programmedRun 1 le_rfl
    (mulAccumulates_dsp48e2 (.inl rfl)) hp rfl (powerOn_zeroState _ _) 2 le_rfl (fun _ => rfl)
    (paced_pacedSpec hfirs)
    (by rw [FifosInSizeOrder, hfirs]; exact List.pairwise_singleton _ _) 0 0
    (by rw [hfirs]; rfl) (by decide +kernel)
    (TwoSamples.announces (a := 6) ⟨fun _ => rfl, fun _ => rfl⟩ (by decide)) 16 (by decide)
    hslot
  exact ⟨by decide +kernel, ⟨samples, rest, hcollect, hlen, hword⟩, by decide +kernel⟩

end FirEngine
