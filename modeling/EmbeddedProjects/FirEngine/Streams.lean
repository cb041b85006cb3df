import EmbeddedProjects.FirEngine.Filter

namespace FirEngine

open FirEngineDesc FirEngineMacDesc Rtl

variable {δ : Type}

namespace Rtl.Run

def receivedAt (R : Run δ) (i k : Nat) : Option (BitVec 18) :=
  if (R.state k).dataOutputs.oDataChanged i != (R.state (k - 1)).dataOutputs.oDataChanged i then
    some ((R.state k).dataOutputs.oData i)
  else none

variable {R : Run δ} {i r G : Nat}

theorem receivedAt_before (hrel : Released r R.env) {j : Nat} (hj : j < 7) :
    R.receivedAt i (r + 1 + j) = none := by
  have hsame := oDataChanged_before (i := i) hrel hj
  have hindex : r + 1 + j = r + j + 1 := by omega
  rw [receivedAt, hindex, Nat.add_sub_cancel, hsame]
  simp

theorem receivedAt_add (hrel : Released r R.env) (hi : i < R.p.numOutputs) (j : Nat) :
    R.receivedAt i (r + j + 8) =
      (R.committedAt i (r + j)).map fun _ => (R.state (r + j + 8)).dataOutputs.oData i := by
  have hflip := oDataChanged_add hrel hi j
  have hindex : r + j + 8 - 1 = r + j + 7 := by omega
  rw [receivedAt, hindex]
  cases hcommit : R.committedAt i (r + j) with
  | none =>
    rw [hcommit] at hflip
    have hsame := not_not.mp (mt hflip.mp (by simp))
    rw [hsame]
    simp
  | some v =>
    rw [hcommit] at hflip
    have hne := hflip.mpr rfl
    rw [if_pos (by simpa using hne)]
    rfl

theorem delivers_iff (hw : HandshakeWords R.p) (hslots : ChannelSlots R.p i G)
    (hrel : Released r R.env) (hi : i < R.p.numOutputs) (a : Nat) :
    R.Delivers i (r + a + 10) ↔ Selects R.p i a := by
  rw [Delivers, channelSelPs9_add hrel, slot, fieldAt_channelSelect hw hslots]
  exact and_iff_left hi

end Rtl.Run

section Stream

variable {spec : FirEngineSpec} {T : Nat} {d : FirEngineDesc} {mac : FirEngineMacDesc}
  {sort : List FirEngineMacFifoDesc → List FirEngineMacFifoDesc} {R : Run δ} {r f i : Nat}
  (h : buildFirEngine spec T = .ok d) (hmac : mac ∈ d.firEngineMacDesc) (hsort : IsSort sort)
  (hp : generateRtl sort spec mac = .ok R.p)
  (hslices : R.p.timeSlices = 2 ^ R.p.log2TimeSlices) (hr : 2 ≤ r) (hreset : ResetFor r R.env)
  (hpaced : ∀ f ∈ mac.inputFirs, Paced spec T f) (hi : mac.inputFirs[i]? = some f)

include h hmac hsort hp hslices hr hreset hpaced hi

theorem committedAt_of_late (hidle : (R.state (r + 3)).inputLatch.changedPs1 i =
      (R.state (r + 3)).channels.prevChanged i)
    (hsender : Run.Announces R i
      (roundedInterval T spec.clockFreq (spec.specOf f).sampleFreq) (r + 3))
    (hlate : ∀ j, j + 2 < spec.numCoeff f → R.announcedAt i (r + 3 + j) = none) {j : Nat}
    (hj : j < spec.numCoeff f) : R.committedAt i (r + 3 + j) = none := by
  have hb := builtMac_of_buildFirEngine h hmac
  have hgen := generateRtl_eq_ok.mp hp
  have hd := driven_of_isSort hb hsort hgen
  have htaps := (hpaced f (List.mem_of_getElem? hi)).taps
  obtain ⟨rest, hcollect, _⟩ := announced_eq_samples spec T d h mac hmac sort hsort R hp hslices r
    hr hreset hpaced f i hi hidle hsender (spec.numCoeff f - 2)
  rw [Toggle.collect_of_none fun j hj => hlate j (by omega)] at hcollect
  have hnil := (List.append_eq_nil_iff.mp hcollect.symm).1
  rw [samples_add hb hgen hd hreset (by omega) (by decide)] at hnil
  exact List.filterMap_eq_nil_iff.mp hnil j (List.mem_range.mpr (by omega))

theorem receivedAt_of_committed {lag : Nat} (hlag : lag ≤ 1) (hdsp : MulAccumulates lag R.dsp)
    (hon : PowerOn R.p R.s₀)
    (hoff : ∀ k, (R.env k).iCoefBuffWren = false) (horder : FifosInSizeOrder spec mac)
    (hfirst : ∀ j < spec.numCoeff f, R.committedAt i (r + 3 + j) = none) {j : Nat} {v : BitVec 18}
    (hcommit : R.committedAt i (r + j) = some v) :
    R.receivedAt i (r + j + 8) = some (laggedFilterWord lag (spec.specOf f).coeff
      (R.state (r + j + 3)).coefBuff.rddata (R.samples i (r + j))) := by
  have hb := builtMac_of_buildFirEngine h hmac
  have hgen := generateRtl_eq_ok.mp hp
  have hd := driven_of_isSort hb hsort hgen
  have hpos : 0 < r := by omega
  have hrel := hreset.released hpos
  have hmem := List.mem_of_getElem? hi
  have hpace := hpaced f hmem
  have hlog : T = 2 ^ R.p.log2TimeSlices := (timeSlices_eq hb hgen).symm.trans hslices
  have hw := handshakeWords_of_generated hb hgen hslices
  have hslots := hpace.channelSlots hb hgen hi
  have houtput : i < R.p.numOutputs := hw.outputs ▸ numInputs_of_position hgen hi
  have htarget : R.commitTarget (r + j) = some i := by
    by_contra hother
    rw [committedAt_eq hb hgen hd (hreset.rst hpos), if_neg hother] at hcommit
    cases hcommit
  obtain ⟨a, g, _, hcycle, hslot, hg⟩ := owner_of_commitTarget hb hgen hreset hpos htarget
  obtain rfl := Option.some.inj (hi.symm.trans hg)
  obtain rfl : j = a + 4 := by omega
  have htaken : spec.numCoeff f ≤ a + 1 := by
    by_contra hlt
    have hnone := hfirst (a + 1) (Nat.not_le.mp hlt)
    have hsame : r + 3 + (a + 1) = r + (a + 4) := by omega
    rw [hsame, hcommit] at hnone
    cases hnone
  have hout := paced_mac_filters spec T d h mac hmac sort hsort R hlag hdsp hp hslices hon r hr
    hreset hoff hpaced horder f i a htaken hslot hi
  have hselects := (selects_iff hb hgen hi a).mpr
    (slot_eq_mod hlog (hpace.one_lt hb hmem) a ▸ hslot)
  have hheld : ¬ R.Delivers i (r + a + 11) := fun hdelivers =>
    hslots.apart a hselects ((Run.delivers_iff hw hslots hrel houtput (a + 1)).mp hdelivers)
  have hstay := Run.oData_succ (i := i) (hrel.free_add a 11) (hrel.free_add a 12)
  rw [if_neg hheld] at hstay
  rw [Run.receivedAt_add hrel houtput, hcommit, Option.map_some]
  exact congrArg some (hstay.trans hout)

end Stream

theorem mac_filters_stream (spec : FirEngineSpec) (T : Nat) (d : FirEngineDesc)
    (h : buildFirEngine spec T = .ok d) (mac : FirEngineMacDesc) (hmac : mac ∈ d.firEngineMacDesc)
    (sort : List FirEngineMacFifoDesc → List FirEngineMacFifoDesc) (hsort : IsSort sort)
    (R : Run δ) (lag : Nat) (hlag : lag ≤ 1) (hdsp : MulAccumulates lag R.dsp)
    (hp : generateRtl sort spec mac = .ok R.p)
    (hslices : R.p.timeSlices = 2 ^ R.p.log2TimeSlices) (hon : PowerOn R.p R.s₀) (r : Nat)
    (hr : 2 ≤ r) (hreset : ResetFor r R.env) (hoff : ∀ k, (R.env k).iCoefBuffWren = false)
    (hpaced : ∀ f ∈ mac.inputFirs, Paced spec T f) (horder : FifosInSizeOrder spec mac)
    (f i : Nat) (hi : mac.inputFirs[i]? = some f)
    (hidle : (R.state (r + 3)).inputLatch.changedPs1 i =
      (R.state (r + 3)).channels.prevChanged i)
    (hsender : Run.Announces R i
      (roundedInterval T spec.clockFreq (spec.specOf f).sampleFreq) (r + 3))
    (hlate : ∀ j, j + 2 < spec.numCoeff f → R.announcedAt i (r + 3 + j) = none) (n : Nat) :
    ∃ samples rest, Toggle.collect (fun j => R.announcedAt i (r + 3 + j)) n =
        samples ++ rest ∧ rest.length ≤ 1 ∧
      (rest ≠ [] → ∃ k < n, n ≤ k + roundedInterval T spec.clockFreq (spec.specOf f).sampleFreq ∧
        (R.announcedAt i (r + 3 + k)).isSome) ∧
      (∃ cycle : Nat → Nat, (∀ m < samples.length,
          (R.committedAt i (cycle m)).isSome ∧ R.samples i (cycle m) = samples.take m) ∧
        Toggle.collect (fun j => R.receivedAt i (r + 1 + j)) (n + 12) =
          (List.range samples.length).map fun m => laggedFilterWord lag (spec.specOf f).coeff
            (R.state (cycle m + 3)).coefBuff.rddata (samples.take m)) ∧
      (lag = 0 → Toggle.collect (fun j => R.receivedAt i (r + 1 + j)) (n + 12) =
        (List.range samples.length).map fun m =>
          filterWord (spec.specOf f).coeff (samples.take m)) := by
  have hb := builtMac_of_buildFirEngine h hmac
  have hgen := generateRtl_eq_ok.mp hp
  have hd := driven_of_isSort hb hsort hgen
  have hpos : 0 < r := by omega
  have hrel := hreset.released hpos
  have houtput : i < R.p.numOutputs :=
    (handshakeWords_of_generated hb hgen hslices).outputs ▸ numInputs_of_position hgen hi
  have hfirst : ∀ j < spec.numCoeff f, R.committedAt i (r + 3 + j) = none := fun j hj =>
    committedAt_of_late h hmac hsort hp hslices hr hreset hpaced hi hidle hsender hlate hj
  have hword : ∀ j < n + 5, R.receivedAt i (r + 1 + (7 + j)) =
      (R.committedAt i (r + 0 + j)).map fun _ => laggedFilterWord lag (spec.specOf f).coeff
        (R.state (r + 0 + j + 3)).coefBuff.rddata
        (Toggle.collect (fun j => R.committedAt i (r + 0 + j)) j) := by
    intro j _
    have hindex : r + 1 + (7 + j) = r + j + 8 := by omega
    have hsamples : R.samples i (r + 0 + j) = _ :=
      samples_add hb hgen hd hreset hpos (Nat.zero_le 5) j
    rw [hindex, ← hsamples]
    cases hcommit : R.committedAt i (r + j) with
    | none =>
      rw [Run.receivedAt_add hrel houtput, hcommit]
      rfl
    | some v =>
      exact receivedAt_of_committed h hmac hsort hp hslices hr hreset hpaced hi hlag hdsp hon hoff
        horder hfirst hcommit
  obtain ⟨rest, hcollect, hlen, hlast⟩ := announced_eq_samples spec T d h mac hmac sort hsort R hp
    hslices r hr hreset hpaced f i hi hidle hsender n
  have hcycles : r + 3 + (n + 2) = r + 0 + (n + 5) := by omega
  have hsamples := fun m => samples_add (i := i) hb hgen hd hreset hpos (Nat.zero_le 5) m
  rw [hcycles] at hcollect
  obtain ⟨cycle, hcycle, hhistory⟩ := Toggle.collect_history
    (fun j => R.committedAt i (r + 0 + j)) (fun j samples => laggedFilterWord lag
      (spec.specOf f).coeff (R.state (r + 0 + j + 3)).coefBuff.rddata samples) (n + 5)
  rw [← hsamples] at hcycle hhistory
  have hsplit : n + 12 = 7 + (n + 5) := by omega
  have hreceived := Toggle.collect_add (fun j => R.receivedAt i (r + 1 + j)) 7 (n + 5)
  rw [Toggle.collect_of_none fun j hj => Run.receivedAt_before hrel hj, List.nil_append,
    Toggle.collect_congr hword, hhistory, ← hsplit] at hreceived
  refine ⟨_, rest, hcollect, hlen, hlast, ⟨fun m => r + 0 + cycle m, fun m hm => ?_, hreceived⟩, ?_⟩
  · rw [hsamples]
    exact hcycle m hm
  · rintro rfl
    rw [hreceived]
    exact List.map_congr_left fun m _ => laggedFilterWord_zero _ _ _

def streamRun : Run DspRegs :=
  { pacedRun with env := fun k => { quarters (announce [8, 16] k) with iRst := decide (k < 2) } }

theorem mac_filters_stream_streamRun :
    (streamRun.receivedAt 0 30).any (· ≠ 0) = true ∧
    ∃ samples rest, Toggle.collect (fun j => streamRun.announcedAt 0 (2 + 3 + j)) 20 =
        samples ++ rest ∧ rest.length ≤ 1 ∧
      (rest ≠ [] → ∃ k < 20, 20 ≤ k + roundedInterval 8 16 2 ∧
        (streamRun.announcedAt 0 (2 + 3 + k)).isSome) ∧
      ∃ cycle : Nat → Nat, (∀ m < samples.length, (streamRun.committedAt 0 (cycle m)).isSome ∧
          streamRun.samples 0 (cycle m) = samples.take m) ∧
        Toggle.collect (fun j => streamRun.receivedAt 0 (2 + 1 + j)) (20 + 12) =
          (List.range samples.length).map fun m =>
            laggedFilterWord 1 [1 / 4, 1 / 8, 1 / 4, -1 / 4]
              (streamRun.state (cycle m + 3)).coefBuff.rddata (samples.take m) := by
  obtain ⟨d, mac, hd, hmac, hfirs, _, hp⟩ := generated_pacedSpec
  have htwo : TwoSamples streamRun 8 := ⟨fun _ => rfl, fun _ => rfl⟩
  have hlate : ∀ j, j + 2 < 4 → streamRun.announcedAt 0 (2 + 3 + j) = none := by
    intro j hj
    have hcycle := mt (htwo.announcedAt (by decide) (2 + 3 + j)).mp
    exact Option.not_isSome_iff_eq_none.mp (hcycle (by omega))
  obtain ⟨samples, rest, hcollect, hlen, hlast, hreceived, _⟩ := mac_filters_stream pacedSpec 8 d
    hd mac hmac insertionSortByMemWords isSort_insertionSortByMemWords streamRun 1 le_rfl
    (mulAccumulates_dsp48e2 (.inl rfl)) hp rfl (powerOn_zeroState _ _) 2 le_rfl (fun _ => rfl)
    (fun _ => rfl) (paced_pacedSpec hfirs)
    (by rw [FifosInSizeOrder, hfirs]; exact List.pairwise_singleton _ _) 0 0
    (by rw [hfirs]; rfl) (by decide +kernel) (htwo.announces (by decide)) hlate 20
  exact ⟨by decide +kernel, samples, rest, hcollect, hlen, hlast, hreceived⟩

end FirEngine
