import EmbeddedProjects.FirEngine.CoeffImage
import EmbeddedProjects.FirEngine.Convolution
import EmbeddedProjects.FirEngine.DataOutputs
import EmbeddedProjects.FirEngine.Spacing

namespace FirEngine

open FirEngineDesc FirEngineMacDesc Rtl AlignedRing

section Output

variable {δ : Type} {sort : List FirEngineMacFifoDesc → List FirEngineMacFifoDesc}
  {spec : FirEngineSpec} {mac : FirEngineMacDesc} {T : Nat} {R : Run δ} {r i f u : Nat}

theorem oData_of_update (hb : BuiltMac spec T mac) (hgen : Generated sort spec mac R.p)
    (hrel : Released r R.env) (hslot : mac.firUpdateSlot[R.slot u]? = some ⟨some f⟩)
    (hi : mac.inputFirs[i]? = some f) : (R.state (r + u + 11)).dataOutputs.oData i =
      dspout (R.dsp.p (R.state (r + u + 10)).dsp) := by
  obtain ⟨l, hl, hchannel⟩ := channelSelect_of_slot hb hgen hslot
  obtain rfl := hb.inv.position_unique hi hl
  have hselect := Run.channelSelPs9_succ (R := R) (r + u + 9)
  have hps8 : (R.state (r + u + 9)).timeSlice.ps8 = (R.state (r + u + 4)).timeSlice.ps3 :=
    Run.timeSlice_ps8_add hrel (u + 4)
  rw [hps8, Run.ps3_add hrel, fieldAt_of_getElem? hchannel
    (hgen.render_channelSelect _ (List.mem_of_getElem? hchannel))] at hselect
  have houtputs : R.p.numOutputs = mac.inputFirs.length := by
    have hnum : R.p.numOutputs = mac.outputFirs.length := congrArg (·.numOutputs) hgen.result
    rw [hnum, hb.inv.outputs]
  have hdelivers : R.Delivers i (r + u + 10) := by
    refine ⟨hselect, ?_⟩
    rw [houtputs]
    exact (List.getElem?_eq_some_iff.mp hi).1
  rw [Run.oData_succ (hrel.free_add u 10) (hrel.free_add u 11), if_pos hdelivers]

theorem quiet_of_paced (hb : BuiltMac spec T mac) (hgen : Generated sort spec mac R.p)
    (hlog : T = 2 ^ R.p.log2TimeSlices) (hreset : ResetFor r R.env) (hr : 0 < r)
    (hpace : Paced spec T f) (hi : mac.inputFirs[i]? = some f)
    (hslot : mac.firUpdateSlot[R.slot u]? = some ⟨some f⟩) {k : Nat}
    (hge : r + u + 4 < k + (spec.numCoeff f + 3)) (hlt : k < r + u + 4) :
    R.commitTarget k ≠ some i := by
  intro hk
  have hT := hpace.one_lt hb (List.mem_of_getElem? hi)
  obtain ⟨c, g, _, rfl, hslot', hg⟩ := owner_of_commitTarget hb hgen hreset hr hk
  obtain rfl := Option.some.inj (hi.symm.trans hg)
  rw [slot_eq_mod hlog hT] at hslot hslot'
  have hapart := hpace.apart hb hslot' hslot (by omega)
  omega

end Output

section Filter

variable {sort : List FirEngineMacFifoDesc → List FirEngineMacFifoDesc}
  {spec : FirEngineSpec} {mac : FirEngineMacDesc} {T : Nat} {gs : List Nat}

theorem ownRing_of_fifoAt {δ : Type} {R : Run δ} {i g o : Nat} (hb : BuiltMac spec T mac)
    (hrange : ∀ f ∈ mac.inputFirs, InRange spec f) (harr : Arranged spec mac sort gs)
    (hgen : Generated sort spec mac R.p) (htwo : ∀ f ∈ mac.inputFirs, 2 ≤ spec.numCoeff f)
    (hlands : ∀ k l, R.commitTarget k = some l → ∃ desc, Run.CommitLands R k l desc)
    (hat : FifoAt spec mac sort R.p i g o) : OwnRing R i o (spec.numCoeff g) := by
  have hwords := memWordsFor_eq_regionBits (hrange g hat.mem) (htwo g hat.mem)
  have hown := hat.range
  rw [hwords] at hown
  refine ⟨hlands, fun k l desc hl hdesc => ?_, ⟨_, hat.desc, hat.holdsRing hwords⟩, ?_⟩
  · obtain ⟨o', n', hring, hother⟩ :=
      (bankInv_initial hb hrange harr hgen htwo).pushAll (R.pushes k) l desc hdesc
    exact hring.within_next.disjoint (separate_reservedRanges harr hrange l i _ _ hl hother hown)
  · rw [← hwords]
    exact hat.fits.trans (coeffValues_le_bufferSize hgen)

theorem getD_map_range {n j : Nat} {g : Nat → BitVec 18} (hj : j < n) :
    ((List.range n).map g).getD j 0 = g j := by
  rw [List.getD_eq_getElem _ _ (by simpa using hj), List.getElem_map, List.getElem_range]

def RtlParameters.regionOf (p : RtlParameters) (i : Nat) : Nat :=
  (fifoRegionOrigin (p.initialDescs.getD i 0)).toNat

def Rtl.Run.programmed {δ : Type} (R : Run δ) (spec : FirEngineSpec) (f i j k : Nat) :
    BitVec 18 :=
  Port.lastWritten R.coefWrites (coefBuffWord ((spec.specOf f).coeff.getD j 0))
    (R.p.regionOf i + j) k

theorem FifoAt.regionOf {p : RtlParameters} {i g o : Nat} (hat : FifoAt spec mac sort p i g o)
    (hwords : memWordsFor (quantised spec g) = 2 ^ regionBits (spec.numCoeff g - 1)) :
    p.regionOf i = o := by
  rw [RtlParameters.regionOf, List.getD_eq_getElem?_getD, hat.desc, Option.getD_some,
    (hat.holdsRing hwords).origin]

theorem getD_quantised {f j : Nat} (hj : j < spec.numCoeff f) :
    (quantised spec f)[j]? = some (coeffVal1p17 ((spec.specOf f).coeff.getD j 0)) := by
  have hget : (spec.specOf f).coeff[j]? = some _ := List.getElem?_eq_getElem hj
  rw [quantised, List.getElem?_map, List.getD_eq_getElem?_getD, hget]
  rfl

structure OwnRegion {δ : Type} (spec : FirEngineSpec) (mac : FirEngineMacDesc)
    (sort : List FirEngineMacFifoDesc → List FirEngineMacFifoDesc) (R : Run δ) (i f : Nat) :
    Prop where
  ring : OwnRing R i (R.p.regionOf i) (spec.numCoeff f)
  range : (reservedRanges sort mac)[i]? = some (R.p.regionOf i, memWordsFor (quantised spec f))
  coeff : ∀ j < spec.numCoeff f, R.p.coeffValues[R.p.regionOf i + j]? =
    some (coeffVal1p17 ((spec.specOf f).coeff.getD j 0))

theorem ownRegion_of_position {δ : Type} {R : Run δ} {i f : Nat} (hb : BuiltMac spec T mac)
    (hrange : ∀ f ∈ mac.inputFirs, InRange spec f) (harr : Arranged spec mac sort gs)
    (hgen : Generated sort spec mac R.p) (htwo : ∀ f ∈ mac.inputFirs, 2 ≤ spec.numCoeff f)
    (hlands : ∀ k l, R.commitTarget k = some l → ∃ desc, Run.CommitLands R k l desc)
    (horder : gs.map (quantised spec) = mac.inputFirs.map (quantised spec))
    (hi : mac.inputFirs[i]? = some f) : OwnRegion spec mac sort R i f := by
  obtain ⟨g, hg, hq, hnum⟩ := exists_of_positions horder hi
  obtain ⟨o, hat⟩ := harr.fifoAt hb hrange hgen hg
  have hregion := hat.regionOf (memWordsFor_eq_regionBits (hrange g hat.mem) (htwo g hat.mem))
  refine ⟨?_, ?_, fun j hj => ?_⟩
  · rw [hregion, ← hnum]
    exact ownRing_of_fifoAt hb hrange harr hgen htwo hlands hat
  · rw [hregion, ← hq]
    exact hat.range
  · rw [hregion]
    refine hat.coeffValues hb hrange harr hgen hg ?_
    rw [hq]
    exact getD_quantised hj

theorem OwnRegion.coeff_lt {δ : Type} {R : Run δ} {i f j : Nat} (h : OwnRegion spec mac sort R i f)
    (hgen : Generated sort spec mac R.p) (hj : j < spec.numCoeff f) :
    R.p.regionOf i + j < bufferSize R.p :=
  (List.getElem?_eq_some_iff.mp (h.coeff j hj)).1.trans_le (coeffValues_le_bufferSize hgen)

theorem OwnRegion.contents {δ : Type} {R : Run δ} {i f j : Nat} (h : OwnRegion spec mac sort R i f)
    (hgen : Generated sort spec mac R.p) (hon : PowerOn R.p R.s₀) (hj : j < spec.numCoeff f)
    (k : Nat) :
    (R.state k).coefBuff.contents (R.p.regionOf i + j) = R.programmed spec f i j k := by
  have hlt := h.coeff_lt hgen hj
  rw [Run.coefBuff_contents hlt, hon.coefBuff _ hlt, List.getD_eq_getElem?_getD, h.coeff j hj]
  rfl

end Filter

variable {δ : Type}

theorem ownRegion_of_paced (spec : FirEngineSpec) (T : Nat) (d : FirEngineDesc)
    (h : buildFirEngine spec T = .ok d) (mac : FirEngineMacDesc) (hmac : mac ∈ d.firEngineMacDesc)
    (sort : List FirEngineMacFifoDesc → List FirEngineMacFifoDesc) (hsort : IsSort sort)
    (R : Run δ) (hp : generateRtl sort spec mac = .ok R.p)
    (hslices : R.p.timeSlices = 2 ^ R.p.log2TimeSlices) (hon : PowerOn R.p R.s₀) (r : Nat)
    (hr : 2 ≤ r) (hreset : ResetFor r R.env) (hpaced : ∀ f ∈ mac.inputFirs, Paced spec T f)
    (horder : FifosInSizeOrder spec mac) {i f : Nat} (hi : mac.inputFirs[i]? = some f) :
    OwnRegion spec mac sort R i f := by
  have hb := builtMac_of_buildFirEngine h hmac
  have hgen := generateRtl_eq_ok.mp hp
  have hrange := (renderable_of_generated hb hsort hgen).firs
  obtain ⟨gs, harr, hdesc⟩ := hb.inv.arranged hsort
  have htwo : ∀ f ∈ mac.inputFirs, 2 ≤ spec.numCoeff f := fun f hf =>
    Nat.le_trans (by decide) (hpaced f hf).taps
  obtain ⟨hlands, _⟩ := paced_mac_keeps_up spec T d h mac hmac sort hsort R hp hslices hon
    r hr hreset hpaced horder
  rw [FifosInSizeOrder, ← Descending.Strict, ← Descending.only_arrangement_iff] at horder
  exact ownRegion_of_position hb hrange harr hgen htwo hlands (horder _ (harr.perm.map _) hdesc)
    hi

section Pass

variable {sort : List FirEngineMacFifoDesc → List FirEngineMacFifoDesc} {spec : FirEngineSpec}
  {mac : FirEngineMacDesc} {T : Nat} {R : Run δ} {r a i f j m : Nat} {desc : BitVec 16}

theorem OwnRegion.coef_read (hown : OwnRegion spec mac sort R i f)
    (hgen : Generated sort spec mac R.p) (hon : PowerOn R.p R.s₀) (hj : j < spec.numCoeff f)
    {k : Nat} (haddr : (R.state k).readAddrs.coefBuffRdaddr = R.p.regionOf i + j) :
    (R.state (k + 2)).coefBuff.rddata = R.programmed spec f i j k := by
  rw [Run.coefBuff_rddata, haddr, readRam, if_pos (hown.coeff_lt hgen hj),
    hown.contents hgen hon hj]

variable (hb : BuiltMac spec T mac) (hgen : Generated sort spec mac R.p) (hd : Driven R.p)
  (hon : PowerOn R.p R.s₀) (hrst : (R.env 0).iRst = true) (hown : OwnRegion spec mac sort R i f)
  (hreads : Run.PassReads R r a (spec.numCoeff f) i desc)

include hb hgen hd hon hrst hown hreads

theorem data_read_of_pass (hsize : spec.numCoeff f ≤ 64) (hj : j < spec.numCoeff f) (hjm : j ≤ m)
    (hquiet : ∀ k, r + a + 4 ≤ k → k < r + (a + m) + 4 → R.commitTarget k ≠ some i) :
    (R.state (r + (a + j) + 4 + 2)).dataBuffA.rddata0 =
      (R.samples i (r + (a + m) + 4)).reverse.getD j 0 := by
  have hle : r + a + 4 ≤ r + (a + j) + 4 := by omega
  have hend : r + (a + j) + 4 ≤ r + (a + m) + 4 := by omega
  have hbank : (R.bank (r + (a + j) + 4))[i]? = some desc := by
    rw [Run.bank_of_quiet hle fun k hge hlt => hquiet k hge (hlt.trans_le hend)]
    exact hreads.bank
  have hroom : j < 2 ^ regionBits (spec.numCoeff f - 1) := by
    have hbits := (regionBits_spec (by omega : spec.numCoeff f - 1 < 64)).1
    omega
  rw [samples_of_quiet hb hgen hd hrst hend fun k hge hlt => hquiet k (hle.trans hge) hlt]
  exact (remembers hb hgen hd hon hrst hown.ring _).sample hbank (hreads.data j hj) hroom
    hown.ring.below

theorem coef_read_of_pass (hj : j < spec.numCoeff f) :
    (R.state (r + (a + j) + 4 + 2)).coefBuff.rddata =
      R.programmed spec f i j (r + (a + j) + 4) := by
  obtain ⟨_, hdesc, hring, _⟩ := remembers hb hgen hd hon hrst hown.ring (r + a + 4)
  obtain rfl := Option.some.inj (hdesc.symm.trans hreads.bank)
  have haddr := hreads.coef j hj
  rw [hring.origin] at haddr
  exact hown.coef_read hgen hon hj haddr

theorem coef_operand {lag : Nat} (hlag : lag ≤ 1) (hj : j < spec.numCoeff f) :
    (R.state (r + (a + j) + 6 + lag)).coefBuff.rddata =
      (laggedWords lag ((List.range (spec.numCoeff f)).map fun j =>
          R.programmed spec f i j (r + (a + j) + 4))
        (R.state (r + (a + spec.numCoeff f) + 6)).coefBuff.rddata).getD j 0 := by
  have hlen : ((List.range (spec.numCoeff f)).map fun j =>
      R.programmed spec f i j (r + (a + j) + 4)).length = spec.numCoeff f := by
    rw [List.length_map, List.length_range]
  rw [getD_laggedWords _ (hlen.symm ▸ hj), List.getD_eq_getElem?_getD]
  rcases Nat.lt_or_ge (lag + j) (spec.numCoeff f) with hlt | hge
  · have hindex : r + (a + j) + 6 + lag = r + (a + (lag + j)) + 4 + 2 := by omega
    rw [List.getElem?_append_left (hlen.symm ▸ hlt), ← List.getD_eq_getElem?_getD,
      getD_map_range hlt, hindex]
    exact coef_read_of_pass hb hgen hd hon hrst hown hreads hlt
  · have hlast : lag + j = spec.numCoeff f := by omega
    have hindex : r + (a + j) + 6 + lag = r + (a + spec.numCoeff f) + 6 := by omega
    rw [hindex, hlast, List.getElem?_append_right hlen.le, hlen, Nat.sub_self]
    rfl

end Pass

theorem paced_mac_multiplies (spec : FirEngineSpec) (T : Nat) (d : FirEngineDesc)
    (h : buildFirEngine spec T = .ok d) (mac : FirEngineMacDesc) (hmac : mac ∈ d.firEngineMacDesc)
    (sort : List FirEngineMacFifoDesc → List FirEngineMacFifoDesc) (hsort : IsSort sort)
    (R : Run δ) {lag : Nat} (hlag : lag ≤ 1) (hdsp : MulAccumulates lag R.dsp)
    (hp : generateRtl sort spec mac = .ok R.p)
    (hslices : R.p.timeSlices = 2 ^ R.p.log2TimeSlices) (hon : PowerOn R.p R.s₀) (r : Nat)
    (hr : 2 ≤ r) (hreset : ResetFor r R.env) (hpaced : ∀ f ∈ mac.inputFirs, Paced spec T f)
    (horder : FifosInSizeOrder spec mac) (f i u : Nat) (hfirst : spec.numCoeff f ≤ u + 1)
    (hslot : mac.firUpdateSlot[R.slot u]? = some ⟨some f⟩) (hi : mac.inputFirs[i]? = some f) :
    (R.state (r + u + 11)).dataOutputs.oData i =
      wordsFilter (laggedWords lag ((List.range (spec.numCoeff f)).map fun j =>
          R.programmed spec f i j (r + (u + 1 - spec.numCoeff f + j) + 4))
        (R.state (r + u + 7)).coefBuff.rddata) (R.samples i (r + u + 4)) := by
  have hb := builtMac_of_buildFirEngine h hmac
  have hgen := generateRtl_eq_ok.mp hp
  have hrange := (renderable_of_generated hb hsort hgen).firs
  have hd := driven_of_isSort hb hsort hgen
  have hpos : 0 < r := by omega
  have hrst := hreset.rst hpos
  have hrel := hreset.released hpos
  have hlog : T = 2 ^ R.p.log2TimeSlices := (timeSlices_eq hb hgen).symm.trans hslices
  have hmem := List.mem_of_getElem? hi
  have hown := ownRegion_of_paced spec T d h mac hmac sort hsort R hp hslices hon r hr hreset
    hpaced horder hi
  obtain ⟨_, hpasses⟩ := paced_mac_keeps_up spec T d h mac hmac sort hsort R hp hslices hon
    r hr hreset hpaced horder
  obtain ⟨a, rfl⟩ : ∃ a, u = a + (spec.numCoeff f - 1) :=
    ⟨u - (spec.numCoeff f - 1), by omega⟩
  obtain ⟨hpass, l, hl, desc, hreads⟩ := hpasses f a hslot
  obtain rfl := hb.inv.position_unique hi hl
  have htaps := (hpaced f hmem).taps
  have hsize := (hrange f hmem).le
  have hquiet : ∀ k, r + a + 4 ≤ k → k < r + (a + (spec.numCoeff f - 1)) + 4 →
      R.commitTarget k ≠ some i := fun k hge hlt =>
    quiet_of_paced hb hgen hlog hreset hpos (hpaced f hmem) hi hslot (by omega) hlt
  have hstart : a + (spec.numCoeff f - 1) + 1 - spec.numCoeff f = a := by omega
  have hnext : r + (a + (spec.numCoeff f - 1)) + 7 = r + (a + spec.numCoeff f) + 6 := by omega
  rw [hstart, hnext]
  have hterm : ∀ j < spec.numCoeff f, product (R.sliceInputs (r + (a + j) + 6 + lag)).a
      (R.sliceInputs (r + (a + j) + 6)).b =
      wordProduct (laggedWords lag ((List.range (spec.numCoeff f)).map fun j =>
          R.programmed spec f i j (r + (a + j) + 4))
        (R.state (r + (a + spec.numCoeff f) + 6)).coefBuff.rddata)
        (R.samples i (r + (a + (spec.numCoeff f - 1)) + 4)) j := by
    intro j hj
    change ((portA (R.state (r + (a + j) + 6 + lag)).coefBuff.rddata).extractLsb' 0 27).toInt *
      (R.state (r + (a + j) + 4 + 2)).dataBuffA.rddata0.toInt = _
    rw [coef_operand hb hgen hd hon hrst hown hreads hlag hj,
      data_read_of_pass hb hgen hd hon hrst hown hreads hsize hj (by omega) hquiet, wordProduct]
  have hsum := Run.pass_accumulates hdsp (plainModes_of_generated hgen) hrel
    (fun j hj => hpass.mulMode hgen hj) hterm (Nat.sub_lt (by omega) Nat.one_pos)
  have hcount : spec.numCoeff f - 1 + 1 = spec.numCoeff f := by omega
  rw [hcount] at hsum
  rw [oData_of_update hb hgen hrel hslot hi, wordsFilter, length_laggedWords hlag, List.length_map,
    List.length_range]
  exact congrArg dspout hsum

theorem programmed_of_off {R : Run δ} (hoff : ∀ k, (R.env k).iCoefBuffWren = false)
    (spec : FirEngineSpec) (f i j k : Nat) :
    R.programmed spec f i j k = coefBuffWord ((spec.specOf f).coeff.getD j 0) := by
  refine Port.lastWritten_of_untouched fun k _ v => ?_
  rw [Run.coefWrites, hoff, if_neg Bool.false_ne_true]
  exact (Option.some_ne_none _).symm

theorem paced_mac_filters (spec : FirEngineSpec) (T : Nat) (d : FirEngineDesc)
    (h : buildFirEngine spec T = .ok d) (mac : FirEngineMacDesc) (hmac : mac ∈ d.firEngineMacDesc)
    (sort : List FirEngineMacFifoDesc → List FirEngineMacFifoDesc) (hsort : IsSort sort)
    (R : Run δ) {lag : Nat} (hlag : lag ≤ 1) (hdsp : MulAccumulates lag R.dsp)
    (hp : generateRtl sort spec mac = .ok R.p)
    (hslices : R.p.timeSlices = 2 ^ R.p.log2TimeSlices) (hon : PowerOn R.p R.s₀) (r : Nat)
    (hr : 2 ≤ r) (hreset : ResetFor r R.env) (hoff : ∀ k, (R.env k).iCoefBuffWren = false)
    (hpaced : ∀ f ∈ mac.inputFirs, Paced spec T f) (horder : FifosInSizeOrder spec mac)
    (f i u : Nat) (hfirst : spec.numCoeff f ≤ u + 1)
    (hslot : mac.firUpdateSlot[R.slot u]? = some ⟨some f⟩) (hi : mac.inputFirs[i]? = some f) :
    (R.state (r + u + 11)).dataOutputs.oData i =
      laggedFilterWord lag (spec.specOf f).coeff (R.state (r + u + 7)).coefBuff.rddata
        (R.samples i (r + u + 4)) := by
  rw [paced_mac_multiplies spec T d h mac hmac sort hsort R hlag hdsp hp hslices hon r hr hreset
    hpaced horder f i u hfirst hslot hi, laggedFilterWord]
  have hlen : ((List.range (spec.numCoeff f)).map fun j =>
      R.programmed spec f i j (r + (u + 1 - spec.numCoeff f + j) + 4)).length =
      ((spec.specOf f).coeff.map coefBuffWord).length := by
    rw [List.length_map, List.length_range, List.length_map]
    rfl
  refine congrArg (fun words => wordsFilter (laggedWords lag words _) _)
    (List.ext_getElem hlen fun j hj hj' => ?_)
  rw [List.getElem_map, List.getElem_map, List.getElem_range, programmed_of_off hoff,
    List.getD_eq_getElem _ _ (by simpa using hj')]

section Announced

variable {δ : Type} {sort : List FirEngineMacFifoDesc → List FirEngineMacFifoDesc}
  {spec : FirEngineSpec} {mac : FirEngineMacDesc} {T : Nat} {R : Run δ} {r i f : Nat}

theorem selects_iff {p : RtlParameters} (hb : BuiltMac spec T mac)
    (hgen : Generated sort spec mac p) (hi : mac.inputFirs[i]? = some f) (a : Nat) :
    Selects p i a ↔ mac.firUpdateSlot[a % T]? = some ⟨some f⟩ := by
  rw [Selects, timeSlices_eq hb hgen]
  constructor
  · intro hsel
    have hlen := Outcome.length_of_mapM hgen.channelSelect
    have hlt : a % T < mac.firUpdateSlot.length :=
      (List.getElem?_eq_some_iff.mp hsel).1.trans_eq hlen
    have hslot := List.getElem?_eq_getElem hlt
    obtain ⟨c, hc, hlookup⟩ := Outcome.getElem?_of_mapM hgen.channelSelect hslot
    obtain rfl := Option.some.inj (hsel.symm.trans hc)
    cases hfir : mac.firUpdateSlot[a % T].firIndex with
    | none =>
      -- channel 15 of an unused slot is never an input
      rw [hfir] at hlookup
      obtain rfl : 0xF = i := Except.ok.inj hlookup
      have hinput := (List.getElem?_eq_some_iff.mp hi).1
      have := hb.inv.inputs_le
      omega
    | some g =>
      have hused : mac.firUpdateSlot[a % T]? = some ⟨some g⟩ := by rw [hslot, ← hfir]
      obtain ⟨l, hl, hchannel⟩ := channelSelect_of_slot hb hgen hused
      obtain rfl := Option.some.inj (hsel.symm.trans hchannel)
      obtain rfl := Option.some.inj (hi.symm.trans hl)
      exact hused
  · intro hslot
    obtain ⟨l, hl, hchannel⟩ := channelSelect_of_slot hb hgen hslot
    obtain rfl := hb.inv.position_unique hi hl
    exact hchannel

theorem Paced.channelSlots {p : RtlParameters} (h : Paced spec T f) (hb : BuiltMac spec T mac)
    (hgen : Generated sort spec mac p) (hi : mac.inputFirs[i]? = some f) :
    ChannelSlots p i (roundedInterval T spec.clockFreq (spec.specOf f).sampleFreq) := by
  have hmem := List.mem_of_getElem? hi
  obtain ⟨b, hplaced⟩ := hb.inv.placed f hmem
  obtain ⟨_, _, _, _, hround⟩ := hplaced.interval_eq
  have hspaced := hplaced.equallySpaced (hround ▸ h.divides)
  have hT := Nat.zero_lt_of_lt (h.one_lt hb hmem)
  have hgap := h.gap
  rw [← hround] at hgap ⊢
  refine ⟨?_, fun a ha hnext => ?_, fun a ha => ⟨_, by omega, Nat.le_refl _, ?_⟩⟩
  · obtain ⟨t, ht, hslot⟩ := hspaced.nonempty
    refine ⟨t, (selects_iff hb hgen hi t).mpr ?_⟩
    rwa [Nat.mod_eq_of_lt ht]
  · rw [selects_iff hb hgen hi] at ha hnext
    refine hspaced.gap _ (Nat.mod_lt a hT) ha 1 Nat.one_pos (by omega) ?_
    rw [Nat.mod_add_mod]
    exact hnext
  · rw [selects_iff hb hgen hi] at ha ⊢
    rw [← Nat.mod_add_mod]
    exact hspaced.next _ (Nat.mod_lt a hT) ha

theorem numInputs_of_position {p : RtlParameters} (hgen : Generated sort spec mac p)
    (hi : mac.inputFirs[i]? = some f) : i < p.numInputs := by
  have hnum : p.numInputs = mac.inputFirs.length := congrArg (·.numInputs) hgen.result
  rw [hnum]
  exact (List.getElem?_eq_some_iff.mp hi).1

theorem samples_add (hb : BuiltMac spec T mac) (hgen : Generated sort spec mac R.p)
    (hd : Driven R.p) (hreset : ResetFor r R.env) (hr : 0 < r) {c : Nat} (hc : c ≤ 5) (n : Nat) :
    R.samples i (r + c + n) = Toggle.collect (fun j => R.committedAt i (r + c + j)) n := by
  rw [Run.samples, Toggle.collect_add, Toggle.collect_of_none fun k hk => ?_, List.nil_append]
  rw [committedAt_eq hb hgen hd (hreset.rst hr)]
  refine if_neg fun htarget => ?_
  obtain ⟨a, _, hk', _⟩ := Run.slot_of_commitTarget hreset hr htarget
  omega

end Announced

theorem announced_eq_samples (spec : FirEngineSpec) (T : Nat) (d : FirEngineDesc)
    (h : buildFirEngine spec T = .ok d) (mac : FirEngineMacDesc) (hmac : mac ∈ d.firEngineMacDesc)
    (sort : List FirEngineMacFifoDesc → List FirEngineMacFifoDesc) (hsort : IsSort sort)
    (R : Run δ) (hp : generateRtl sort spec mac = .ok R.p)
    (hslices : R.p.timeSlices = 2 ^ R.p.log2TimeSlices) (r : Nat) (hr : 2 ≤ r)
    (hreset : ResetFor r R.env) (hpaced : ∀ f ∈ mac.inputFirs, Paced spec T f) (f i : Nat)
    (hi : mac.inputFirs[i]? = some f)
    (hidle : (R.state (r + 3)).inputLatch.changedPs1 i =
      (R.state (r + 3)).channels.prevChanged i)
    (hsender : Run.Announces R i
      (roundedInterval T spec.clockFreq (spec.specOf f).sampleFreq) (r + 3)) (n : Nat) :
    ∃ rest, Toggle.collect (fun j => R.announcedAt i (r + 3 + j)) n =
      R.samples i (r + 3 + (n + 2)) ++ rest ∧ rest.length ≤ 1 ∧
      (rest ≠ [] → ∃ k < n, n ≤ k + roundedInterval T spec.clockFreq (spec.specOf f).sampleFreq ∧
        (R.announcedAt i (r + 3 + k)).isSome) := by
  have hb := builtMac_of_buildFirEngine h hmac
  have hgen := generateRtl_eq_ok.mp hp
  have hd := driven_of_isSort hb hsort hgen
  have hpos : 0 < r := by omega
  have hw := handshakeWords_of_generated hb hgen hslices
  have hslots := (hpaced f (List.mem_of_getElem? hi)).channelSlots hb hgen hi
  have hinput := numInputs_of_position hgen hi
  obtain ⟨hlossless, _⟩ := handshake_lossless R hw r (hreset.released hpos) i _ hinput hslots
    hidle hsender
  rw [samples_add hb hgen hd hreset hpos (by decide)]
  exact hlossless n

theorem collect_announced (spec : FirEngineSpec) (T : Nat) (d : FirEngineDesc)
    (h : buildFirEngine spec T = .ok d) (mac : FirEngineMacDesc) (hmac : mac ∈ d.firEngineMacDesc)
    (sort : List FirEngineMacFifoDesc → List FirEngineMacFifoDesc) (hsort : IsSort sort)
    (R : Run δ) (hp : generateRtl sort spec mac = .ok R.p)
    (hslices : R.p.timeSlices = 2 ^ R.p.log2TimeSlices) (r : Nat) (hr : 2 ≤ r)
    (hreset : ResetFor r R.env) (hpaced : ∀ f ∈ mac.inputFirs, Paced spec T f) (f i : Nat)
    (hi : mac.inputFirs[i]? = some f)
    (hidle : (R.state (r + 3)).inputLatch.changedPs1 i =
      (R.state (r + 3)).channels.prevChanged i)
    (hsender : Run.Announces R i
      (roundedInterval T spec.clockFreq (spec.specOf f).sampleFreq) (r + 3))
    (u : Nat) (hfirst : spec.numCoeff f ≤ u + 1) :
    ∃ rest, Toggle.collect (fun j => R.announcedAt i (r + 3 + j)) (u - 1) =
      R.samples i (r + u + 4) ++ rest ∧ rest.length ≤ 1 ∧
      (rest ≠ [] → ∃ k < u - 1,
        u - 1 ≤ k + roundedInterval T spec.clockFreq (spec.specOf f).sampleFreq ∧
        (R.announcedAt i (r + 3 + k)).isSome) := by
  have htaps := (hpaced f (List.mem_of_getElem? hi)).taps
  have hcycle : r + u + 4 = r + 3 + (u - 1 + 2) := by omega
  rw [hcycle]
  exact announced_eq_samples spec T d h mac hmac sort hsort R hp hslices r hr hreset hpaced f i hi
    hidle hsender (u - 1)

theorem announced_samples_are_filtered (spec : FirEngineSpec) (T : Nat) (d : FirEngineDesc)
    (h : buildFirEngine spec T = .ok d) (mac : FirEngineMacDesc) (hmac : mac ∈ d.firEngineMacDesc)
    (sort : List FirEngineMacFifoDesc → List FirEngineMacFifoDesc) (hsort : IsSort sort)
    (R : Run δ) (lag : Nat) (hlag : lag ≤ 1) (hdsp : MulAccumulates lag R.dsp)
    (hp : generateRtl sort spec mac = .ok R.p)
    (hslices : R.p.timeSlices = 2 ^ R.p.log2TimeSlices) (hon : PowerOn R.p R.s₀) (r : Nat)
    (hr : 2 ≤ r) (hreset : ResetFor r R.env) (hoff : ∀ k, (R.env k).iCoefBuffWren = false)
    (hpaced : ∀ f ∈ mac.inputFirs, Paced spec T f) (horder : FifosInSizeOrder spec mac)
    (f i : Nat) (hi : mac.inputFirs[i]? = some f)
    (hidle : (R.state (r + 3)).inputLatch.changedPs1 i =
      (R.state (r + 3)).channels.prevChanged i)
    (hsender : Run.Announces R i
      (roundedInterval T spec.clockFreq (spec.specOf f).sampleFreq) (r + 3))
    (u : Nat) (hfirst : spec.numCoeff f ≤ u + 1)
    (hslot : mac.firUpdateSlot[R.slot u]? = some ⟨some f⟩) :
    ∃ samples rest, Toggle.collect (fun j => R.announcedAt i (r + 3 + j)) (u - 1) =
        samples ++ rest ∧ rest.length ≤ 1 ∧
      (rest ≠ [] → ∃ k < u - 1,
        u - 1 ≤ k + roundedInterval T spec.clockFreq (spec.specOf f).sampleFreq ∧
        (R.announcedAt i (r + 3 + k)).isSome) ∧
      (R.state (r + u + 11)).dataOutputs.oData i = laggedFilterWord lag (spec.specOf f).coeff
        (R.state (r + u + 7)).coefBuff.rddata samples ∧
      (lag = 0 →
        (R.state (r + u + 11)).dataOutputs.oData i = filterWord (spec.specOf f).coeff samples) := by
  obtain ⟨rest, hcollect, hlen, hlast⟩ := collect_announced spec T d h mac hmac sort hsort R hp
    hslices r hr hreset hpaced f i hi hidle hsender u hfirst
  have hword := paced_mac_filters spec T d h mac hmac sort hsort R hlag hdsp hp hslices hon r hr
    hreset hoff hpaced horder f i u hfirst hslot hi
  refine ⟨R.samples i (r + u + 4), rest, hcollect, hlen, hlast, hword, ?_⟩
  rintro rfl
  rw [hword, laggedFilterWord_zero]

def pacedSpec : FirEngineSpec where
  clockFreq := 16
  firSpec := [⟨2, [1 / 4, 1 / 8, 1 / 4, -1 / 4]⟩]

def pacedParameters : RtlParameters where
  numInputs := 1
  numOutputs := 1
  log2BufferDepth := 2
  bufferDepth := 4
  log2NumFifos := 0
  numFifos := 1
  log2TimeSlices := 3
  timeSlices := 8
  channelSelect := [0, 15, 15, 15, 15, 15, 15, 15]
  firstEngine := [1, 0, 0, 0, 0, 0, 0, 0]
  lastEngine := [1, 0, 0, 0, 0, 0, 0, 0]
  firstTap := [0, 0, 0, 0, 0, 1, 0, 0]
  preAddMode := [0, 0, 0, 0, 0, 0, 0, 0]
  mulMode := [1, 1, 1, 1, 1, 0, 1, 1]
  addPrevEngineAccum := [0, 0, 0, 0, 0, 0, 0, 0]
  rdFifoNum := [0, 0, 0, 0, 0, 0, 0, 0]
  updateFifoNum := [0, 0, 0, 0, 0, 0, 0, 0]
  doUpdate := [1, 0, 0, 0, 0, 0, 0, 0]
  fifoSizes := [3]
  coeffValues := [32768, 16384, 32768, 229376]

def quarters (inp : Inputs) : Inputs := { inp with iData := fun i => inp.iData i * 16384#18 }

def pacedRun : Run DspRegs where
  p := pacedParameters
  dsp := pipelined
  env := fun k => { quarters (announce [6, 14] k) with iRst := decide (k < 2) }
  s₀ := zeroState pacedParameters {}

theorem generated_pacedSpec : ∃ d mac, buildFirEngine pacedSpec 8 = .ok d ∧
    mac ∈ d.firEngineMacDesc ∧ mac.inputFirs = [0] ∧
    mac.firUpdateSlot[0]? = some ⟨some 0⟩ ∧
    generateRtl insertionSortByMemWords pacedSpec mac = .ok pacedParameters := by
  obtain ⟨d, hd, hcheck⟩ := Outcome.exists_of_okAnd (x := buildFirEngine pacedSpec 8)
    (p := fun d => d.firEngineMacDesc.any fun mac =>
      (decide (mac.inputFirs = [0]) &&
        decide (mac.firUpdateSlot[0]? = some (⟨some 0⟩ : FirUpdateSlot))) &&
      Outcome.okAnd (generateRtl insertionSortByMemWords pacedSpec mac)
        fun p => decide (p = pacedParameters)) (by decide +kernel)
  obtain ⟨mac, hmac, hcheck⟩ := List.any_eq_true.mp hcheck
  simp only [Bool.and_eq_true, decide_eq_true_eq] at hcheck
  obtain ⟨⟨hfirs, hslot⟩, hcheck⟩ := hcheck
  obtain ⟨p, hp, hcheck⟩ := Outcome.exists_of_okAnd hcheck
  exact ⟨d, mac, hd, hmac, hfirs, hslot, of_decide_eq_true hcheck ▸ hp⟩

theorem paced_pacedSpec {fs : List Nat} (h : fs = [0]) : ∀ f ∈ fs, Paced pacedSpec 8 f := by
  subst h
  intro f hf
  obtain rfl := List.mem_singleton.mp hf
  exact ⟨by decide, by decide +kernel, by decide +kernel⟩

section TwoSamples

variable {R : Run δ} {a : Nat}

structure TwoSamples (R : Run δ) (a : Nat) : Prop where
  changed : ∀ k, (R.env k).iDataChanged 0 = (announce [a, a + 8] k).iDataChanged 0
  data : ∀ k, (R.env k).iData 0 = (quarters (announce [a, a + 8] k)).iData 0

theorem TwoSamples.level (h : TwoSamples R a) (k : Nat) :
    (R.env k).iDataChanged 0 = decide (a ≤ k ∧ k < a + 8) := by
  rw [h.changed]
  change ([a, a + 8].countP (· ≤ k) % 2 == 1) = _
  rcases Nat.lt_or_ge k a with hlt | hge
  · have hlast : ¬ a + 8 ≤ k := by omega
    simp [Nat.not_le.mpr hlt, hlast]
  · rcases Nat.lt_or_ge k (a + 8) with hlt | hge'
    · simp [hge, hlt, Nat.not_le.mpr hlt]
    · simp [hge, hge', Nat.not_lt.mpr hge']

theorem TwoSamples.announcedAt (h : TwoSamples R a) (ha : 0 < a) (k : Nat) :
    (R.announcedAt 0 k).isSome ↔ k = a ∨ k = a + 8 := by
  rw [Run.announcedAt, h.level, h.level]
  by_cases hk : k = a ∨ k = a + 8
  · rcases hk with rfl | rfl
    · have hbefore : ¬ (k ≤ k - 1 ∧ k - 1 < k + 8) := by omega
      simp [hbefore]
    · simp
  · have hsame : (a ≤ k ∧ k < a + 8) ↔ (a ≤ k - 1 ∧ k - 1 < a + 8) := by omega
    simp [hsame, hk]

theorem TwoSamples.announces (h : TwoSamples R a) (ha : 0 < a) :
    Run.Announces R 0 (roundedInterval 8 16 2) 5 where
  spaced := by
    have hgap : roundedInterval 8 16 2 = 8 := by decide +kernel
    intro l m _ hlt hl hm
    rw [h.announcedAt ha] at hl hm
    omega
  held := by
    intro l hl hnone
    have hquiet := mt (h.announcedAt ha (l + 1)).mpr (by simp [hnone])
    rw [h.data, h.data]
    change BitVec.ofNat 18 ([a, a + 8].countP (· ≤ l + 1)) * 16384#18 =
      BitVec.ofNat 18 ([a, a + 8].countP (· ≤ l)) * 16384#18
    have hfirst : a ≤ l + 1 ↔ a ≤ l := by omega
    have hlast : a + 8 ≤ l + 1 ↔ a + 8 ≤ l := by omega
    simp [List.countP_cons, hfirst, hlast]

end TwoSamples

theorem announces_pacedRun : Run.Announces pacedRun 0 (roundedInterval 8 16 2) 5 :=
  TwoSamples.announces (a := 6) ⟨fun _ => rfl, fun _ => rfl⟩ (by decide)

theorem announced_samples_are_filtered_pacedRun :
    (pacedRun.state 29).dataOutputs.oData 0 ≠ 0 ∧
    ∃ samples rest, Toggle.collect (fun j => pacedRun.announcedAt 0 (5 + j)) 15 =
        samples ++ rest ∧ rest.length ≤ 1 ∧ (pacedRun.state 29).dataOutputs.oData 0 =
      laggedFilterWord 1 [1 / 4, 1 / 8, 1 / 4, -1 / 4] (pacedRun.state 25).coefBuff.rddata
        samples := by
  obtain ⟨d, mac, hd, hmac, hfirs, hslot, hp⟩ := generated_pacedSpec
  obtain ⟨samples, rest, hcollect, hlen, _, hword, _⟩ := announced_samples_are_filtered pacedSpec
    8 d hd mac hmac insertionSortByMemWords isSort_insertionSortByMemWords pacedRun 1 le_rfl
    (mulAccumulates_dsp48e2 (.inl rfl)) hp rfl (powerOn_zeroState _ _) 2 le_rfl (fun _ => rfl)
    (fun _ => rfl) (paced_pacedSpec hfirs)
    (by rw [FifosInSizeOrder, hfirs]; exact List.pairwise_singleton _ _) 0 0
    (by rw [hfirs]; rfl) (by decide +kernel) announces_pacedRun 16 (by decide) hslot
  exact ⟨by decide +kernel, samples, rest, hcollect, hlen, hword⟩

end FirEngine
