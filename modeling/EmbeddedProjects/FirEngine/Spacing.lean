import EmbeddedProjects.FirEngine.Passes
import EmbeddedProjects.FirEngine.Periodicity

namespace FirEngine

open FirEngineDesc FirEngineMacDesc Rtl

variable {δ : Type}

structure Paced (spec : FirEngineSpec) (T f : Nat) : Prop where
  taps : 4 ≤ spec.numCoeff f
  divides : roundedInterval T spec.clockFreq (spec.specOf f).sampleFreq ∣ T
  gap : spec.numCoeff f + 3 ≤ roundedInterval T spec.clockFreq (spec.specOf f).sampleFreq

theorem EquallySpaced.apart {T s a b : Nat} {U : Nat → Prop} (h : EquallySpaced T s U)
    (ha : U (a % T)) (hb : U (b % T)) (hlt : a < b) : a + s ≤ b := by
  obtain ⟨t, ht, _⟩ := h.nonempty
  have hT : 0 < T := Nat.zero_lt_of_lt ht
  by_contra hnear
  refine h.gap (a % T) (Nat.mod_lt a hT) ha (b - a) (by omega) (by omega) ?_
  rw [Nat.mod_add_mod, Nat.add_sub_cancel' hlt.le]
  exact hb

namespace Rtl.Run

variable {R : Run δ} {r k i : Nat}

theorem psm1_held (h : ResetFor r R.env) (hk : k < r) : (R.state k).timeSlice.psm1 = 0 := by
  rw [state, seen, settle, if_pos (h.rst hk)]

-- the slice counter stands at slot 0 while reset is held, hence the cut-off subtraction
theorem rdaddrA_sub (h : ResetFor r R.env) (hr : 2 ≤ r) (a : Nat) :
    (R.state (r + a - 1)).fifoControls.fifoDescBuffARdaddr =
      fieldAt R.p.rdFifoNum (R.slot (a - 2)) (descWidth R.p) := by
  have hheld : ∀ j < r, (R.state (j + 1)).fifoControls.fifoDescBuffARdaddr =
      fieldAt R.p.rdFifoNum (R.slot 0) (descWidth R.p) := by
    intro j hj
    rw [R.fifoControls_succ, clockFifoControls, psm1_held h hj, slot, Nat.zero_mod]
  rcases a with _ | _ | a
  · have hindex : r + 0 - 1 = r - 2 + 1 := by omega
    rw [hindex]
    exact hheld _ (by omega)
  · have hindex : r + (0 + 1) - 1 = r - 1 + 1 := by omega
    rw [hindex]
    exact hheld _ (by omega)
  · exact rdaddrA_add (h.released (by omega)) a

theorem slot_of_commitTarget (h : ResetFor r R.env) (hr : 0 < r)
    (htarget : R.commitTarget k = some i) :
    ∃ a, 1 ≤ a ∧ k = r + a + 4 ∧ bitShifted R.p.doUpdate (R.slot a) = true ∧
      R.p.updateFifoNum[R.slot a]? = some i := by
  have hrel := h.released hr
  have hcommit := ps3_of_commitTarget htarget
  obtain ⟨m, rfl⟩ := exists_of_ps3 (h.rst hr) hcommit
  have hslot := commitSlot_of_ps3 hcommit
  have hcount := hslot.enabled
  have hge : r ≤ m + 4 := by
    by_contra hlt
    rw [state, seen, settle, if_pos (h.rst (Nat.not_le.mp hlt))] at hcount
    cases hcount
  obtain ⟨c, hc⟩ := Nat.exists_eq_add_of_le hge
  rw [hc, enableCounter_add hrel] at hcount
  have hindex : m + 6 = r + (c - 2) + 4 := by omega
  have hps3 := ps3_add hrel (c - 2)
  have hdo := hslot.doUpdate
  rw [commitTarget, if_pos hcommit] at htarget
  rw [hindex] at hdo htarget
  rw [hps3] at hdo htarget
  exact ⟨c - 2, by omega, hindex, hdo, htarget⟩

end Rtl.Run

section Build

variable {sort : List FirEngineMacFifoDesc → List FirEngineMacFifoDesc} {spec : FirEngineSpec}
  {mac : FirEngineMacDesc} {p : RtlParameters} {T : Nat} {gs : List Nat} {R : Run δ}
  {r k i f a b : Nat}

theorem timeSlices_eq (hb : BuiltMac spec T mac) (hgen : Generated sort spec mac p) :
    p.timeSlices = T := hgen.timeSlices.trans hb.inv.refs_length

theorem slot_eq_mod (hlog : T = 2 ^ R.p.log2TimeSlices) (hT : 1 < T) (a : Nat) :
    R.slot a = a % T := by
  rw [Run.slot, regWidth]
  split
  · next hzero =>
    rw [hzero] at hlog
    omega
  · rw [hlog]

theorem owner_of_commitTarget (hb : BuiltMac spec T mac) (hgen : Generated sort spec mac R.p)
    (hreset : ResetFor r R.env) (hr : 0 < r) (htarget : R.commitTarget k = some i) :
    ∃ a f, 1 ≤ a ∧ k = r + a + 4 ∧ mac.firUpdateSlot[R.slot a]? = some ⟨some f⟩ ∧
      mac.inputFirs[i]? = some f := by
  obtain ⟨a, ha, hk, hdo, hup⟩ := Run.slot_of_commitTarget hreset hr htarget
  obtain ⟨f, hf⟩ := updateSlot_of_doUpdate hgen hdo
  obtain ⟨l, hl, hup'⟩ := updateFifoNum_of_slot hb hgen hf
  obtain rfl := Option.some.inj (hup.symm.trans hup')
  exact ⟨a, f, ha, hk, hf, hl⟩

theorem Paced.one_lt (h : Paced spec T f) (hb : BuiltMac spec T mac) (hf : f ∈ mac.inputFirs) :
    1 < T := by
  obtain ⟨b, hplaced⟩ := hb.inv.placed f hf
  obtain ⟨q, _, hpos, hI, hround⟩ := hplaced.interval_eq
  have hle : b.timeSliceInterval ≤ min q T := hI ▸ evenInterval_le hpos
  have hgap := h.gap
  rw [← hround] at hgap
  omega

theorem Paced.apart (h : Paced spec T f) (hb : BuiltMac spec T mac)
    (ha : mac.firUpdateSlot[a % T]? = some ⟨some f⟩)
    (hc : mac.firUpdateSlot[b % T]? = some ⟨some f⟩) (hlt : a < b) :
    a + (spec.numCoeff f + 3) ≤ b := by
  obtain ⟨c, hplaced⟩ := hb.inv.placed f (hb.inv.slot_owner ha)
  obtain ⟨_, _, _, _, hround⟩ := hplaced.interval_eq
  have hspaced := hplaced.equallySpaced (hround ▸ h.divides)
  have hgap := h.gap
  have hapart := hspaced.apart ha hc hlt
  rw [← hround] at hgap
  omega

theorem Paced.pass (h : Paced spec T f) (hb : BuiltMac spec T mac)
    (hlog : T = 2 ^ R.p.log2TimeSlices)
    (hslot : mac.firUpdateSlot[R.slot (a + (spec.numCoeff f - 1))]? = some ⟨some f⟩) :
    Pass spec mac R f a where
  taps := by
    intro j hj
    have hmem := hb.inv.slot_owner hslot
    have hT := h.one_lt hb hmem
    obtain ⟨c, hplaced⟩ := hb.inv.placed f hmem
    obtain ⟨_, _, _, _, hround⟩ := hplaced.interval_eq
    rw [slot_eq_mod hlog hT] at hslot ⊢
    have hlast : a + j + (spec.numCoeff f - 1 - j) = a + (spec.numCoeff f - 1) := by omega
    have href := hplaced.windows (hround ▸ h.divides) _ hslot (spec.numCoeff f - 1 - j)
      (Nat.sub_lt_of_lt (Nat.sub_one_lt_of_lt hj)) ((a + j) % T)
      (Nat.mod_lt _ (Nat.zero_lt_of_lt hT)) (by rw [Nat.mod_add_mod, hlast])
    have hj' : (spec.specOf f).coeff.length - 1 - (spec.numCoeff f - 1 - j) = j :=
      Nat.sub_sub_self (Nat.le_sub_one_of_lt hj)
    rwa [hj'] at href
  update := hslot

theorem Paced.rdFifoNum_before (h : Paced spec T f) (hb : BuiltMac spec T mac)
    (hgen : Generated sort spec mac p) (hd : Driven p) (hi : i < p.numFifos)
    (hf : mac.inputFirs[i]? = some f) (ha : mac.firUpdateSlot[a % T]? = some ⟨some f⟩) {j : Nat}
    (hj : j < 4) : fieldAt p.rdFifoNum ((a - j) % T) (descWidth p) = i := by
  have hmem := List.mem_of_getElem? hf
  obtain ⟨c, hplaced⟩ := hb.inv.placed f hmem
  obtain ⟨_, _, _, _, hround⟩ := hplaced.interval_eq
  have hback : a - j + min j a = a := by omega
  have htaps := h.taps
  have href := hplaced.windows (hround ▸ h.divides) (a % T) ha (min j a)
    ((Nat.min_le_left j a).trans_lt (hj.trans_le htaps)) ((a - j) % T)
    (Nat.mod_lt _ (Nat.zero_lt_of_lt (h.one_lt hb hmem))) (by rw [Nat.mod_add_mod, hback])
  obtain ⟨l, hl, hrd⟩ := rdFifoNum_of_ref hb hgen href
  obtain rfl := hb.inv.position_unique hf hl
  exact fieldAt_of_getElem? hrd (hi.trans_le (hd.fits.trans (descSize_le p)))

theorem commitReady_of_paced (hb : BuiltMac spec T mac) (hgen : Generated sort spec mac R.p)
    (hd : Driven R.p) (hlog : T = 2 ^ R.p.log2TimeSlices) (hreset : ResetFor r R.env)
    (hr : 2 ≤ r) (hpaced : ∀ f ∈ mac.inputFirs, Paced spec T f)
    (htarget : R.commitTarget k = some i) : Run.CommitReady R k i := by
  have hpos : 0 < r := by omega
  obtain ⟨hi, _⟩ := Run.wraddr_of_commitTarget hd (hreset.rst hpos) htarget
  obtain ⟨a, f, ha, rfl, hslot, hf⟩ := owner_of_commitTarget hb hgen hreset hpos htarget
  have hpace := hpaced f (List.mem_of_getElem? hf)
  have hT := hpace.one_lt hb (List.mem_of_getElem? hf)
  rw [slot_eq_mod hlog hT] at hslot
  have hquiet : ∀ l, r + a + 4 - 6 ≤ l → l < r + a + 4 → R.commitTarget l ≠ some i := by
    intro l hge hlt hl
    obtain ⟨c, g, _, rfl, hslot', hg⟩ := owner_of_commitTarget hb hgen hreset hpos hl
    obtain rfl := Option.some.inj (hf.symm.trans hg)
    rw [slot_eq_mod hlog hT] at hslot'
    have hapart := hpace.apart hb hslot' hslot (by omega)
    have htaps := hpace.taps
    omega
  have hport : ∀ j < 4, 2 ≤ j →
      (R.state (r + (a - (j - 2)) - 1)).fifoControls.fifoDescBuffARdaddr = i := by
    intro j hj hge
    have hindex : a - (j - 2) - 2 = a - j := by omega
    rw [Run.rdaddrA_sub hreset hr, hindex, slot_eq_mod hlog hT]
    exact hpace.rdFifoNum_before hb hgen hd hi hf hslot hj
  refine ⟨⟨hport 2 (by decide) (by decide), fun l hge hlt => hquiet l (by omega) hlt⟩, ?_, ?_⟩
  · have hindex : r + a + 4 - 6 = r + (a - 1) - 1 := by omega
    rw [hindex]
    exact hport 3 (by decide) (by decide)
  · exact hquiet _ le_rfl (by omega)

theorem origin_add_le (hb : BuiltMac spec T mac) (hr : ∀ f ∈ mac.inputFirs, InRange spec f)
    (harr : Arranged spec mac sort gs) (hgen : Generated sort spec mac p)
    (horder : gs.map (quantised spec) = mac.inputFirs.map (quantised spec))
    (hf : mac.inputFirs[i]? = some f) (htwo : 2 ≤ spec.numCoeff f) :
    ∀ desc, p.initialDescs[i]? = some desc →
      (fifoRegionOrigin desc).toNat + spec.numCoeff f ≤ p.coeffValues.length := by
  intro desc hdesc
  obtain ⟨g, hg, _, hnum⟩ := exists_of_positions horder hf
  obtain ⟨o, hat⟩ := harr.fifoAt hb hr hgen hg
  have hrange := hr g hat.mem
  have hring := hat.holdsRing (memWordsFor_eq_regionBits hrange (htwo.trans hnum.ge))
  obtain rfl := Option.some.inj (hat.desc.symm.trans hdesc)
  rw [hring.origin]
  have hfits := hat.fits
  have hwords := hrange.le_memWords
  omega

theorem passClear_of_paced (hb : BuiltMac spec T mac) (hgen : Generated sort spec mac R.p)
    (hlog : T = 2 ^ R.p.log2TimeSlices) (hreset : ResetFor r R.env) (hr : 0 < r)
    (hpace : Paced spec T f) (hf : mac.inputFirs[i]? = some f) (hpass : Pass spec mac R f a)
    (hcoeffs : ∀ desc, R.p.initialDescs[i]? = some desc →
      (fifoRegionOrigin desc).toNat + spec.numCoeff f ≤ 2 ^ addrWidth R.p) :
    Run.PassClear R r a (spec.numCoeff f) i where
  quiet := by
    intro l hge hlt hl
    have hT := hpace.one_lt hb (List.mem_of_getElem? hf)
    have hupdate := hpass.update
    obtain ⟨c, g, _, rfl, hslot, hg⟩ := owner_of_commitTarget hb hgen hreset hr hl
    obtain rfl := Option.some.inj (hf.symm.trans hg)
    rw [slot_eq_mod hlog hT] at hslot hupdate
    have htaps := hpace.taps
    have hapart := hpace.apart hb hslot hupdate (by omega)
    omega
  coeffs := hcoeffs

end Build

theorem paced_mac_keeps_up (spec : FirEngineSpec) (T : Nat) (d : FirEngineDesc)
    (h : buildFirEngine spec T = .ok d) (mac : FirEngineMacDesc) (hmac : mac ∈ d.firEngineMacDesc)
    (sort : List FirEngineMacFifoDesc → List FirEngineMacFifoDesc) (hsort : IsSort sort)
    (R : Run δ) (hp : generateRtl sort spec mac = .ok R.p)
    (hslices : R.p.timeSlices = 2 ^ R.p.log2TimeSlices) (hon : PowerOn R.p R.s₀) (r : Nat)
    (hr : 2 ≤ r) (hreset : ResetFor r R.env) (hpaced : ∀ f ∈ mac.inputFirs, Paced spec T f)
    (horder : FifosInSizeOrder spec mac) :
    (∀ k i, R.commitTarget k = some i → ∃ desc, Run.CommitLands R k i desc) ∧
    ∀ f a, mac.firUpdateSlot[R.slot (a + (spec.numCoeff f - 1))]? = some ⟨some f⟩ →
      Pass spec mac R f a ∧ ∃ i, mac.inputFirs[i]? = some f ∧
        ∃ desc, Run.PassReads R r a (spec.numCoeff f) i desc := by
  have hb := builtMac_of_buildFirEngine h hmac
  have hgen := generateRtl_eq_ok.mp hp
  have hrange := (renderable_of_generated hb hsort hgen).firs
  obtain ⟨gs, harr, hdesc⟩ := hb.inv.arranged hsort
  have hd := driven_of_generated hb hrange harr hgen
  have hpos : 0 < r := by omega
  have hrst := hreset.rst hpos
  have hlog : T = 2 ^ R.p.log2TimeSlices := (timeSlices_eq hb hgen).symm.trans hslices
  have hready : ∀ k i, R.commitTarget k = some i → Run.CommitReady R k i :=
    fun _ _ htarget => commitReady_of_paced hb hgen hd hlog hreset hr hpaced htarget
  rw [FifosInSizeOrder, ← Descending.Strict, ← Descending.only_arrangement_iff] at horder
  have hgs := horder _ (harr.perm.map _) hdesc
  constructor
  · intro k i htarget
    obtain ⟨_, f, _, _, _, hf⟩ := owner_of_commitTarget hb hgen hreset hpos htarget
    have hmem := List.mem_of_getElem? hf
    have htaps := (hpaced f hmem).taps
    obtain ⟨desc₀, hdesc₀⟩ : ∃ desc₀, R.p.initialDescs[i]? = some desc₀ := by
      obtain ⟨hi, _⟩ := Run.wraddr_of_commitTarget hd hrst htarget
      exact ⟨_, List.getElem?_eq_getElem (hi.trans_le hd.descs.ge)⟩
    have hfits := origin_add_le hb hrange harr hgen hgs hf (by omega) _ hdesc₀
    have hdepth := hgen.bufferDepth
    have hbelow := ringBelow_initial hb hrange harr hgen (coeffValues_le_bufferSize hgen)
      (two_dvd_bufferSize hgen (by omega))
    exact Run.commitLands_of_ready hon hd hbelow hrst htarget fun l _ hl => hready l i hl
  · intro f a hslot
    obtain ⟨i, hf, hup⟩ := updateFifoNum_of_slot hb hgen hslot
    have hpace := hpaced f (List.mem_of_getElem? hf)
    have htaps := hpace.taps
    have hpass := hpace.pass hb hlog hslot
    have hrel := hreset.released hpos
    obtain ⟨hslots, o, m, hring⟩ := hpass.setting hb hrange harr hgen hon hrst hrel hup
      fun l _ hl => (hready l i hl).descriptor
    refine ⟨hpass, i, hf, hring.reads_of_quiet hrel hslots
      (passClear_of_paced hb hgen hlog hreset hpos hpace hf hpass fun desc hdesc => ?_)⟩
    have hfits := origin_add_le hb hrange harr hgen hgs hf (by omega) desc hdesc
    exact hfits.trans ((coeffValues_le_bufferSize hgen).trans (bufferSize_le R.p))

example : Paced { clockFreq := 64, firSpec := [⟨8, [1, 1, 1, 1, 1]⟩] } 32 0 :=
  ⟨by decide, by decide +kernel, by decide +kernel⟩

end FirEngine
