import EmbeddedProjects.FirEngine.Commits

namespace FirEngine

open FirEngineDesc FirEngineMacDesc Rtl AlignedRing

variable {δ : Type}

namespace Rtl.Run

section Addresses

structure TapSlots (R : Run δ) (a n i : Nat) : Prop where
  firstTap : ∀ j < n, bitShifted R.p.firstTap (R.slot (a + j)) = decide (j = 0)
  rdFifoNum : ∀ j < n, fieldAt R.p.rdFifoNum (R.slot (a + j)) (descWidth R.p) = i

variable {R : Run δ} {r a n i o m : Nat}

def tapDesc (R : Run δ) (r a j : Nat) : BitVec 16 := R.descRead (r + (a + j) + 1)

theorem currFifo_tap (R : Run δ) (r a j : Nat) :
    currFifo (R.state (r + (a + j) + 3)) = R.tapDesc r a j := R.currFifo_add_two _

theorem readAddrs_first (hrel : Released r R.env) (hslots : TapSlots R a n i)
    (hn : 0 < n) (hring : HoldsRing o m (R.tapDesc r a 0))
    (hbelow : o + 2 ^ regionBits (m - 1) ≤ 2 ^ addrWidth R.p) :
    (R.state (r + a + 4)).readAddrs.dataBuffA0Rdaddr = (fifoOffset (R.tapDesc r a 0)).toNat ∧
      (R.state (r + a + 4)).readAddrs.coefBuffRdaddr = o := by
  have hfirst : (R.state (r + a + 3)).fifoControls.firstTapPs2 = true := by
    rw [firstTapPs2_add hrel, ← Nat.add_zero a, hslots.firstTap 0 hn]
    rfl
  have hcurr : currFifo (R.state (r + a + 3)) = R.tapDesc r a 0 := R.currFifo_tap r a 0
  have hoffset := hring.within
  rw [R.readAddrs_succ (r + a + 3), clockReadAddrs, if_pos hfirst, hcurr]
  exact ⟨Nat.mod_eq_of_lt (hoffset.2.trans_le hbelow),
    (congrArg (· % 2 ^ addrWidth R.p) hring.origin).trans
      (Nat.mod_eq_of_lt ((Nat.lt_of_le_of_lt hoffset.1 hoffset.2).trans_le hbelow))⟩

theorem readAddrs_succ_tap (hrel : Released r R.env) (hslots : TapSlots R a n i)
    {j : Nat} (hj : j + 1 < n) (hring : HoldsRing o m (R.tapDesc r a (j + 1)))
    (hbelow : o + 2 ^ regionBits (m - 1) ≤ 2 ^ addrWidth R.p) :
    (R.state (r + (a + (j + 1)) + 4)).readAddrs.dataBuffA0Rdaddr =
        back o (2 ^ regionBits (m - 1)) ((R.state (r + (a + j) + 4)).readAddrs.dataBuffA0Rdaddr) ∧
      (R.state (r + (a + (j + 1)) + 4)).readAddrs.coefBuffRdaddr =
        ((R.state (r + (a + j) + 4)).readAddrs.coefBuffRdaddr + 1) % 2 ^ addrWidth R.p := by
  have hfirst : (R.state (r + (a + (j + 1)) + 3)).fifoControls.firstTapPs2 = false := by
    rw [firstTapPs2_add hrel, hslots.firstTap _ hj]
    rfl
  have hback := within_back (o := o) (a := (R.state (r + (a + j) + 4)).readAddrs.dataBuffA0Rdaddr)
    (Nat.two_pow_pos (regionBits (m - 1)))
  have hstep := R.readAddrs_succ (r + (a + (j + 1)) + 3)
  rw [clockReadAddrs, if_neg (by simp [hfirst]), currFifo_tap] at hstep
  change (R.state (r + (a + (j + 1)) + 4)).readAddrs = _ at hstep
  rw [hstep]
  refine ⟨?_, rfl⟩
  change (prevAddr _ (BitVec.ofNat 10 (R.state (r + (a + j) + 4)).readAddrs.dataBuffA0Rdaddr)).toNat
    % _ = _
  rw [hring.prev_ofNat]
  exact Nat.mod_eq_of_lt (hback.2.trans_le hbelow)

theorem readAddrs_tap (hrel : Released r R.env) (hslots : TapSlots R a n i)
    (hring : ∀ j < n, HoldsRing o m (R.tapDesc r a j))
    (hbelow : o + 2 ^ regionBits (m - 1) ≤ 2 ^ addrWidth R.p) {j : Nat} (hj : j < n) :
    (R.state (r + (a + j) + 4)).readAddrs.dataBuffA0Rdaddr =
        (back o (2 ^ regionBits (m - 1)))^[j] (fifoOffset (R.tapDesc r a 0)).toNat ∧
      (R.state (r + (a + j) + 4)).readAddrs.coefBuffRdaddr = (o + j) % 2 ^ addrWidth R.p := by
  induction j with
  | zero =>
    obtain ⟨hdata, hcoef⟩ := readAddrs_first hrel hslots hj (hring 0 hj) hbelow
    refine ⟨hdata, hcoef.trans (Nat.mod_eq_of_lt ?_).symm⟩
    exact (Nat.lt_add_of_pos_right (Nat.two_pow_pos _)).trans_le hbelow
  | succ j ih =>
    obtain ⟨hdata, hcoef⟩ := ih (Nat.lt_of_succ_lt hj)
    obtain ⟨hdata', hcoef'⟩ := readAddrs_succ_tap hrel hslots hj (hring _ hj) hbelow
    rw [hdata', hcoef', hdata, hcoef, Function.iterate_succ_apply', Nat.mod_add_mod]
    exact ⟨rfl, rfl⟩

end Addresses

section Pass

structure PassReads (R : Run δ) (r a n i : Nat) (desc : BitVec 16) : Prop where
  bank : (R.bank (r + a + 4))[i]? = some desc
  data : ∀ j < n, (R.state (r + (a + j) + 4)).readAddrs.dataBuffA0Rdaddr =
    (back (fifoRegionOrigin desc).toNat (regionSize desc))^[j] (fifoOffset desc).toNat
  coef : ∀ j < n, (R.state (r + (a + j) + 4)).readAddrs.coefBuffRdaddr =
    (fifoRegionOrigin desc).toNat + j

structure PassClear (R : Run δ) (r a n i : Nat) : Prop where
  quiet : ∀ l, r + a < l → l < r + a + 4 → R.commitTarget l ≠ some i
  coeffs : ∀ desc, R.p.initialDescs[i]? = some desc →
    (fifoRegionOrigin desc).toNat + n ≤ 2 ^ addrWidth R.p

structure PassRing (R : Run δ) (r a n i o m : Nat) : Prop where
  pos : 0 < n
  fifo : i < R.p.numFifos
  origin : ∀ desc, R.p.initialDescs[i]? = some desc → (fifoRegionOrigin desc).toNat = o
  ring : ∀ k desc, (R.bank k)[i]? = some desc → HoldsRing o m desc
  below : o + 2 ^ regionBits (m - 1) ≤ 2 ^ addrWidth R.p
  taps : ∀ j < n, (R.bank (r + (a + j) + 1))[i]? = some (R.tapDesc r a j)
  -- of two commits to `i`, the later one is not in the five cycles after the other
  apart : ∀ l l', l < l' → l' < r + a + 4 → R.commitTarget l = some i →
    R.commitTarget l' = some i → l + 5 < l'

variable {R : Run δ} {r a n i o m : Nat} {desc : BitVec 16}

theorem passRing_of_ready (hon : PowerOn R.p R.s₀) (hd : Driven R.p)
    (h0 : (R.env 0).iRst = true) (hrel : Released r R.env)
    (hslots : TapSlots R a n i) (hn : 0 < n) (hi : i < R.p.numFifos)
    (hbelow : ∀ desc ∈ R.p.initialDescs, RingBelow (2 ^ addrWidth R.p) desc)
    (hready : ∀ l < r + a + n + 3, R.commitTarget l = some i → DescriptorReady R l i) :
    ∃ o m, PassRing R r a n i o m := by
  have hlt : i < R.p.initialDescs.length := hi.trans_le hd.descs.ge
  obtain ⟨o, m, hring, hle⟩ := hbelow _ (List.getElem_mem hlt)
  have hfirst := List.getElem?_eq_getElem hlt
  refine ⟨o, m, hn, hi, fun desc hdesc => ?_, fun k desc hdesc => ?_, hle, fun j hj => ?_,
    fun l l' hlt hl' hl hcommit => ?_⟩
  · obtain rfl := Option.some.inj (hfirst.symm.trans hdesc)
    exact hring.origin
  · exact holdsRing_pushAll hfirst hring _ desc hdesc
  · have hport := (rdaddrA_add hrel (a + j)).trans (hslots.rdFifoNum j hj)
    refine descRead_of_synced hd hi (synced_of_ready hon hd h0 hi _ fun l hl => ?_) hport
    exact hready l (by omega)
  · have hquiet := (hready l' (by omega) hcommit).quiet l
    by_contra hnear
    exact hquiet (by omega) hlt hl

theorem PassRing.reads_of_quiet (h : PassRing R r a n i o m) (hrel : Released r R.env)
    (hslots : TapSlots R a n i) (hclear : PassClear R r a n i) :
    ∃ desc, PassReads R r a n i desc := by
  have hbank : (R.bank (r + a + 4))[i]? = some (R.tapDesc r a 0) := by
    rw [bank_of_quiet (by omega : r + a + 1 ≤ r + a + 4) hclear.quiet]
    exact h.taps 0 h.pos
  have hring := h.ring _ _ hbank
  have hfits : o + n ≤ 2 ^ addrWidth R.p := by
    obtain ⟨desc, hdesc⟩ : ∃ desc, R.p.initialDescs[i]? = some desc := by
      refine ⟨_, List.getElem?_eq_getElem ?_⟩
      rw [← length_bank R (r + a + 4)]
      exact (List.getElem?_eq_some_iff.mp hbank).1
    rw [← h.origin desc hdesc]
    exact hclear.coeffs desc hdesc
  have htap : ∀ j < n, _ := fun j hj =>
    readAddrs_tap hrel hslots (fun j hj => h.ring _ _ (h.taps j hj)) h.below hj
  refine ⟨_, hbank, fun j hj => ?_, fun j hj => ?_⟩
  · rw [hring.origin, regionSize_eq, hring.bits]
    exact (htap j hj).1
  · rw [hring.origin, (htap j hj).2]
    exact Nat.mod_eq_of_lt (by omega)

theorem PassRing.quiet_of_reads (h : PassRing R r a n i o m) (hrel : Released r R.env)
    (hslots : TapSlots R a n i) (hreads : PassReads R r a n i desc) :
    PassClear R r a n i := by
  have htap : ∀ j < n, _ := fun j hj =>
    readAddrs_tap hrel hslots (fun j hj => h.ring _ _ (h.taps j hj)) h.below hj
  have hring := h.ring _ _ hreads.bank
  have hring₀ := h.ring _ _ (h.taps 0 h.pos)
  refine ⟨fun l hl hl' hcommit => ?_, fun desc₀ hdesc₀ => ?_⟩
  · -- the one commit in between moved the pointer that tap 0 should have seen
    have hbefore : (R.bank l)[i]? = some (R.tapDesc r a 0) := by
      rw [bank_of_quiet (by omega : r + a + 1 ≤ l) fun l₁ _ hlt hl₁ => ?_]
      · exact h.taps 0 h.pos
      · have := h.apart l₁ l hlt hl' hl₁ hcommit
        omega
    have hafter : (R.bank (r + a + 4))[i]? = some (pushed (R.tapDesc r a 0)) := by
      rw [bank_of_quiet (by omega : l + 1 ≤ r + a + 4) fun l₁ hge hlt hl₁ => ?_,
        bank_succ_of_some hcommit, List.getElem?_modify_eq, hbefore]
      · rfl
      · have := h.apart l l₁ hge hlt hcommit hl₁
        omega
    obtain rfl := Option.some.inj (hafter.symm.trans hreads.bank)
    have hoffset := (hreads.data 0 h.pos).symm.trans (htap 0 h.pos).1
    rw [Function.iterate_zero_apply, Function.iterate_zero_apply, pushed,
      fifoOffset_fifoDescWord, hring₀.next] at hoffset
    refine advance_ne ?_ hring₀.aligned hring₀.within hoffset
    exact Nat.one_lt_two_pow (Nat.one_le_iff_ne_zero.mp (one_le_regionBits _))
  · have hlast := hreads.coef (n - 1) (by have := h.pos; omega)
    rw [(htap (n - 1) (by have := h.pos; omega)).2, hring.origin] at hlast
    have hmod := Nat.mod_lt (o + (n - 1)) (Nat.two_pow_pos (addrWidth R.p))
    have := h.pos
    rw [h.origin desc₀ hdesc₀]
    omega

end Pass

end Rtl.Run

section Build

variable {sort : List FirEngineMacFifoDesc → List FirEngineMacFifoDesc} {spec : FirEngineSpec}
  {mac : FirEngineMacDesc} {T : Nat} {R : Run δ} {f a i : Nat}

structure Pass (spec : FirEngineSpec) (mac : FirEngineMacDesc) (R : Run δ) (f a : Nat) : Prop where
  taps : ∀ j < spec.numCoeff f, mac.firCoeffRef[R.slot (a + j)]? = some ⟨some f, j⟩
  update : mac.firUpdateSlot[R.slot (a + (spec.numCoeff f - 1))]? = some ⟨some f⟩

theorem Pass.tapSlots (hpass : Pass spec mac R f a) (hb : BuiltMac spec T mac)
    (hgen : Generated sort spec mac R.p) (hd : Driven R.p) (hi : i < R.p.numFifos)
    (hup : R.p.updateFifoNum[R.slot (a + (spec.numCoeff f - 1))]? = some i) :
    Run.TapSlots R a (spec.numCoeff f) i where
  firstTap := by
    intro j hj
    have hfirst : R.p.firstTap = mac.establishFirstTapCtrl := congrArg (·.firstTap) hgen.result
    rw [bitShifted, fieldAt, hfirst, establishFirstTapCtrl, List.getD_eq_getElem?_getD,
      List.getElem?_map, hpass.taps j hj]
    cases j <;> rfl
  rdFifoNum := by
    intro j hj
    obtain ⟨k, hk, hrd⟩ := rdFifoNum_of_ref hb hgen (hpass.taps j hj)
    obtain ⟨l, hl, hup'⟩ := updateFifoNum_of_slot hb hgen hpass.update
    obtain rfl := hb.inv.position_unique hk hl
    obtain rfl := Option.some.inj (hup'.symm.trans hup)
    exact fieldAt_of_getElem? hrd (hi.trans_le (hd.fits.trans (descSize_le R.p)))

theorem two_dvd_addrSpace (p : RtlParameters) : 2 ∣ 2 ^ addrWidth p := by
  refine dvd_pow_self 2 ?_
  rw [addrWidth, regWidth]
  split
  · decide
  · assumption

theorem Pass.setting (hpass : Pass spec mac R f a) (hb : BuiltMac spec T mac)
    (hrange : ∀ f ∈ mac.inputFirs, InRange spec f) {gs : List Nat}
    (harr : Arranged spec mac sort gs) (hgen : Generated sort spec mac R.p)
    (hon : PowerOn R.p R.s₀) (hrst : (R.env 0).iRst = true) {r : Nat} (hrel : Released r R.env)
    (hup : R.p.updateFifoNum[R.slot (a + (spec.numCoeff f - 1))]? = some i)
    (hready : ∀ l < r + a + spec.numCoeff f + 3, R.commitTarget l = some i →
      Run.DescriptorReady R l i) :
    Run.TapSlots R a (spec.numCoeff f) i ∧
      ∃ o m, Run.PassRing R r a (spec.numCoeff f) i o m := by
  have hd := driven_of_generated hb hrange harr hgen
  have hi : i < R.p.numFifos := by
    obtain ⟨k, hk, hup'⟩ := updateFifoNum_of_slot hb hgen hpass.update
    obtain rfl := Option.some.inj (hup'.symm.trans hup)
    rw [numFifos_eq harr hgen, harr.perm.length_eq]
    exact (List.getElem?_eq_some_iff.mp hk).1
  have hslots := hpass.tapSlots hb hgen hd hi hup
  have hpos := (hrange f (hb.inv.slot_owner hpass.update)).pos
  have hbelow := ringBelow_initial hb hrange harr hgen
    ((coeffValues_le_bufferSize hgen).trans (bufferSize_le R.p)) (two_dvd_addrSpace R.p)
  exact ⟨hslots, Run.passRing_of_ready hon hd hrst hrel hslots hpos hi hbelow hready⟩

end Build

theorem pass_reads_back_iff (spec : FirEngineSpec) (T : Nat) (d : FirEngineDesc)
    (h : buildFirEngine spec T = .ok d) (mac : FirEngineMacDesc) (hmac : mac ∈ d.firEngineMacDesc)
    (sort : List FirEngineMacFifoDesc → List FirEngineMacFifoDesc) (hsort : IsSort sort)
    (R : Run δ) (hp : generateRtl sort spec mac = .ok R.p) (hon : PowerOn R.p R.s₀)
    (hrst : (R.env 0).iRst = true) (r : Nat) (hrel : Released r R.env) (f a i : Nat)
    (hpass : Pass spec mac R f a)
    (hup : R.p.updateFifoNum[R.slot (a + (spec.numCoeff f - 1))]? = some i)
    (hready : ∀ l < r + a + spec.numCoeff f + 3, R.commitTarget l = some i →
      Run.DescriptorReady R l i) :
    (∃ desc, Run.PassReads R r a (spec.numCoeff f) i desc) ↔
      Run.PassClear R r a (spec.numCoeff f) i := by
  have hb := builtMac_of_buildFirEngine h hmac
  have hgen := generateRtl_eq_ok.mp hp
  have hrange := (renderable_of_generated hb hsort hgen).firs
  obtain ⟨gs, harr, _⟩ := hb.inv.arranged hsort
  obtain ⟨hslots, o, m, hring⟩ := hpass.setting hb hrange harr hgen hon hrst hrel hup hready
  constructor
  · rintro ⟨desc, hreads⟩
    exact hring.quiet_of_reads hrel hslots hreads
  · exact hring.reads_of_quiet hrel hslots

def fullSpec : FirEngineSpec where
  clockFreq := 16
  firSpec := [⟨2, List.replicate 8 (1 / 4)⟩]

def fullParameters : RtlParameters where
  numInputs := 1
  numOutputs := 1
  log2BufferDepth := 3
  bufferDepth := 8
  log2NumFifos := 0
  numFifos := 1
  log2TimeSlices := 3
  timeSlices := 8
  channelSelect := [0, 15, 15, 15, 15, 15, 15, 15]
  firstEngine := [1, 0, 0, 0, 0, 0, 0, 0]
  lastEngine := [1, 0, 0, 0, 0, 0, 0, 0]
  firstTap := [0, 1, 0, 0, 0, 0, 0, 0]
  preAddMode := [0, 0, 0, 0, 0, 0, 0, 0]
  mulMode := [1, 0, 1, 1, 1, 1, 1, 1]
  addPrevEngineAccum := [0, 0, 0, 0, 0, 0, 0, 0]
  rdFifoNum := [0, 0, 0, 0, 0, 0, 0, 0]
  updateFifoNum := [0, 0, 0, 0, 0, 0, 0, 0]
  doUpdate := [1, 0, 0, 0, 0, 0, 0, 0]
  fifoSizes := [7]
  coeffValues := List.replicate 8 32768

def fullRun : Run DspRegs where
  p := fullParameters
  dsp := pipelined
  env := announce [4]
  s₀ := zeroState fullParameters {}

theorem generated_fullSpec : ∃ d mac, buildFirEngine fullSpec 8 = .ok d ∧
    mac ∈ d.firEngineMacDesc ∧
    generateRtl insertionSortByMemWords fullSpec mac = .ok fullParameters ∧
    Pass fullSpec mac fullRun 0 1 ∧ Pass fullSpec mac fullRun 0 9 := by
  obtain ⟨d, hd, hcheck⟩ := Outcome.exists_of_okAnd (x := buildFirEngine fullSpec 8)
    (p := fun d => d.firEngineMacDesc.any fun mac =>
      (decide (∀ j : Nat, j < 8 → mac.firCoeffRef[(1 + j) % 8]? =
          some (⟨some 0, j⟩ : FirCoeffRef)) &&
        decide (mac.firUpdateSlot[0]? = some (⟨some 0⟩ : FirUpdateSlot))) &&
      Outcome.okAnd (generateRtl insertionSortByMemWords fullSpec mac)
        fun p => decide (p = fullParameters)) (by decide +kernel)
  obtain ⟨mac, hmac, hcheck⟩ := List.any_eq_true.mp hcheck
  simp only [Bool.and_eq_true, decide_eq_true_eq] at hcheck
  obtain ⟨⟨htaps, hupdate⟩, hcheck⟩ := hcheck
  obtain ⟨p, hp, hcheck⟩ := Outcome.exists_of_okAnd hcheck
  refine ⟨d, mac, hd, hmac, of_decide_eq_true hcheck ▸ hp, ⟨htaps, hupdate⟩, ⟨?_, hupdate⟩⟩
  intro j hj
  have hround : 9 + j = 1 + j + 8 := by omega
  have hslot : fullRun.slot (9 + j) = (1 + j) % 8 := by
    rw [hround]
    exact Nat.add_mod_right _ 8
  rw [hslot]
  exact htaps j hj

theorem first_full_pass_reads_back : ∃ desc, Run.PassReads fullRun 1 1 8 0 desc := by
  obtain ⟨d, mac, hd, hmac, hp, hpass, _⟩ := generated_fullSpec
  have hnone : ∀ l < 13, fullRun.commitTarget l = none := by decide +kernel
  have hquiet : ∀ l < 13, fullRun.commitTarget l ≠ some 0 := by
    intro l hl
    rw [hnone l hl]
    simp
  refine (pass_reads_back_iff fullSpec 8 d hd mac hmac insertionSortByMemWords
    isSort_insertionSortByMemWords fullRun hp (powerOn_zeroState _ _) rfl 1
    ((resetFor_announce _).released Nat.one_pos) 0 1 0 hpass (by decide +kernel)
    fun l hl htarget => absurd htarget (hquiet l hl)).mpr ⟨?_, ?_⟩
  · exact fun l _ hl => hquiet l (hl.trans (by decide))
  · intro desc hdesc
    obtain rfl := Option.some.inj hdesc
    decide

theorem second_full_pass_misses_sample : ∃ d mac, buildFirEngine fullSpec 8 = .ok d ∧
    mac ∈ d.firEngineMacDesc ∧ IsSort insertionSortByMemWords ∧
    generateRtl insertionSortByMemWords fullSpec mac = .ok fullRun.p ∧
    PowerOn fullRun.p fullRun.s₀ ∧ ResetFor 1 fullRun.env ∧ Pass fullSpec mac fullRun 0 9 ∧
    fullRun.commitTarget 13 = some 0 ∧ ¬ ∃ desc, Run.PassReads fullRun 1 9 8 0 desc := by
  obtain ⟨d, mac, hd, hmac, hp, _, hpass⟩ := generated_fullSpec
  refine ⟨d, mac, hd, hmac, isSort_insertionSortByMemWords, hp, powerOn_zeroState _ _,
    resetFor_announce _, hpass, by decide +kernel, ?_⟩
  rintro ⟨desc, h⟩
  have hbank : fullRun.bank 14 = [71#16] := by decide +kernel
  have hdesc := h.bank
  change (fullRun.bank 14)[0]? = _ at hdesc
  rw [hbank] at hdesc
  obtain rfl := Option.some.inj hdesc
  exact absurd (h.data 0 (by decide)) (by decide +kernel)

end FirEngine
