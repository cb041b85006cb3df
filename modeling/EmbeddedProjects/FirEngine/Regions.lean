import EmbeddedProjects.FirEngine.FifoRegion
import EmbeddedProjects.FirEngine.FifoNumbering

namespace FirEngine

open FirEngineDesc FirEngineMacDesc AlignedRing Layout

def rangesFrom : Nat → List FirEngineMacFifoDesc → List (Nat × Nat)
  | _, [] => []
  | offset, fifo :: rest =>
    let offset := IntUtils.alignAddressOnOrAfter offset fifo.numFifoMemWords
    (offset, fifo.numFifoMemWords) :: rangesFrom (offset + fifo.numFifoMemWords) rest

def reservedRanges (sort : List FirEngineMacFifoDesc → List FirEngineMacFifoDesc)
    (mac : FirEngineMacDesc) : List (Nat × Nat) :=
  rangesFrom 0 (mac.sortFifosInDescendingSizeOrder sort).firEngineMacFifoDesc

def RtlParameters.initialDescs (p : RtlParameters) : List (BitVec 16) :=
  p.fifoSizes.map (BitVec.ofNat 16)

def RegionExact (ranges : List (Nat × Nat)) (descs : List (BitVec 16)) : Prop :=
  ∀ (i : Nat) (desc : BitVec 16), descs[i]? = some desc → ∃ offset words,
    ranges[i]? = some (offset, words) ∧ (fifoRegionOrigin desc).toNat = offset ∧
    (fifoRegionOrigin desc).toNat + (regionOf desc).toNat + 1 = offset + words

def pushAll (descs : List (BitVec 16)) (pushes : List Nat) : List (BitVec 16) :=
  pushes.foldl (fun descs i => descs.modify i pushed) descs

def Touches (desc : BitVec 16) (a : Nat) : Prop :=
  a = (nextAddr desc).toNat ∨ ∃ j ≤ (fifoLengthMinusOne desc).toNat,
    a = ((prevAddr desc)^[j] (fifoOffset desc)).toNat ∨
    a = ((succAddr desc)^[j] (popAddr desc)).toNat ∨
    a = (fifoRegionOrigin desc).toNat + j

def NoForeignAccess (ranges : List (Nat × Nat)) (descs : List (BitVec 16)) : Prop :=
  ∀ (pushes : List Nat) (i : Nat) (desc : BitVec 16), (pushAll descs pushes)[i]? = some desc →
    ∀ a, Touches desc a → ∀ l offset words, l ≠ i → ranges[l]? = some (offset, words) →
      ¬ Within offset words a

def BankInv (ranges : List (Nat × Nat)) (descs : List (BitVec 16)) : Prop :=
  ∀ (i : Nat) (desc : BitVec 16), descs[i]? = some desc → ∃ o n, HoldsRing o n desc ∧
    ranges[i]? = some (o, 2 ^ regionBits (n - 1))

variable {ranges : List (Nat × Nat)} {descs : List (BitVec 16)}

theorem BankInv.push (h : BankInv ranges descs) (i : Nat) :
    BankInv ranges (descs.modify i pushed) := by
  intro k desc hk
  rw [List.getElem?_modify] at hk
  obtain ⟨desc₀, hdesc₀, rfl⟩ := Option.map_eq_some_iff.mp hk
  obtain ⟨o, n, hring, hrange⟩ := h k desc₀ hdesc₀
  split
  · exact ⟨o, n, hring.pushed, hrange⟩
  · exact ⟨o, n, hring, hrange⟩

theorem BankInv.pushAll (h : BankInv ranges descs) (pushes : List Nat) :
    BankInv ranges (pushAll descs pushes) := by
  induction pushes generalizing descs with
  | nil => exact h
  | cons i pushes ih => exact ih (h.push i)

theorem HoldsRing.within_of_touches {o n : Nat} {desc : BitVec 16} (h : HoldsRing o n desc)
    {a : Nat} (ha : Touches desc a) : Within o (2 ^ regionBits (n - 1)) a := by
  have hpos : 0 < 2 ^ regionBits (n - 1) := Nat.two_pow_pos _
  rcases ha with rfl | ⟨j, hj, rfl | rfl | rfl⟩
  · exact h.within_next
  · rw [h.iterate_prev]
    exact within_iterate_back hpos h.within j
  · rw [h.iterate_succ]
    exact within_iterate_advance hpos h.within_pop j
  · rw [h.origin]
    have hlt := (regionBits_spec (fifoLengthMinusOne_lt desc)).1
    rw [h.length] at hj hlt
    exact ⟨Nat.le_add_right _ _, by omega⟩

def Separate (ranges : List (Nat × Nat)) : Prop :=
  ∀ (i l : Nat) (r r' : Nat × Nat), i ≠ l → ranges[i]? = some r → ranges[l]? = some r' →
    r.1 + r.2 ≤ r'.1 ∨ r'.1 + r'.2 ≤ r.1

theorem BankInv.noForeignAccess (h : BankInv ranges descs) (hsep : Separate ranges) :
    NoForeignAccess ranges descs := by
  intro pushes i desc hdesc a ha l offset words hl hrange
  obtain ⟨o, n, hring, hown⟩ := h.pushAll pushes i desc hdesc
  exact (hring.within_of_touches ha).disjoint (hsep i l _ _ (Ne.symm hl) hown hrange)

theorem BankInv.regionExact (h : BankInv ranges descs) : RegionExact ranges descs := by
  intro i desc hdesc
  obtain ⟨o, n, hring, hrange⟩ := h i desc hdesc
  refine ⟨o, _, hrange, hring.origin, ?_⟩
  have hpos : 0 < 2 ^ regionBits (n - 1) := Nat.two_pow_pos _
  rw [hring.origin, regionOf_eq, hring.bits, toNat_mask (regionBits_le _)]
  omega

section Build

variable {sort : List FirEngineMacFifoDesc → List FirEngineMacFifoDesc} {spec : FirEngineSpec}
  {mac : FirEngineMacDesc} {p : RtlParameters} {T : Nat} {gs : List Nat}

theorem rangesFrom_eq {fifos : List FirEngineMacFifoDesc} (h : ∀ fifo ∈ fifos, Sized fifo)
    (offset : Nat) :
    rangesFrom offset fifos = (starts offset (memWords fifos)).zip (memWords fifos) := by
  induction fifos generalizing offset with
  | nil => rfl
  | cons fifo fifos ih =>
    simp only [List.mem_cons, forall_eq_or_imp] at h
    simp only [rangesFrom, h.1.align, ih h.2, memWords, List.map_cons, starts, List.zip_cons_cons]

theorem separate_reservedRanges (harr : Arranged spec mac sort gs)
    (hr : ∀ f ∈ mac.inputFirs, InRange spec f) : Separate (reservedRanges sort mac) := by
  have hsized := harr.sized hr
  have hpos := memWords_pos hsized
  intro i l r r' hil hi hl
  rw [reservedRanges, harr.fifos, rangesFrom_eq hsized] at hi hl
  obtain ⟨hi1, hi2⟩ := List.getElem?_zip_eq_some.mp hi
  obtain ⟨hl1, hl2⟩ := List.getElem?_zip_eq_some.mp hl
  rcases Nat.lt_or_gt_of_ne hil with hlt | hgt
  · exact .inl (starts_ordered hpos hlt hi1 hi2 hl1)
  · exact .inr (starts_ordered hpos hgt hl1 hl2 hi1)

theorem memWordsFor_eq_regionBits {f : Nat} (h : InRange spec f) (htwo : 2 ≤ spec.numCoeff f) :
    memWordsFor (quantised spec f) = 2 ^ regionBits (spec.numCoeff f - 1) := by
  have hle := h.le
  obtain ⟨i, hi, hroom, hmin⟩ :=
    IntUtils.roundUpToPowerOfTwo_spec (hle.trans (by decide : 64 ≤ 2 ^ 31))
  obtain ⟨hlt, hleast⟩ := regionBits_spec (by omega : spec.numCoeff f - 1 < 64)
  rw [memWordsFor, length_quantised, hi]
  congr 1
  rcases Nat.lt_trichotomy i (regionBits (spec.numCoeff f - 1)) with h1 | h1 | h1
  · cases i with
    | zero => omega
    | succ i =>
      have := hleast (i + 1) (by omega) h1
      omega
  · exact h1
  · have := hmin _ h1
    omega

structure FifoAt (spec : FirEngineSpec) (mac : FirEngineMacDesc)
    (sort : List FirEngineMacFifoDesc → List FirEngineMacFifoDesc) (p : RtlParameters)
    (k g o : Nat) : Prop where
  mem : g ∈ mac.inputFirs
  range : (reservedRanges sort mac)[k]? = some (o, memWordsFor (quantised spec g))
  desc : p.initialDescs[k]? = some (BitVec.ofNat 16 (o * 64 + (spec.numCoeff g - 1)))
  offset : (fifoOffset (BitVec.ofNat 16 (o * 64 + (spec.numCoeff g - 1)))).toNat = o
  length : (fifoLengthMinusOne (BitVec.ofNat 16 (o * 64 + (spec.numCoeff g - 1)))).toNat =
    spec.numCoeff g - 1
  aligned : memWordsFor (quantised spec g) ∣ o
  fits : o + memWordsFor (quantised spec g) ≤ p.coeffValues.length

theorem Arranged.fifoAt (harr : Arranged spec mac sort gs) (hb : BuiltMac spec T mac)
    (hr : ∀ f ∈ mac.inputFirs, InRange spec f) (hgen : Generated sort spec mac p) {k g : Nat}
    (hk : gs[k]? = some g) : ∃ o, FifoAt spec mac sort p k g o := by
  obtain ⟨o, ho, hentry⟩ := harr.entry hb hr hgen hk
  have hg := harr.perm.mem_iff.mp (List.mem_of_getElem? hk)
  have hle := (hr g hg).le
  have hrender := hgen.render_fifoSizes _ (List.mem_of_getElem? hentry.size)
  have hnat : (BitVec.ofNat 16 (o * 64 + (spec.numCoeff g - 1))).toNat =
      o * 64 + (spec.numCoeff g - 1) := by
    rw [BitVec.toNat_ofNat, Nat.mod_eq_of_lt hrender]
  refine ⟨o, hg, ?_, ?_, ?_, ?_, hentry.aligned, hentry.fits⟩
  · rw [reservedRanges, harr.fifos, rangesFrom_eq (harr.sized hr), List.getElem?_zip_eq_some]
    refine ⟨ho, ?_⟩
    rw [memWords_map, List.getElem?_map, hk]
    rfl
  · rw [RtlParameters.initialDescs, List.getElem?_map, hentry.size]
    rfl
  · rw [toNat_fifoOffset, hnat]
    omega
  · rw [toNat_fifoLengthMinusOne, hnat]
    omega

theorem FifoAt.holdsRing {k g o : Nat} (h : FifoAt spec mac sort p k g o)
    (hwords : memWordsFor (quantised spec g) = 2 ^ regionBits (spec.numCoeff g - 1)) :
    HoldsRing o (spec.numCoeff g) (BitVec.ofNat 16 (o * 64 + (spec.numCoeff g - 1))) where
  length := h.length
  aligned := hwords ▸ h.aligned
  within := by
    rw [h.offset]
    exact ⟨le_rfl, Nat.lt_add_of_pos_right (Nat.two_pow_pos _)⟩

theorem length_initialDescs (hr : ∀ f ∈ mac.inputFirs, InRange spec f)
    (harr : Arranged spec mac sort gs) (hgen : Generated sort spec mac p) :
    p.initialDescs.length = gs.length := by
  have hsizes := hgen.fifoSizes
  rw [establishFifoSizes, harr.fifos, fifoSizesFrom_eq_ok (harr.sized hr)] at hsizes
  rw [RtlParameters.initialDescs, hsizes.2]
  simp [memWords]

theorem bankInv_initial (hb : BuiltMac spec T mac) (hr : ∀ f ∈ mac.inputFirs, InRange spec f)
    (harr : Arranged spec mac sort gs) (hgen : Generated sort spec mac p)
    (htwo : ∀ f ∈ mac.inputFirs, 2 ≤ spec.numCoeff f) :
    BankInv (reservedRanges sort mac) p.initialDescs := by
  intro k desc hk
  have hlt : k < gs.length := by
    rw [← length_initialDescs hr harr hgen]
    exact (List.getElem?_eq_some_iff.mp hk).1
  obtain ⟨o, hat⟩ := harr.fifoAt hb hr hgen (List.getElem?_eq_getElem hlt)
  have hwords := memWordsFor_eq_regionBits (hr _ hat.mem) (htwo _ hat.mem)
  rw [hat.desc, Option.some.injEq] at hk
  subst hk
  exact ⟨o, _, hat.holdsRing hwords, hwords ▸ hat.range⟩

theorem two_le_of_regionExact (hb : BuiltMac spec T mac)
    (hr : ∀ f ∈ mac.inputFirs, InRange spec f) (harr : Arranged spec mac sort gs)
    (hgen : Generated sort spec mac p)
    (h : RegionExact (reservedRanges sort mac) p.initialDescs) :
    ∀ f ∈ mac.inputFirs, 2 ≤ spec.numCoeff f := by
  intro f hf
  obtain ⟨k, hk⟩ := List.getElem?_of_mem (harr.perm.mem_iff.mpr hf)
  obtain ⟨o, hat⟩ := harr.fifoAt hb hr hgen hk
  obtain ⟨offset, words, hrange, horigin, hend⟩ := h k _ hat.desc
  by_contra hlt
  have hpos := (hr f hf).pos
  have hone : spec.numCoeff f = 1 := by omega
  rw [hat.range, memWordsFor_of_one hone, Option.some.injEq] at hrange
  cases hrange
  have hregion : regionOf (BitVec.ofNat 16 (o * 64 + (spec.numCoeff f - 1))) = 1 := by
    rw [regionOf_eq, regionBitsOf, hat.length, hone]
    decide
  rw [hregion] at hend
  change (fifoRegionOrigin _).toNat + 1 + 1 = o + 1 at hend
  omega

end Build

theorem fifo_regions_exact_iff (spec : FirEngineSpec) (T : Nat) (d : FirEngineDesc)
    (h : buildFirEngine spec T = .ok d) (mac : FirEngineMacDesc) (hmac : mac ∈ d.firEngineMacDesc)
    (sort : List FirEngineMacFifoDesc → List FirEngineMacFifoDesc) (hsort : IsSort sort)
    (p : RtlParameters) (hp : generateRtl sort spec mac = .ok p) :
    (RegionExact (reservedRanges sort mac) p.initialDescs ∧
      NoForeignAccess (reservedRanges sort mac) p.initialDescs) ↔
      ∀ f ∈ mac.inputFirs, 2 ≤ spec.numCoeff f := by
  have hb := builtMac_of_buildFirEngine h hmac
  have hgen := generateRtl_eq_ok.mp hp
  have hr := (renderable_of_generated hb hsort hgen).firs
  obtain ⟨gs, harr, _⟩ := hb.inv.arranged hsort
  constructor
  · exact fun hexact => two_le_of_regionExact hb hr harr hgen hexact.1
  · intro htwo
    have hinv := bankInv_initial hb hr harr hgen htwo
    exact ⟨hinv.regionExact, hinv.noForeignAccess (separate_reservedRanges harr hr)⟩

def twoThreeTapSpec : FirEngineSpec where
  clockFreq := 16
  firSpec := [⟨2, [1 / 4, 1 / 4]⟩, ⟨2, [1 / 4, 1 / 4, -1 / 2]⟩]

theorem fifo_regions_exact_two_three_taps : ∃ d mac p,
    buildFirEngine twoThreeTapSpec 8 = .ok d ∧ mac ∈ d.firEngineMacDesc ∧
    generateRtl insertionSortByMemWords twoThreeTapSpec mac = .ok p ∧
    RegionExact (reservedRanges insertionSortByMemWords mac) p.initialDescs ∧
    NoForeignAccess (reservedRanges insertionSortByMemWords mac) p.initialDescs := by
  obtain ⟨d, hd, hcheck⟩ := Outcome.exists_of_okAnd (x := buildFirEngine twoThreeTapSpec 8)
    (p := fun d => d.firEngineMacDesc.any fun mac =>
      decide (∀ f ∈ mac.inputFirs, 2 ≤ twoThreeTapSpec.numCoeff f) &&
        Outcome.okAnd (generateRtl insertionSortByMemWords twoThreeTapSpec mac) fun _ => true)
    (by decide +kernel)
  obtain ⟨mac, hmac, hcheck⟩ := List.any_eq_true.mp hcheck
  simp only [Bool.and_eq_true, decide_eq_true_eq] at hcheck
  obtain ⟨p, hp, _⟩ := Outcome.exists_of_okAnd hcheck.2
  exact ⟨d, mac, p, hd, hmac, hp, (fifo_regions_exact_iff twoThreeTapSpec 8 d hd mac hmac
    insertionSortByMemWords isSort_insertionSortByMemWords p hp).mpr hcheck.1⟩

def oneTapSpec : FirEngineSpec where
  clockFreq := 16
  firSpec := [⟨2, [1 / 4, 1 / 4]⟩, ⟨2, [1 / 2]⟩, ⟨2, [1 / 2]⟩]

theorem one_tap_firs_share_words : ∃ d mac p,
    buildFirEngine oneTapSpec 8 = .ok d ∧ mac ∈ d.firEngineMacDesc ∧
    generateRtl insertionSortByMemWords oneTapSpec mac = .ok p ∧
    ¬ RegionExact (reservedRanges insertionSortByMemWords mac) p.initialDescs ∧
    ¬ NoForeignAccess (reservedRanges insertionSortByMemWords mac) p.initialDescs := by
  obtain ⟨d, hd, hcheck⟩ := Outcome.exists_of_okAnd (x := buildFirEngine oneTapSpec 8)
    (p := fun d => d.firEngineMacDesc.any fun mac =>
      decide (reservedRanges insertionSortByMemWords mac = [(0, 2), (2, 1), (3, 1)]) &&
        Outcome.okAnd (generateRtl insertionSortByMemWords oneTapSpec mac)
          fun p => decide (p.initialDescs = [1#16, 128#16, 192#16])) (by decide +kernel)
  obtain ⟨mac, hmac, hcheck⟩ := List.any_eq_true.mp hcheck
  simp only [Bool.and_eq_true, decide_eq_true_eq] at hcheck
  obtain ⟨hranges, hp⟩ := hcheck
  obtain ⟨p, hp, hdescs⟩ := Outcome.exists_of_okAnd hp
  refine ⟨d, mac, p, hd, hmac, hp, ?_⟩
  rw [of_decide_eq_true hdescs, hranges]
  refine ⟨fun hexact => ?_, fun hfree => ?_⟩
  · obtain ⟨offset, words, hrange, _, hend⟩ := hexact 1 128#16 rfl
    cases hrange
    exact absurd hend (by decide)
  · exact hfree [] 1 128#16 rfl 3 (.inl (by decide)) 2 3 1 (by decide) rfl ⟨le_rfl, by decide⟩

end FirEngine
