import EmbeddedProjects.Lib.Windows
import EmbeddedProjects.FirEngine.Capacity
import EmbeddedProjects.FirEngine.Refusals

namespace FirEngine

open FirEngineDesc Windows

structure Uniform (spec : FirEngineSpec) (T I n N : Nat) : Prop where
  interval : ∀ f < N, roundedInterval T spec.clockFreq (spec.specOf f).sampleFreq = I
  taps : ∀ f < N, (spec.specOf f).coeff.length = n

def macCapacity (I n : Nat) : Nat := min 15 (I / n)

structure Stacked (spec : FirEngineSpec) (T I n first k : Nat) (mac : FirEngineMacDesc) :
    Prop where
  inputs : mac.inputFirs = List.range' first k
  placed : ∀ j < k, ∃ b, Placed spec T mac (first + j) b ∧ b.timeSliceOrigin = j * n ∧
    b.timeSliceInterval = I

structure FilledUp (spec : FirEngineSpec) (T I n N : Nat) (d : FirEngineDesc) : Prop where
  length : d.firEngineMacDesc.length = IntUtils.ceilDiv N (macCapacity I n)
  mac : ∀ {m : Nat} {mac : FirEngineMacDesc}, d.firEngineMacDesc[m]? = some mac →
    Stacked spec T I n (m * macCapacity I n) (min (macCapacity I n) (N - m * macCapacity I n)) mac

section Slots

variable {spec : FirEngineSpec} {T I n first k s : Nat} {mac : FirEngineMacDesc}

theorem Stacked.mem_inputs (h : Stacked spec T I n first k mac) {f : Nat} :
    f ∈ mac.inputFirs ↔ ∃ j < k, f = first + j := by
  rw [h.inputs, List.mem_range'_1]
  constructor
  · rintro ⟨hle, hlt⟩
    exact ⟨f - first, by omega, by omega⟩
  · rintro ⟨j, hj, rfl⟩
    omega

theorem Stacked.not_isNull_iff (h : Stacked spec T I n first k mac) (hinv : MacInv spec T mac)
    (htaps : ∀ j < k, (spec.specOf (first + j)).coeff.length = n) (hdvd : I ∣ T) (hs : s < T) :
    (mac.coeffRefAt s).isNull = false ↔ Covered I n k s := by
  have hrefs : ∀ j < k, (∃ i, mac.firCoeffRef[s]? = some ⟨some (first + j), i⟩) ↔
      ∃ i < n, (s + i) % I = j * n := by
    intro j hj
    obtain ⟨b, hb, horigin, rfl⟩ := h.placed j hj
    rw [hb.ref_iff hdvd hs, htaps j hj, horigin]
  rw [FirEngineMacDesc.isNull_coeffRefAt_eq_false]
  constructor
  · rintro ⟨f, i, hget⟩
    obtain ⟨j, hj, rfl⟩ := h.mem_inputs.mp (hinv.ref_owner hget)
    exact ⟨j, hj, (hrefs j hj).mp ⟨i, hget⟩⟩
  · rintro ⟨j, hj, hwindow⟩
    obtain ⟨i, hget⟩ := (hrefs j hj).mpr hwindow
    exact ⟨first + j, i, hget⟩

theorem Stacked.not_isSlotEmpty_iff (h : Stacked spec T I n first k mac)
    (hinv : MacInv spec T mac) (hs : s < T) :
    (mac.updateSlotAt s).isSlotEmpty = false ↔ ∃ j < k, s % I = j * n := by
  have hslots : ∀ j < k, mac.firUpdateSlot[s]? = some ⟨some (first + j)⟩ ↔ s % I = j * n := by
    intro j hj
    obtain ⟨b, hb, horigin, rfl⟩ := h.placed j hj
    rw [congrFun hb.slots_iff_mod s, horigin]
    exact and_iff_right hs
  rw [FirEngineMacDesc.isSlotEmpty_updateSlotAt_eq_false]
  constructor
  · rintro ⟨f, hget⟩
    obtain ⟨j, hj, rfl⟩ := h.mem_inputs.mp (hinv.slot_owner hget)
    exact ⟨j, hj, (hslots j hj).mp hget⟩
  · rintro ⟨j, hj, htop⟩
    exact ⟨first + j, (hslots j hj).mpr htop⟩

end Slots

section Search

variable {spec : FirEngineSpec} {d : FirEngineDesc} {firSpec : FirSpec} {T I n first k f m o : Nat}
  {mac : FirEngineMacDesc}

theorem canBindMac_iff {b : FirBinding} : d.canBindMac mac firSpec b = true ↔
    (mac.inputFirs.length ≠ 15 ∧ mac.outputFirs.length ≠ 15 ∧ mac.getNumFifos ≠ 256) ∧
    ∀ t ∈ b.timeSliceOffsets d.numTimeSlots, (mac.updateSlotAt t).isSlotEmpty = true ∧
      (mac.updateSlotAt (slotBefore d.numTimeSlots t d.firUpdateLatency)).isSlotEmpty = true ∧
      ∀ i < firSpec.coeff.length,
        (mac.coeffRefAt (slotBefore d.numTimeSlots t i)).isNull = true := by
  simp only [canBindMac, Bool.and_eq_true, bne_iff_ne, ne_eq, List.all_eq_true, List.mem_range]
  constructor
  · rintro ⟨⟨⟨⟨hin, hout⟩, hfifos⟩, hslots⟩, hrefs⟩
    exact ⟨⟨hin, hout, hfifos⟩, fun t ht => ⟨(hslots t ht).1, (hslots t ht).2, hrefs t ht⟩⟩
  · rintro ⟨⟨hin, hout, hfifos⟩, hall⟩
    exact ⟨⟨⟨⟨hin, hout⟩, hfifos⟩, fun t ht => ⟨(hall t ht).1, (hall t ht).2.1⟩⟩,
      fun t ht => (hall t ht).2.2⟩

theorem slotBefore_mod (hdvd : I ∣ T) {t i : Nat} (ht : t < T) :
    (slotBefore T t i + i) % I = t % I := by
  have hwrap := (slotBefore_eq_iff (slotBefore_lt (Nat.zero_lt_of_lt ht) t i)).mp rfl
  rw [← Nat.mod_mod_of_dvd _ hdvd, hwrap, Nat.mod_mod_of_dvd _ hdvd]

section Mac

variable (h : Stacked spec T I n first k mac) (hinv : MacInv spec T mac)
  (htaps : ∀ j < k, (spec.specOf (first + j)).coeff.length = n)
  (hfir : firSpec.coeff.length = n) (hT : d.numTimeSlots = T) (hpos : 0 < T) (hdvd : I ∣ T)

include h hinv htaps hfir hT hpos hdvd

theorem not_canBindMac_of_covered {i : Nat} (hi : i < n) (hio : i ≤ o) (hoI : o < I)
    (hcovered : Covered I n k (o - i)) : d.canBindMac mac firSpec ⟨f, m, o, I⟩ = false := by
  refine Bool.eq_false_iff.mpr fun hcan => ?_
  have hIT := Nat.le_of_dvd hpos hdvd
  have hmem : o ∈ (⟨f, m, o, I⟩ : FirBinding).timeSliceOffsets d.numTimeSlots := by
    rw [hT]
    exact (mem_timeSliceOffsets_iff_mod hoI).mpr ⟨by omega, Nat.mod_eq_of_lt hoI⟩
  have hnull := ((canBindMac_iff.mp hcan).2 o hmem).2.2 i (by rw [hfir]; exact hi)
  have hslot : slotBefore T o i = o - i :=
    (slotBefore_eq_iff (by omega)).mpr (by rw [Nat.sub_add_cancel hio])
  rw [hT, hslot, (h.not_isNull_iff hinv htaps hdvd (by omega)).mpr hcovered] at hnull
  cases hnull

theorem not_canBindMac_below (hn : 0 < n) (ho : o < k * n) (hoI : o < I) :
    d.canBindMac mac firSpec ⟨f, m, o, I⟩ = false := by
  obtain ⟨i, hi, hio, hcovered⟩ := covered_below hn ho hoI
  exact not_canBindMac_of_covered h hinv htaps hfir hT hpos hdvd hi hio hoI hcovered

theorem not_canBindMac_of_full (hn : 0 < n) (hnI : n ≤ I) (hk : k = macCapacity I n)
    (hoI : o < I) : d.canBindMac mac firSpec ⟨f, m, o, I⟩ = false := by
  have hdiv : 0 < I / n := Nat.div_pos hnI hn
  rcases Nat.lt_or_ge (I / n) 16 with hlt | hge
  · have hcap : k = I / n := by rw [hk, macCapacity]; omega
    rcases Nat.lt_or_ge o (k * n) with hbelow | habove
    · exact not_canBindMac_below h hinv htaps hfir hT hpos hdvd hn hbelow hoI
    · have hfull : I < (k + 1) * n := by
        rw [hcap]
        exact (Nat.div_lt_iff_lt_mul hn).mp (Nat.lt_succ_self _)
      exact not_canBindMac_of_covered h hinv htaps hfir hT hpos hdvd hn (Nat.zero_le o) hoI
        (covered_above (by omega) hfull habove hoI)
  · refine Bool.eq_false_iff.mpr fun hcan => (canBindMac_iff.mp hcan).1.1 ?_
    rw [h.inputs, List.length_range', hk, macCapacity]
    omega

theorem canBindMac_next (hlatency : d.firUpdateLatency = 2) (hn : 3 ≤ n) (hk : 0 < k)
    (hroom : k < macCapacity I n) : d.canBindMac mac firSpec ⟨f, m, k * n, I⟩ = true := by
  have hlen : mac.inputFirs.length = k := by rw [h.inputs, List.length_range']
  have hcap : k < 15 ∧ k < I / n := by rw [macCapacity] at hroom; omega
  have hnext : (k + 1) * n ≤ I := (Nat.le_div_iff_mul_le (by omega)).mp hcap.2
  have hkI : k * n < I := by rw [Nat.succ_mul] at hnext; omega
  refine canBindMac_iff.mpr ⟨⟨by omega, ?_, ?_⟩, fun t ht => ?_⟩
  · rw [hinv.outputs]
    omega
  · rw [FirEngineMacDesc.getNumFifos, hinv.fifos, List.length_map]
    omega
  · rw [hT] at ht
    obtain ⟨htT, htop⟩ := (mem_timeSliceOffsets_iff_mod hkI).mp ht
    rw [hT, hlatency]
    refine ⟨eq_true_of_ne_false fun hused => ?_, eq_true_of_ne_false fun hused => ?_,
      fun i hi => eq_true_of_ne_false fun hused => ?_⟩
    · obtain ⟨j, hj, hmod⟩ := (h.not_isSlotEmpty_iff hinv htT).mp hused
      have hjk := mul_lt_of_lt (n := n) hj
      have htop' : t % I = k * n := htop
      omega
    · obtain ⟨j, hj, hmod⟩ := (h.not_isSlotEmpty_iff hinv (slotBefore_lt hpos t 2)).mp hused
      exact ne_top_of_before hn hj hnext ((slotBefore_mod hdvd htT).trans htop) hmod
    · have hcovered := (h.not_isNull_iff hinv htaps hdvd (slotBefore_lt hpos t i)).mp hused
      exact not_covered_next hk hnext (hfir ▸ hi) ((slotBefore_mod hdvd htT).trans htop) hcovered

end Mac

end Search

section Division

variable {N c m : Nat}

theorem ceilDiv_of_mod_eq_zero (hc : 0 < c) (h : N % c = 0) : IntUtils.ceilDiv N c = N / c := by
  have hdiv := Nat.mod_add_div' N c
  have hsum : N + c - 1 = (c - 1) + N / c * c := by omega
  rw [IntUtils.ceilDiv, hsum, Nat.add_mul_div_right _ _ hc, Nat.div_eq_of_lt (by omega),
    Nat.zero_add]

theorem ceilDiv_of_mod_pos (hc : 0 < c) (h : 0 < N % c) :
    IntUtils.ceilDiv N c = N / c + 1 := by
  have hdiv := Nat.mod_add_div' N c
  have hlt := Nat.mod_lt N hc
  have hsum : N + c - 1 = (N % c - 1) + (N / c + 1) * c := by
    rw [Nat.succ_mul]
    omega
  rw [IntUtils.ceilDiv, hsum, Nat.add_mul_div_right _ _ hc, Nat.div_eq_of_lt (by omega),
    Nat.zero_add]

theorem ceilDiv_succ (hc : 0 < c) : IntUtils.ceilDiv (N + 1) c = N / c + 1 := by
  have hsum : N + 1 + c - 1 = N + c := by omega
  rw [IntUtils.ceilDiv, hsum, Nat.add_div_right N hc]

theorem min_of_lt_div (hm : m < N / c) : min c (N - m * c) = c := by
  have hmul := mul_lt_of_lt (n := c) hm
  have hle := Nat.div_mul_le_self N c
  omega

theorem min_at_div (hc : 0 < c) : min c (N - N / c * c) = N % c := by
  have hdiv := Nat.mod_add_div' N c
  have hlt := Nat.mod_lt N hc
  omega

end Division

section Step

variable {spec : FirEngineSpec} {d d' : FirEngineDesc} {firSpec : FirSpec} {T I n N m o : Nat}
  {b : FirBinding} {mac : FirEngineMacDesc}

theorem FirEngineDesc.BindStep.uniform (h : BindStep d spec N firSpec b d')
    (hu : Uniform spec T I n (N + 1)) (hT : d.numTimeSlots = T) :
    b.timeSliceInterval = I ∧ firSpec.coeff.length = n := by
  have hinterval := roundedInterval_of_ok h.interval
  rw [hT, ← h.specOf, hu.interval N (Nat.lt_succ_self N)] at hinterval
  exact ⟨hinterval.symm, by rw [← h.specOf, hu.taps N (Nat.lt_succ_self N)]⟩

theorem canBind_of_mac {f : Nat} (hm : d.firEngineMacDesc[m]? = some mac) :
    d.canBind firSpec ⟨f, m, o, I⟩ = d.canBindMac mac firSpec ⟨f, m, o, I⟩ := by
  simp only [canBind, hm]

theorem Uniform.stacked (hu : Uniform spec T I n (N + 1)) {k : Nat}
    (hk : m * macCapacity I n + k ≤ N) :
    ∀ j < k, (spec.specOf (m * macCapacity I n + j)).coeff.length = n :=
  fun _ hj => hu.taps _ (by omega)

theorem macCapacity_pos (hn : 0 < n) (hnI : n ≤ I) : 0 < macCapacity I n := by
  have hdiv : 0 < I / n := Nat.div_pos hnI hn
  rw [macCapacity]
  omega

theorem macCapacity_mul_le : macCapacity I n * n ≤ I :=
  (Nat.mul_le_mul_right n (Nat.min_le_right _ _)).trans (Nat.div_mul_le_self I n)

theorem FilledUp.exists_last (hp : FilledUp spec T I n N d) (hc : 0 < macCapacity I n)
    (hmore : 0 < N % macCapacity I n) :
    ∃ mac, d.firEngineMacDesc[N / macCapacity I n]? = some mac ∧
      Stacked spec T I n (N / macCapacity I n * macCapacity I n) (N % macCapacity I n) mac := by
  have hlen := hp.length
  rw [ceilDiv_of_mod_pos hc hmore] at hlen
  have hmac := List.getElem?_eq_getElem (l := d.firEngineMacDesc)
    (i := N / macCapacity I n) (by omega)
  exact ⟨_, hmac, min_at_div (N := N) hc ▸ hp.mac hmac⟩

section Searched

variable (hp : FilledUp spec T I n N d) (hinv : Inv spec T N d)
  (hu : Uniform spec T I n (N + 1)) (hn : 3 ≤ n) (hnI : n ≤ I) (hdvd : I ∣ T) (hpos : 0 < T)
  (hfir : firSpec.coeff.length = n)

include hp hinv hu hn hnI hdvd hpos hfir

theorem FilledUp.not_canBind_full (hm : m < N / macCapacity I n) (ho : o < I) :
    d.canBind firSpec ⟨N, m, o, I⟩ = false := by
  have hc := macCapacity_pos (by omega) hnI
  have hlen : m < d.firEngineMacDesc.length := by
    rw [hp.length]
    rcases Nat.eq_zero_or_pos (N % macCapacity I n) with hzero | hmore
    · rwa [ceilDiv_of_mod_eq_zero hc hzero]
    · rw [ceilDiv_of_mod_pos hc hmore]
      exact Nat.lt_succ_of_lt hm
  have hmac := List.getElem?_eq_getElem hlen
  have hstack := hp.mac hmac
  rw [min_of_lt_div hm] at hstack
  have hmul := mul_lt_of_lt (n := macCapacity I n) hm
  have hle := Nat.div_mul_le_self N (macCapacity I n)
  rw [canBind_of_mac hmac]
  exact not_canBindMac_of_full hstack (hinv.mac hmac) (hu.stacked (by omega)) hfir
    hinv.numTimeSlots hpos hdvd (by omega) hnI rfl ho

variable (hmore : 0 < N % macCapacity I n)

include hmore

theorem FilledUp.canBind_last : d.canBind firSpec ⟨N, N / macCapacity I n,
    N % macCapacity I n * n, I⟩ = true := by
  obtain ⟨mac, hmac, hstack⟩ := hp.exists_last (macCapacity_pos (by omega) hnI) hmore
  have hmod := Nat.mod_add_div' N (macCapacity I n)
  rw [canBind_of_mac hmac]
  exact canBindMac_next hstack (hinv.mac hmac) (hu.stacked (by omega)) hfir hinv.numTimeSlots
    hpos hdvd hinv.latency hn hmore (Nat.mod_lt _ (macCapacity_pos (by omega) hnI))

theorem FilledUp.not_canBind_below (ho : o < N % macCapacity I n * n) (hoI : o < I) :
    d.canBind firSpec ⟨N, N / macCapacity I n, o, I⟩ = false := by
  obtain ⟨mac, hmac, hstack⟩ := hp.exists_last (macCapacity_pos (by omega) hnI) hmore
  have hmod := Nat.mod_add_div' N (macCapacity I n)
  rw [canBind_of_mac hmac]
  exact not_canBindMac_below hstack (hinv.mac hmac) (hu.stacked (by omega)) hfir
    hinv.numTimeSlots hpos hdvd (by omega) ho hoI

end Searched

-- the search passes every full MAC, and on the next one every slot below the first free one
theorem FilledUp.place (hp : FilledUp spec T I n N d) (hinv : Inv spec T N d)
    (hu : Uniform spec T I n (N + 1)) (hn : 3 ≤ n) (hdvd : I ∣ T)
    (h : BindStep d spec N firSpec b d') :
    b.firstFirMacIndex = N / macCapacity I n ∧
      b.timeSliceOrigin = N % macCapacity I n * n := by
  obtain ⟨hI, hfir⟩ := h.uniform hu hinv.numTimeSlots
  have hnI : n ≤ I := hfir ▸ hI ▸ h.fits
  have hc := macCapacity_pos (by omega) hnI
  have hpos : 0 < T := by
    have hbounds := timeSliceInterval_bounds h.interval
    rw [hinv.numTimeSlots] at hbounds
    omega
  have hcan : d.canBind firSpec ⟨b.firIndex, b.firstFirMacIndex, b.timeSliceOrigin,
      b.timeSliceInterval⟩ = true := h.found.canBind
  have horigin := h.found.origin
  have hleast := leastFound_of_findValidBinding h.search
  rw [h.found.firIndex, hI] at hcan
  rw [hI] at horigin hleast
  have hnotBefore : ¬ b.firstFirMacIndex < N / macCapacity I n := by
    intro hlt
    rw [hp.not_canBind_full hinv hu hn hnI hdvd hpos hfir hlt horigin] at hcan
    cases hcan
  have hlen := hp.length
  rcases Nat.eq_zero_or_pos (N % macCapacity I n) with hzero | hmore
  · rw [ceilDiv_of_mod_eq_zero hc hzero] at hlen
    have hfirst := hleast.least _ le_rfl 0 (by omega) (canBind_newMac 0)
    rw [hlen] at hfirst
    obtain ⟨hmac, hslot⟩ := hfirst.resolve_left hnotBefore
    exact ⟨hmac, by rw [hzero]; omega⟩
  · rw [ceilDiv_of_mod_pos hc hmore] at hlen
    have hroom : N % macCapacity I n * n < I := by
      have hmul := mul_lt_of_lt (n := n) (Nat.mod_lt N hc)
      have hcap := macCapacity_mul_le (I := I) (n := n)
      omega
    obtain ⟨hmac, hslot⟩ := (hleast.least _ (by omega) _ hroom
      (hp.canBind_last hinv hu hn hnI hdvd hpos hfir hmore)).resolve_left hnotBefore
    refine ⟨hmac, Nat.le_antisymm hslot (Nat.not_lt.mp fun hbelow => ?_)⟩
    rw [hmac, hp.not_canBind_below hinv hu hn hnI hdvd hpos hfir hmore hbelow horigin] at hcan
    cases hcan

theorem placed_bindMac_self (hinv : MacInv spec T mac) (hnew : b.firIndex ∉ mac.inputFirs)
    (hspec : spec.specOf b.firIndex = firSpec)
    (hI : timeSliceInterval T spec.clockFreq firSpec.sampleFreq = .ok b.timeSliceInterval)
    (hfits : firSpec.coeff.length ≤ b.timeSliceInterval)
    (horigin : b.timeSliceOrigin < b.timeSliceInterval) :
    Placed spec T (bindMac T firSpec b mac) b.firIndex b where
  firIndex := rfl
  interval := hspec ▸ hI
  fits := hspec ▸ hfits
  origin := horigin
  slots _ := slot_bindMac_self hinv.slots_length fun h => hnew (hinv.slot_owner h)
  refs _ _ := hspec ▸ bindCoeffRefs_of_clear hinv.refs_length fun h => hnew (hinv.ref_owner h)

theorem Stacked.bindMac {first k : Nat} (h : Stacked spec T I n first k mac)
    (hinv : MacInv spec T mac) (hroom : Room T firSpec.coeff.length b mac)
    (hfirIndex : b.firIndex = first + k) (horigin : b.timeSliceOrigin = k * n)
    (hI : b.timeSliceInterval = I)
    (hplaced : Placed spec T (bindMac T firSpec b mac) b.firIndex b) :
    Stacked spec T I n first (k + 1) (bindMac T firSpec b mac) where
  inputs := by
    change mac.inputFirs ++ [b.firIndex] = List.range' first (k + 1)
    rw [h.inputs, List.range'_concat, hfirIndex, Nat.one_mul]
  placed := by
    intro j hj
    rcases Nat.lt_succ_iff_lt_or_eq.mp hj with hj | rfl
    · obtain ⟨c, hc, htop⟩ := h.placed j hj
      exact ⟨c, hc.bindMac_of_ne hinv hroom (by omega), htop⟩
    · exact ⟨b, hfirIndex ▸ hplaced, horigin, hI⟩

theorem length_bind (hm : b.firstFirMacIndex ≤ d.firEngineMacDesc.length) :
    (d.bind firSpec b).firEngineMacDesc.length =
      max d.firEngineMacDesc.length (b.firstFirMacIndex + 1) := by
  rw [FirEngineDesc.bind, FirEngineDesc.withMac]
  split <;> simp <;> omega

theorem FilledUp.targetMac (hp : FilledUp spec T I n N d) (hc : 0 < macCapacity I n)
    (hfirst : b.firstFirMacIndex = N / macCapacity I n) :
    Stacked spec T I n (N / macCapacity I n * macCapacity I n) (N % macCapacity I n)
      (d.targetMac b) := by
  rcases Nat.eq_zero_or_pos (N % macCapacity I n) with hzero | hmore
  · have hlen := hp.length
    rw [ceilDiv_of_mod_eq_zero hc hzero] at hlen
    have hnew : d.targetMac b = .new d.numTimeSlots := by
      rw [FirEngineDesc.targetMac, List.getD_eq_getElem?_getD,
        List.getElem?_eq_none (by omega), Option.getD_none]
    rw [hnew, hzero]
    exact ⟨rfl, fun j hj => absurd hj (Nat.not_lt_zero j)⟩
  · obtain ⟨mac, hmac, hstack⟩ := hp.exists_last hc hmore
    rwa [FirEngineDesc.BindStep.targetMac_eq (hfirst ▸ hmac)]

theorem FilledUp.bindStep (hp : FilledUp spec T I n N d) (hinv : Inv spec T N d)
    (hu : Uniform spec T I n (N + 1)) (hn : 3 ≤ n) (hdvd : I ∣ T)
    (h : BindStep d spec N firSpec b d') : FilledUp spec T I n (N + 1) d' := by
  obtain ⟨hfirst, horigin⟩ := hp.place hinv hu hn hdvd h
  obtain ⟨hI, hfir⟩ := h.uniform hu hinv.numTimeSlots
  have hc : 0 < macCapacity I n := macCapacity_pos (by omega) (hfir ▸ hI ▸ h.fits)
  have hmod := Nat.mod_add_div' N (macCapacity I n)
  have hlt := Nat.mod_lt N hc
  have hlen : d.firEngineMacDesc.length ≤ N / macCapacity I n + 1 ∧
      N / macCapacity I n ≤ d.firEngineMacDesc.length := by
    rw [hp.length]
    rcases Nat.eq_zero_or_pos (N % macCapacity I n) with hzero | hmore
    · rw [ceilDiv_of_mod_eq_zero hc hzero]
      omega
    · rw [ceilDiv_of_mod_pos hc hmore]
      omega
  refine ⟨?_, ?_⟩
  · rw [h.result, length_bind h.found.mac, hfirst, ceilDiv_succ hc]
    omega
  · intro m mac hm
    rcases h.mac_cases hm with ⟨rfl, rfl⟩ | ⟨hne, hold⟩
    · have hcount : min (macCapacity I n) (N + 1 - N / macCapacity I n * macCapacity I n) =
          N % macCapacity I n + 1 := by omega
      have hroom := h.room
      have hinterval := h.interval
      have hnew : b.firIndex ∉ (d.targetMac b).inputFirs := fun hmem => by
        have hbound := hinv.bound_targetMac _ hmem
        rw [h.found.firIndex] at hbound
        exact Nat.lt_irrefl N hbound
      rw [hinv.numTimeSlots] at hroom hinterval
      rw [hfirst, hcount, hinv.numTimeSlots]
      refine (hp.targetMac hc hfirst).bindMac hinv.targetMac hroom ?_ horigin hI ?_
      · rw [h.found.firIndex]
        omega
      · exact placed_bindMac_self hinv.targetMac hnew (by rw [h.found.firIndex, h.specOf])
          hinterval h.fits h.found.origin
    · have hstack := hp.mac hold
      have hle : m < d.firEngineMacDesc.length := (List.getElem?_eq_some_iff.mp hold).1
      have hm : m < N / macCapacity I n := by omega
      rw [min_of_lt_div hm] at hstack
      rwa [min_of_lt_div (hm.trans_le (Nat.div_le_div_right (Nat.le_succ N)))]

end Step

section Run

variable {spec : FirEngineSpec} {T I n N : Nat} {d : FirEngineDesc}

theorem filledUp_empty : FilledUp spec T I n 0 { numTimeSlots := T } where
  length := by
    rw [IntUtils.ceilDiv, Nat.zero_add]
    rcases Nat.eq_zero_or_pos (macCapacity I n) with hzero | hpos
    · simp [hzero]
    · exact (Nat.div_eq_of_lt (by omega)).symm
  mac h := by simp at h

theorem Uniform.of_succ (h : Uniform spec T I n (N + 1)) : Uniform spec T I n N where
  interval f hf := h.interval f (Nat.lt_succ_of_lt hf)
  taps f hf := h.taps f (Nat.lt_succ_of_lt hf)

theorem filledUp_bindFirs (h : bindFirs spec T N = .ok d) (hu : Uniform spec T I n N) (hn : 3 ≤ n)
    (hdvd : I ∣ T) : FilledUp spec T I n N d := by
  induction N generalizing d with
  | zero =>
    cases h
    exact filledUp_empty
  | succ N ih =>
    obtain ⟨d₀, h₀, hstep⟩ := Outcome.bind_eq_ok.mp h
    obtain ⟨firSpec, b, hb⟩ := bindFir_eq_ok hstep
    exact (ih h₀ hu.of_succ).bindStep (inv_bindFirs h₀) hu hn hdvd hb

theorem Uniform.bounds (hu : Uniform spec T I n N) (h : bindFirs spec T N = .ok d)
    (hN : 0 < N) : 0 < T ∧ n ≤ I := by
  have hinv := inv_bindFirs h
  obtain ⟨m, mac, hm, hmem⟩ := hinv.cover 0 hN
  obtain ⟨b, hb⟩ := (hinv.mac hm).placed 0 hmem
  obtain ⟨q, _, hq, _, hround⟩ := hb.interval_eq
  have hfits := hb.fits
  rw [hround, hu.interval 0 hN, hu.taps 0 hN] at hfits
  exact ⟨by omega, hfits⟩

theorem Uniform.load_eq (h : Uniform spec T I n N) :
    ((List.range N).map (spec.load T)).sum = N * (T / I * n) := by
  have hload : ∀ f ∈ List.range N, spec.load T f = T / I * n := by
    intro f hf
    have hf := List.mem_range.mp hf
    rw [FirEngineSpec.load, FirEngineSpec.passes, h.interval f hf, h.taps f hf]
  rw [List.map_congr_left hload, List.map_const', List.sum_replicate, List.length_range]
  rfl

theorem ceilDiv_le_of_load {c macs : Nat} (hc : 0 < c) (hn : 0 < n) (hT : 0 < T) (hI : c * n = I)
    (hdvd : I ∣ T) (hload : N * (T / I * n) ≤ macs * T) : IntUtils.ceilDiv N c ≤ macs := by
  have hruns : 0 < T / I := Nat.div_pos (Nat.le_of_dvd hT hdvd) (hI ▸ Nat.mul_pos hc hn)
  have hslots : macs * T = macs * c * (T / I * n) :=
    calc macs * T = macs * (T / I * (c * n)) := by rw [hI, Nat.div_mul_cancel hdvd]
      _ = macs * c * (T / I * n) := by ac_rfl
  rw [hslots] at hload
  have hN := Nat.le_of_mul_le_mul_right hload (Nat.mul_pos hruns hn)
  rw [IntUtils.ceilDiv]
  refine Nat.lt_succ_iff.mp ((Nat.div_lt_iff_lt_mul hc).mpr ?_)
  rw [Nat.succ_mul]
  omega

end Run

theorem uniform_filters_fill_each_mac (spec : FirEngineSpec) (T I n N : Nat) (hpos : 0 < T)
    (hT : T < 2 ^ 31) (d : FirEngineDesc) (h : bindFirs spec T N = .ok d) (hn : 3 ≤ n)
    (hdvd : I ∣ T)
    (hu : ∀ f < N, roundedInterval T spec.clockFreq (spec.specOf f).sampleFreq = I ∧
      (spec.specOf f).coeff.length = n) :
    SlotArithmetic.SumsExact T ∧
    d.firEngineMacDesc.length = IntUtils.ceilDiv N (macCapacity I n) ∧
    (∀ m mac, d.firEngineMacDesc[m]? = some mac →
      mac.inputFirs = List.range' (m * macCapacity I n)
        (min (macCapacity I n) (N - m * macCapacity I n)) ∧
      ∀ j < min (macCapacity I n) (N - m * macCapacity I n), ∀ t,
        mac.firUpdateSlot[t]? = some ⟨some (m * macCapacity I n + j)⟩ ↔
          t < T ∧ t % I = j * n) ∧
    (n ∣ I → I / n ≤ 15 → ∀ macs, ((List.range N).map (spec.load T)).sum ≤ macs * T →
      d.firEngineMacDesc.length ≤ macs) := by
  have huniform : Uniform spec T I n N := ⟨fun f hf => (hu f hf).1, fun f hf => (hu f hf).2⟩
  have hfilled := filledUp_bindFirs h huniform hn hdvd
  refine ⟨SlotArithmetic.sumsExact hpos hT, hfilled.length,
    fun m mac hm => ⟨(hfilled.mac hm).inputs, fun j hj t => ?_⟩, ?_⟩
  · obtain ⟨b, hb, horigin, rfl⟩ := (hfilled.mac hm).placed j hj
    rw [congrFun hb.slots_iff_mod t, horigin]
  · intro hnI hfew macs hload
    rcases Nat.eq_zero_or_pos N with rfl | hN
    · cases h
      exact Nat.zero_le macs
    · rw [hfilled.length]
      obtain ⟨hT, hle⟩ := huniform.bounds h hN
      have hcap : macCapacity I n = I / n := Nat.min_eq_right hfew
      rw [huniform.load_eq] at hload
      exact ceilDiv_le_of_load (macCapacity_pos (by omega) hle) (by omega) hT
        (by rw [hcap, Nat.div_mul_cancel hnI]) hdvd hload

def equalFirsSpec : FirEngineSpec where
  clockFreq := 16
  firSpec := List.replicate 3 ⟨2, [1 / 4, 1 / 4, 1 / 4, -1 / 2]⟩

theorem uniform_filters_fill_each_mac_equal_firs :
    ∃ d, bindFirs equalFirsSpec 8 3 = .ok d ∧ SlotArithmetic.SumsExact 8 ∧
      d.firEngineMacDesc.length = IntUtils.ceilDiv 3 (macCapacity 8 4) ∧
      (∀ m mac, d.firEngineMacDesc[m]? = some mac →
        mac.inputFirs = List.range' (m * macCapacity 8 4)
          (min (macCapacity 8 4) (3 - m * macCapacity 8 4)) ∧
        ∀ j < min (macCapacity 8 4) (3 - m * macCapacity 8 4), ∀ t,
          mac.firUpdateSlot[t]? = some ⟨some (m * macCapacity 8 4 + j)⟩ ↔
            t < 8 ∧ t % 8 = j * 4) ∧
      (4 ∣ 8 → 8 / 4 ≤ 15 →
        ∀ macs, ((List.range 3).map (equalFirsSpec.load 8)).sum ≤ macs * 8 →
          d.firEngineMacDesc.length ≤ macs) := by
  obtain ⟨d, hd, _⟩ := Outcome.exists_of_okAnd (x := bindFirs equalFirsSpec 8 3)
    (p := fun _ => true) (by decide +kernel)
  exact ⟨d, hd, uniform_filters_fill_each_mac equalFirsSpec 8 8 4 3 (by decide) (by decide) d hd
    (by decide) (by decide) (by decide +kernel)⟩

end FirEngine
