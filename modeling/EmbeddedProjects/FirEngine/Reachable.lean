import EmbeddedProjects.FirEngine.Binding

namespace FirEngine

namespace FirEngineDesc

variable {d d' : FirEngineDesc} {spec : FirEngineSpec} {firSpec : FirSpec} {b : FirBinding}

theorem timeSliceInterval_eq_ok {T I f : Nat} {clockFreq : ℚ}
    (h : timeSliceInterval T clockFreq f = .ok I) :
    ∃ q, slicesPerSample clockFreq f = .ok q ∧ 0 < min q T ∧ I = evenInterval T (min q T) := by
  obtain ⟨q, hq, h⟩ := Outcome.bind_eq_ok.mp h
  refine ⟨q, hq, ?_⟩
  dsimp only at h
  split at h
  · cases h
  · next hne =>
    cases h
    exact ⟨Nat.pos_of_ne_zero hne, rfl⟩

theorem slicesPerSample_eq_ok {clockFreq : ℚ} {sampleFreq q : Nat}
    (h : slicesPerSample clockFreq sampleFreq = .ok q) : (q : Int) = ⌊clockFreq / sampleFreq⌋ := by
  rw [slicesPerSample] at h
  split at h
  · cases h
  · rw [toUnsigned] at h
    split at h
    · next hrange =>
      cases h
      exact Int.toNat_of_nonneg hrange.1
    · cases h

theorem roundedInterval_of_ok {T I : Nat} {clockFreq : ℚ} {sampleFreq : Nat}
    (h : timeSliceInterval T clockFreq sampleFreq = .ok I) :
    roundedInterval T clockFreq sampleFreq = I := by
  obtain ⟨q, hq, _, hI⟩ := timeSliceInterval_eq_ok h
  rw [roundedInterval, ← slicesPerSample_eq_ok hq, Int.toNat_natCast, hI]

theorem evenInterval_pos {T q : Nat} (hq : 0 < q) (hqT : q ≤ T) : 0 < evenInterval T q :=
  Nat.div_pos (IntUtils.ceilDiv_le (by omega) hq) (IntUtils.ceilDiv_pos (by omega) hq)

theorem evenInterval_le {T q : Nat} (hq : 0 < q) : evenInterval T q ≤ q :=
  Nat.div_le_of_le_mul (IntUtils.le_ceilDiv_mul hq)

theorem timeSliceInterval_bounds {T I f : Nat} {clockFreq : ℚ}
    (h : timeSliceInterval T clockFreq f = .ok I) : 0 < I ∧ I ≤ T := by
  obtain ⟨q, _, hpos, rfl⟩ := timeSliceInterval_eq_ok h
  exact ⟨evenInterval_pos hpos (Nat.min_le_right _ _),
    (evenInterval_le hpos).trans (Nat.min_le_right _ _)⟩

theorem mem_candidates {f I : Nat} :
    b ∈ d.candidates f I ↔ ∃ m ≤ d.firEngineMacDesc.length, ∃ o < I, b = ⟨f, m, o, I⟩ := by
  simp only [candidates, List.mem_flatMap, List.mem_map, List.mem_range, Nat.lt_succ_iff]
  constructor
  · rintro ⟨m, hm, o, ho, rfl⟩
    exact ⟨m, hm, o, ho, rfl⟩
  · rintro ⟨m, hm, o, ho, rfl⟩
    exact ⟨m, hm, o, ho, rfl⟩

structure Found (d : FirEngineDesc) (firSpec : FirSpec) (f I : Nat) (b : FirBinding) : Prop where
  firIndex : b.firIndex = f
  interval : b.timeSliceInterval = I
  origin : b.timeSliceOrigin < I
  mac : b.firstFirMacIndex ≤ d.firEngineMacDesc.length
  canBind : d.canBind firSpec b = true

theorem findValidBinding_eq_ok {f I : Nat} (h : d.findValidBinding firSpec f I = .ok b) :
    Found d firSpec f I b := by
  rw [findValidBinding] at h
  split at h
  · next b' hfind =>
    cases h
    obtain ⟨m, hm, o, ho, rfl⟩ := mem_candidates.mp (List.mem_of_find?_eq_some hfind)
    exact ⟨rfl, rfl, ho, hm, List.find?_some hfind⟩
  · cases h

structure BindStep (d : FirEngineDesc) (spec : FirEngineSpec) (f : Nat) (firSpec : FirSpec)
    (b : FirBinding) (d' : FirEngineDesc) : Prop where
  firSpec_eq : spec.firSpec[f]? = some firSpec
  interval : timeSliceInterval d.numTimeSlots spec.clockFreq firSpec.sampleFreq =
    .ok b.timeSliceInterval
  fits : firSpec.coeff.length ≤ b.timeSliceInterval
  search : d.findValidBinding firSpec f b.timeSliceInterval = .ok b
  found : Found d firSpec f b.timeSliceInterval b
  result : d' = d.bind firSpec b

theorem bindFir_eq_ok {f : Nat} (h : d.bindFir spec f = .ok d') :
    ∃ firSpec b, BindStep d spec f firSpec b d' := by
  rw [bindFir] at h
  split at h
  · cases h
  · next firSpec hspec =>
    split at h
    · cases h
    · obtain ⟨I, hI, h⟩ := Outcome.bind_eq_ok.mp h
      split at h
      · cases h
      · next hfits =>
        obtain ⟨b, hb, h⟩ := Outcome.bind_eq_ok.mp h
        cases h
        have hfound := findValidBinding_eq_ok hb
        have hII : b.timeSliceInterval = I := hfound.interval
        subst hII
        exact ⟨firSpec, b, hspec, hI, Nat.not_lt.mp hfits, hb, hfound, rfl⟩

def targetMac (d : FirEngineDesc) (b : FirBinding) : FirEngineMacDesc :=
  d.firEngineMacDesc.getD b.firstFirMacIndex (FirEngineMacDesc.new d.numTimeSlots)

theorem targetMac_of_forall {P : FirEngineMacDesc → Prop} (hnew : P (.new d.numTimeSlots))
    (hmac : ∀ mac ∈ d.firEngineMacDesc, P mac) : P (d.targetMac b) := by
  rw [targetMac, List.getD_eq_getElem?_getD]
  cases hm : d.firEngineMacDesc[b.firstFirMacIndex]? with
  | none => exact hnew
  | some mac => exact hmac mac (List.mem_of_getElem? hm)

theorem bind_target (hm : b.firstFirMacIndex ≤ d.firEngineMacDesc.length) :
    (d.bind firSpec b).firEngineMacDesc[b.firstFirMacIndex]? =
      some (bindMac d.numTimeSlots firSpec b (d.targetMac b)) := by
  rw [bind, withMac, targetMac]
  split
  · next h =>
    have hlen : b.firstFirMacIndex = d.firEngineMacDesc.length := by omega
    simp [hlen]
  · next h => simp [Nat.not_le.mp h]

theorem bind_other {m : Nat} (hm : m ≠ b.firstFirMacIndex)
    (hb : b.firstFirMacIndex ≤ d.firEngineMacDesc.length) :
    (d.bind firSpec b).firEngineMacDesc[m]? = d.firEngineMacDesc[m]? := by
  rw [bind, withMac]
  dsimp only
  rw [List.getElem?_modify_ne _ _ (Ne.symm hm)]
  split
  · next h =>
    rw [List.getElem?_append]
    split
    · rfl
    · have : m - d.firEngineMacDesc.length ≠ 0 := by omega
      rw [List.getElem?_eq_none (by simp; omega), List.getElem?_eq_none (by omega)]
  · rfl

structure Room (T n : Nat) (b : FirBinding) (mac : FirEngineMacDesc) : Prop where
  slots : ∀ t ∈ b.timeSliceOffsets T, (mac.updateSlotAt t).isSlotEmpty = true
  refs : ∀ t ∈ b.timeSliceOffsets T, ∀ i < n, (mac.coeffRefAt (slotBefore T t i)).isNull = true
  inputs : mac.inputFirs.length ≠ 15

theorem targetMac_of_canBind (h : d.canBind firSpec b = true) :
    d.targetMac b = .new d.numTimeSlots ∨ d.canBindMac (d.targetMac b) firSpec b = true := by
  rw [canBind] at h
  rw [targetMac, List.getD_eq_getElem?_getD]
  split at h
  · next hnone => exact .inl (by rw [hnone, Option.getD_none])
  · next mac hmac => exact .inr (by rwa [hmac, Option.getD_some])

theorem room_of_canBind (h : d.canBind firSpec b = true) :
    Room d.numTimeSlots firSpec.coeff.length b (d.targetMac b) := by
  rcases targetMac_of_canBind h with hnew | hmac
  · rw [hnew]
    refine ⟨fun t _ => ?_, fun t _ i _ => ?_, by simp [FirEngineMacDesc.new]⟩
    · rw [FirEngineMacDesc.updateSlotAt, FirEngineMacDesc.new, List.getD_eq_getElem?_getD]
      by_cases ht : t < d.numTimeSlots <;> simp [ht, FirUpdateSlot.isSlotEmpty]
    · rw [FirEngineMacDesc.coeffRefAt, FirEngineMacDesc.new, List.getD_eq_getElem?_getD]
      by_cases ht : slotBefore d.numTimeSlots t i < d.numTimeSlots <;>
        simp [ht, FirCoeffRef.isNull]
  · simp only [canBindMac, Bool.and_eq_true, bne_iff_ne, ne_eq, List.all_eq_true,
      List.mem_range] at hmac
    exact ⟨fun t ht => (hmac.1.2 t ht).1, hmac.2, hmac.1.1.1.1⟩

end FirEngineDesc

end FirEngine
