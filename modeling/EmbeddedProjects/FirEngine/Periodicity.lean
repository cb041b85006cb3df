import EmbeddedProjects.FirEngine.Ownership
import EmbeddedProjects.FirEngine.SlotArithmetic

namespace FirEngine

open FirEngineDesc SlotArithmetic

structure EquallySpaced (T s : Nat) (U : Nat → Prop) : Prop where
  nonempty : ∃ t < T, U t
  next : ∀ t < T, U t → U ((t + s) % T)
  gap : ∀ t < T, U t → ∀ k, 0 < k → k < s → ¬ U ((t + k) % T)

def HoldsWindows (T n f : Nat) (mac : FirEngineMacDesc) : Prop :=
  ∀ t : Nat, mac.firUpdateSlot[t]? = some ⟨some f⟩ → ∀ i < n, ∀ s < T, (s + i) % T = t →
    mac.firCoeffRef[s]? = some ⟨some f, n - 1 - i⟩

def Periodic (spec : FirEngineSpec) (T : Nat) (d : FirEngineDesc) (f : Nat) : Prop :=
  ∃ (m : Nat) (mac : FirEngineMacDesc), d.firEngineMacDesc[m]? = some mac ∧ f ∈ mac.inputFirs ∧
    (∃ s, 0 < s ∧ s ≤ T ∧ (s : Int) ≤ ⌊spec.clockFreq / (spec.specOf f).sampleFreq⌋ ∧
      EquallySpaced T s fun t => mac.firUpdateSlot[t]? = some ⟨some f⟩) ∧
    HoldsWindows T (spec.specOf f).coeff.length f mac

section Slots

variable {T I o : Nat} {b : FirBinding}

theorem equallySpaced_of_dvd (hT : 0 < T) (ho : o < I) (hdvd : I ∣ T) :
    EquallySpaced T I fun t => t < T ∧ t % I = o := by
  have hIT : I ≤ T := Nat.le_of_dvd hT hdvd
  refine ⟨⟨o, by omega, by omega, Nat.mod_eq_of_lt ho⟩, ?_, ?_⟩
  · rintro t _ ⟨_, ht⟩
    refine ⟨Nat.mod_lt _ hT, ?_⟩
    rw [Nat.mod_mod_of_dvd _ hdvd, Nat.add_mod_right, ht]
  · rintro t _ ⟨_, ht⟩ k hk hkI ⟨_, heq⟩
    rw [Nat.mod_mod_of_dvd _ hdvd, Nat.add_mod, ht, Nat.mod_eq_of_lt hkI] at heq
    rcases Nat.lt_or_ge (o + k) I with hlt | hge
    · rw [Nat.mod_eq_of_lt hlt] at heq
      omega
    · rw [Nat.mod_eq_sub_mod hge, Nat.mod_eq_of_lt (by omega)] at heq
      omega

theorem spacing_of_single {s : Nat} (hoT : o < T) (ho : o < I) (hsingle : T ≤ o + I)
    (hs : 0 < s) (hsT : s ≤ T) (h : EquallySpaced T s fun t => t < T ∧ t % I = o) : s = T := by
  obtain ⟨hlt, hmod⟩ := h.next o hoT ⟨hoT, Nat.mod_eq_of_lt ho⟩
  have hback : (o + s) % T = o := by
    rcases Nat.lt_or_ge ((o + s) % T) I with h1 | h1
    · rwa [Nat.mod_eq_of_lt h1] at hmod
    · rw [Nat.mod_eq_sub_mod h1, Nat.mod_eq_of_lt (by omega)] at hmod
      omega
  rcases Nat.lt_or_ge (o + s) T with h1 | h1
  · rw [Nat.mod_eq_of_lt h1] at hback
    omega
  · rw [Nat.mod_eq_sub_mod h1, Nat.mod_eq_of_lt (by omega)] at hback
    omega

theorem spacing_of_two {s : Nat} (ho : o < I) (htwo : o + I < T) (hs : 0 < s)
    (h : EquallySpaced T s fun t => t < T ∧ t % I = o) : s = I := by
  have hU : o < T ∧ o % I = o := ⟨by omega, Nat.mod_eq_of_lt ho⟩
  rcases Nat.lt_trichotomy s I with hlt | heq | hgt
  · have hnext := (h.next o hU.1 hU).2
    rw [Nat.mod_eq_of_lt (by omega : o + s < T)] at hnext
    rcases Nat.lt_or_ge (o + s) I with h1 | h1
    · rw [Nat.mod_eq_of_lt h1] at hnext
      omega
    · rw [Nat.mod_eq_sub_mod h1, Nat.mod_eq_of_lt (by omega)] at hnext
      omega
  · exact heq
  · refine absurd ?_ (h.gap o hU.1 hU I (by omega) hgt)
    rw [Nat.mod_eq_of_lt htwo]
    exact ⟨htwo, by rw [Nat.add_mod_right]; exact hU.2⟩

theorem dvd_of_spacing (ho : o < I) (htwo : o + I < T)
    (h : EquallySpaced T I fun t => t < T ∧ t % I = o) : I ∣ T := by
  -- `o + k * I` is the last slot; the wrap after it has to land on `o`
  let k := (T - 1 - o) / I
  have hk : k * I ≤ T - 1 - o ∧ T - 1 - o < k * I + I :=
    ⟨Nat.div_mul_le_self _ _, Nat.lt_div_mul_add (by omega)⟩
  have hlast := (h.next (o + k * I) (by omega)
    ⟨by omega, by rw [Nat.add_mul_mod_self_right, Nat.mod_eq_of_lt ho]⟩).2
  have hwrap : (o + k * I + I) % T = o + k * I + I - T := by
    rw [Nat.mod_eq_sub_mod (by omega), Nat.mod_eq_of_lt (by omega)]
  rw [hwrap, Nat.mod_eq_of_lt (by omega)] at hlast
  exact ⟨k + 1, by rw [Nat.mul_comm, Nat.add_mul]; omega⟩

end Slots

section Windows

variable {T n : Nat} {b : FirBinding}

theorem soloRefs_of_dvd (hn : n ≤ b.timeSliceInterval)
    (ho : b.timeSliceOrigin < b.timeSliceInterval) (hdvd : b.timeSliceInterval ∣ T)
    {t i : Nat} (ht : t ∈ b.timeSliceOffsets T) (hi : i < n) :
    (soloRefs T n b)[slotBefore T t i]? = some ⟨some b.firIndex, n - 1 - i⟩ := by
  have htT := FirBinding.lt_of_mem_timeSliceOffsets ht
  have hT : 0 < T := by omega
  rw [soloRefs, bindCoeffRefs_eq]
  refine Writes.getElem?_applyWrites_of_agree (by simpa using slotBefore_lt hT t i)
    (mem_coeffWrites.mpr ⟨t, ht, i, hi, rfl⟩) fun v hv => ?_
  obtain ⟨t', ht', i', hi', heq⟩ := mem_coeffWrites.mp hv
  obtain ⟨hslot, rfl⟩ := Prod.mk.inj heq
  have h1 := (slotBefore_eq_iff (slotBefore_lt hT t i)).mp (Eq.refl (slotBefore T t i))
  have h2 := (slotBefore_eq_iff (slotBefore_lt hT t i)).mp hslot.symm
  have hmod := (mem_timeSliceOffsets_iff_mod ho).mp ht
  have hmod' := (mem_timeSliceOffsets_iff_mod ho).mp ht'
  have h3 : slotBefore T t i + i ≡ slotBefore T t i + i' [MOD b.timeSliceInterval] :=
    calc slotBefore T t i + i ≡ t [MOD b.timeSliceInterval] := Nat.ModEq.of_dvd hdvd h1
      _ ≡ t' [MOD b.timeSliceInterval] := hmod.2.trans hmod'.2.symm
      _ ≡ slotBefore T t i + i' [MOD b.timeSliceInterval] := (Nat.ModEq.of_dvd hdvd h2).symm
  have hii : i = i' := Nat.ModEq.eq_of_lt_of_lt (Nat.ModEq.add_left_cancel' _ h3)
    (by omega) (by omega)
  rw [hii]

theorem evenInterval_self {T : Nat} (hT : 0 < T) : evenInterval T T = T := by
  have hone : IntUtils.ceilDiv T T = 1 := by
    rw [IntUtils.ceilDiv, Nat.div_eq_iff hT]
    omega
  rw [evenInterval, hone, Nat.div_one]

end Windows

section Periodic

variable {spec : FirEngineSpec} {T N f : Nat} {d : FirEngineDesc} {b : FirBinding}
  {mac : FirEngineMacDesc}

theorem Placed.interval_eq (h : Placed spec T mac f b) :
    ∃ q : Nat, (q : Int) = ⌊spec.clockFreq / (spec.specOf f).sampleFreq⌋ ∧ 0 < min q T ∧
      b.timeSliceInterval = evenInterval T (min q T) ∧
      b.timeSliceInterval =
        roundedInterval T spec.clockFreq (spec.specOf f).sampleFreq := by
  obtain ⟨q, hq, hpos, hI⟩ := timeSliceInterval_eq_ok h.interval
  have hfloor := slicesPerSample_eq_ok hq
  refine ⟨q, hfloor, hpos, hI, ?_⟩
  rw [roundedInterval, ← hfloor, Int.toNat_natCast, hI]

theorem Placed.slots_iff_mod (h : Placed spec T mac f b) :
    (fun t : Nat => mac.firUpdateSlot[t]? = some ⟨some f⟩) =
      fun t => t < T ∧ t % b.timeSliceInterval = b.timeSliceOrigin :=
  funext fun t => propext ((h.slots t).trans (mem_timeSliceOffsets_iff_mod h.origin))

theorem Placed.equallySpaced (h : Placed spec T mac f b) (hdvd : b.timeSliceInterval ∣ T) :
    EquallySpaced T b.timeSliceInterval fun t => mac.firUpdateSlot[t]? = some ⟨some f⟩ := by
  obtain ⟨q, _, hpos, _, _⟩ := h.interval_eq
  rw [h.slots_iff_mod]
  exact equallySpaced_of_dvd (by omega) h.origin hdvd

theorem Placed.spaced (h : Placed spec T mac f b) (hdvd : b.timeSliceInterval ∣ T) :
    ∃ s, 0 < s ∧ s ≤ T ∧ (s : Int) ≤ ⌊spec.clockFreq / (spec.specOf f).sampleFreq⌋ ∧
      EquallySpaced T s fun t => mac.firUpdateSlot[t]? = some ⟨some f⟩ := by
  obtain ⟨q, hq, hpos, hI, _⟩ := h.interval_eq
  have hle : b.timeSliceInterval ≤ min q T := hI ▸ evenInterval_le hpos
  exact ⟨b.timeSliceInterval, by have := h.origin; omega, by omega, by omega,
    h.equallySpaced hdvd⟩

theorem Placed.windows (h : Placed spec T mac f b) (hdvd : b.timeSliceInterval ∣ T) :
    HoldsWindows T (spec.specOf f).coeff.length f mac := by
  intro t ht i hi s hs hst
  have hmem := (h.slots t).mp ht
  have htT := FirBinding.lt_of_mem_timeSliceOffsets hmem
  have hslot : slotBefore T t i = s :=
    (slotBefore_eq_iff hs).mpr (by rw [hst, Nat.mod_eq_of_lt htT])
  have hfir := h.firIndex
  rw [h.refs, ← hslot, soloRefs_of_dvd h.fits h.origin hdvd hmem hi, hfir]

theorem Placed.dvd_of_spaced (h : Placed spec T mac f b) {s : Nat} (hs : 0 < s) (hsT : s ≤ T)
    (hle : (s : Int) ≤ ⌊spec.clockFreq / (spec.specOf f).sampleFreq⌋)
    (hsp : EquallySpaced T s fun t => mac.firUpdateSlot[t]? = some ⟨some f⟩) :
    b.timeSliceInterval ∣ T := by
  rw [h.slots_iff_mod] at hsp
  obtain ⟨q, hq, hpos, hI, _⟩ := h.interval_eq
  have ho := h.origin
  have hIT : b.timeSliceInterval ≤ T :=
    (hI ▸ evenInterval_le hpos : b.timeSliceInterval ≤ min q T).trans (Nat.min_le_right _ _)
  rcases Nat.lt_or_ge (b.timeSliceOrigin + b.timeSliceInterval) T with htwo | hsingle
  · have hsI := spacing_of_two ho htwo hs hsp
    exact dvd_of_spacing ho htwo (hsI ▸ hsp)
  · -- one update slot only, so the whole cycle is the spacing and nothing was rounded
    have hsT' := spacing_of_single (by omega) ho hsingle hs hsT hsp
    have hmin : min q T = T := by omega
    rw [hI, hmin, evenInterval_self (by omega)]

theorem dvd_of_periodic (h : bindFirs spec T N = .ok d) (hp : Periodic spec T d f) :
    roundedInterval T spec.clockFreq (spec.specOf f).sampleFreq ∣ T := by
  obtain ⟨m, mac, hm, hmem, ⟨s, hs, hsT, hle, hsp⟩, _⟩ := hp
  obtain ⟨b, hb⟩ := ((inv_bindFirs h).mac hm).placed f hmem
  obtain ⟨_, _, _, _, hI⟩ := hb.interval_eq
  exact hI ▸ hb.dvd_of_spaced hs hsT hle hsp

end Periodic

theorem bound_fir_periodic_iff (spec : FirEngineSpec) (T N : Nat) (hpos : 0 < T)
    (hT : T < 2 ^ 31) (d : FirEngineDesc) (h : bindFirs spec T N = .ok d) (f : Nat)
    (hf : f < N) :
    SumsExact T ∧ (Periodic spec T d f ↔
      roundedInterval T spec.clockFreq (spec.specOf f).sampleFreq ∣ T) := by
  refine ⟨sumsExact hpos hT, dvd_of_periodic h, fun hdvd => ?_⟩
  have hinv := inv_bindFirs h
  obtain ⟨m, mac, hm, hmem⟩ := hinv.cover f hf
  obtain ⟨b, hb⟩ := (hinv.mac hm).placed f hmem
  obtain ⟨_, _, _, _, hI⟩ := hb.interval_eq
  rw [← hI] at hdvd
  exact ⟨m, mac, hm, hmem, hb.spaced hdvd, hb.windows hdvd⟩

theorem bound_fir_periodic_two_firs :
    SumsExact 8 ∧ (Periodic twoFirSpec 8 twoFirDesc 1 ↔ roundedInterval 8 16 2 ∣ 8) :=
  bound_fir_periodic_iff twoFirSpec 8 2 (by decide) (by decide) twoFirDesc (by decide +kernel) 1
    (by decide)

def unevenSpec : FirEngineSpec where
  clockFreq := 12
  firSpec := [⟨1, [1 / 2, 1 / 4]⟩]

theorem uneven_spec_not_periodic :
    ∃ d, bindFirs unevenSpec 32 1 = .ok d ∧ ¬ Periodic unevenSpec 32 d 0 := by
  obtain ⟨d, h, _⟩ := Outcome.exists_of_okAnd (x := bindFirs unevenSpec 32 1)
    (p := fun _ => true) (by decide +kernel)
  refine ⟨d, h, fun hp => ?_⟩
  have hdvd := dvd_of_periodic h hp
  revert hdvd
  decide +kernel

end FirEngine
