import Mathlib.Algebra.Order.Floor.Ring
import Mathlib.Tactic.FieldSimp
import EmbeddedProjects.FirEngine.Calls
import EmbeddedProjects.FirEngine.SlotArithmetic

namespace FirEngine

namespace FirEngineDesc

section Search

variable {d : FirEngineDesc} {firSpec : FirSpec} {b : FirBinding} {f I : Nat}

def FirstBy (b : FirBinding) (m o : Nat) : Prop :=
  b.firstFirMacIndex < m ∨ b.firstFirMacIndex = m ∧ b.timeSliceOrigin ≤ o

structure LeastFound (d : FirEngineDesc) (firSpec : FirSpec) (f I : Nat) (b : FirBinding) :
    Prop where
  found : Found d firSpec f I b
  least : ∀ m ≤ d.firEngineMacDesc.length, ∀ o < I,
    d.canBind firSpec ⟨f, m, o, I⟩ = true → FirstBy b m o

theorem canBind_newMac (o : Nat) :
    d.canBind firSpec ⟨f, d.firEngineMacDesc.length, o, I⟩ = true := by
  simp [canBind]

theorem findValidBinding_total (d : FirEngineDesc) (firSpec : FirSpec) (f : Nat) (hI : 0 < I) :
    ∃ b, d.findValidBinding firSpec f I = .ok b := by
  have hsome : ((d.candidates f I).find? (d.canBind firSpec)).isSome := by
    rw [List.find?_isSome]
    exact ⟨_, mem_candidates.mpr ⟨_, le_rfl, 0, hI, rfl⟩, canBind_newMac 0⟩
  obtain ⟨b, hb⟩ := Option.isSome_iff_exists.mp hsome
  exact ⟨b, by rw [findValidBinding, hb]⟩

theorem candidates_sorted :
    (d.candidates f I).Pairwise fun b b' => FirstBy b b'.firstFirMacIndex b'.timeSliceOrigin := by
  rw [candidates, List.pairwise_flatMap]
  constructor
  · intro m _
    rw [List.pairwise_map]
    exact List.pairwise_lt_range.imp fun h => .inr ⟨rfl, h.le⟩
  · refine List.pairwise_lt_range.imp fun {m m'} hm b hb b' hb' => ?_
    obtain ⟨o, _, rfl⟩ := List.mem_map.mp hb
    obtain ⟨o', _, rfl⟩ := List.mem_map.mp hb'
    exact .inl hm

theorem leastFound_of_findValidBinding (h : d.findValidBinding firSpec f I = .ok b) :
    LeastFound d firSpec f I b where
  found := findValidBinding_eq_ok h
  least := by
    intro m hm o ho hcan
    rw [findValidBinding] at h
    split at h
    · next b' hfind =>
      cases h
      obtain ⟨_, before, after, hsplit, hbefore⟩ := List.find?_eq_some_iff_append.mp hfind
      have hmem : (⟨f, m, o, I⟩ : FirBinding) ∈ d.candidates f I :=
        mem_candidates.mpr ⟨m, hm, o, ho, rfl⟩
      rw [hsplit, List.mem_append, List.mem_cons] at hmem
      rcases hmem with hmem | rfl | hmem
      · have := hbefore _ hmem
        simp [hcan] at this
      · exact .inr ⟨rfl, le_rfl⟩
      · have hsorted := candidates_sorted (d := d) (f := f) (I := I)
        rw [hsplit, List.pairwise_append, List.pairwise_cons] at hsorted
        exact hsorted.2.1.1 _ hmem
    · cases h

end Search

-- bindFir as the member function it is: a fault leaves the descriptor as the last statement
-- before it left it
def bindFirM (spec : FirEngineSpec) (firIdx : Nat) : EStateM Fault FirEngineDesc Unit := do
  match spec.firSpec[firIdx]? with
  | none => throw .outOfRange
  | some firSpec =>
    if (firSpec.sampleFreq : ℚ) > 2 * spec.clockFreq then
      throw (.thrown "FIR sample frequencies must be less than half of the clock frequency")
    let interval ← ofExcept
      (timeSliceInterval (← get).numTimeSlots spec.clockFreq firSpec.sampleFreq)
    if interval < firSpec.coeff.length then
      throw (.thrown ("Too many coefficients for sample rate required " ++
        "(currently multi-MAC FIR is not supported)"))
    let b ← ofExcept ((← get).findValidBinding firSpec firIdx interval)
    modify (·.bind firSpec b)

theorem bindFirM_eq (d : FirEngineDesc) (spec : FirEngineSpec) (f : Nat) :
    bindFirM spec f d = match d.bindFir spec f with
      | .ok d' => .ok () d'
      | .error e => .error e d := by
  rw [bindFirM, bindFir]
  cases spec.firSpec[f]? with
  | none => rfl
  | some firSpec =>
    by_cases hfast : (firSpec.sampleFreq : ℚ) > 2 * spec.clockFreq
    · simp only [hfast, if_true]
      rfl
    · simp only [hfast, if_false, Outcome.bind_apply, Outcome.get_apply]
      cases timeSliceInterval d.numTimeSlots spec.clockFreq firSpec.sampleFreq with
      | error e => rfl
      | ok I =>
        by_cases hfits : I < firSpec.coeff.length
        · simp only [ofExcept, Outcome.pure_apply, Outcome.ok_bind, hfits, if_true]
          rfl
        · simp only [ofExcept, Outcome.pure_apply, Outcome.ok_bind, Outcome.bind_apply,
            Outcome.get_apply, hfits, if_false]
          cases d.findValidBinding firSpec f I with
          | error e => rfl
          | ok b => rfl

def rateMessage : String :=
  "FIR sample frequencies must be less than half of the clock frequency"

def coeffMessage : String :=
  "Too many coefficients for sample rate required " ++
    "(currently multi-MAC FIR is not supported)"

section Arithmetic

variable {T s : Nat} {c : ℚ}

theorem slicesPerSample_eq (hc : 0 < c) :
    slicesPerSample c s =
      if 2 ^ 32 * s ≤ c then .error .conversion else .ok ⌊c / s⌋.toNat := by
  rw [slicesPerSample]
  by_cases hs : s = 0
  · subst hs
    simp [hc.le]
  · have hpos : (0 : ℚ) < s := by exact_mod_cast Nat.pos_of_ne_zero hs
    have hnonneg : 0 ≤ ⌊c / s⌋ := Int.floor_nonneg.mpr (div_nonneg hc.le hpos.le)
    have hlt : ⌊c / s⌋ < 2 ^ 32 ↔ ¬ 2 ^ 32 * s ≤ c := by
      rw [Int.floor_lt, div_lt_iff₀ hpos, not_le]
      norm_cast
    rw [if_neg hs, toUnsigned]
    by_cases hbig : 2 ^ 32 * s ≤ c
    · rw [if_pos hbig, if_neg fun h => hlt.mp h.2 hbig]
    · rw [if_neg hbig, if_pos ⟨hnonneg, hlt.mpr hbig⟩]

theorem floor_toNat_pos (hc : 0 < c) (hbig : ¬ 2 ^ 32 * s ≤ c) :
    0 < ⌊c / s⌋.toNat ↔ (s : ℚ) ≤ c := by
  have hs : s ≠ 0 := by
    rintro rfl
    simp [hc.le] at hbig
  have hpos : (0 : ℚ) < s := by exact_mod_cast Nat.pos_of_ne_zero hs
  rw [Int.lt_toNat, Nat.cast_zero, Int.floor_pos, one_le_div₀ hpos]

theorem timeSliceInterval_eq (hT : 0 < T) (hc : 0 < c) :
    timeSliceInterval T c s =
      if 2 ^ 32 * s ≤ c then .error .conversion
      else if (s : ℚ) ≤ c then .ok (roundedInterval T c s)
      else .error .divisionByZero := by
  rw [timeSliceInterval, slicesPerSample_eq hc]
  by_cases hbig : 2 ^ 32 * s ≤ c
  · rw [if_pos hbig, if_pos hbig]
    rfl
  · rw [if_neg hbig, if_neg hbig, Outcome.ok_bind]
    have hpos := floor_toNat_pos hc hbig
    by_cases hs : (s : ℚ) ≤ c
    · have hq := hpos.mpr hs
      rw [if_neg (by omega), if_pos hs, roundedInterval]
    · have hq := mt hpos.mp hs
      rw [if_pos (by omega), if_neg hs]

theorem roundedInterval_pos (hT : 0 < T) (hc : 0 < c) (hbig : ¬ 2 ^ 32 * s ≤ c)
    (hs : (s : ℚ) ≤ c) : 0 < roundedInterval T c s := by
  have hq := (floor_toNat_pos hc hbig).mpr hs
  exact evenInterval_pos (by omega) (Nat.min_le_right _ _)

theorem evenInterval_one (hT : 0 < T) : evenInterval T 1 = 1 := by
  rw [evenInterval, IntUtils.ceilDiv, Nat.add_sub_cancel, Nat.div_one, Nat.div_self hT]

theorem evenInterval_two (hT : 0 < T) :
    evenInterval T (min 2 T) = if 2 ∣ T then 2 else 1 := by
  by_cases hT1 : T = 1
  · subst hT1
    decide
  · rw [Nat.min_eq_left (by omega), evenInterval, IntUtils.ceilDiv]
    split
    · next h =>
      obtain ⟨k, rfl⟩ := h
      have hk : (2 * k + 2 - 1) / 2 = k := by omega
      rw [hk, Nat.mul_div_cancel _ (by omega)]
    · next h =>
      have hk : T = 2 * ((T + 2 - 1) / 2) - 1 := by omega
      rw [Nat.div_eq_iff (by omega)]
      omega

theorem roundedInterval_of_fast (hT : 0 < T) (hc : 0 < c) (hs : (s : ℚ) ≤ c)
    (hfast : c ≤ 2 * s) : roundedInterval T c s = if 2 * s = c ∧ 2 ∣ T then 2 else 1 := by
  have hpos : (0 : ℚ) < s := by linarith
  rw [roundedInterval]
  by_cases htwo : 2 * s = c
  · have hquot : c / s = (2 : ℤ) := by
      rw [← htwo, mul_div_cancel_right₀ _ hpos.ne']
      norm_num
    have htoNat : (2 : ℤ).toNat = 2 := rfl
    rw [hquot, Int.floor_intCast, htoNat, evenInterval_two hT]
    simp [htwo]
  · have hlt : c < 2 * s := lt_of_le_of_ne hfast (Ne.symm htwo)
    have hfloor : ⌊c / s⌋ = 1 := by
      rw [Int.floor_eq_iff, le_div_iff₀ hpos, Int.cast_one, div_lt_iff₀ hpos]
      constructor <;> linarith
    rw [hfloor, Int.toNat_one, Nat.min_eq_left hT, evenInterval_one hT, if_neg fun h => htwo h.1]

end Arithmetic

inductive BindOutcome (d : FirEngineDesc) (spec : FirEngineSpec) (firSpec : FirSpec) (f : Nat) :
    Except Fault FirEngineDesc → Prop
  | tooFast : 2 * spec.clockFreq < firSpec.sampleFreq →
      BindOutcome d spec firSpec f (.error (.thrown rateMessage))
  | noRate : 2 ^ 32 * firSpec.sampleFreq ≤ spec.clockFreq →
      BindOutcome d spec firSpec f (.error .conversion)
  | noSlots : spec.clockFreq < firSpec.sampleFreq → firSpec.sampleFreq ≤ 2 * spec.clockFreq →
      BindOutcome d spec firSpec f (.error .divisionByZero)
  | tooMany : spec.clockFreq < 2 ^ 32 * firSpec.sampleFreq → firSpec.sampleFreq ≤ spec.clockFreq →
      roundedInterval d.numTimeSlots spec.clockFreq firSpec.sampleFreq < firSpec.coeff.length →
      BindOutcome d spec firSpec f (.error (.thrown coeffMessage))
  | bound {b : FirBinding} : spec.clockFreq < 2 ^ 32 * firSpec.sampleFreq →
      firSpec.sampleFreq ≤ spec.clockFreq →
      firSpec.coeff.length ≤ roundedInterval d.numTimeSlots spec.clockFreq firSpec.sampleFreq →
      LeastFound d firSpec f
        (roundedInterval d.numTimeSlots spec.clockFreq firSpec.sampleFreq) b →
      BindOutcome d spec firSpec f (.ok (d.bind firSpec b))

theorem bindFir_outcome {d : FirEngineDesc} {spec : FirEngineSpec} {firSpec : FirSpec} {f : Nat}
    (hT : 0 < d.numTimeSlots) (hc : 0 < spec.clockFreq) (hf : spec.firSpec[f]? = some firSpec) :
    BindOutcome d spec firSpec f (d.bindFir spec f) := by
  rw [bindFir, hf]
  dsimp only
  by_cases hfast : (firSpec.sampleFreq : ℚ) > 2 * spec.clockFreq
  · rw [if_pos hfast]
    exact .tooFast hfast
  · rw [if_neg hfast, timeSliceInterval_eq hT hc]
    by_cases hbig : 2 ^ 32 * firSpec.sampleFreq ≤ spec.clockFreq
    · rw [if_pos hbig]
      exact .noRate hbig
    · by_cases hs : (firSpec.sampleFreq : ℚ) ≤ spec.clockFreq
      · rw [if_neg hbig, if_pos hs, Outcome.ok_bind]
        by_cases hfits : roundedInterval d.numTimeSlots spec.clockFreq firSpec.sampleFreq <
            firSpec.coeff.length
        · rw [if_pos hfits]
          exact .tooMany (not_le.mp hbig) hs hfits
        · obtain ⟨b, hb⟩ := findValidBinding_total d firSpec f
            (roundedInterval_pos hT hc hbig hs)
          rw [if_neg hfits, hb, Outcome.ok_bind]
          exact .bound (not_le.mp hbig) hs (not_lt.mp hfits) (leastFound_of_findValidBinding hb)
      · rw [if_neg hbig, if_neg hs]
        exact .noSlots (not_le.mp hs) (not_lt.mp hfast)

structure RefusesExactly (d : FirEngineDesc) (spec : FirEngineSpec) (firSpec : FirSpec)
    (f : Nat) : Prop where
  defined : ∀ e d', bindFirM spec f d = .error e d' → ∃ m, e = .thrown m
  throws : (∃ m d', bindFirM spec f d = .error (.thrown m) d') ↔
    spec.clockFreq ≤ 2 * firSpec.sampleFreq ∨
      roundedInterval d.numTimeSlots spec.clockFreq firSpec.sampleFreq < firSpec.coeff.length
  message : ∀ m d', bindFirM spec f d = .error (.thrown m) d' →
    m = rateMessage ∧ spec.clockFreq ≤ 2 * firSpec.sampleFreq ∨
      m = coeffMessage ∧
        roundedInterval d.numTimeSlots spec.clockFreq firSpec.sampleFreq < firSpec.coeff.length
  unchanged : ∀ m d', bindFirM spec f d = .error (.thrown m) d' → d' = d
  binding : ∀ d', bindFirM spec f d = .ok () d' → ∃ b,
    LeastFound d firSpec f
      (roundedInterval d.numTimeSlots spec.clockFreq firSpec.sampleFreq) b ∧ d' = d.bind firSpec b

def RateHandled (T : Nat) (clockFreq : ℚ) (sampleFreq n : Nat) : Prop :=
  clockFreq < 2 ^ 32 * sampleFreq ∧ (2 * clockFreq < sampleFreq ∨ 2 * sampleFreq < clockFreq ∨
    sampleFreq ≤ clockFreq ∧ (if 2 * sampleFreq = clockFreq ∧ 2 ∣ T then 2 else 1) < n)

section Refusal

variable {d : FirEngineDesc} {spec : FirEngineSpec} {firSpec : FirSpec} {f : Nat}

theorem refusesExactly_of_thrown {m : String}
    (h : d.bindFir spec f = .error (.thrown m))
    (hm : m = rateMessage ∧ spec.clockFreq ≤ 2 * firSpec.sampleFreq ∨ m = coeffMessage ∧
      roundedInterval d.numTimeSlots spec.clockFreq firSpec.sampleFreq < firSpec.coeff.length) :
    RefusesExactly d spec firSpec f := by
  have hrun : bindFirM spec f d = .error (.thrown m) d := by rw [bindFirM_eq, h]
  refine ⟨?_, ⟨fun _ => hm.imp And.right And.right, fun _ => ⟨m, d, hrun⟩⟩, ?_, ?_, ?_⟩
  · intro e d' he
    rw [hrun] at he
    cases he
    exact ⟨m, rfl⟩
  · intro m' d' he
    rw [hrun] at he
    cases he
    exact hm
  · intro m' d' he
    rw [hrun] at he
    cases he
    rfl
  · intro d' he
    rw [hrun] at he
    cases he

theorem not_refusesExactly_of_fault {e : Fault} (h : d.bindFir spec f = .error e)
    (he : ∀ m, e ≠ .thrown m) : ¬ RefusesExactly d spec firSpec f := by
  intro hr
  obtain ⟨m, hm⟩ := hr.defined e d (by rw [bindFirM_eq, h])
  exact he m hm

theorem refusesExactly_of_bound {b : FirBinding} (h : d.bindFir spec f = .ok (d.bind firSpec b))
    (hfits : firSpec.coeff.length ≤
      roundedInterval d.numTimeSlots spec.clockFreq firSpec.sampleFreq)
    (hb : LeastFound d firSpec f
      (roundedInterval d.numTimeSlots spec.clockFreq firSpec.sampleFreq) b) :
    RefusesExactly d spec firSpec f ↔ 2 * firSpec.sampleFreq < spec.clockFreq := by
  have hrun : bindFirM spec f d = .ok () (d.bind firSpec b) := by rw [bindFirM_eq, h]
  have hno : ∀ e d', bindFirM spec f d ≠ .error e d' := by simp [hrun]
  constructor
  · intro hr
    by_contra hfast
    obtain ⟨m, d', he⟩ := hr.throws.mpr (.inl (not_lt.mp hfast))
    exact hno _ _ he
  · intro hslow
    refine ⟨fun e d' he => absurd he (hno e d'), ⟨?_, ?_⟩, fun m d' he => absurd he (hno _ d'),
      fun m d' he => absurd he (hno _ d'), ?_⟩
    · rintro ⟨m, d', he⟩
      exact absurd he (hno _ d')
    · rintro (hfast | hmany)
      · exact absurd hslow (not_lt.mpr hfast)
      · omega
    · intro d' he
      rw [hrun] at he
      cases he
      exact ⟨b, hb, rfl⟩

theorem refusesExactly_iff (hT : 0 < d.numTimeSlots) (hc : 0 < spec.clockFreq)
    (hf : spec.firSpec[f]? = some firSpec) :
    RefusesExactly d spec firSpec f ↔
      RateHandled d.numTimeSlots spec.clockFreq firSpec.sampleFreq firSpec.coeff.length := by
  have hout := bindFir_outcome hT hc hf
  generalize hres : d.bindFir spec f = res at hout
  cases hout with
  | tooFast h =>
    have hs : (0 : ℚ) ≤ firSpec.sampleFreq := Nat.cast_nonneg _
    refine iff_of_true (refusesExactly_of_thrown hres (.inl ⟨rfl, by linarith⟩)) ⟨?_, .inl h⟩
    linarith
  | noRate h =>
    exact iff_of_false (not_refusesExactly_of_fault hres (by simp)) fun hr =>
      absurd hr.1 (not_lt.mpr h)
  | noSlots hlt hle =>
    refine iff_of_false (not_refusesExactly_of_fault hres (by simp)) ?_
    rintro ⟨_, h | h | h⟩ <;> linarith
  | tooMany hbig hs hmany =>
    refine iff_of_true (refusesExactly_of_thrown hres (.inr ⟨rfl, hmany⟩)) ⟨hbig, ?_⟩
    by_cases hslow : 2 * firSpec.sampleFreq < spec.clockFreq
    · exact .inr (.inl hslow)
    · rw [roundedInterval_of_fast hT hc hs (not_lt.mp hslow)] at hmany
      exact .inr (.inr ⟨hs, hmany⟩)
  | bound hbig hs hfits hb =>
    rw [refusesExactly_of_bound hres hfits hb]
    refine ⟨fun h => ⟨hbig, .inr (.inl h)⟩, ?_⟩
    rintro ⟨_, h | h | ⟨_, h⟩⟩
    · linarith
    · exact h
    · by_contra hslow
      rw [roundedInterval_of_fast hT hc hs (not_lt.mp hslow)] at hfits
      omega

end Refusal

theorem bindFir_refuses_iff (T : Nat) (hpos : 0 < T) (hT : T < 2 ^ 31) (calls : List Call)
    (d : FirEngineDesc) (hd : bindCalls { numTimeSlots := T } calls = .ok d)
    (spec : FirEngineSpec) (hc : 0 < spec.clockFreq) (f : Nat) (firSpec : FirSpec)
    (hf : spec.firSpec[f]? = some firSpec) :
    SlotArithmetic.SumsExact T ∧ (RefusesExactly d spec firSpec f ↔
      RateHandled T spec.clockFreq firSpec.sampleFreq firSpec.coeff.length) := by
  have hslots := (bound_bindCalls calls (bound_empty T) hd).numTimeSlots
  rw [refusesExactly_iff (by omega) hc hf, hslots]
  exact ⟨SlotArithmetic.sumsExact hpos hT, Iff.rfl⟩

theorem bindFir_refuses_iff_two_firs : ∃ d,
    bindCalls { numTimeSlots := 8 } [(twoFirSpec, 0)] = .ok d ∧
      RefusesExactly d twoFirSpec ⟨2, [1 / 4, 1 / 4, -1 / 2]⟩ 1 := by
  obtain ⟨d, hd, _⟩ := Outcome.exists_of_okAnd
    (x := bindCalls { numTimeSlots := 8 } [(twoFirSpec, 0)]) (p := fun _ => true)
    (by decide +kernel)
  obtain ⟨_, hiff⟩ := bindFir_refuses_iff 8 (by decide) (by decide) _ d hd twoFirSpec (by decide) 1
    ⟨2, [1 / 4, 1 / 4, -1 / 2]⟩ rfl
  exact ⟨d, hd, hiff.mpr ⟨by decide +kernel, .inr (.inl (by decide +kernel))⟩⟩

def aboveClockSpec : FirEngineSpec := ⟨16000000, [⟨20000000, [1 / 2]⟩]⟩

theorem above_clock_divides_by_zero :
    bindFir { numTimeSlots := 16 } aboveClockSpec 0 = .error .divisionByZero ∧
      ¬ RefusesExactly { numTimeSlots := 16 } aboveClockSpec ⟨20000000, [1 / 2]⟩ 0 := by
  have h : bindFir { numTimeSlots := 16 } aboveClockSpec 0 = .error .divisionByZero := by
    decide +kernel
  exact ⟨h, not_refusesExactly_of_fault h (by simp)⟩

end FirEngineDesc

end FirEngine
