import EmbeddedProjects.FirEngine.Ownership

namespace FirEngine

open FirEngineDesc

def Used (mac : FirEngineMacDesc) (t : Nat) : Prop := (mac.updateSlotAt t).isSlotEmpty = false

def MacReadSlotsFree (T latency : Nat) (mac : FirEngineMacDesc) : Prop :=
  ∀ t < T, Used mac t → ¬ Used mac ((t + (T - latency)) % T)

def ReadSlotsFree (d : FirEngineDesc) : Prop :=
  ∀ mac ∈ d.firEngineMacDesc, MacReadSlotsFree d.numTimeSlots d.firUpdateLatency mac

instance (mac : FirEngineMacDesc) (t : Nat) : Decidable (Used mac t) :=
  inferInstanceAs (Decidable (_ = _))

instance (T latency : Nat) (mac : FirEngineMacDesc) : Decidable (MacReadSlotsFree T latency mac) :=
  inferInstanceAs (Decidable (∀ t < T, Used mac t → ¬ Used mac ((t + (T - latency)) % T)))

instance (d : FirEngineDesc) : Decidable (ReadSlotsFree d) :=
  inferInstanceAs (Decidable (∀ mac ∈ d.firEngineMacDesc, _))

def KeepsReadSlots (d : FirEngineDesc) (spec : FirEngineSpec) (f : Nat) : Prop :=
  ∀ firSpec I b, spec.firSpec[f]? = some firSpec →
    timeSliceInterval d.numTimeSlots spec.clockFreq firSpec.sampleFreq = .ok I →
    d.findValidBinding firSpec f I = .ok b →
    ∀ t ∈ b.timeSliceOffsets d.numTimeSlots,
      (t + d.firUpdateLatency) % d.numTimeSlots ∉ b.timeSliceOffsets d.numTimeSlots ∧
      ¬ Used (d.targetMac b) ((t + d.firUpdateLatency) % d.numTimeSlots)

abbrev Call := FirEngineSpec × Nat

def bindCalls : FirEngineDesc → List Call → Except Fault FirEngineDesc
  | d, [] => .ok d
  | d, (spec, f) :: calls => do
    let d' ← d.bindFir spec f
    bindCalls d' calls

def AllKeepReadSlots : FirEngineDesc → List Call → Prop
  | _, [] => True
  | d, (spec, f) :: calls =>
    KeepsReadSlots d spec f ∧ ∀ d', d.bindFir spec f = .ok d' → AllKeepReadSlots d' calls

section Step

variable {d d' : FirEngineDesc} {spec : FirEngineSpec} {f : Nat} {firSpec : FirSpec}
  {b : FirBinding} {mac : FirEngineMacDesc} {T L : Nat}

structure Shaped (T : Nat) (d : FirEngineDesc) : Prop where
  numTimeSlots : d.numTimeSlots = T
  latency : d.firUpdateLatency = 2
  slots : ∀ mac ∈ d.firEngineMacDesc, mac.firUpdateSlot.length = T
  refs : ∀ mac ∈ d.firEngineMacDesc, mac.firCoeffRef.length = T

theorem Shaped.targetMac (h : Shaped T d) : (d.targetMac b).firUpdateSlot.length = T :=
  targetMac_of_forall (by simp [FirEngineMacDesc.new, h.numTimeSlots]) h.slots

theorem Shaped.targetRefs (h : Shaped T d) : (d.targetMac b).firCoeffRef.length = T :=
  targetMac_of_forall (by simp [FirEngineMacDesc.new, h.numTimeSlots]) h.refs

theorem Shaped.bindStep (h : Shaped T d) (hb : BindStep d spec f firSpec b d') : Shaped T d' where
  numTimeSlots := by rw [hb.result]; exact h.numTimeSlots
  latency := by rw [hb.result]; exact h.latency
  slots := hb.forall_mac (by simpa [bindMac] using h.targetMac) h.slots
  refs := hb.forall_mac (by simpa [bindMac] using h.targetRefs) h.refs

theorem not_used_new (T t : Nat) : ¬ Used (FirEngineMacDesc.new T) t := by
  rw [Used, FirEngineMacDesc.isSlotEmpty_updateSlotAt_eq_false]
  rintro ⟨f, hf⟩
  cases List.eq_of_mem_replicate (List.mem_of_getElem? hf)

theorem used_bindMac {t : Nat} (hlen : mac.firUpdateSlot.length = T) (ht : t < T) :
    Used (bindMac T firSpec b mac) t ↔ t ∈ b.timeSliceOffsets T ∨ Used mac t := by
  rw [Used, Used, FirEngineMacDesc.isSlotEmpty_updateSlotAt_eq_false,
    FirEngineMacDesc.isSlotEmpty_updateSlotAt_eq_false]
  change (∃ f, (bindUpdateSlots T b mac.firUpdateSlot)[t]? = some ⟨some f⟩) ↔ _
  rw [getElem?_bindUpdateSlots (by omega)]
  split
  · next h => exact iff_of_true ⟨b.firIndex, rfl⟩ (.inl h)
  · next h => exact (or_iff_right h).symm

-- the only direction canBind looks at
theorem readSlot_free_of_canBind (h : d.canBind firSpec b = true) {t : Nat}
    (ht : t ∈ b.timeSliceOffsets d.numTimeSlots) :
    ¬ Used (d.targetMac b) t ∧
      ¬ Used (d.targetMac b) (slotBefore d.numTimeSlots t d.firUpdateLatency) := by
  rcases targetMac_of_canBind h with hnew | hmac
  · rw [hnew]
    exact ⟨not_used_new _ _, not_used_new _ _⟩
  · simp only [canBindMac, Bool.and_eq_true, List.all_eq_true] at hmac
    have hfree := hmac.1.2 t ht
    simp [Used, hfree.1, hfree.2]

theorem add_sub_mod_cancel {t : Nat} (ht : t < T) (hL : L ≤ T) :
    ((t + L) % T + (T - L)) % T = t := by
  have hround : t + L + (T - L) = t + T := by omega
  rw [Nat.mod_add_mod, hround, Nat.add_mod_right, Nat.mod_eq_of_lt ht]

theorem sub_add_mod_cancel {t : Nat} (ht : t < T) (hL : L ≤ T) :
    ((t + (T - L)) % T + L) % T = t := by
  have hround : t + (T - L) + L = t + T := by omega
  rw [Nat.mod_add_mod, hround, Nat.add_mod_right, Nat.mod_eq_of_lt ht]

theorem slotBefore_of_le {t : Nat} (ht : t < T) (hL : L ≤ T) :
    slotBefore T t L = (t + (T - L)) % T := by
  rw [slotBefore_eq_iff (Nat.mod_lt _ (by omega)), sub_add_mod_cancel ht hL, Nat.mod_eq_of_lt ht]

theorem macReadSlotsFree_bindMac (firSpec : FirSpec) (hL : L ≤ T)
    (hlen : mac.firUpdateSlot.length = T)
    (hcan : ∀ t ∈ b.timeSliceOffsets T, ¬ Used mac t ∧ ¬ Used mac ((t + (T - L)) % T)) :
    MacReadSlotsFree T L (bindMac T firSpec b mac) ↔
      MacReadSlotsFree T L mac ∧ ∀ t ∈ b.timeSliceOffsets T,
        (t + L) % T ∉ b.timeSliceOffsets T ∧ ¬ Used mac ((t + L) % T) := by
  constructor
  · intro h
    refine ⟨fun t ht hu hr => ?_, fun t ht => ?_⟩
    · have hpos : 0 < T := by omega
      exact h t ht ((used_bindMac hlen ht).mpr (.inr hu))
        ((used_bindMac hlen (Nat.mod_lt _ hpos)).mpr (.inr hr))
    · have htT := FirBinding.lt_of_mem_timeSliceOffsets ht
      have hlt : (t + L) % T < T := Nat.mod_lt _ (by omega)
      have hnot : ¬ Used (bindMac T firSpec b mac) ((t + L) % T) := by
        intro hu
        refine h _ hlt hu ?_
        rw [add_sub_mod_cancel htT hL]
        exact (used_bindMac hlen htT).mpr (.inl ht)
      rw [used_bindMac hlen hlt, not_or] at hnot
      exact hnot
  · rintro ⟨hold, hkeep⟩ t ht hu hr
    have hlt : (t + (T - L)) % T < T := Nat.mod_lt _ (by omega)
    rw [used_bindMac hlen ht] at hu
    rw [used_bindMac hlen hlt] at hr
    rcases hr with hr | hr
    · have hback := hkeep _ hr
      rw [sub_add_mod_cancel ht hL] at hback
      rcases hu with hu | hu
      · exact hback.1 hu
      · exact hback.2 hu
    · rcases hu with hu | hu
      · exact (hcan t hu).2 hr
      · exact hold t ht hu hr

theorem keepsReadSlots_iff (hb : BindStep d spec f firSpec b d') :
    KeepsReadSlots d spec f ↔ ∀ t ∈ b.timeSliceOffsets d.numTimeSlots,
      (t + d.firUpdateLatency) % d.numTimeSlots ∉ b.timeSliceOffsets d.numTimeSlots ∧
      ¬ Used (d.targetMac b) ((t + d.firUpdateLatency) % d.numTimeSlots) := by
  constructor
  · intro h
    exact h firSpec _ b hb.firSpec_eq hb.interval hb.search
  · intro h firSpec' I b' hspec hI hsearch
    rw [hb.firSpec_eq, Option.some.injEq] at hspec
    subst hspec
    rw [hb.interval, Except.ok.injEq] at hI
    subst hI
    rw [hb.search, Except.ok.injEq] at hsearch
    exact hsearch ▸ h

theorem readSlotsFree_bindStep (hT : 2 < T) (hsh : Shaped T d)
    (hb : BindStep d spec f firSpec b d') :
    ReadSlotsFree d' ↔ ReadSlotsFree d ∧ KeepsReadSlots d spec f := by
  have hL : d.firUpdateLatency ≤ d.numTimeSlots := by
    rw [hsh.latency, hsh.numTimeSlots]
    omega
  have hlen : (d.targetMac b).firUpdateSlot.length = d.numTimeSlots := by
    rw [hsh.targetMac, hsh.numTimeSlots]
  have hcan : ∀ t ∈ b.timeSliceOffsets d.numTimeSlots, ¬ Used (d.targetMac b) t ∧
      ¬ Used (d.targetMac b) ((t + (d.numTimeSlots - d.firUpdateLatency)) % d.numTimeSlots) := by
    intro t ht
    rw [← slotBefore_of_le (FirBinding.lt_of_mem_timeSliceOffsets ht) hL]
    exact readSlot_free_of_canBind hb.found.canBind ht
  have hstep := macReadSlotsFree_bindMac firSpec hL hlen hcan
  have hT' : d'.numTimeSlots = d.numTimeSlots := by rw [hb.result]; rfl
  have hL' : d'.firUpdateLatency = d.firUpdateLatency := by rw [hb.result]; rfl
  rw [keepsReadSlots_iff hb]
  constructor
  · intro h
    have hnew := h _ (List.mem_of_getElem? hb.target)
    rw [hT', hL', hstep] at hnew
    refine ⟨fun mac hmac => ?_, hnew.2⟩
    obtain ⟨m, hm⟩ := List.getElem?_of_mem hmac
    by_cases hmb : m = b.firstFirMacIndex
    · subst hmb
      rw [← FirEngineDesc.BindStep.targetMac_eq hm]
      exact hnew.1
    · have hm' : d'.firEngineMacDesc[m]? = some mac := by
        rw [hb.result, bind_other hmb hb.found.mac, hm]
      have := h mac (List.mem_of_getElem? hm')
      rwa [hT', hL'] at this
  · rintro ⟨hold, hkeep⟩
    have hnew : MacReadSlotsFree d.numTimeSlots d.firUpdateLatency (.new d.numTimeSlots) :=
      fun t _ hu => (not_used_new _ _ hu).elim
    rw [ReadSlotsFree, hT', hL']
    exact hb.forall_mac (hstep.mpr ⟨targetMac_of_forall hnew hold, hkeep⟩) hold

end Step

theorem bindCalls_invariant {P : FirEngineDesc → Prop}
    (hstep : ∀ {d spec f firSpec b d'}, P d → BindStep d spec f firSpec b d' → P d')
    (calls : List Call) {d d' : FirEngineDesc} (hd : P d) (h : bindCalls d calls = .ok d') :
    P d' := by
  induction calls generalizing d with
  | nil =>
    cases h
    exact hd
  | cons call calls ih =>
    obtain ⟨d₁, h₁, hrest⟩ := Outcome.bind_eq_ok.mp h
    obtain ⟨firSpec, b, hb⟩ := bindFir_eq_ok h₁
    exact ih (hstep hd hb) hrest

theorem readSlotsFree_calls {T : Nat} (hT : 2 < T) (calls : List Call) {d d' : FirEngineDesc}
    (hsh : Shaped T d) (h : bindCalls d calls = .ok d') :
    ReadSlotsFree d' ↔ ReadSlotsFree d ∧ AllKeepReadSlots d calls := by
  induction calls generalizing d with
  | nil =>
    cases h
    simp [AllKeepReadSlots]
  | cons call calls ih =>
    obtain ⟨d₁, h₁, hrest⟩ := Outcome.bind_eq_ok.mp h
    obtain ⟨firSpec, b, hb⟩ := bindFir_eq_ok h₁
    rw [ih (hsh.bindStep hb) hrest, readSlotsFree_bindStep hT hsh hb, and_assoc]
    refine and_congr_right fun _ => and_congr_right fun _ => ⟨fun hall d₂ h₂ => ?_, fun hall => ?_⟩
    · rw [h₁, Except.ok.injEq] at h₂
      exact h₂ ▸ hall
    · exact hall d₁ h₁

theorem shaped_empty (T : Nat) : Shaped T { numTimeSlots := T } where
  numTimeSlots := rfl
  latency := rfl
  slots := by simp
  refs := by simp

theorem readSlotsFree_iff_calls_keep {T : Nat} (hT : 2 < T) (calls : List Call)
    {d : FirEngineDesc} (h : bindCalls { numTimeSlots := T } calls = .ok d) :
    ReadSlotsFree d ↔ AllKeepReadSlots { numTimeSlots := T } calls := by
  rw [readSlotsFree_calls hT calls (shaped_empty T) h]
  have hempty : ReadSlotsFree { numTimeSlots := T } := by
    intro mac hmac
    cases hmac
  simp [hempty]

structure Guarded (d : FirEngineDesc) (firSpec : FirSpec) (I : Nat) : Prop where
  taps : 0 < firSpec.coeff.length
  interval : d.firUpdateLatency < I
  wrap : d.numTimeSlots % I ≠ d.firUpdateLatency
  occupied : ∀ mac ∈ d.firEngineMacDesc, ∀ t < d.numTimeSlots, Used mac t →
    ∃ v < d.numTimeSlots,
      v % I = (t + (d.numTimeSlots - d.firUpdateLatency)) % d.numTimeSlots % I ∧
        (mac.coeffRefAt v).isNull = false

def GuardsReadSlots (d : FirEngineDesc) (spec : FirEngineSpec) (f : Nat) : Prop :=
  ∀ firSpec, spec.firSpec[f]? = some firSpec →
    Guarded d firSpec (roundedInterval d.numTimeSlots spec.clockFreq firSpec.sampleFreq)

instance (d : FirEngineDesc) (firSpec : FirSpec) (I : Nat) : Decidable (Guarded d firSpec I) :=
  decidable_of_iff (0 < firSpec.coeff.length ∧ d.firUpdateLatency < I ∧
    d.numTimeSlots % I ≠ d.firUpdateLatency ∧
    ∀ mac ∈ d.firEngineMacDesc, ∀ t < d.numTimeSlots, Used mac t → ∃ v < d.numTimeSlots,
      v % I = (t + (d.numTimeSlots - d.firUpdateLatency)) % d.numTimeSlots % I ∧
        (mac.coeffRefAt v).isNull = false)
    ⟨fun h => ⟨h.1, h.2.1, h.2.2.1, h.2.2.2⟩, fun h => ⟨h.taps, h.interval, h.wrap, h.occupied⟩⟩

instance (d : FirEngineDesc) (spec : FirEngineSpec) (f : Nat) :
    Decidable (GuardsReadSlots d spec f) :=
  inferInstanceAs (Decidable (∀ firSpec ∈ spec.firSpec[f]?, Guarded d firSpec _))

def AllGuardReadSlots : FirEngineDesc → List Call → Prop
  | _, [] => True
  | d, (spec, f) :: calls =>
    GuardsReadSlots d spec f ∧ ∀ d', d.bindFir spec f = .ok d' → AllGuardReadSlots d' calls

section Guarded

variable {d d' : FirEngineDesc} {spec : FirEngineSpec} {f : Nat} {firSpec : FirSpec}
  {b : FirBinding} {mac : FirEngineMacDesc} {T I L : Nat}

theorem not_mem_offsets_add (ho : b.timeSliceOrigin < b.timeSliceInterval) (hpos : 0 < L)
    (hL : L < b.timeSliceInterval) (hLT : L < T) (hwrap : T % b.timeSliceInterval ≠ L) {t : Nat}
    (ht : t ∈ b.timeSliceOffsets T) : (t + L) % T ∉ b.timeSliceOffsets T := by
  rw [mem_timeSliceOffsets_iff_mod ho] at ht ⊢
  rintro ⟨_, hmod⟩
  obtain ⟨htT, hto⟩ := ht
  rcases Nat.lt_or_ge (t + L) T with hlt | hge
  · rw [Nat.mod_eq_of_lt hlt, Nat.add_mod, hto, Nat.mod_eq_of_lt hL] at hmod
    rcases Nat.lt_or_ge (b.timeSliceOrigin + L) b.timeSliceInterval with h1 | h1
    · rw [Nat.mod_eq_of_lt h1] at hmod
      omega
    · rw [Nat.mod_eq_sub_mod h1, Nat.mod_eq_of_lt (by omega)] at hmod
      omega
  · rw [Nat.mod_eq_sub_mod hge, Nat.mod_eq_of_lt (by omega : t + L - T < T),
      Nat.mod_eq_of_lt (by omega)] at hmod
    have hround : T = t - b.timeSliceOrigin + L := by omega
    have hdvd : b.timeSliceInterval ∣ t - b.timeSliceOrigin := hto ▸ Nat.dvd_sub_mod t
    obtain ⟨k, hk⟩ := hdvd
    rw [hround, hk, Nat.mul_add_mod, Nat.mod_eq_of_lt hL] at hwrap
    exact hwrap rfl

theorem keeps_of_guards (hT : 2 < T) (hsh : Shaped T d) (hb : BindStep d spec f firSpec b d')
    (h : GuardsReadSlots d spec f) : KeepsReadSlots d spec f := by
  have hg := h firSpec hb.firSpec_eq
  rw [roundedInterval_of_ok hb.interval] at hg
  have horigin : b.timeSliceOrigin < b.timeSliceInterval := hb.found.origin
  have hL := hsh.latency
  have hLT : d.firUpdateLatency < d.numTimeSlots := by rw [hL, hsh.numTimeSlots]; exact hT
  refine (keepsReadSlots_iff hb).mpr fun t ht =>
    ⟨not_mem_offsets_add horigin (by omega) hg.interval hLT hg.wrap ht, fun hused => ?_⟩
  have hmod := (mem_timeSliceOffsets_iff_mod horigin).mp ht
  have hroom := room_of_canBind hb.found.canBind
  have hnot : ¬ Used (.new d.numTimeSlots) ((t + d.firUpdateLatency) % d.numTimeSlots) :=
    not_used_new _ _
  have hmem : d.targetMac b ∈ d.firEngineMacDesc :=
    (targetMac_of_forall (P := fun mac => mac = .new d.numTimeSlots ∨ mac ∈ d.firEngineMacDesc)
      (.inl rfl) fun mac hmac => .inr hmac).resolve_left fun heq => hnot (heq ▸ hused)
  obtain ⟨v, hv, hvmod, hnull⟩ := hg.occupied _ hmem _ (Nat.mod_lt _ (by omega)) hused
  rw [add_sub_mod_cancel hmod.1 hLT.le, hmod.2] at hvmod
  have hfree := hroom.refs v ((mem_timeSliceOffsets_iff_mod horigin).mpr ⟨hv, hvmod⟩) 0 hg.taps
  rw [slotBefore_of_le hv (Nat.zero_le _), Nat.sub_zero, Nat.add_mod_right, Nat.mod_eq_of_lt hv,
    hnull] at hfree
  cases hfree

theorem AllGuardReadSlots.keep {T : Nat} (hT : 2 < T) (calls : List Call) {d d' : FirEngineDesc}
    (hsh : Shaped T d) (h : bindCalls d calls = .ok d') (hguard : AllGuardReadSlots d calls) :
    AllKeepReadSlots d calls := by
  induction calls generalizing d with
  | nil => trivial
  | cons call calls ih =>
    obtain ⟨d₁, h₁, hrest⟩ := Outcome.bind_eq_ok.mp h
    obtain ⟨firSpec, b, hb⟩ := bindFir_eq_ok h₁
    refine ⟨keeps_of_guards hT hsh hb hguard.1, fun d₂ h₂ => ?_⟩
    rw [h₁, Except.ok.injEq] at h₂
    exact h₂ ▸ ih (hsh.bindStep hb) hrest (hguard.2 d₁ h₁)

end Guarded

section Long

variable {d d' : FirEngineDesc} {spec : FirEngineSpec} {f : Nat} {firSpec : FirSpec}
  {b : FirBinding} {mac : FirEngineMacDesc} {T L : Nat}

def CoversReadSlots (T L : Nat) (mac : FirEngineMacDesc) : Prop :=
  ∀ t < T, Used mac t → (mac.coeffRefAt ((t + (T - L)) % T)).isNull = false

theorem coversReadSlots_bindMac (hlen : mac.firUpdateSlot.length = T)
    (hrefs : mac.firCoeffRef.length = T) (hn : L < firSpec.coeff.length) (hL : L ≤ T)
    (h : CoversReadSlots T L mac) : CoversReadSlots T L (bindMac T firSpec b mac) := by
  intro t ht hused
  have hlt : (t + (T - L)) % T < mac.firCoeffRef.length := hrefs ▸ Nat.mod_lt _ (by omega)
  rw [FirEngineMacDesc.isNull_coeffRefAt_eq_false]
  rcases getElem?_bindCoeffRefs_cases mac.firCoeffRef (T := T) (b := b)
    (n := firSpec.coeff.length) hlt with ⟨_, _, i, _, _, hget⟩ | ⟨hfree, hget⟩
  · exact ⟨_, _, hget⟩
  · rcases (used_bindMac hlen ht).mp hused with hnew | hold
    · exact absurd (slotBefore_of_le ht hL) (hfree t hnew L hn)
    · obtain ⟨g, j, hj⟩ := FirEngineMacDesc.isNull_coeffRefAt_eq_false.mp (h t ht hold)
      exact ⟨g, j, hget.trans hj⟩

def Long (T : Nat) (call : Call) : Prop :=
  ∀ firSpec, call.1.firSpec[call.2]? = some firSpec → 2 < firSpec.coeff.length ∧
    T % roundedInterval T call.1.clockFreq firSpec.sampleFreq ≠ 2

theorem guards_of_long (hsh : Shaped T d) (hb : BindStep d spec f firSpec b d')
    (hlong : Long T (spec, f)) (hcov : ∀ mac ∈ d.firEngineMacDesc, CoversReadSlots T 2 mac) :
    GuardsReadSlots d spec f := by
  intro firSpec' hfir
  obtain rfl : firSpec = firSpec' := Option.some.inj (hb.firSpec_eq.symm.trans hfir)
  obtain ⟨htaps, hwrap⟩ := hlong firSpec hfir
  have hfits := hb.fits
  rw [← roundedInterval_of_ok hb.interval] at hfits
  rw [← hsh.numTimeSlots] at hwrap
  refine ⟨by omega, by rw [hsh.latency]; omega, by rwa [hsh.latency], fun mac hmac t ht hused => ?_⟩
  rw [hsh.latency, hsh.numTimeSlots] at *
  exact ⟨_, Nat.mod_lt _ (by omega), rfl, hcov mac hmac t ht hused⟩

theorem coversReadSlots_new (T L : Nat) : CoversReadSlots T L (.new T) :=
  fun t _ hused => absurd hused (not_used_new T t)

theorem allGuard_of_long (hT : 2 < T) (calls : List Call) (hsh : Shaped T d)
    (h : bindCalls d calls = .ok d') (hlong : ∀ call ∈ calls, Long T call)
    (hcov : ∀ mac ∈ d.firEngineMacDesc, CoversReadSlots T 2 mac) : AllGuardReadSlots d calls := by
  induction calls generalizing d with
  | nil => trivial
  | cons call calls ih =>
    obtain ⟨d₁, h₁, hrest⟩ := Outcome.bind_eq_ok.mp h
    obtain ⟨firSpec, b, hb⟩ := bindFir_eq_ok h₁
    obtain ⟨hcall, hcalls⟩ := List.forall_mem_cons.mp hlong
    have hslots := hsh.numTimeSlots
    have hcov₁ : ∀ mac ∈ d₁.firEngineMacDesc, CoversReadSlots T 2 mac := by
      refine hb.forall_mac ?_ hcov
      rw [hslots]
      exact coversReadSlots_bindMac hsh.targetMac hsh.targetRefs (hcall firSpec hb.firSpec_eq).1
        (by omega) (targetMac_of_forall (hslots ▸ coversReadSlots_new T 2) hcov)
    refine ⟨guards_of_long hsh hb hcall hcov, fun d₂ h₂ => ?_⟩
    rw [h₁, Except.ok.injEq] at h₂
    exact h₂ ▸ ih (hsh.bindStep hb) hrest hcalls hcov₁

theorem readSlotsFree_of_long (hT : 2 < T) (calls : List Call)
    (h : bindCalls { numTimeSlots := T } calls = .ok d) (hlong : ∀ call ∈ calls, Long T call) :
    ReadSlotsFree d :=
  (readSlotsFree_iff_calls_keep hT calls h).mpr
    ((allGuard_of_long hT calls (shaped_empty T) h hlong (by simp)).keep hT calls
      (shaped_empty T) h)

end Long

end FirEngine
