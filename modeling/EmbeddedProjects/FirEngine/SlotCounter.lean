import EmbeddedProjects.FirEngine.Spacing

namespace FirEngine

open FirEngineDesc FirEngineMacDesc Rtl

variable {δ : Type}

-- timeSlice_psm1 is stage 0, timeSlice_psK stage K + 1
def Rtl.TimeSlices.stage (ts : TimeSlices) : Nat → Nat
  | 0 => ts.psm1
  | 1 => ts.ps0
  | 2 => ts.ps1
  | 3 => ts.ps2
  | 4 => ts.ps3
  | 5 => ts.ps4
  | 6 => ts.ps5
  | 7 => ts.ps6
  | 8 => ts.ps7
  | 9 => ts.ps8
  | 10 => ts.ps9
  | _ => 0

namespace Rtl.Run

def stage (R : Run δ) (k j : Nat) : Nat := (R.state k).timeSlice.stage j

variable {R : Run δ} {r T : Nat}

theorem stage_zero_add (h : Released r R.env) (a : Nat) : R.stage (r + a) 0 = R.slot a :=
  psm1_add h a

theorem stage_release (h : Released r R.env) (j : Nat) : R.stage r j = 0 := by
  obtain ⟨q, rfl, hq, hstate⟩ := state_release h
  have hts : (R.state (q + 1)).timeSlice = {} := by
    rw [hstate]
    change clockTimeSlices R.p (R.env q) (R.state q) = {}
    rw [clockTimeSlices, if_pos hq]
  rw [stage, hts]
  rcases j with _ | _ | _ | _ | _ | _ | _ | _ | _ | _ | _ | n <;> rfl

theorem stage_succ (h : Released r R.env) (a : Nat) {j : Nat} (hj : j < 10) :
    R.stage (r + (a + 1)) (j + 1) = R.stage (r + a) j := by
  rw [stage, ← Nat.add_assoc, timeSlice_succ (h.free a) (h.free (a + 1))]
  rcases j with _ | _ | _ | _ | _ | _ | _ | _ | _ | _ | n
  all_goals first | rfl | omega

theorem stage_add (h : Released r R.env) (a : Nat) {j : Nat} (hj : j ≤ 10) :
    R.stage (r + a) j = if j ≤ a then R.slot (a - j) else 0 := by
  induction j generalizing a with
  | zero => exact stage_zero_add h a
  | succ j ih =>
    cases a with
    | zero => exact stage_release h _
    | succ a =>
      rw [stage_succ h a hj, ih a (Nat.le_of_succ_le hj), Nat.add_sub_add_right]
      simp only [Nat.add_le_add_iff_right]

structure WalksSlots (R : Run δ) (r T : Nat) : Prop where
  counts : ∀ a, (R.state (r + a)).timeSlice.psm1 = a % T
  delayed : ∀ j ≤ 10, ∀ a, R.stage (r + (a + j)) j = (R.state (r + a)).timeSlice.psm1
  below : ∀ j ≤ 10, ∀ a, R.stage (r + a) j < T
  -- in any `T` cycles in a row each stage shows each slot once
  once : ∀ j ≤ 10, ∀ a, ∀ t < T, ∃! b, b < T ∧ R.stage (r + (a + b + j)) j = t

theorem existsUnique_mod_add (a : Nat) {t : Nat} (ht : t < T) :
    ∃! b, b < T ∧ (a + b) % T = t := by
  have hT : 0 < T := by omega
  have ha := Nat.mod_lt a hT
  have hsum : ∀ b, (a + b) % T = (a % T + b) % T := fun b => (Nat.mod_add_mod a T b).symm
  simp only [hsum]
  refine ⟨(t + T - a % T) % T, ⟨Nat.mod_lt _ hT, ?_⟩, ?_⟩
  · have hround : a % T + (t + T - a % T) = t + T := by omega
    rw [Nat.add_mod_mod, hround, Nat.add_mod_right, Nat.mod_eq_of_lt ht]
  · rintro b ⟨hb, hbt⟩
    have hmod : a % T + b ≡ a % T + (t + T - a % T) [MOD T] := by
      have hround : a % T + (t + T - a % T) = t + T := by omega
      rw [hround, Nat.ModEq, hbt, Nat.add_mod_right, Nat.mod_eq_of_lt ht]
    have hcancel := Nat.ModEq.add_left_cancel' _ hmod
    rw [← hcancel, Nat.mod_eq_of_lt hb]

theorem eq_two_pow_of_mod {w : Nat} (h : ∀ a, a % 2 ^ w = a % T) : T = 2 ^ w := by
  have hdvd : 2 ^ w ∣ T := by
    rw [Nat.dvd_iff_mod_eq_zero, h, Nat.mod_self]
  have hdvd' : T ∣ 2 ^ w := by
    rw [Nat.dvd_iff_mod_eq_zero, ← h, Nat.mod_self]
  exact Nat.dvd_antisymm hdvd' hdvd

theorem walksSlots_iff (h : Released r R.env) :
    WalksSlots R r T ↔ T = 2 ^ regWidth R.p.log2TimeSlices := by
  constructor
  · intro hw
    refine eq_two_pow_of_mod fun a => ?_
    rw [← hw.counts a, psm1_add h, slot]
  · intro hT
    have hpos : 0 < T := hT ▸ Nat.two_pow_pos _
    have hslot : ∀ a, R.slot a = a % T := fun a => by rw [slot, hT]
    have hfull : ∀ j ≤ 10, ∀ a, R.stage (r + (a + j)) j = R.slot a := by
      intro j hj a
      rw [stage_add h _ hj, if_pos (Nat.le_add_left j a), Nat.add_sub_cancel]
    refine ⟨fun a => ?_, fun j hj a => ?_, fun j hj a => ?_, fun j hj a t ht => ?_⟩
    · rw [psm1_add h, hslot]
    · rw [hfull j hj, psm1_add h]
    · rw [stage_add h a hj]
      split
      · rw [hslot]
        exact Nat.mod_lt _ hpos
      · exact hpos
    · simp only [hfull j hj, hslot]
      exact existsUnique_mod_add a ht

end Rtl.Run

theorem bitWidth_two_pow {n : Nat} (hn : n ≤ 32) :
    IntUtils.bitWidthForEncodingValues (2 ^ n) = n := by
  rw [IntUtils.bitWidthForEncodingValues]
  cases n with
  | zero => rfl
  | succ n =>
    have hbig : 2 ^ 1 ≤ 2 ^ (n + 1) := Nat.pow_le_pow_right (by omega) (by omega)
    have hfits : 2 ^ (n + 1) ≤ 2 ^ 32 := Nat.pow_le_pow_right (by omega) hn
    rw [if_pos (by omega)]
    obtain ⟨hlo, hhi⟩ :=
      IntUtils.findMostSignificantOne_spec (x := 2 ^ (n + 1) - 1) (by omega) (by omega)
    have hle : IntUtils.findMostSignificantOne (2 ^ (n + 1) - 1) < n + 1 :=
      (Nat.pow_lt_pow_iff_right (a := 2) (by decide)).mp (by omega)
    have hge : n + 1 ≤ IntUtils.findMostSignificantOne (2 ^ (n + 1) - 1) + 1 :=
      (Nat.pow_le_pow_iff_right (a := 2) (by decide)).mp (by omega)
    omega

theorem regWidth_pos (n : Nat) : 0 < regWidth n := by
  rw [regWidth]
  split <;> omega

theorem eq_two_pow_regWidth_iff {T : Nat} (hT : T ≤ 256) :
    T = 2 ^ regWidth (IntUtils.bitWidthForEncodingValues T) ↔ ∃ n, 0 < n ∧ T = 2 ^ n := by
  constructor
  · intro h
    exact ⟨_, regWidth_pos _, h⟩
  · rintro ⟨n, hn, rfl⟩
    have hle : n ≤ 8 := (Nat.pow_le_pow_iff_right (a := 2) (by decide)).mp hT
    rw [bitWidth_two_pow (by omega), regWidth, if_neg (by omega)]

theorem hardware_walks_slots_iff (spec : FirEngineSpec) (T : Nat) (d : FirEngineDesc)
    (h : buildFirEngine spec T = .ok d) (mac : FirEngineMacDesc) (hmac : mac ∈ d.firEngineMacDesc)
    (sort : List FirEngineMacFifoDesc → List FirEngineMacFifoDesc) (R : Run δ)
    (hp : generateRtl sort spec mac = .ok R.p) (r : Nat) (hrel : Released r R.env) :
    R.WalksSlots r T ↔ ∃ n, 0 < n ∧ T = 2 ^ n := by
  have hb := builtMac_of_buildFirEngine h hmac
  have hgen := generateRtl_eq_ok.mp hp
  have hslots : mac.getNumTimeSlots = T := hb.inv.refs_length
  have hlog : R.p.log2TimeSlices = IntUtils.bitWidthForEncodingValues T := by
    rw [hgen.result, ← hslots]
    rfl
  rw [Run.walksSlots_iff hrel, hlog]
  exact eq_two_pow_regWidth_iff (hslots ▸ hgen.timeSlots_le)

theorem hardware_walks_slots_iff_eight : fastRun.WalksSlots 1 8 := by
  obtain ⟨d, mac, hd, hmac, hp⟩ := generated_fastSpec
  exact (hardware_walks_slots_iff fastSpec 8 d hd mac hmac insertionSortByMemWords fastRun hp 1
    ((resetFor_announce [4, 8]).released Nat.one_pos)).mpr ⟨3, by decide, rfl⟩

def sixSlotSpec : FirEngineSpec where
  clockFreq := 6
  firSpec := [⟨1, [1 / 2]⟩]

theorem six_slots_walk_eight : ∃ d mac p, buildFirEngine sixSlotSpec 6 = .ok d ∧
    mac ∈ d.firEngineMacDesc ∧ generateRtl insertionSortByMemWords sixSlotSpec mac = .ok p ∧
    ∀ R : Run DspRegs, R.p = p → ResetFor 1 R.env →
      (R.state 7).timeSlice.psm1 = 6 ∧ ¬ R.WalksSlots 1 6 := by
  obtain ⟨d, hd, hcheck⟩ := Outcome.exists_of_okAnd (x := buildFirEngine sixSlotSpec 6)
    (p := fun d => d.firEngineMacDesc.any fun mac =>
      Outcome.okAnd (generateRtl insertionSortByMemWords sixSlotSpec mac)
        fun p => decide (p.log2TimeSlices = 3)) (by decide +kernel)
  obtain ⟨mac, hmac, hcheck⟩ := List.any_eq_true.mp hcheck
  obtain ⟨p, hp, hcheck⟩ := Outcome.exists_of_okAnd hcheck
  refine ⟨d, mac, p, hd, hmac, hp, fun R hRp hreset => ?_⟩
  have hrel := hreset.released Nat.one_pos
  have hpsm1 : (R.state (1 + 6)).timeSlice.psm1 = 6 := by
    rw [Run.psm1_add hrel, Run.slot, hRp, of_decide_eq_true hcheck]
    rfl
  refine ⟨hpsm1, fun hw => ?_⟩
  have hcount := hw.counts 6
  rw [hpsm1] at hcount
  cases hcount

end FirEngine
