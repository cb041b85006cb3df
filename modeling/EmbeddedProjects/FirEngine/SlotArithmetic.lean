import Mathlib.Algebra.Order.Group.Unbundled.Abs
import EmbeddedProjects.Lib.Bits
import EmbeddedProjects.Lib.While
import EmbeddedProjects.FirEngine.Reachable

namespace FirEngine

namespace SlotArithmetic

open While Writes

structure ModuloRun where
  subtracted : List (BitVec 32)
  added : List (BitVec 32)
  result : BitVec 32
  deriving DecidableEq, Repr

-- while (val >= int(modulo)) val -= modulo;
def subtractLoop (modulo : BitVec 32) : Nat → BitVec 32 → Option (List (BitVec 32) × BitVec 32) :=
  loop (fun val => modulo.sle val) (fun val => val - modulo)

-- while (val < 0) val += modulo;
def addLoop (modulo : BitVec 32) : Nat → BitVec 32 → Option (List (BitVec 32) × BitVec 32) :=
  loop (fun val => val.slt 0) (fun val => val + modulo)

-- val is an int, and both assignments go through unsigned
def moduloRun (fuel : Nat) (val modulo : BitVec 32) : Option ModuloRun := do
  let (subtracted, val) ← subtractLoop modulo fuel val
  let (added, val) ← addLoop modulo fuel val
  return { subtracted, added, result := val }

def InIntRange (x : Int) : Prop := -2 ^ 31 ≤ x ∧ x < 2 ^ 31

structure Wraps (modulo a b : BitVec 32) (run : ModuloRun) : Prop where
  terminates : ∃ rounds, ∀ fuel ≥ rounds, moduloRun fuel (a - b) modulo = some run
  subtractions : ∀ val ∈ run.subtracted, InIntRange (val.toInt - modulo.toNat)
  additions : ∀ val ∈ run.added, InIntRange (val.toInt + modulo.toNat)
  lt : run.result.toNat < modulo.toNat
  congruent : (run.result.toNat : Int) ≡ a.toNat - b.toNat [ZMOD modulo.toNat]
  unique : ∀ r : Nat, r < modulo.toNat → (r : Int) ≡ a.toNat - b.toNat [ZMOD modulo.toNat] →
    r = run.result.toNat

def ceilDiv (a b : BitVec 32) : BitVec 32 := (a + b - 1) / b

structure SumsExact (T : Nat) : Prop where
  ceilDiv : ∀ interval, 0 < interval → interval ≤ T →
    (ceilDiv (BitVec.ofNat 32 T) (BitVec.ofNat 32 interval)).toNat = IntUtils.ceilDiv T interval
  modulo : ∀ t i : Nat, t < T → i < 2 ^ 31 → ∃ run,
    Wraps (BitVec.ofNat 32 T) (BitVec.ofNat 32 t) (BitVec.ofNat 32 i) run ∧
      run.result.toNat = slotBefore T t i
  next : ∀ t interval : Nat, t < T → interval ≤ T →
    (BitVec.ofNat 32 t + BitVec.ofNat 32 interval).toNat = t + interval

def tapSlot (T t i : Nat) : Nat := (((t : Int) - i) % T).toNat

def tapWrites (T n : Nat) (b : FirBinding) : List (Nat × FirCoeffRef) :=
  (b.timeSliceOffsets T).flatMap fun t =>
    (List.range n).map fun i => (tapSlot T t i, ⟨some b.firIndex, n - 1 - i⟩)

structure UsesTapSlots (d : FirEngineDesc) (firSpec : FirSpec) (b : FirBinding) : Prop where
  computed : ∀ t i : Nat, t < d.numTimeSlots → i < 2 ^ 32 → |(t : Int) - i| < 2 ^ 31 →
    ∃ run, Wraps (BitVec.ofNat 32 d.numTimeSlots) (BitVec.ofNat 32 t) (BitVec.ofNat 32 i) run ∧
      run.result.toNat = tapSlot d.numTimeSlots t i
  reads : ∀ mac, d.firEngineMacDesc[b.firstFirMacIndex]? = some mac →
    (d.canBind firSpec b = true ↔
      mac.inputFirs.length ≠ 15 ∧ mac.outputFirs.length ≠ 15 ∧ mac.getNumFifos ≠ 256 ∧
      ∀ t ∈ b.timeSliceOffsets d.numTimeSlots, (mac.updateSlotAt t).isSlotEmpty = true ∧
        (mac.updateSlotAt (tapSlot d.numTimeSlots t d.firUpdateLatency)).isSlotEmpty = true ∧
        ∀ i < firSpec.coeff.length, (mac.coeffRefAt (tapSlot d.numTimeSlots t i)).isNull = true)
  writes : ∀ mac, (d.withMac b.firstFirMacIndex)[b.firstFirMacIndex]? = some mac →
    ∃ mac', (d.bind firSpec b).firEngineMacDesc[b.firstFirMacIndex]? = some mac' ∧
      mac'.firCoeffRef =
        applyWrites (tapWrites d.numTimeSlots firSpec.coeff.length b) mac.firCoeffRef

section Run

variable {T a b val : BitVec 32} {d : Int}

theorem toInt_of_lt (hT : T.toNat < 2 ^ 31) : T.toInt = T.toNat :=
  BitVec.toInt_eq_toNat_of_lt (by omega)

theorem toInt_sub_of_inIntRange (hT : T.toNat < 2 ^ 31) (h : InIntRange (val.toInt - T.toNat)) :
    (val - T).toInt = val.toInt - T.toNat := by
  rw [BitVec.toInt_sub, toInt_of_lt hT]
  exact Int.bmod_eq_of_le h.1 (by have := h.2; omega)

theorem toInt_add_of_inIntRange (hT : T.toNat < 2 ^ 31) (h : InIntRange (val.toInt + T.toNat)) :
    (val + T).toInt = val.toInt + T.toNat := by
  rw [BitVec.toInt_add, toInt_of_lt hT]
  exact Int.bmod_eq_of_le h.1 (by have := h.2; omega)

theorem toInt_sub_of_near (h : |(a.toNat : Int) - b.toNat| < 2 ^ 31) :
    (a - b).toInt = a.toNat - b.toNat := by
  have hnear := abs_lt.mp h
  rw [BitVec.toInt_eq_toNat_cond, BitVec.toNat_sub]
  split <;> omega

theorem inIntRange_sub (hle : (T.toNat : Int) ≤ val.toInt) :
    InIntRange (val.toInt - T.toNat) := by
  have hupper := val.toInt_lt
  exact ⟨by omega, by omega⟩

theorem inIntRange_add (hT : T.toNat < 2 ^ 31) (hneg : val.toInt < 0) :
    InIntRange (val.toInt + T.toNat) := by
  have hlower := val.le_toInt
  exact ⟨by omega, by omega⟩

theorem sub_modulo_modEq (h : val.toInt ≡ d [ZMOD T.toNat]) :
    val.toInt - T.toNat ≡ d [ZMOD T.toNat] := by
  have hsub := h.sub (Int.modEq_zero_iff_dvd.mpr (dvd_refl (T.toNat : Int)))
  simpa using hsub

theorem add_modulo_modEq (h : val.toInt ≡ d [ZMOD T.toNat]) :
    val.toInt + T.toNat ≡ d [ZMOD T.toNat] := by
  have hadd := h.add (Int.modEq_zero_iff_dvd.mpr (dvd_refl (T.toNat : Int)))
  simpa using hadd

theorem subtract_loop (hpos : 1 ≤ T.toNat) (hT : T.toNat < 2 ^ 31)
    (h : val.toInt ≡ d [ZMOD T.toNat]) : ∃ visited final,
      (∀ fuel ≥ val.toInt.toNat, subtractLoop T fuel val = some (visited, final)) ∧
      (∀ v ∈ visited, InIntRange (v.toInt - T.toNat)) ∧
      final.toInt ≡ d [ZMOD T.toNat] ∧ final.toInt < T.toNat := by
  have hguard : ∀ v : BitVec 32, T.sle v = true ↔ (T.toNat : Int) ≤ v.toInt := by
    intro v
    rw [BitVec.sle_iff_toInt_le, toInt_of_lt hT]
  have hstep : ∀ v : BitVec 32, v.toInt ≡ d [ZMOD T.toNat] → T.sle v = true →
      (v - T).toInt ≡ d [ZMOD T.toNat] ∧ (v - T).toInt.toNat < v.toInt.toNat := by
    intro v hv hle
    have hle' := (hguard v).mp hle
    rw [toInt_sub_of_inIntRange hT (inIntRange_sub hle')]
    exact ⟨sub_modulo_modEq hv, by omega⟩
  obtain ⟨visited, final, hloop, hvisited, hfinal, hstop⟩ :=
    loop_total (fun v : BitVec 32 => v.toInt ≡ d [ZMOD T.toNat]) (fun v => v.toInt.toNat) hstep h
  refine ⟨visited, final, hloop, fun v hv => ?_, hfinal, ?_⟩
  · exact inIntRange_sub ((hguard v).mp (hvisited v hv).2)
  · have hno : ¬ (T.toNat : Int) ≤ final.toInt := by
      rw [← hguard, hstop]
      exact Bool.false_ne_true
    omega

theorem add_loop (hpos : 1 ≤ T.toNat) (hT : T.toNat < 2 ^ 31)
    (h : val.toInt ≡ d [ZMOD T.toNat]) (hlt : val.toInt < T.toNat) : ∃ visited final,
      (∀ fuel ≥ (-val.toInt).toNat, addLoop T fuel val = some (visited, final)) ∧
      (∀ v ∈ visited, InIntRange (v.toInt + T.toNat)) ∧
      final.toInt ≡ d [ZMOD T.toNat] ∧ 0 ≤ final.toInt ∧ final.toInt < T.toNat := by
  have hguard : ∀ v : BitVec 32, v.slt 0 = true ↔ v.toInt < 0 := by
    intro v
    rw [BitVec.slt_iff_toInt_lt]
    rfl
  have hstep : ∀ v : BitVec 32, (v.toInt ≡ d [ZMOD T.toNat] ∧ v.toInt < T.toNat) →
      v.slt 0 = true → ((v + T).toInt ≡ d [ZMOD T.toNat] ∧ (v + T).toInt < T.toNat) ∧
        (-(v + T).toInt).toNat < (-v.toInt).toNat := by
    intro v hv hneg
    have hneg' := (hguard v).mp hneg
    rw [toInt_add_of_inIntRange hT (inIntRange_add hT hneg')]
    exact ⟨⟨add_modulo_modEq hv.1, by omega⟩, by omega⟩
  obtain ⟨visited, final, hloop, hvisited, hfinal, hstop⟩ :=
    loop_total (fun v : BitVec 32 => v.toInt ≡ d [ZMOD T.toNat] ∧ v.toInt < T.toNat)
      (fun v => (-v.toInt).toNat) hstep ⟨h, hlt⟩
  refine ⟨visited, final, hloop, fun v hv => ?_, hfinal.1, ?_, hfinal.2⟩
  · exact inIntRange_add hT ((hguard v).mp (hvisited v hv).2)
  · have hno : ¬ final.toInt < 0 := by
      rw [← hguard, hstop]
      exact Bool.false_ne_true
    omega

theorem eq_of_modEq {r r' m : Nat} (hr : r < m) (hr' : r' < m) (h : (r : Int) ≡ d [ZMOD m])
    (h' : (r' : Int) ≡ d [ZMOD m]) : r = r' := by
  have hmod : r ≡ r' [MOD m] := Int.natCast_modEq_iff.mp (h.trans h'.symm)
  exact Nat.ModEq.eq_of_lt_of_lt hmod hr hr'

theorem exists_wraps (hpos : 1 ≤ T.toNat) (hT : T.toNat < 2 ^ 31)
    (h : |(a.toNat : Int) - b.toNat| < 2 ^ 31) : ∃ run, Wraps T a b run := by
  have hstart : (a - b).toInt ≡ a.toNat - b.toNat [ZMOD T.toNat] := by
    rw [toInt_sub_of_near h]
  obtain ⟨subtracted, mid, hsub, hsubs, hmid, hmidlt⟩ := subtract_loop hpos hT hstart
  obtain ⟨added, final, hadd, hadds, hfinal, hnonneg, hlt⟩ := add_loop hpos hT hmid hmidlt
  have hcast : final.toInt = final.toNat := (Bits.toNat_of_toInt_nonneg hnonneg).symm
  rw [hcast] at hfinal hlt
  have hlt' : final.toNat < T.toNat := by exact_mod_cast hlt
  refine ⟨⟨subtracted, added, final⟩, ⟨?_, hsubs, hadds, hlt', hfinal, ?_⟩⟩
  · refine ⟨(a - b).toInt.toNat + (-mid.toInt).toNat, fun fuel hfuel => ?_⟩
    have hsub' := hsub fuel (by omega)
    have hadd' := hadd fuel (by omega)
    simp only [moduloRun, hsub', hadd', Option.bind_eq_bind, Option.bind_some]
    rfl
  · exact fun r hr hmod => eq_of_modEq hr hlt' hmod hfinal

end Run

section Slots

variable {d : FirEngineDesc} {firSpec : FirSpec} {b : FirBinding} {T : Nat}

theorem slotBefore_eq_tapSlot (hT : 0 < T) (t i : Nat) : slotBefore T t i = tapSlot T t i := by
  rw [tapSlot, ← slotBefore_eq hT, Int.toNat_natCast]

theorem coeffWrites_eq_tapWrites (hT : 0 < T) (n : Nat) (b : FirBinding) :
    FirEngineDesc.coeffWrites T n b = tapWrites T n b := by
  refine List.flatMap_congr fun t _ => List.map_congr_left fun i _ => ?_
  rw [slotBefore_eq_tapSlot hT]

theorem computed_tapSlot (hpos : 0 < T) (hT : T < 2 ^ 31) {t i : Nat} (ht : t < T)
    (hi : i < 2 ^ 32) (h : |(t : Int) - i| < 2 ^ 31) :
    ∃ run, Wraps (BitVec.ofNat 32 T) (BitVec.ofNat 32 t) (BitVec.ofNat 32 i) run ∧
      run.result.toNat = tapSlot T t i := by
  have hcast : (BitVec.ofNat 32 T).toNat = T := Nat.mod_eq_of_lt (by omega)
  have hcast_t : (BitVec.ofNat 32 t).toNat = t := Nat.mod_eq_of_lt (by omega)
  have hcast_i : (BitVec.ofNat 32 i).toNat = i := Nat.mod_eq_of_lt hi
  obtain ⟨run, hrun⟩ := exists_wraps (T := BitVec.ofNat 32 T) (a := BitVec.ofNat 32 t)
    (b := BitVec.ofNat 32 i) (by omega) (by omega) (by rwa [hcast_t, hcast_i])
  have hslot := hrun.unique (slotBefore T t i)
  rw [hcast, hcast_t, hcast_i, slotBefore_eq hpos] at hslot
  refine ⟨run, hrun, ?_⟩
  rw [← slotBefore_eq_tapSlot hpos]
  exact (hslot (slotBefore_lt hpos t i) (Int.mod_modEq _ _)).symm

theorem sumsExact (hpos : 0 < T) (hT : T < 2 ^ 31) : SumsExact T where
  ceilDiv := by
    intro interval hi hle
    have hone : (1 : BitVec 32).toNat = 1 := rfl
    have hsum : (BitVec.ofNat 32 T + BitVec.ofNat 32 interval - 1).toNat = T + interval - 1 := by
      rw [BitVec.toNat_sub, BitVec.toNat_add, BitVec.toNat_ofNat, BitVec.toNat_ofNat, hone]
      omega
    rw [SlotArithmetic.ceilDiv, BitVec.toNat_udiv, hsum, BitVec.toNat_ofNat,
      Nat.mod_eq_of_lt (by omega), IntUtils.ceilDiv]
  modulo := by
    intro t i ht hi
    rw [slotBefore_eq_tapSlot hpos]
    exact computed_tapSlot hpos hT ht (by omega) (abs_lt.mpr ⟨by omega, by omega⟩)
  next := by
    intro t interval ht hle
    rw [BitVec.toNat_add, BitVec.toNat_ofNat, BitVec.toNat_ofNat]
    omega

theorem canBind_iff (hT : 0 < d.numTimeSlots) {mac : FirEngineMacDesc}
    (hmac : d.firEngineMacDesc[b.firstFirMacIndex]? = some mac) :
    d.canBind firSpec b = true ↔
      mac.inputFirs.length ≠ 15 ∧ mac.outputFirs.length ≠ 15 ∧ mac.getNumFifos ≠ 256 ∧
      ∀ t ∈ b.timeSliceOffsets d.numTimeSlots, (mac.updateSlotAt t).isSlotEmpty = true ∧
        (mac.updateSlotAt (tapSlot d.numTimeSlots t d.firUpdateLatency)).isSlotEmpty = true ∧
        ∀ i < firSpec.coeff.length,
          (mac.coeffRefAt (tapSlot d.numTimeSlots t i)).isNull = true := by
  rw [FirEngineDesc.canBind, hmac]
  simp only [FirEngineDesc.canBindMac, Bool.and_eq_true, bne_iff_ne, ne_eq, List.all_eq_true,
    List.mem_range, slotBefore_eq_tapSlot hT]
  constructor
  · rintro ⟨⟨⟨⟨hin, hout⟩, hfifos⟩, hslots⟩, hrefs⟩
    exact ⟨hin, hout, hfifos, fun t ht => ⟨(hslots t ht).1, (hslots t ht).2, hrefs t ht⟩⟩
  · rintro ⟨hin, hout, hfifos, hall⟩
    exact ⟨⟨⟨⟨hin, hout⟩, hfifos⟩, fun t ht => ⟨(hall t ht).1, (hall t ht).2.1⟩⟩,
      fun t ht => (hall t ht).2.2⟩

theorem bind_writes (hT : 0 < d.numTimeSlots) {mac : FirEngineMacDesc}
    (hmac : (d.withMac b.firstFirMacIndex)[b.firstFirMacIndex]? = some mac) :
    ∃ mac', (d.bind firSpec b).firEngineMacDesc[b.firstFirMacIndex]? = some mac' ∧
      mac'.firCoeffRef =
        applyWrites (tapWrites d.numTimeSlots firSpec.coeff.length b) mac.firCoeffRef := by
  refine ⟨FirEngineDesc.bindMac d.numTimeSlots firSpec b mac, ?_, ?_⟩
  · simp only [FirEngineDesc.bind, List.getElem?_modify_eq, hmac]
    rfl
  · rw [← coeffWrites_eq_tapWrites hT]
    exact FirEngineDesc.bindCoeffRefs_eq _

end Slots

theorem slot_arithmetic_wraps {T : BitVec 32} (hpos : 1 ≤ T.toNat) (hT : T.toNat < 2 ^ 31) :
    (∀ a b : BitVec 32, |(a.toNat : Int) - b.toNat| < 2 ^ 31 → ∃ run, Wraps T a b run) ∧
      ∀ d firSpec b, d.numTimeSlots = T.toNat → UsesTapSlots d firSpec b := by
  constructor
  · exact fun a b h => exists_wraps hpos hT h
  · intro d firSpec b hd
    have hpos' : 0 < d.numTimeSlots := hd ▸ hpos
    exact {
      computed := fun t i ht hi h => computed_tapSlot hpos' (hd ▸ hT) ht hi h
      reads := fun mac hmac => canBind_iff hpos' hmac
      writes := fun mac hmac => bind_writes hpos' hmac }

theorem slot_arithmetic_wraps_six :
    (∃ run, Wraps 6 1 4 run) ∧ UsesTapSlots { numTimeSlots := 6 } { coeff := [1, 2] } {} := by
  have h := slot_arithmetic_wraps (T := 6) (by decide) (by decide)
  exact ⟨h.1 1 4 (by decide), h.2 _ _ _ rfl⟩

example : moduloRun 1 (1 - 4) 6 = some ⟨[], [-3], 3⟩ := by decide

end SlotArithmetic

end FirEngine
