import Mathlib.Algebra.Ring.Int.Defs
import Mathlib.Algebra.Ring.Nat
import EmbeddedProjects.Adc.Delivery

namespace Adc

open Bits

def adcDataMax : BitVec 32 := 0x1FFF

def writeVadcc (sscanf : String → BitVec 32 × BitVec 32) (buffer : String) (count : Nat) :
    Nat × List (BitVec 32) :=
  let (x, y) := sscanf buffer
  let y := y <<< 3 ||| x
  if (0#32).slt y ∧ (0#32).sle x ∧ x.slt 8 ∧ y.slt adcDataMax then (count, [y]) else (count, [])

def InsyncReports (channel : Nat) (reading : BitVec 32) (events : List (BitVec 32)) : Prop :=
  ∃ status tsDev regs, servicedChannel status = some channel ∧ regs.cdr channel = reading ∧
    (insyncAdccInterrupt status tsDev regs).2.2 = events

structure BehavesAsReal (x y : BitVec 32) (events : List (BitVec 32)) : Prop where
  reports_iff : events ≠ [] ↔ (0 ≤ x.toInt ∧ x.toInt ≤ 7) ∧ (0 ≤ y.toInt ∧ y.toInt ≤ 1023) ∧
    ∃ value, InsyncReports x.toNat y [value]
  same_value : events ≠ [] → ∀ real, InsyncReports x.toNat y real → real = events
  decoded : ∀ value ∈ events, decodeEvent value = (x.toNat, y)

def IsReading (y : BitVec 32) : Prop := 1 ≤ y.toInt ∧ y.toInt ≤ 1023

-- the shift leaves the low 29 bits of y, and 0 and 8191 are the packed words that are kept back
def InStep (x y : BitVec 32) : Prop :=
  x.toInt < 0 ∨ 7 < x.toInt ∨ 1023 < y.toInt % 2 ^ 29 ∨
    (IsReading y ∧ ¬ (x.toInt = 7 ∧ y.toInt = 1023)) ∨
    (¬ IsReading y ∧ ((x.toInt = 0 ∧ y.toInt % 2 ^ 29 = 0) ∨
      (x.toInt = 7 ∧ y.toInt % 2 ^ 29 = 1023)))

instance (y : BitVec 32) : Decidable (IsReading y) := inferInstanceAs (Decidable (_ ∧ _))

instance (x y : BitVec 32) : Decidable (InStep x y) :=
  inferInstanceAs (Decidable (_ ∨ _ ∨ _ ∨ (IsReading y ∧ _) ∨ (¬ IsReading y ∧ _)))

section Pack

variable {x y : BitVec 32} {c : Nat} {reading : BitVec 32} {events : List (BitVec 32)}

theorem toNat_pack (hx : x.toNat < 8) :
    (y <<< 3 ||| x).toNat = 8 * (y.toNat % 2 ^ 29) + x.toNat := by
  have hshift : (y <<< 3).toNat = (y.toNat % 2 ^ 29) <<< 3 := by
    rw [BitVec.toNat_shiftLeft, Nat.shiftLeft_eq, Nat.shiftLeft_eq]
    omega
  rw [BitVec.toNat_or, hshift, ← Nat.shiftLeft_add_eq_or_of_lt hx, Nat.shiftLeft_eq]
  omega

theorem toInt_emod (y : BitVec 32) : y.toInt % 2 ^ 29 = ((y.toNat % 2 ^ 29 : Nat) : Int) := by
  rw [BitVec.toInt_eq_toNat_cond]
  split <;> omega

theorem pack_mem_range_iff (h : 0 ≤ x.toInt ∧ x.toInt ≤ 7) :
    ((0#32).slt (y <<< 3 ||| x) = true ∧ (y <<< 3 ||| x).slt adcDataMax = true) ↔
      0 < 8 * (y.toInt % 2 ^ 29) + x.toInt ∧ 8 * (y.toInt % 2 ^ 29) + x.toInt < 8191 := by
  have hx := toNat_of_toInt_nonneg h.1
  have hpack := toNat_pack (x := x) (y := y) (by omega)
  have hcond := BitVec.toInt_eq_toNat_cond (y <<< 3 ||| x)
  have hzero : (0#32).toInt = 0 := rfl
  have hmax : adcDataMax.toInt = 8191 := rfl
  rw [BitVec.slt_iff_toInt_lt, BitVec.slt_iff_toInt_lt, hzero, hmax, toInt_emod, ← hx]
  split at hcond <;> omega

theorem channel_range_iff : ((0#32).sle x = true ∧ x.slt 8 = true) ↔
    0 ≤ x.toInt ∧ x.toInt ≤ 7 := by
  have hzero : (0#32).toInt = 0 := rfl
  have height : (8 : BitVec 32).toInt = 8 := rfl
  rw [BitVec.sle_iff_toInt_le, BitVec.slt_iff_toInt_lt, hzero, height]
  omega

theorem insyncReports_iff : InsyncReports c reading events ↔
    c < 8 ∧ events = if reading > 0 then [reading <<< 3 ||| BitVec.ofNat 32 c] else [] := by
  have hevents : ∀ status tsDev regs, servicedChannel status = some c → regs.cdr c = reading →
      (insyncAdccInterrupt status tsDev regs).2.2 =
        if reading > 0 then [reading <<< 3 ||| BitVec.ofNat 32 c] else [] := by
    rintro status tsDev regs hserviced rfl
    simp only [insyncAdccInterrupt, hserviced, Registers.readCdr]
    by_cases hpos : regs.cdr c > 0
    · simp only [hpos, if_true]
    · simp only [hpos, if_false]
  constructor
  · rintro ⟨status, tsDev, regs, hserviced, hreading, rfl⟩
    exact ⟨(servicedChannel_spec hserviced).1, hevents status tsDev regs hserviced hreading⟩
  · rintro ⟨hc, rfl⟩
    have hserviced : ∀ c < 8, servicedChannel (atmelTsadccEoc c) = some c := by decide
    exact ⟨_, {}, { cdr := fun _ => reading }, hserviced c hc, rfl,
      hevents _ _ _ (hserviced c hc) rfl⟩

end Pack

section Written

variable {sscanf : String → BitVec 32 × BitVec 32} {buffer : String} {count : Nat}
  {x y : BitVec 32} {events : List (BitVec 32)}

-- the range check, on the packed word
def Sent (x y : BitVec 32) : Prop :=
  (0 ≤ x.toInt ∧ x.toInt ≤ 7) ∧ 0 < 8 * (y.toInt % 2 ^ 29) + x.toInt ∧
    8 * (y.toInt % 2 ^ 29) + x.toInt < 8191

theorem writeVadcc_cases (count : Nat) (hscan : sscanf buffer = (x, y)) :
    (Sent x y ∧ (writeVadcc sscanf buffer count).2 = [y <<< 3 ||| x]) ∨
      (¬ Sent x y ∧ (writeVadcc sscanf buffer count).2 = []) := by
  rw [writeVadcc, hscan]
  dsimp only
  split
  · next h =>
    have hchannel := channel_range_iff.mp ⟨h.2.1, h.2.2.1⟩
    exact .inl ⟨⟨hchannel, (pack_mem_range_iff hchannel).mp ⟨h.1, h.2.2.2⟩⟩, rfl⟩
  · next h =>
    refine .inr ⟨fun hsent => h ?_, rfl⟩
    have hchannel := channel_range_iff.mpr hsent.1
    have hpack := (pack_mem_range_iff hsent.1).mpr hsent.2
    exact ⟨hpack.1, hchannel.1, hchannel.2, hpack.2⟩

theorem insyncReports_of_reading (hx : 0 ≤ x.toInt ∧ x.toInt ≤ 7) (hy : 0 ≤ y.toInt) :
    InsyncReports x.toNat y events ↔
      events = if 1 ≤ y.toInt then [y <<< 3 ||| x] else [] := by
  have hxnat := toNat_of_toInt_nonneg hx.1
  have hynat := toNat_of_toInt_nonneg hy
  have hzero : (0 : BitVec 32).toNat = 0 := rfl
  have hpos : y > 0 ↔ 1 ≤ y.toInt := by
    rw [gt_iff_lt, BitVec.lt_def, hzero]
    omega
  have hc : x.toNat < 8 := by omega
  simp only [insyncReports_iff, BitVec.ofNat_toNat, BitVec.setWidth_eq, hpos, hc, true_and]

theorem real_event_iff : ((0 ≤ x.toInt ∧ x.toInt ≤ 7) ∧ (0 ≤ y.toInt ∧ y.toInt ≤ 1023) ∧
    ∃ value, InsyncReports x.toNat y [value]) ↔
      (0 ≤ x.toInt ∧ x.toInt ≤ 7) ∧ IsReading y := by
  constructor
  · rintro ⟨hx, hy, value, hreports⟩
    refine ⟨hx, ?_, hy.2⟩
    by_contra hzero
    rw [insyncReports_of_reading hx hy.1, if_neg hzero] at hreports
    cases hreports
  · rintro ⟨hx, hy⟩
    have hnonneg : 0 ≤ y.toInt := Int.le_trans Int.one_nonneg hy.1
    exact ⟨hx, ⟨hnonneg, hy.2⟩, _, (insyncReports_of_reading hx hnonneg).mpr (if_pos hy.1).symm⟩

theorem inStep_iff :
    InStep x y ↔ (Sent x y ↔ (0 ≤ x.toInt ∧ x.toInt ≤ 7) ∧ IsReading y) := by
  have hlow : IsReading y → y.toInt % 2 ^ 29 = y.toInt :=
    fun hy => Int.emod_eq_of_lt (by have := hy.1; omega) (by have := hy.2; omega)
  rw [InStep, Sent]
  by_cases hy : IsReading y
  · have hlow' := hlow hy
    have hrange : 1 ≤ y.toInt ∧ y.toInt ≤ 1023 := hy
    simp only [hy, hlow', true_and, not_true_eq_false, false_and, and_true, or_false]
    omega
  · simp only [hy, false_and, not_false_eq_true, true_and, and_false, false_or, iff_false]
    omega

theorem decodeEvent_pack (hx : 0 ≤ x.toInt ∧ x.toInt ≤ 7) (hy : IsReading y) :
    decodeEvent (y <<< 3 ||| x) = (x.toNat, y) := by
  have hxnat := toNat_of_toInt_nonneg hx.1
  have hynat := toNat_of_toInt_nonneg (Int.le_trans Int.one_nonneg hy.1)
  have hy' : y.toInt ≤ 1023 := hy.2
  have hlt : y < 1024 := BitVec.lt_def.mpr (by change y.toNat < 1024; omega)
  have hdecode : decodeEvent (y <<< 3 ||| BitVec.ofNat 32 x.toNat) = (x.toNat, y) :=
    decodeEvent_eq (by omega) hlt
  rwa [BitVec.ofNat_toNat, BitVec.setWidth_eq] at hdecode

theorem behavesAsReal_iff (hscan : sscanf buffer = (x, y)) :
    BehavesAsReal x y (writeVadcc sscanf buffer count).2 ↔ InStep x y := by
  rw [inStep_iff]
  rcases writeVadcc_cases count hscan with ⟨hsent, hevents⟩ | ⟨hsent, hevents⟩
  · rw [hevents]
    constructor
    · exact fun h => iff_of_true hsent (real_event_iff.mp (h.reports_iff.mp (by simp)))
    · intro h
      have hreal := h.mp hsent
      have hnonneg : 0 ≤ y.toInt := Int.le_trans Int.one_nonneg hreal.2.1
      refine ⟨iff_of_true (by simp) (real_event_iff.mpr hreal), ?_, ?_⟩
      · intro _ real hreports
        rw [(insyncReports_of_reading hreal.1 hnonneg).mp hreports, if_pos hreal.2.1]
      · intro value hvalue
        rw [List.mem_singleton.mp hvalue]
        exact decodeEvent_pack hreal.1 hreal.2
  · rw [hevents]
    constructor
    · exact fun h => iff_of_false hsent fun hreal =>
        absurd (h.reports_iff.mpr (real_event_iff.mpr hreal)) (by simp)
    · intro h
      exact ⟨iff_of_false (by simp) fun hreal => hsent (h.mpr (real_event_iff.mp hreal)),
        by simp, by simp⟩

end Written

theorem virtual_behaves_as_real_iff (sscanf : String → BitVec 32 × BitVec 32) (buffer : String)
    (count : Nat) :
    BehavesAsReal (sscanf buffer).1 (sscanf buffer).2 (writeVadcc sscanf buffer count).2 ↔
      InStep (sscanf buffer).1 (sscanf buffer).2 :=
  behavesAsReal_iff rfl

theorem virtual_differs_from_real :
    ¬ BehavesAsReal 7 1023 (writeVadcc (fun _ => (7, 1023)) "7,1023" 6).2 ∧
    ¬ BehavesAsReal 1 0 (writeVadcc (fun _ => (1, 0)) "1,0" 3).2 ∧
    ¬ BehavesAsReal 0 536870913 (writeVadcc (fun _ => (0, 536870913)) "0,536870913" 11).2 := by
  have hdiffers : ∀ x y buffer count, ¬ InStep x y →
      ¬ BehavesAsReal x y (writeVadcc (fun _ => (x, y)) buffer count).2 :=
    fun x y buffer count h => mt (behavesAsReal_iff rfl).mp h
  exact ⟨hdiffers _ _ _ _ (by decide), hdiffers _ _ _ _ (by decide), hdiffers _ _ _ _ (by decide)⟩

end Adc
