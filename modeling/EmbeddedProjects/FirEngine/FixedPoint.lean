import EmbeddedProjects.Lib.Wrap
import EmbeddedProjects.FirEngine.Parameters

namespace FirEngine

open FirEngineMacDesc

-- coefBuff_contents[i] <= COEFF_VALUES >> (24 * i), a register of 18 bits
def coefBuffWord (coeffVal : ℚ) : BitVec 18 := BitVec.ofNat 18 (coeffVal1p17 coeffVal)

-- .A({12'b0, coefBuff_rddata})
def portA (coefBuff_rddata : BitVec 18) : BitVec 30 := 0#12 ++ coefBuff_rddata

-- dspout_ps9 = dsp48e_result_ps9[33:16]
def dspout (dsp48e_result : BitVec 48) : BitVec 18 := dsp48e_result.extractLsb' 16 18

abbrev Tap := ℚ × BitVec 18

def operands (taps : List Tap) : List (BitVec 30 × BitVec 18) :=
  taps.map fun t => (portA (coefBuffWord t.1), t.2)

def passSum (ops : List (BitVec 30 × BitVec 18)) : Int :=
  (ops.map fun ab => (ab.1.extractLsb' 0 27).toInt * ab.2.toInt).sum

def AccumulatesPass (dsp : List (BitVec 30 × BitVec 18) → BitVec 48) : Prop :=
  ∀ ops, dsp ops = BitVec.ofInt 48 (passSum ops)

def value2p16 (x : BitVec 18) : ℚ := x.toInt / 2 ^ 16

def exactSum (taps : List Tap) : ℚ := (taps.map fun t => t.1 * value2p16 t.2).sum

def tolerance (taps : List Tap) : ℚ := (taps.length + 1) / 2 ^ 16

def FormatsAgree (dsp : List (BitVec 30 × BitVec 18) → BitVec 48) (taps : List Tap) : Prop :=
  |value2p16 (dspout (dsp (operands taps))) - exactSum taps| ≤ tolerance taps

def quantum (coeffVal : ℚ) : Int := truncate (coeffVal * 2 ^ 17)

def quantisedSum (taps : List Tap) : Int := (taps.map fun t => quantum t.1 * t.2.toInt).sum

def negativeSum (taps : List Tap) : Int :=
  (taps.map fun t => if quantum t.1 < 0 then t.2.toInt else 0).sum

def FormatExcess (taps : List Tap) : ℚ :=
  ((quantisedSum taps / 2 ^ 16 + 4 * negativeSum taps : Int) : ℚ) - 2 ^ 16 * exactSum taps

def ExcessWraps (taps : List Tap) : Prop :=
  ∃ z : Int, |FormatExcess taps - 2 ^ 18 * z| ≤ (taps.length + 1 : ℚ)

theorem natAbs_truncate_lt {x : ℚ} {m : Nat} (hlo : -(m : ℚ) < x) (hhi : x < m) :
    (truncate x).natAbs < m := by
  rw [truncate, Int.natAbs_tdiv, Int.natAbs_natCast]
  refine (Nat.div_lt_iff_lt_mul x.den_pos).mpr ?_
  have hden : (0 : ℚ) < x.den := by exact_mod_cast x.den_pos
  have hnum : |(x.num : ℚ)| < m * x.den := by
    rw [abs_lt]
    have hx : x * x.den = x.num := Rat.mul_den_eq_num x
    constructor
    · rw [← hx]
      nlinarith
    · rw [← hx]
      nlinarith
  have hcast : ((x.num.natAbs : Nat) : ℚ) = |(x.num : ℚ)| := by
    rw [Nat.cast_natAbs, Int.cast_abs]
  rw [← hcast] at hnum
  exact_mod_cast hnum

theorem quantum_bounds {c : ℚ} (hlo : -1 < c) (hhi : c < 1) :
    -2 ^ 17 < quantum c ∧ quantum c < 2 ^ 17 := by
  have h := natAbs_truncate_lt (x := c * 2 ^ 17) (m := 2 ^ 17)
    (by push_cast; linarith) (by push_cast; linarith)
  rw [quantum]
  omega

theorem toNat_coefBuffWord {c : ℚ} (hlo : -1 < c) (hhi : c < 1) :
    ((coefBuffWord c).toNat : Int) = quantum c + if quantum c < 0 then 2 ^ 18 else 0 := by
  obtain ⟨h1, h2⟩ := quantum_bounds hlo hhi
  have hnonneg := Int.emod_nonneg (quantum c) (by decide : (2 : Int) ^ 18 ≠ 0)
  have hlt := Int.emod_lt_of_pos (quantum c) (by decide : (0 : Int) < 2 ^ 18)
  have hnat : (coefBuffWord c).toNat = (quantum c % 2 ^ 18).toNat := by
    rw [coefBuffWord, BitVec.toNat_ofNat, coeffVal1p17, ← quantum]
    exact Nat.mod_eq_of_lt (by omega)
  rw [hnat, Int.toNat_of_nonneg hnonneg]
  split
  · next hneg =>
    rw [← Int.add_emod_right, Int.emod_eq_of_lt (by omega) (by omega)]
  · next hpos => rw [Int.emod_eq_of_lt (by omega) (by omega), add_zero]

theorem toInt_portA (w : BitVec 18) : ((portA w).extractLsb' 0 27).toInt = w.toNat := by
  have hw := w.isLt
  have hport : (portA w).toNat = w.toNat := by
    rw [portA, BitVec.toNat_append]
    simp
  have hslice : ((portA w).extractLsb' 0 27).toNat = w.toNat := by
    rw [BitVec.extractLsb'_toNat, hport, Nat.shiftRight_zero]
    exact Nat.mod_eq_of_lt (by omega)
  rw [BitVec.toInt_eq_toNat_of_lt (by rw [hslice]; omega), hslice]

theorem passSum_operands {taps : List Tap} (h : ∀ t ∈ taps, -1 < t.1 ∧ t.1 < 1) :
    passSum (operands taps) = quantisedSum taps + 2 ^ 16 * (4 * negativeSum taps) := by
  induction taps with
  | nil => rfl
  | cons t taps ih =>
    simp only [List.mem_cons, forall_eq_or_imp] at h
    have hword := toNat_coefBuffWord h.1.1 h.1.2
    have hrest := ih h.2
    simp only [passSum, operands, List.map_cons, List.sum_cons, quantisedSum, negativeSum,
      toInt_portA, hword] at hrest ⊢
    rw [hrest]
    split
    · ring
    · ring

theorem toInt_dspout {dsp : List (BitVec 30 × BitVec 18) → BitVec 48} (hdsp : AccumulatesPass dsp)
    {taps : List Tap} (h : ∀ t ∈ taps, -1 < t.1 ∧ t.1 < 1) :
    (dspout (dsp (operands taps))).toInt =
      Int.bmod (quantisedSum taps / 2 ^ 16 + 4 * negativeSum taps) (2 ^ 18) := by
  rw [dspout, hdsp, Wrap.toInt_extractLsb'_ofInt (by decide), passSum_operands h,
    Int.add_mul_ediv_left _ _ (by decide)]

theorem formatsAgree_iff {dsp : List (BitVec 30 × BitVec 18) → BitVec 48}
    (hdsp : AccumulatesPass dsp) {taps : List Tap} (hc : ∀ t ∈ taps, -1 < t.1 ∧ t.1 < 1)
    (hlo : -2 ≤ exactSum taps - tolerance taps) (hhi : exactSum taps + tolerance taps < 2) :
    FormatsAgree dsp taps ↔ ExcessWraps taps := by
  have hpos : (0 : ℚ) < 2 ^ 16 := by positivity
  have hscale : tolerance taps * 2 ^ 16 = taps.length + 1 := by
    rw [tolerance]
    field_simp
  have hwrap := Wrap.abs_bmod_sub_le_iff (m := 2 ^ 18) (by decide) (by decide)
    (quantisedSum taps / 2 ^ 16 + 4 * negativeSum taps) (t := 2 ^ 16 * exactSum taps)
    (δ := taps.length + 1) (by push_cast; nlinarith) (by push_cast; nlinarith)
  have hvalue : FormatsAgree dsp taps ↔
      |((dspout (dsp (operands taps))).toInt : ℚ) - 2 ^ 16 * exactSum taps| ≤
        (taps.length + 1 : ℚ) := by
    rw [FormatsAgree, ← mul_le_mul_iff_left₀ hpos, hscale, ← abs_of_pos hpos, ← abs_mul,
      abs_of_pos hpos, value2p16]
    have : ((dspout (dsp (operands taps))).toInt / 2 ^ 16 - exactSum taps) * 2 ^ 16 =
        ((dspout (dsp (operands taps))).toInt : ℚ) - 2 ^ 16 * exactSum taps := by
      field_simp
    rw [this]
  rw [hvalue, toInt_dspout hdsp hc, hwrap, ExcessWraps, FormatExcess]
  push_cast
  rfl

def formatShift (taps : List Tap) : ℚ :=
  exactSum taps + 4 * (taps.map fun t => if t.1 ≤ -1 / 2 ^ 17 then value2p16 t.2 else 0).sum

def magnitude (taps : List Tap) : ℚ := (taps.map fun t => |value2p16 t.2|).sum

-- the output has four units before the point, so a multiple of 4 is no shift
def ShiftWraps (taps : List Tap) : Prop :=
  ∃ z : Int, 2 ^ 16 * |formatShift taps - 4 * z| + magnitude taps ≤ taps.length

section Rounding

variable {taps : List Tap}

theorem abs_truncate_sub_lt (x : ℚ) : |(truncate x : ℚ) - x| < 1 := by
  have hden : (0 : ℚ) < x.den := by exact_mod_cast x.den_pos
  have hx : x = x.num / x.den := (Rat.num_div_den x).symm
  have hsplit : (x.num : ℚ) = x.den * truncate x + x.num.tmod x.den := by
    rw [truncate]
    exact_mod_cast (Int.mul_tdiv_add_tmod x.num x.den).symm
  have hmod : |((x.num.tmod x.den : Int) : ℚ)| < x.den := by
    have hlt : (x.num.tmod x.den).natAbs < x.den := by
      rw [Int.natAbs_tmod]
      exact Nat.mod_lt _ x.den_pos
    rw [← Int.cast_abs, ← Int.natCast_natAbs]
    exact_mod_cast hlt
  have hdiff : (truncate x : ℚ) - x = -((x.num.tmod x.den : Int) : ℚ) / x.den := by
    rw [eq_div_iff hden.ne', sub_mul, Rat.mul_den_eq_num, hsplit]
    ring
  rw [hdiff, abs_div, abs_neg, abs_of_pos hden, div_lt_one hden]
  exact hmod

theorem quantum_nonneg {c : ℚ} (h : 0 ≤ c) : 0 ≤ quantum c := by
  have hpos : (0 : ℚ) ≤ c * 2 ^ 17 := by positivity
  exact Int.tdiv_nonneg (Rat.num_nonneg.mpr hpos) (Int.natCast_nonneg _)

theorem quantum_neg_iff {c : ℚ} : quantum c < 0 ↔ c ≤ -1 / 2 ^ 17 := by
  have hround := abs_lt.mp (abs_truncate_sub_lt (c * 2 ^ 17))
  constructor
  · intro hneg
    by_contra hgt
    rw [not_le, div_lt_iff₀ (by positivity)] at hgt
    rcases lt_or_ge (c * 2 ^ 17) 1 with hlt | hge
    · have hzero := natAbs_truncate_lt (x := c * 2 ^ 17) (m := 1) (by push_cast; linarith)
        (by push_cast; linarith)
      rw [quantum] at hneg
      omega
    · exact absurd hneg (Int.not_lt.mpr (quantum_nonneg (by linarith)))
  · intro hle
    rw [le_div_iff₀ (by positivity)] at hle
    have hlt : (quantum c : ℚ) < 0 := by
      rw [quantum]
      linarith [hround.2]
    exact_mod_cast hlt

theorem negativeSum_eq : (negativeSum taps : ℚ) =
    2 ^ 16 * (taps.map fun t => if t.1 ≤ -1 / 2 ^ 17 then value2p16 t.2 else 0).sum := by
  induction taps with
  | nil => simp [negativeSum]
  | cons t taps ih =>
    rw [negativeSum] at ih
    simp only [negativeSum, List.map_cons, List.sum_cons, quantum_neg_iff, Int.cast_add, mul_add]
      at ih ⊢
    rw [ih]
    split
    · rw [value2p16, mul_div_cancel₀ _ (by positivity)]
    · simp

theorem abs_quantisedSum_sub_le (taps : List Tap) :
    |(quantisedSum taps : ℚ) - 2 ^ 33 * exactSum taps| ≤ 2 ^ 16 * magnitude taps := by
  induction taps with
  | nil => simp [quantisedSum, exactSum, magnitude]
  | cons t taps ih =>
    have hround : |(quantum t.1 : ℚ) - t.1 * 2 ^ 17| ≤ 1 := (abs_truncate_sub_lt _).le
    have hterm : |(quantum t.1 * t.2.toInt : ℚ) - 2 ^ 33 * (t.1 * value2p16 t.2)| ≤
        2 ^ 16 * |value2p16 t.2| := by
      have hfactor : (quantum t.1 * t.2.toInt : ℚ) - 2 ^ 33 * (t.1 * value2p16 t.2) =
          (quantum t.1 - t.1 * 2 ^ 17) * (2 ^ 16 * value2p16 t.2) := by
        rw [value2p16]
        ring
      rw [hfactor, abs_mul, abs_mul, abs_of_pos (by positivity : (0 : ℚ) < 2 ^ 16)]
      exact mul_le_of_le_one_left (by positivity) hround
    have hsplit : (quantisedSum (t :: taps) : ℚ) - 2 ^ 33 * exactSum (t :: taps) =
        ((quantum t.1 * t.2.toInt : ℚ) - 2 ^ 33 * (t.1 * value2p16 t.2)) +
          (quantisedSum taps - 2 ^ 33 * exactSum taps) := by
      simp only [quantisedSum, exactSum, List.map_cons, List.sum_cons]
      push_cast
      ring
    rw [hsplit, magnitude, List.map_cons, List.sum_cons, mul_add]
    exact (abs_add_le _ _).trans (add_le_add hterm ih)

theorem ediv_bounds (q : Int) :
    ((q / 2 ^ 16 : Int) : ℚ) * 2 ^ 16 ≤ q ∧
      (q : ℚ) < ((q / 2 ^ 16 : Int) : ℚ) * 2 ^ 16 + 2 ^ 16 := by
  have hdiv := Int.mul_ediv_add_emod q (2 ^ 16)
  have hlt := Int.emod_lt_of_pos q (by decide : (0 : Int) < 2 ^ 16)
  have hge := Int.emod_nonneg q (by decide : (2 : Int) ^ 16 ≠ 0)
  constructor
  · exact_mod_cast (by omega : q / 2 ^ 16 * 2 ^ 16 ≤ q)
  · exact_mod_cast (by omega : q < q / 2 ^ 16 * 2 ^ 16 + 2 ^ 16)

theorem abs_formatExcess_sub_lt (taps : List Tap) :
    |FormatExcess taps - 2 ^ 16 * formatShift taps| < 1 + magnitude taps := by
  obtain ⟨hlow, hhigh⟩ := ediv_bounds (quantisedSum taps)
  have hsum := abs_le.mp (abs_quantisedSum_sub_le taps)
  have hdiff : FormatExcess taps - 2 ^ 16 * formatShift taps =
      ((quantisedSum taps / 2 ^ 16 : Int) : ℚ) - 2 ^ 17 * exactSum taps := by
    rw [FormatExcess, formatShift, Int.cast_add, Int.cast_mul, negativeSum_eq]
    push_cast
    ring
  rw [hdiff, abs_lt]
  constructor <;> linarith [hsum.1, hsum.2]

end Rounding

theorem formats_agree_of_shift (dsp : List (BitVec 30 × BitVec 18) → BitVec 48)
    (hdsp : AccumulatesPass dsp) (taps : List Tap) (hc : ∀ t ∈ taps, -1 < t.1 ∧ t.1 < 1)
    (hlo : -2 ≤ exactSum taps - tolerance taps) (hhi : exactSum taps + tolerance taps < 2) :
    (ShiftWraps taps → FormatsAgree dsp taps) ∧
    (FormatsAgree dsp taps → ∃ z : Int,
      2 ^ 16 * |formatShift taps - 4 * z| < taps.length + 2 + magnitude taps) := by
  have hexcess := abs_formatExcess_sub_lt taps
  have hscale : ∀ z : Int, |2 ^ 16 * formatShift taps - 2 ^ 18 * z| =
      2 ^ 16 * |formatShift taps - 4 * z| := by
    intro z
    have hfactor : 2 ^ 16 * formatShift taps - 2 ^ 18 * z =
        2 ^ 16 * (formatShift taps - 4 * z) := by
      ring
    rw [hfactor, abs_mul, abs_of_pos (by positivity : (0 : ℚ) < 2 ^ 16)]
  rw [formatsAgree_iff hdsp hc hlo hhi]
  constructor
  · rintro ⟨z, hz⟩
    refine ⟨z, ?_⟩
    have htriangle := abs_sub_le (FormatExcess taps) (2 ^ 16 * formatShift taps) (2 ^ 18 * z)
    rw [hscale] at htriangle
    linarith
  · rintro ⟨z, hz⟩
    refine ⟨z, ?_⟩
    have htriangle := abs_sub_le (2 ^ 16 * formatShift taps) (FormatExcess taps) (2 ^ 18 * z)
    rw [hscale, abs_sub_comm _ (FormatExcess taps)] at htriangle
    linarith

def exactDsp (ops : List (BitVec 30 × BitVec 18)) : BitVec 48 := BitVec.ofInt 48 (passSum ops)

theorem formats_agree_of_shift_small_samples :
    FormatsAgree exactDsp [(1 / 4, 2#18), (1 / 2, 1#18)] :=
  (formats_agree_of_shift exactDsp (fun _ => rfl) _ (by decide +kernel) (by decide +kernel)
    (by decide +kernel)).1 ⟨0, by decide +kernel⟩

theorem half_of_one_is_one : AccumulatesPass exactDsp ∧
    (∀ t ∈ [((1 / 2 : ℚ), 65536#18)], -1 < t.1 ∧ t.1 < 1) ∧ |(1 / 2 : ℚ)| ≤ 1 ∧
    -2 ≤ exactSum [(1 / 2, 65536#18)] - tolerance [(1 / 2, 65536#18)] ∧
    exactSum [(1 / 2, 65536#18)] + tolerance [(1 / 2, 65536#18)] < 2 ∧
    ¬ FormatsAgree exactDsp [(1 / 2, 65536#18)] := by
  refine ⟨fun _ => rfl, by decide +kernel, by decide +kernel, by decide +kernel,
    by decide +kernel, ?_⟩
  rw [FormatsAgree]
  decide +kernel

def slack (n : Nat) : ℚ := (2 * n + 1) / 2 ^ 16

section Doubled

variable {taps : List Tap} {z : Int} {x : ℚ} {n : Nat}

theorem negativeSum_eq_zero {taps : List Tap} (h : ∀ t ∈ taps, 0 ≤ t.1) :
    negativeSum taps = 0 := by
  refine List.sum_eq_zero fun v hv => ?_
  obtain ⟨t, ht, rfl⟩ := List.mem_map.mp hv
  exact if_neg (Int.not_lt.mpr (quantum_nonneg (h t ht)))

theorem magnitude_le (taps : List Tap) : magnitude taps ≤ 2 * taps.length := by
  induction taps with
  | nil => simp [magnitude]
  | cons t taps ih =>
    have hlo : (-2 ^ 17 : ℚ) ≤ t.2.toInt := by exact_mod_cast BitVec.le_toInt t.2
    have hhi : (t.2.toInt : ℚ) ≤ 2 ^ 17 := by exact_mod_cast (BitVec.toInt_lt (x := t.2)).le
    have hvalue : |value2p16 t.2| ≤ 2 := by
      rw [value2p16, abs_le, le_div_iff₀ (by positivity), div_le_iff₀ (by positivity)]
      constructor <;> linarith
    rw [magnitude] at ih
    rw [magnitude, List.map_cons, List.sum_cons, List.length_cons]
    push_cast
    linarith

theorem abs_quotient_sub_le (taps : List Tap) :
    |((quantisedSum taps / 2 ^ 16 : Int) : ℚ) / 2 ^ 16 - 2 * exactSum taps| ≤
      slack taps.length := by
  obtain ⟨hlow, hhigh⟩ := ediv_bounds (quantisedSum taps)
  have hsum := abs_le.mp (abs_quantisedSum_sub_le taps)
  have hmagnitude := magnitude_le taps
  rw [slack, abs_le]
  constructor <;> linarith [hsum.1, hsum.2]

theorem bmod_of_near (hclose : |(z : ℚ) / 2 ^ 16 - 2 * x| ≤ slack n)
    (hroom : |2 * x| + slack n < 2) : Int.bmod z (2 ^ 18) = z := by
  have hsmall : |(z : ℚ)| < 2 ^ 17 := by
    have hnear := abs_le.mp hclose
    have hbound := abs_le.mp (le_refl |2 * x|)
    rw [abs_lt]
    constructor <;> linarith
  have hlt : z.natAbs < 2 ^ 17 := by
    have hcast : ((z.natAbs : Nat) : ℚ) = |(z : ℚ)| := by rw [Nat.cast_natAbs, Int.cast_abs]
    exact_mod_cast hcast.trans_lt hsmall
  rw [Int.bmod_eq_of_le] <;> omega

end Doubled

theorem filter_output_is_doubled (dsp : List (BitVec 30 × BitVec 18) → BitVec 48)
    (hdsp : AccumulatesPass dsp) (taps : List Tap) (hc : ∀ t ∈ taps, 0 ≤ t.1 ∧ t.1 < 1)
    (hroom : |2 * exactSum taps| + slack taps.length < 2) :
    |value2p16 (dspout (dsp (operands taps))) - 2 * exactSum taps| ≤ slack taps.length := by
  have hinside : ∀ t ∈ taps, -1 < t.1 ∧ t.1 < 1 := fun t ht =>
    ⟨(by decide : (-1 : ℚ) < 0).trans_le (hc t ht).1, (hc t ht).2⟩
  have hclose := abs_quotient_sub_le taps
  have hword := toInt_dspout hdsp hinside
  rw [negativeSum_eq_zero fun t ht => (hc t ht).1, Int.mul_zero, Int.add_zero,
    bmod_of_near hclose hroom] at hword
  rw [value2p16, hword]
  exact hclose

theorem filter_output_is_doubled_one_sample :
    |value2p16 (dspout (exactDsp (operands [(1 / 4, 65536#18), (1 / 8, 0#18)]))) -
      2 * exactSum [(1 / 4, 65536#18), (1 / 8, 0#18)]| ≤ slack 2 :=
  filter_output_is_doubled exactDsp (fun _ => rfl) [(1 / 4, 65536#18), (1 / 8, 0#18)]
    (by decide +kernel) (by decide +kernel)

end FirEngine
