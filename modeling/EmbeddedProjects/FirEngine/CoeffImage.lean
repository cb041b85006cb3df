import EmbeddedProjects.FirEngine.DataMemory
import EmbeddedProjects.FirEngine.FixedPoint

namespace FirEngine

open FirEngineDesc FirEngineMacDesc Layout

def value1p17 (word : Nat) : ℚ := (BitVec.ofNat 18 word).toInt / 2 ^ 17

structure FaithfulImage (spec : FirEngineSpec) (fifos : List FirEngineMacFifoDesc)
    (offsets values : List Nat) : Prop where
  coeff : ∀ (k o j : Nat) (fifo : FirEngineMacFifoDesc) (c : ℚ), fifos[k]? = some fifo →
    offsets[k]? = some o → j < fifo.fifoDepth → (spec.specOf fifo.firIndex).coeff[j]? = some c →
    ∃ word, values[o + j]? = some word ∧ word < 2 ^ 18 ∧ |value1p17 word - c| < 1 / 2 ^ 17
  zero : ∀ i < values.length, (∀ (k o : Nat) (fifo : FirEngineMacFifoDesc),
    fifos[k]? = some fifo → offsets[k]? = some o → ¬ (o ≤ i ∧ i < o + fifo.fifoDepth)) →
    values[i]? = some 0

def BoundFifo (spec : FirEngineSpec) (fifo : FirEngineMacFifoDesc) : Prop :=
  ∃ f < spec.firSpec.length, fifo = fifoOf spec f

section Rounding

theorem toInt_coeffVal1p17 {c : ℚ} (hlo : -1 < c) (hhi : c < 1) :
    (BitVec.ofNat 18 (coeffVal1p17 c)).toInt = quantum c := by
  have hbounds := quantum_bounds hlo hhi
  have hnat : ((BitVec.ofNat 18 (coeffVal1p17 c)).toNat : Int) =
      quantum c + if quantum c < 0 then 2 ^ 18 else 0 := toNat_coefBuffWord hlo hhi
  rw [BitVec.toInt_eq_toNat_cond]
  split at hnat
  · split <;> omega
  · split <;> omega

theorem abs_value1p17_sub_lt {c : ℚ} (hlo : -1 < c) (hhi : c < 1) :
    |value1p17 (coeffVal1p17 c) - c| < 1 / 2 ^ 17 := by
  have hpos : (0 : ℚ) < 2 ^ 17 := by positivity
  have hround := abs_truncate_sub_lt (c * 2 ^ 17)
  have hdiff : value1p17 (coeffVal1p17 c) - c =
      ((truncate (c * 2 ^ 17) : ℚ) - c * 2 ^ 17) / 2 ^ 17 := by
    rw [value1p17, toInt_coeffVal1p17 hlo hhi, quantum]
    field_simp
  rw [hdiff, abs_div, abs_of_pos hpos]
  exact (div_lt_div_iff_of_pos_right hpos).mpr hround

-- the asserted range lets 1.0 through, and 1.0 is the word of -1.0
theorem value1p17_one : value1p17 (coeffVal1p17 1) = -1 := by decide +kernel

theorem faithful_coeff_iff {c : ℚ} (hlo : -1 < c) (hhi : c ≤ 1) :
    |value1p17 (coeffVal1p17 c) - c| < 1 / 2 ^ 17 ↔ c ≠ 1 := by
  constructor
  · rintro h rfl
    rw [value1p17_one] at h
    norm_num at h
  · intro hne
    exact abs_value1p17_sub_lt hlo (lt_of_le_of_ne hhi hne)

end Rounding

section Image

variable {spec : FirEngineSpec} {fifo : FirEngineMacFifoDesc}
  {fifos : List FirEngineMacFifoDesc} {values : List Nat}

theorem BoundFifo.sized (h : BoundFifo spec fifo)
    (hpow : IntUtils.isPowerOfTwo fifo.numFifoMemWords = true) : Sized fifo := by
  obtain ⟨f, _, rfl⟩ := h
  refine ⟨IntUtils.isPowerOfTwo_eq_true hpow, ?_⟩
  simpa [fifoOf, fifoFor] using IntUtils.le_roundUpToPowerOfTwo (spec.specOf f).coeff.length

theorem exists_coeffValues (hbound : ∀ fifo ∈ fifos, BoundFifo spec fifo)
    (hrange : ∀ firSpec ∈ spec.firSpec, ∀ c ∈ firSpec.coeff, -1 < c ∧ c ≤ 1) :
    ∃ values, coeffValuesFrom spec 0 fifos [] = .ok values := by
  refine coeffValuesFrom_total fun fifo hfifo => ?_
  obtain ⟨f, hf, rfl⟩ := hbound fifo hfifo
  refine ⟨by simpa [fifoOf, fifoFor] using IntUtils.le_roundUpToPowerOfTwo _, ?_⟩
  refine ⟨_, coeffWords_eq_ok hf (hrange _ ?_)⟩
  rw [FirEngineSpec.specOf, List.getD_eq_getElem?_getD, List.getElem?_eq_getElem hf]
  exact List.getElem_mem hf

theorem faithfulImage_iff (hbound : ∀ fifo ∈ fifos, BoundFifo spec fifo)
    (hpow : ∀ fifo ∈ fifos, IntUtils.isPowerOfTwo fifo.numFifoMemWords = true)
    (hvalues : coeffValuesFrom spec 0 fifos [] = .ok values) :
    FaithfulImage spec fifos (fifoOffsetsFrom 0 fifos) values ↔
      ∀ fifo ∈ fifos, (1 : ℚ) ∉ (spec.specOf fifo.firIndex).coeff := by
  have hsized : ∀ fifo ∈ fifos, Sized fifo := fun fifo hfifo =>
    (hbound fifo hfifo).sized (hpow fifo hfifo)
  have hfilled := coeffValuesFrom_spec hsized List.length_nil hvalues
  have hword : ∀ (k o j : Nat) (fifo : FirEngineMacFifoDesc) (c : ℚ), fifos[k]? = some fifo →
      (starts 0 (memWords fifos))[k]? = some o → (spec.specOf fifo.firIndex).coeff[j]? = some c →
      values[o + j]? = some (coeffVal1p17 c) ∧ -1 < c ∧ c ≤ 1 := by
    intro k o j fifo c hk ho hc
    obtain ⟨f, hf, rfl⟩ := hbound fifo (List.mem_of_getElem? hk)
    have hj : j < spec.numCoeff f := (List.getElem?_eq_some_iff.mp hc).1
    obtain ⟨v, hv, hget⟩ := hfilled.written k o j _ _ hk ho (fifoOf_ref hj)
    obtain ⟨c', hc', hle, hgt, rfl⟩ := (coeffWord_eq_ok hf hj).mp hv
    obtain rfl := Option.some.inj (hc.symm.trans hc')
    exact ⟨hget, hgt, hle⟩
  rw [fifoOffsetsFrom_eq_starts (powersOfTwo_of_sized hsized)]
  constructor
  · intro himage fifo hfifo hone
    obtain ⟨k, hk⟩ := List.getElem?_of_mem hfifo
    obtain ⟨j, hj⟩ := List.getElem?_of_mem hone
    have hklt : k < (starts 0 (memWords fifos)).length := by
      rw [length_starts, memWords, List.length_map]
      exact (List.getElem?_eq_some_iff.mp hk).1
    have ho := List.getElem?_eq_getElem hklt
    have hdepth : j < fifo.fifoDepth := by
      obtain ⟨f, _, rfl⟩ := hbound fifo hfifo
      exact (List.getElem?_eq_some_iff.mp hj).1
    obtain ⟨word, hget, _, hclose⟩ := himage.coeff k _ j fifo 1 hk ho hdepth hj
    obtain ⟨hget', hgt, hle⟩ := hword k _ j fifo 1 hk ho hj
    obtain rfl := Option.some.inj (hget.symm.trans hget')
    exact (faithful_coeff_iff hgt hle).mp hclose rfl
  · intro hne
    refine ⟨fun k o j fifo c hk ho _ hc => ?_, fun i hi hfree => ?_⟩
    · obtain ⟨hget, hgt, hle⟩ := hword k o j fifo c hk ho hc
      refine ⟨_, hget, coeffVal1p17_lt c, (faithful_coeff_iff hgt hle).mpr ?_⟩
      rintro rfl
      exact hne fifo (List.mem_of_getElem? hk) (List.mem_of_getElem? hc)
    · refine hfilled.zero i (Nat.zero_le i) hi fun k o fifo hk ho hin => hfree k o fifo hk ho ?_
      obtain ⟨f, _, rfl⟩ := hbound fifo (List.mem_of_getElem? hk)
      simpa [fifoOf, fifoFor] using hin

end Image

theorem coeff_image_faithful_iff (spec : FirEngineSpec) (mac : FirEngineMacDesc)
    (hbound : ∀ fifo ∈ mac.firEngineMacFifoDesc, BoundFifo spec fifo)
    (hpow : ∀ fifo ∈ mac.firEngineMacFifoDesc,
      IntUtils.isPowerOfTwo fifo.numFifoMemWords = true)
    (hrange : ∀ firSpec ∈ spec.firSpec, ∀ c ∈ firSpec.coeff, -1 < c ∧ c ≤ 1) :
    ∃ values, mac.establishCoeffValues spec = .ok values ∧
      (FaithfulImage spec mac.firEngineMacFifoDesc mac.fifoOffsets values ↔
        ∀ fifo ∈ mac.firEngineMacFifoDesc, (1 : ℚ) ∉ (spec.specOf fifo.firIndex).coeff) := by
  obtain ⟨values, hvalues⟩ := exists_coeffValues hbound hrange
  exact ⟨values, hvalues, faithfulImage_iff hbound hpow hvalues⟩

theorem boundFifo_twoFirMac : ∀ fifo ∈ twoFirMac.firEngineMacFifoDesc,
    BoundFifo twoFirSpec fifo := by
  intro fifo hfifo
  simp only [twoFirMac, twoFirDesc, List.getD_cons_zero, List.mem_cons, List.not_mem_nil,
    or_false] at hfifo
  rcases hfifo with rfl | rfl
  · exact ⟨0, by decide, by decide +kernel⟩
  · exact ⟨1, by decide, by decide +kernel⟩

theorem coeff_image_faithful_iff_two_firs :
    ∃ values, twoFirMac.establishCoeffValues twoFirSpec = .ok values ∧
      (FaithfulImage twoFirSpec twoFirMac.firEngineMacFifoDesc twoFirMac.fifoOffsets values ↔
        ∀ fifo ∈ twoFirMac.firEngineMacFifoDesc,
          (1 : ℚ) ∉ (twoFirSpec.specOf fifo.firIndex).coeff) :=
  coeff_image_faithful_iff twoFirSpec twoFirMac boundFifo_twoFirMac (by decide +kernel)
    (by decide +kernel)

def unitSpec : FirEngineSpec where
  clockFreq := 16
  firSpec := [⟨4, [1]⟩]

theorem one_reads_minus_one :
    ∃ d mac values, buildFirEngine unitSpec 8 = .ok d ∧ d.firEngineMacDesc = [mac] ∧
      (∀ firSpec ∈ unitSpec.firSpec, ∀ c ∈ firSpec.coeff, -1 < c ∧ c ≤ 1) ∧
      mac.establishCoeffValues unitSpec = .ok values ∧
      ¬ FaithfulImage unitSpec mac.firEngineMacFifoDesc mac.fifoOffsets values := by
  obtain ⟨d, hd, hok⟩ := Outcome.exists_of_okAnd (x := buildFirEngine unitSpec 8)
    (p := fun d => d.firEngineMacDesc.map (·.firEngineMacFifoDesc) = [[fifoOf unitSpec 0]])
    (by decide +kernel)
  have hmacs := of_decide_eq_true hok
  obtain ⟨mac, hmac, hfifos⟩ := List.map_eq_singleton_iff.mp hmacs
  refine ⟨d, mac, [131072], hd, hmac, by decide +kernel, ?_, fun himage => ?_⟩
  · rw [establishCoeffValues, hfifos]
    decide +kernel
  · rw [fifoOffsets, hfifos] at himage
    obtain ⟨word, hget, _, hclose⟩ := himage.coeff 0 0 0 _ 1 rfl (by decide +kernel)
      (by decide) rfl
    obtain rfl : 131072 = word := by simpa using hget
    exact absurd hclose (by decide +kernel)

end FirEngine
