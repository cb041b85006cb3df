import EmbeddedProjects.FirEngine.FifoNumbering

namespace FirEngine

open FirEngineDesc FirEngineMacDesc Layout

namespace FirEngineMacDesc

def fifoOffsets (mac : FirEngineMacDesc) : List Nat :=
  fifoOffsetsFrom 0 mac.firEngineMacFifoDesc

def memWordsTotal (mac : FirEngineMacDesc) : Nat := (memWords mac.firEngineMacFifoDesc).sum

end FirEngineMacDesc

structure WellSized (fifo : FirEngineMacFifoDesc) : Prop where
  words : fifo.numFifoMemWords = IntUtils.roundUpToPowerOfTwo fifo.fifoDepth
  depth : fifo.fifoDepth ≤ 2 ^ 16

structure Packed (fifos : List FirEngineMacFifoDesc) (offsets : List Nat) : Prop where
  length : offsets.length = fifos.length
  aligned : ∀ (k o : Nat) (fifo : FirEngineMacFifoDesc), offsets[k]? = some o →
    fifos[k]? = some fifo → fifo.numFifoMemWords ∣ o
  disjoint : ∀ (k l o p : Nat) (fifo : FirEngineMacFifoDesc), k < l → offsets[k]? = some o →
    fifos[k]? = some fifo → offsets[l]? = some p → o + fifo.numFifoMemWords ≤ p
  tight : ∀ k o : Nat, offsets[k]? = some o → o = (memWords (fifos.take k)).sum

structure HoldsCoeffs (spec : FirEngineSpec) (fifos : List FirEngineMacFifoDesc)
    (offsets values : List Nat) : Prop where
  length : values.length = (memWords fifos).sum
  inside : ∀ fifo ∈ fifos, fifo.firCoeffRef.length ≤ fifo.numFifoMemWords
  written : ∀ (k o j : Nat) (fifo : FirEngineMacFifoDesc) (r : FirCoeffRef),
    fifos[k]? = some fifo → offsets[k]? = some o → fifo.firCoeffRef[j]? = some r →
    ∃ v, coeffWord spec r = .ok v ∧ values[o + j]? = some v
  zero : ∀ (k o j : Nat) (fifo : FirEngineMacFifoDesc), fifos[k]? = some fifo →
    offsets[k]? = some o → fifo.firCoeffRef.length ≤ j → j < fifo.numFifoMemWords →
    values[o + j]? = some 0

structure HasImage (spec : FirEngineSpec) (fifo : FirEngineMacFifoDesc) : Prop where
  inside : fifo.firCoeffRef.length ≤ fifo.numFifoMemWords
  coeff : ∀ r ∈ fifo.firCoeffRef, ∃ c, spec.lookupCoeff r = .ok c ∧ -1 < c ∧ c ≤ 1

section Offsets

variable {sort : List FirEngineMacFifoDesc → List FirEngineMacFifoDesc} {spec : FirEngineSpec}
  {mac : FirEngineMacDesc} {fifos : List FirEngineMacFifoDesc} {fifo : FirEngineMacFifoDesc}
  {offset : Nat}

def PowersOfTwo (words : List Nat) : Prop := ∀ w ∈ words, ∃ i, w = 2 ^ i

theorem PowersOfTwo.pos {words : List Nat} (h : PowersOfTwo words) : ∀ w ∈ words, 0 < w := by
  intro w hw
  obtain ⟨i, rfl⟩ := h w hw
  exact Nat.two_pow_pos i

theorem powersOfTwo_of_sized (h : ∀ fifo ∈ fifos, Sized fifo) : PowersOfTwo (memWords fifos) :=
  memWords_pow h

theorem WellSized.pow (h : WellSized fifo) : ∃ i, fifo.numFifoMemWords = 2 ^ i := by
  obtain ⟨i, hi, _⟩ := IntUtils.roundUpToPowerOfTwo_spec (h.depth.trans (by decide))
  exact ⟨i, h.words.trans hi⟩

theorem powersOfTwo_of_wellSized (h : ∀ fifo ∈ fifos, WellSized fifo) :
    PowersOfTwo (memWords fifos) := by
  intro w hw
  obtain ⟨fifo, hfifo, rfl⟩ := List.mem_map.mp hw
  exact (h fifo hfifo).pow

theorem WellSized.words_le (h : WellSized fifo) : fifo.numFifoMemWords ≤ 2 ^ 16 := by
  rw [h.words]
  exact IntUtils.roundUpToPowerOfTwo_le (h.depth.trans (by decide)) h.depth

theorem WellSized.isPowerOfTwo (h : WellSized fifo) :
    0 < fifo.numFifoMemWords ∧ IntUtils.isPowerOfTwo fifo.numFifoMemWords = true := by
  obtain ⟨i, hi⟩ := h.pow
  refine ⟨hi ▸ Nat.two_pow_pos i, ?_⟩
  rw [h.words]
  exact IntUtils.isPowerOfTwo_roundUpToPowerOfTwo (h.depth.trans (by decide))

theorem memWords_sorted (hsort : IsSort sort) :
    (memWords (mac.sortFifosInDescendingSizeOrder sort).firEngineMacFifoDesc).Pairwise
      fun a b => b ≤ a := by
  have hdesc := List.pairwise_reverse.mpr (hsort mac.firEngineMacFifoDesc).2
  rw [memWords, List.pairwise_map]
  refine hdesc.imp ?_
  intro a b hab
  simpa [FirEngineMacFifoDesc.memWordsLessThan] using hab

theorem memWords_dvd_sorted (hsort : IsSort sort)
    (h : PowersOfTwo (memWords (mac.sortFifosInDescendingSizeOrder sort).firEngineMacFifoDesc)) :
    (memWords (mac.sortFifosInDescendingSizeOrder sort).firEngineMacFifoDesc).Pairwise
      fun a b => b ∣ a :=
  pairwise_dvd_of_descending h (memWords_sorted hsort)

theorem mem_sorted (hsort : IsSort sort) :
    fifo ∈ (mac.sortFifosInDescendingSizeOrder sort).firEngineMacFifoDesc ↔
      fifo ∈ mac.firEngineMacFifoDesc := by
  rw [sortFifosInDescendingSizeOrder, List.mem_reverse]
  exact (hsort mac.firEngineMacFifoDesc).1.mem_iff

theorem length_sorted (hsort : IsSort sort) :
    (mac.sortFifosInDescendingSizeOrder sort).firEngineMacFifoDesc.length =
      mac.firEngineMacFifoDesc.length := by
  rw [sortFifosInDescendingSizeOrder, List.length_reverse]
  exact (hsort mac.firEngineMacFifoDesc).1.length_eq

theorem packed_starts (h : PowersOfTwo (memWords fifos))
    (hdvd : (memWords fifos).Pairwise fun a b => b ∣ a) :
    Packed fifos (fifoOffsetsFrom 0 fifos) := by
  have hpos := h.pos
  rw [fifoOffsetsFrom_eq_starts h]
  refine ⟨by simp [memWords], fun k o fifo ho hk => ?_, fun k l o p fifo hkl ho hk hp => ?_,
    fun k o ho => ?_⟩
  · exact (start_spec hpos ho (getElem?_memWords hk)).2.1
  · exact starts_ordered hpos hkl ho (getElem?_memWords hk) hp
  · rw [start_of_dvd hpos (fun w _ => Nat.dvd_zero w) hdvd ho, Nat.zero_add, memWords, memWords,
      List.map_take]

theorem holdsCoeffs_of_ok {values : List Nat} (h : ∀ fifo ∈ fifos, Sized fifo)
    (hdvd : (memWords fifos).Pairwise fun a b => b ∣ a)
    (hvalues : coeffValuesFrom spec 0 fifos [] = .ok values) :
    HoldsCoeffs spec fifos (fifoOffsetsFrom 0 fifos) values := by
  have hpos := memWords_pos h
  have hfilled := coeffValuesFrom_spec h List.length_nil hvalues
  have hlen : values.length = (memWords fifos).sum := by
    rw [hfilled.length, finish_of_dvd hpos (fun w _ => Nat.dvd_zero w) hdvd, Nat.zero_add]
  rw [fifoOffsetsFrom_eq_starts (powersOfTwo_of_sized h)]
  refine ⟨hlen, fun fifo hfifo => (h fifo hfifo).room, hfilled.written, ?_⟩
  intro k o j fifo hk ho hge hlt
  have hend := (start_spec hpos ho (getElem?_memWords hk)).2.2
  rw [← hfilled.length] at hend
  refine hfilled.zero (o + j) (Nat.zero_le _) (by omega) fun l p fifo' hl hp hin => ?_
  have hroom := (h fifo' (List.mem_of_getElem? hl)).room
  rcases Nat.lt_trichotomy k l with hkl | rfl | hkl
  · have := starts_ordered hpos hkl ho (getElem?_memWords hk) hp
    omega
  · rw [hk, Option.some.injEq] at hl
    rw [ho, Option.some.injEq] at hp
    subst hl hp
    omega
  · have := starts_ordered hpos hkl hp (getElem?_memWords hl) ho
    omega

theorem coeffWord_ok_iff {r : FirCoeffRef} : (∃ word, coeffWord spec r = .ok word) ↔
    ∃ c, spec.lookupCoeff r = .ok c ∧ -1 < c ∧ c ≤ 1 := by
  simp_rw [coeffWord, Outcome.bind_eq_ok (x := spec.lookupCoeff r), check_bind_eq_ok,
    decide_eq_true_eq]
  constructor
  · rintro ⟨_, c, hc, hle, hgt, _⟩
    exact ⟨c, hc, hgt, hle⟩
  · rintro ⟨c, hc, hgt, hle⟩
    exact ⟨_, c, hc, hle, hgt, rfl⟩

theorem exists_coeffValuesFrom_iff :
    (∃ values, coeffValuesFrom spec 0 fifos [] = .ok values) ↔
      ∀ fifo ∈ fifos, HasImage spec fifo := by
  constructor
  · rintro ⟨values, hvalues⟩ fifo hfifo
    obtain ⟨words, hwords⟩ := coeffValuesFrom_words hvalues fifo hfifo
    refine ⟨room_of_coeffValuesFrom hvalues fifo hfifo, fun r hr => ?_⟩
    obtain ⟨j, hj⟩ := List.getElem?_of_mem hr
    obtain ⟨word, _, hword⟩ := Outcome.getElem?_of_mapM hwords hj
    exact coeffWord_ok_iff.mp ⟨word, hword⟩
  · intro h
    refine coeffValuesFrom_total fun fifo hfifo => ⟨(h fifo hfifo).inside, ?_⟩
    obtain ⟨words, hwords, _⟩ := Outcome.exists_mapM_eq_ok (P := fun _ => True) fun r hr => by
      obtain ⟨word, hword⟩ := coeffWord_ok_iff.mpr ((h fifo hfifo).coeff r hr)
      exact ⟨word, hword, trivial⟩
    exact ⟨words, hwords⟩

end Offsets

theorem data_memory_packed (sort : List FirEngineMacFifoDesc → List FirEngineMacFifoDesc)
    (hsort : IsSort sort) (spec : FirEngineSpec) (mac : FirEngineMacDesc)
    (hlen : mac.firEngineMacFifoDesc.length < 2 ^ 15)
    (hsized : ∀ fifo ∈ mac.firEngineMacFifoDesc, WellSized fifo) :
    let sorted := mac.sortFifosInDescendingSizeOrder sort
    (∀ fifo ∈ sorted.firEngineMacFifoDesc,
      0 < fifo.numFifoMemWords ∧ IntUtils.isPowerOfTwo fifo.numFifoMemWords = true) ∧
    Packed sorted.firEngineMacFifoDesc sorted.fifoOffsets ∧ sorted.memWordsTotal < 2 ^ 32 ∧
    (∀ sizes, sorted.establishFifoSizes = .ok sizes ↔
      (∀ fifo ∈ sorted.firEngineMacFifoDesc, fifo.fifoDepth ≤ 64) ∧
        sizes = List.zipWith fifoSizeWord sorted.fifoOffsets
          (sorted.firEngineMacFifoDesc.map (·.fifoDepth))) ∧
    (∀ values, sorted.establishCoeffValues spec = .ok values →
      HoldsCoeffs spec sorted.firEngineMacFifoDesc sorted.fifoOffsets values) ∧
    ((∃ values, sorted.establishCoeffValues spec = .ok values) ↔
      ∀ fifo ∈ mac.firEngineMacFifoDesc, HasImage spec fifo) := by
  intro sorted
  have hwell : ∀ fifo ∈ sorted.firEngineMacFifoDesc, WellSized fifo := fun fifo hfifo =>
    hsized fifo ((mem_sorted hsort).mp hfifo)
  have hpow := powersOfTwo_of_wellSized hwell
  have hdvd := memWords_dvd_sorted hsort hpow
  refine ⟨fun fifo hfifo => (hwell fifo hfifo).isPowerOfTwo, packed_starts hpow hdvd, ?_,
    fun sizes => fifoSizesFrom_offsets, fun values hvalues =>
      holdsCoeffs_of_ok (fun fifo hfifo => ?_) hdvd hvalues, ?_⟩
  · have hsum := memWords_sum_le fun fifo hfifo => (hwell fifo hfifo).words_le
    have hsorted_len : sorted.firEngineMacFifoDesc.length = _ := length_sorted hsort
    rw [hsorted_len] at hsum
    rw [memWordsTotal]
    omega
  · exact ⟨(hwell fifo hfifo).pow, room_of_coeffValuesFrom hvalues fifo hfifo⟩
  · rw [establishCoeffValues, exists_coeffValuesFrom_iff]
    exact forall_congr' fun fifo => imp_congr (mem_sorted hsort) Iff.rfl

theorem data_memory_packed_two_firs :
    let sorted := twoFirMac.sortFifosInDescendingSizeOrder insertionSortByMemWords
    Packed sorted.firEngineMacFifoDesc sorted.fifoOffsets ∧ ∃ values,
      sorted.establishCoeffValues twoFirSpec = .ok values ∧
        HoldsCoeffs twoFirSpec sorted.firEngineMacFifoDesc sorted.fifoOffsets values := by
  have h := data_memory_packed insertionSortByMemWords isSort_insertionSortByMemWords twoFirSpec
    twoFirMac (by decide) (by
      intro fifo hfifo
      simp only [twoFirMac, twoFirDesc, List.getD_cons_zero, List.mem_cons, List.not_mem_nil,
        or_false] at hfifo
      rcases hfifo with rfl | rfl
      · exact ⟨by decide, by decide⟩
      · exact ⟨by decide, by decide⟩)
  obtain ⟨values, hvalues, _⟩ := Outcome.exists_of_okAnd
    (x := (twoFirMac.sortFifosInDescendingSizeOrder
      insertionSortByMemWords).establishCoeffValues twoFirSpec)
    (p := fun _ => true) (by decide +kernel)
  exact ⟨h.2.1, values, hvalues, h.2.2.2.2.1 values hvalues⟩

end FirEngine
