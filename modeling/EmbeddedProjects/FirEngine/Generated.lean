import EmbeddedProjects.Lib.Layout
import EmbeddedProjects.FirEngine.Parameters
import EmbeddedProjects.FirEngine.Invariant

namespace FirEngine

open FirEngineDesc

namespace FirEngineMacDesc

variable {sort : List FirEngineMacFifoDesc → List FirEngineMacFifoDesc} {spec : FirEngineSpec}
  {mac : FirEngineMacDesc} {p : RtlParameters} {T : Nat}

theorem check_eq_ok {b : Bool} {u : Unit} : check b = .ok u ↔ b = true := by
  cases b with
  | false => simp [check]
  | true => simp [check]

theorem check_bind_eq_ok {α : Type} {b : Bool} {k : Unit → Except Fault α} {a : α} :
    (check b >>= k) = .ok a ↔ b = true ∧ k () = .ok a := by
  rw [Outcome.bind_eq_ok]
  constructor
  · rintro ⟨u, hu, hk⟩
    exact ⟨check_eq_ok.mp hu, hk⟩
  · rintro ⟨hb, hk⟩
    exact ⟨(), check_eq_ok.mpr hb, hk⟩

structure Generated (sort : List FirEngineMacFifoDesc → List FirEngineMacFifoDesc)
    (spec : FirEngineSpec) (mac : FirEngineMacDesc) (p : RtlParameters) : Prop where
  channelSelect : mac.establishChannelSelectCtrl = .ok p.channelSelect
  rdFifoNum : mac.establishRdFifoNumCtrl = .ok p.rdFifoNum
  updateFifoNum : mac.establishUpdateFifoNumCtrl = .ok p.updateFifoNum
  fifoSizes : (mac.sortFifosInDescendingSizeOrder sort).establishFifoSizes = .ok p.fifoSizes
  coeffValues :
    (mac.sortFifosInDescendingSizeOrder sort).establishCoeffValues spec = .ok p.coeffValues
  coeffValues_le : p.coeffValues.length ≤ 1024
  numFifos_le : (mac.sortFifosInDescendingSizeOrder sort).getNumFifos ≤ 256
  timeSlots_le : mac.getNumTimeSlots ≤ 256
  render_channelSelect : ∀ v ∈ p.channelSelect, v < 2 ^ 4
  render_rdFifoNum : ∀ v ∈ p.rdFifoNum, v < 2 ^ 8
  render_updateFifoNum : ∀ v ∈ p.updateFifoNum, v < 2 ^ 8
  render_fifoSizes : ∀ v ∈ p.fifoSizes, v < 2 ^ 16
  render_coeffValues : ∀ v ∈ p.coeffValues, v < 2 ^ 24
  result : p = mac.rtlParameters (mac.sortFifosInDescendingSizeOrder sort).getNumFifos
    p.channelSelect p.rdFifoNum p.updateFifoNum p.fifoSizes p.coeffValues

theorem generateRtl_eq_ok : generateRtl sort spec mac = .ok p ↔ Generated sort spec mac p := by
  constructor
  · intro h
    obtain ⟨channels, hchannels, h⟩ := Outcome.bind_eq_ok.mp h
    obtain ⟨rds, hrds, h⟩ := Outcome.bind_eq_ok.mp h
    obtain ⟨updates, hupdates, h⟩ := Outcome.bind_eq_ok.mp h
    obtain ⟨sizes, hsizes, h⟩ := Outcome.bind_eq_ok.mp h
    obtain ⟨coeffs, hcoeffs, h⟩ := Outcome.bind_eq_ok.mp h
    simp only [renderVector, check_bind_eq_ok, decide_eq_true_eq, List.all_eq_true,
      Except.ok.injEq] at h
    obtain ⟨h1, h2, h3, r1, r2, r3, r4, r5, rfl⟩ := h
    exact ⟨hchannels, hrds, hupdates, hsizes, hcoeffs, h1, h2, h3, r1, r2, r3, r4, r5, rfl⟩
  · intro h
    refine Outcome.bind_eq_ok.mpr ⟨_, h.channelSelect, ?_⟩
    refine Outcome.bind_eq_ok.mpr ⟨_, h.rdFifoNum, ?_⟩
    refine Outcome.bind_eq_ok.mpr ⟨_, h.updateFifoNum, ?_⟩
    refine Outcome.bind_eq_ok.mpr ⟨_, h.fifoSizes, ?_⟩
    refine Outcome.bind_eq_ok.mpr ⟨_, h.coeffValues, ?_⟩
    simp only [renderVector, check_bind_eq_ok, decide_eq_true_eq, List.all_eq_true,
      Except.ok.injEq]
    exact ⟨h.coeffValues_le, h.numFifos_le, h.timeSlots_le, h.render_channelSelect,
      h.render_rdFifoNum, h.render_updateFifoNum, h.render_fifoSizes, h.render_coeffValues,
      h.result.symm⟩

theorem Generated.timeSlices (h : Generated sort spec mac p) :
    p.timeSlices = mac.firCoeffRef.length := congrArg (·.timeSlices) h.result

theorem Generated.doUpdate (h : Generated sort spec mac p) :
    p.doUpdate = mac.firUpdateSlot.map oneIfUsed := congrArg (·.doUpdate) h.result

theorem Generated.firstEngine (h : Generated sort spec mac p) :
    p.firstEngine = mac.firUpdateSlot.map oneIfUsed := congrArg (·.firstEngine) h.result

theorem Generated.bufferDepth (h : Generated sort spec mac p) :
    p.bufferDepth = p.coeffValues.length := congrArg (·.bufferDepth) h.result

theorem Generated.numFifos (h : Generated sort spec mac p) :
    p.numFifos = (mac.sortFifosInDescendingSizeOrder sort).getNumFifos :=
  congrArg (·.numFifos) h.result

section Layout

open Layout

def memWords (fifos : List FirEngineMacFifoDesc) : List Nat := fifos.map (·.numFifoMemWords)

def fifoOffsetsFrom : Nat → List FirEngineMacFifoDesc → List Nat
  | _, [] => []
  | offset, fifo :: rest =>
    let offset := IntUtils.alignAddressOnOrAfter offset fifo.numFifoMemWords
    offset :: fifoOffsetsFrom (offset + fifo.numFifoMemWords) rest

structure Sized (fifo : FirEngineMacFifoDesc) : Prop where
  words : ∃ i, fifo.numFifoMemWords = 2 ^ i
  room : fifo.firCoeffRef.length ≤ fifo.numFifoMemWords

theorem coeffValuesFrom_cons {fifo : FirEngineMacFifoDesc} {rest : List FirEngineMacFifoDesc}
    {offset : Nat} {values out : List Nat} :
    coeffValuesFrom spec offset (fifo :: rest) values = .ok out ↔
      ∃ words, fifo.firCoeffRef.mapM (coeffWord spec) = .ok words ∧
        words.length ≤ fifo.numFifoMemWords ∧
        coeffValuesFrom spec
          (IntUtils.alignAddressOnOrAfter offset fifo.numFifoMemWords + fifo.numFifoMemWords) rest
          (setFrom (IntUtils.alignAddressOnOrAfter offset fifo.numFifoMemWords) words
            (resize values (IntUtils.alignAddressOnOrAfter offset fifo.numFifoMemWords +
              fifo.numFifoMemWords))) = .ok out := by
  rw [coeffValuesFrom, Outcome.bind_eq_ok]
  refine exists_congr fun words => and_congr_right fun _ => ?_
  by_cases hroom : fifo.numFifoMemWords < words.length
  · rw [if_pos hroom]
    simp only [reduceCtorEq, false_iff, not_and]
    exact fun hle => absurd hroom (Nat.not_lt.mpr hle)
  · rw [if_neg hroom, and_iff_right (Nat.not_lt.mp hroom)]

theorem room_of_coeffValuesFrom {fifos : List FirEngineMacFifoDesc} {offset : Nat}
    {values out : List Nat} (h : coeffValuesFrom spec offset fifos values = .ok out) :
    ∀ fifo ∈ fifos, fifo.firCoeffRef.length ≤ fifo.numFifoMemWords := by
  induction fifos generalizing offset values with
  | nil => simp
  | cons fifo fifos ih =>
    obtain ⟨words, hwords, hroom, h⟩ := coeffValuesFrom_cons.mp h
    rw [Outcome.length_of_mapM hwords] at hroom
    exact List.forall_mem_cons.mpr ⟨hroom, ih h⟩

theorem Sized.pos {fifo : FirEngineMacFifoDesc} (h : Sized fifo) : 0 < fifo.numFifoMemWords := by
  obtain ⟨i, hi⟩ := h.words
  rw [hi]
  exact Nat.two_pow_pos i

theorem align_of_pow {w : Nat} (h : ∃ i, w = 2 ^ i) (offset : Nat) :
    IntUtils.alignAddressOnOrAfter offset w = alignTo offset w := by
  obtain ⟨i, hi⟩ := h
  rw [hi, IntUtils.alignAddressOnOrAfter_eq, alignTo]

theorem Sized.align {fifo : FirEngineMacFifoDesc} (h : Sized fifo) (offset : Nat) :
    IntUtils.alignAddressOnOrAfter offset fifo.numFifoMemWords =
      alignTo offset fifo.numFifoMemWords := align_of_pow h.words offset

theorem memWords_pow {fifos : List FirEngineMacFifoDesc} (h : ∀ fifo ∈ fifos, Sized fifo) :
    ∀ w ∈ memWords fifos, ∃ i, w = 2 ^ i := by
  intro w hw
  obtain ⟨fifo, hfifo, rfl⟩ := List.mem_map.mp hw
  exact (h fifo hfifo).words

theorem getElem?_memWords {fifos : List FirEngineMacFifoDesc} {fifo : FirEngineMacFifoDesc}
    {k : Nat} (h : fifos[k]? = some fifo) : (memWords fifos)[k]? = some fifo.numFifoMemWords := by
  rw [memWords, List.getElem?_map, h]
  rfl

theorem memWords_pos {fifos : List FirEngineMacFifoDesc} (h : ∀ fifo ∈ fifos, Sized fifo) :
    ∀ w ∈ memWords fifos, 0 < w := by
  intro w hw
  obtain ⟨fifo, hfifo, rfl⟩ := List.mem_map.mp hw
  exact (h fifo hfifo).pos

section Offsets

variable {fifos : List FirEngineMacFifoDesc} {offset : Nat} {sizes : List Nat}

theorem fifoSizesFrom_offsets : fifoSizesFrom offset fifos = .ok sizes ↔
    (∀ fifo ∈ fifos, fifo.fifoDepth ≤ 64) ∧
      sizes = List.zipWith fifoSizeWord (fifoOffsetsFrom offset fifos)
        (fifos.map (·.fifoDepth)) := by
  induction fifos generalizing offset sizes with
  | nil =>
    simp only [fifoSizesFrom, Except.ok.injEq, List.not_mem_nil, false_imp_iff, implies_true,
      true_and, List.map_nil, List.zipWith_nil_right]
    exact eq_comm
  | cons fifo fifos ih =>
    rw [fifoSizesFrom, check_bind_eq_ok, Outcome.bind_eq_ok]
    simp only [decide_eq_true_eq, Except.ok.injEq, List.mem_cons, forall_eq_or_imp, ih]
    constructor
    · rintro ⟨hdepth, rest, ⟨hall, rfl⟩, rfl⟩
      exact ⟨⟨hdepth, hall⟩, rfl⟩
    · rintro ⟨⟨hdepth, hall⟩, rfl⟩
      exact ⟨hdepth, _, ⟨hall, rfl⟩, rfl⟩

theorem fifoOffsetsFrom_eq_starts (h : ∀ w ∈ memWords fifos, ∃ i, w = 2 ^ i) :
    fifoOffsetsFrom offset fifos = starts offset (memWords fifos) := by
  induction fifos generalizing offset with
  | nil => rfl
  | cons fifo fifos ih =>
    have halign := align_of_pow (h fifo.numFifoMemWords (by simp [memWords])) offset
    have hrest : ∀ w ∈ memWords fifos, ∃ i, w = 2 ^ i :=
      fun w hw => h w (List.mem_cons_of_mem _ hw)
    simp only [fifoOffsetsFrom, halign, ih hrest]
    rfl

theorem fifoSizesFrom_eq_ok (h : ∀ fifo ∈ fifos, Sized fifo) :
    fifoSizesFrom offset fifos = .ok sizes ↔ (∀ fifo ∈ fifos, fifo.fifoDepth ≤ 64) ∧
      sizes = List.zipWith fifoSizeWord (starts offset (memWords fifos))
        (fifos.map (·.fifoDepth)) := by
  rw [fifoSizesFrom_offsets, fifoOffsetsFrom_eq_starts (memWords_pow h)]

end Offsets

theorem fifoSizeWord_eq {offset depth : Nat} (hpos : 1 ≤ depth) (hle : depth ≤ 64) :
    fifoSizeWord offset depth = offset * 64 + (depth - 1) := by
  have hmod : (depth + 0xFFFFFFFF) % 2 ^ 32 = depth - 1 := by omega
  have hlt : depth - 1 < 2 ^ 6 := by omega
  rw [fifoSizeWord, hmod, ← Nat.shiftLeft_add_eq_or_of_lt hlt, Nat.shiftLeft_eq]

@[simp] theorem length_setFrom (i : Nat) (words values : List Nat) :
    (setFrom i words values).length = values.length := by
  induction words generalizing i values with
  | nil => rfl
  | cons word words ih => simp [setFrom, ih]

theorem getElem?_setFrom_of_lt {i k : Nat} (hk : k < i) (words values : List Nat) :
    (setFrom i words values)[k]? = values[k]? := by
  induction words generalizing i values with
  | nil => rfl
  | cons word words ih =>
    rw [setFrom, ih (by omega), List.getElem?_set_ne (by omega)]

theorem getElem?_setFrom {i j word : Nat} {words values : List Nat}
    (hroom : i + words.length ≤ values.length) (hword : words[j]? = some word) :
    (setFrom i words values)[i + j]? = some word := by
  induction words generalizing i j values with
  | nil => simp at hword
  | cons v words ih =>
    rw [List.length_cons] at hroom
    cases j with
    | zero =>
      simp only [List.getElem?_cons_zero, Option.some.injEq] at hword
      change (setFrom (i + 1) words (values.set i v))[i]? = some word
      rw [getElem?_setFrom_of_lt (by omega), List.getElem?_set_self (by omega), hword]
    | succ j =>
      have hnext : i + (j + 1) = i + 1 + j := by omega
      rw [setFrom, hnext]
      exact ih (by simp; omega) (by simpa using hword)

theorem forall_mem_setFrom {P : Nat → Prop} {i : Nat} {words values : List Nat}
    (hwords : ∀ w ∈ words, P w) (hvalues : ∀ v ∈ values, P v) :
    ∀ v ∈ setFrom i words values, P v := by
  induction words generalizing i values with
  | nil => exact hvalues
  | cons word words ih =>
    simp only [List.mem_cons, forall_eq_or_imp] at hwords
    refine ih hwords.2 fun v hv => ?_
    rcases List.mem_or_eq_of_mem_set hv with hv | rfl
    · exact hvalues v hv
    · exact hwords.1

theorem length_resize {values : List Nat} {n : Nat} (h : values.length ≤ n) :
    (resize values n).length = n := by
  simp [resize]
  omega

theorem getElem?_resize_of_lt {values : List Nat} {n k : Nat} (h : values.length ≤ n)
    (hk : k < values.length) : (resize values n)[k]? = values[k]? := by
  rw [resize, List.take_of_length_le h, List.getElem?_append_left hk]

theorem getElem?_setFrom_of_ge {i k : Nat} {words : List Nat} (hk : i + words.length ≤ k)
    (values : List Nat) : (setFrom i words values)[k]? = values[k]? := by
  induction words generalizing i values with
  | nil => rfl
  | cons word words ih =>
    rw [List.length_cons] at hk
    rw [setFrom, ih (by omega), List.getElem?_set_ne (by omega)]

theorem getElem?_resize_of_ge {values : List Nat} {n k : Nat} (h : values.length ≤ k)
    (hk : k < n) : (resize values n)[k]? = some 0 := by
  have htake : (values.take n).length ≤ k := (List.length_take_le' n values).trans h
  rw [resize, List.getElem?_append_right htake, List.length_take, List.getElem?_replicate,
    if_pos (by omega)]

structure Filled (spec : FirEngineSpec) (offset : Nat) (fifos : List FirEngineMacFifoDesc)
    (values out : List Nat) : Prop where
  length : out.length = finish offset (memWords fifos)
  kept : ∀ i < offset, out[i]? = values[i]?
  written : ∀ (k o j : Nat) (fifo : FirEngineMacFifoDesc) (r : FirCoeffRef),
    fifos[k]? = some fifo → (starts offset (memWords fifos))[k]? = some o →
    fifo.firCoeffRef[j]? = some r → ∃ v, coeffWord spec r = .ok v ∧ out[o + j]? = some v
  zero : ∀ i, offset ≤ i → i < out.length →
    (∀ (k o : Nat) (fifo : FirEngineMacFifoDesc), fifos[k]? = some fifo →
      (starts offset (memWords fifos))[k]? = some o →
      ¬ (o ≤ i ∧ i < o + fifo.firCoeffRef.length)) → out[i]? = some 0

theorem coeffValuesFrom_spec {fifos : List FirEngineMacFifoDesc} {offset : Nat}
    {values out : List Nat} (hsized : ∀ fifo ∈ fifos, Sized fifo) (hlen : values.length = offset)
    (h : coeffValuesFrom spec offset fifos values = .ok out) :
    Filled spec offset fifos values out := by
  induction fifos generalizing offset values with
  | nil =>
    cases h
    exact ⟨hlen, fun _ _ => rfl, by simp, fun i hle hlt _ => by omega⟩
  | cons fifo fifos ih =>
    simp only [List.mem_cons, forall_eq_or_imp] at hsized
    obtain ⟨hfifo, hrest⟩ := hsized
    obtain ⟨words, hwords, _, h⟩ := coeffValuesFrom_cons.mp h
    rw [hfifo.align] at h
    have hle : values.length ≤ alignTo offset fifo.numFifoMemWords := by
      rw [hlen]
      exact le_alignTo hfifo.pos
    have hroom := hfifo.room
    have hwl := Outcome.length_of_mapM hwords
    have hres : (resize values (alignTo offset fifo.numFifoMemWords + fifo.numFifoMemWords)).length
        = alignTo offset fifo.numFifoMemWords + fifo.numFifoMemWords := length_resize (by omega)
    have hfilled := ih hrest (by rw [length_setFrom, hres]) h
    refine ⟨hfilled.length, fun i hi => ?_, ?_, fun i hge hlt hfree => ?_⟩
    · rw [hfilled.kept i (by omega), getElem?_setFrom_of_lt (by omega),
        getElem?_resize_of_lt (by omega) (by omega)]
    · intro k o j fifo' r hk ho hr
      cases k with
      | zero =>
        simp only [memWords, List.map_cons, starts, List.getElem?_cons_zero,
          Option.some.injEq] at hk ho
        subst hk ho
        obtain ⟨v, hv, hword⟩ := Outcome.getElem?_of_mapM hwords hr
        have hj : j < fifo.firCoeffRef.length := (List.getElem?_eq_some_iff.mp hr).1
        refine ⟨v, hword, ?_⟩
        rw [hfilled.kept _ (by omega)]
        exact getElem?_setFrom (by omega) hv
      | succ k =>
        simp only [memWords, List.map_cons, starts, List.getElem?_cons_succ] at hk ho
        exact hfilled.written k o j fifo' r hk ho hr
    · by_cases hi : i < alignTo offset fifo.numFifoMemWords + fifo.numFifoMemWords
      · -- in the padding, or in the FIFO's range and behind its words
        have hhead : ¬ (alignTo offset fifo.numFifoMemWords ≤ i ∧
            i < alignTo offset fifo.numFifoMemWords + fifo.firCoeffRef.length) :=
          hfree 0 _ fifo rfl rfl
        rw [hfilled.kept i hi]
        by_cases hbefore : i < alignTo offset fifo.numFifoMemWords
        · rw [getElem?_setFrom_of_lt hbefore, getElem?_resize_of_ge (by omega) hi]
        · rw [getElem?_setFrom_of_ge (by omega), getElem?_resize_of_ge (by omega) hi]
      · exact hfilled.zero i (by omega) hlt fun k o fifo' hk ho => hfree (k + 1) o fifo' hk ho

theorem coeffValuesFrom_ok {P : Nat → Prop} (hzero : P 0) {fifos : List FirEngineMacFifoDesc}
    (h : ∀ fifo ∈ fifos, ∃ words, fifo.firCoeffRef.mapM (coeffWord spec) = .ok words ∧
      words.length ≤ fifo.numFifoMemWords ∧ ∀ w ∈ words, P w) {offset : Nat} {values : List Nat}
    (hvalues : ∀ v ∈ values, P v) :
    ∃ out, coeffValuesFrom spec offset fifos values = .ok out ∧ ∀ v ∈ out, P v := by
  induction fifos generalizing offset values with
  | nil => exact ⟨values, rfl, hvalues⟩
  | cons fifo fifos ih =>
    simp only [List.mem_cons, forall_eq_or_imp] at h
    obtain ⟨⟨words, hwords, hroom, hP⟩, hrest⟩ := h
    have hresized : ∀ n, ∀ v ∈ resize values n, P v := by
      intro n v hv
      rcases List.mem_append.mp hv with hv | hv
      · exact hvalues v (List.mem_of_mem_take hv)
      · rw [List.eq_of_mem_replicate hv]
        exact hzero
    obtain ⟨out, hout, hall⟩ := ih hrest (forall_mem_setFrom hP (hresized _))
    exact ⟨out, coeffValuesFrom_cons.mpr ⟨words, hwords, hroom, hout⟩, hall⟩

theorem coeffValuesFrom_total {fifos : List FirEngineMacFifoDesc}
    (h : ∀ fifo ∈ fifos, fifo.firCoeffRef.length ≤ fifo.numFifoMemWords ∧
      ∃ words, fifo.firCoeffRef.mapM (coeffWord spec) = .ok words) :
    ∃ values, coeffValuesFrom spec 0 fifos [] = .ok values := by
  have hwords : ∀ fifo ∈ fifos, ∃ words, fifo.firCoeffRef.mapM (coeffWord spec) = .ok words ∧
      words.length ≤ fifo.numFifoMemWords ∧ ∀ w ∈ words, True := by
    intro fifo hfifo
    obtain ⟨hroom, words, hmap⟩ := h fifo hfifo
    rw [← Outcome.length_of_mapM hmap] at hroom
    exact ⟨words, hmap, hroom, fun _ _ => trivial⟩
  obtain ⟨values, hvalues, _⟩ := coeffValuesFrom_ok trivial hwords fun _ _ => trivial
  exact ⟨values, hvalues⟩

end Layout

end FirEngineMacDesc

end FirEngine
