import EmbeddedProjects.Lib.Port
import EmbeddedProjects.FirEngine.DspSlice
import EmbeddedProjects.FirEngine.RingFifo
import EmbeddedProjects.FirEngine.Handshake
import EmbeddedProjects.FirEngine.Passes

namespace FirEngine

open FirEngineDesc FirEngineMacDesc Rtl AlignedRing

def tapsOf (coeff : List ℚ) (samples : List (BitVec 18)) : List Tap :=
  (List.range coeff.length).map fun j => (coeff.getD j 0, samples.reverse.getD j 0)

def filterWord (coeff : List ℚ) (samples : List (BitVec 18)) : BitVec 18 :=
  dspout (BitVec.ofInt 48 (passSum (operands (tapsOf coeff samples))))

def tapProduct (coeff : List ℚ) (samples : List (BitVec 18)) (j : Nat) : Int :=
  ((portA (coefBuffWord (coeff.getD j 0))).extractLsb' 0 27).toInt *
    (samples.reverse.getD j 0).toInt

theorem passSum_tapsOf (coeff : List ℚ) (samples : List (BitVec 18)) :
    passSum (operands (tapsOf coeff samples)) =
      ((List.range coeff.length).map (tapProduct coeff samples)).sum := by
  rw [passSum, operands, tapsOf, List.map_map, List.map_map]
  rfl

def wordProduct (words samples : List (BitVec 18)) (j : Nat) : Int :=
  ((portA (words.getD j 0)).extractLsb' 0 27).toInt * (samples.reverse.getD j 0).toInt

def wordsFilter (words samples : List (BitVec 18)) : BitVec 18 :=
  dspout (BitVec.ofInt 48 ((List.range words.length).map (wordProduct words samples)).sum)

theorem filterWord_eq (coeff : List ℚ) (samples : List (BitVec 18)) :
    filterWord coeff samples = wordsFilter (coeff.map coefBuffWord) samples := by
  rw [filterWord, passSum_tapsOf, wordsFilter, List.length_map]
  refine congrArg (fun l : List Int => dspout (BitVec.ofInt 48 l.sum)) ?_
  refine List.map_congr_left fun j hj => ?_
  have hlt := List.mem_range.mp hj
  rw [tapProduct, wordProduct, List.getD_eq_getElem _ _ hlt,
    List.getD_eq_getElem _ _ (hlt.trans_eq (List.length_map _).symm), List.getElem_map]

def laggedWords (lag : Nat) (words : List (BitVec 18)) (next : BitVec 18) : List (BitVec 18) :=
  ((words ++ [next]).drop lag).take words.length

theorem laggedWords_zero (words : List (BitVec 18)) (next : BitVec 18) :
    laggedWords 0 words next = words := by
  rw [laggedWords, List.drop_zero, List.take_left]

theorem length_laggedWords {lag : Nat} (hlag : lag ≤ 1) (words : List (BitVec 18))
    (next : BitVec 18) : (laggedWords lag words next).length = words.length := by
  rw [laggedWords, List.length_take, List.length_drop, List.length_append, List.length_singleton]
  omega

theorem getD_laggedWords {lag j : Nat} {words : List (BitVec 18)} (next : BitVec 18)
    (hj : j < words.length) :
    (laggedWords lag words next).getD j 0 = (words ++ [next]).getD (lag + j) 0 := by
  rw [laggedWords, List.getD_eq_getElem?_getD, List.getElem?_take_of_lt hj, List.getElem?_drop,
    ← List.getD_eq_getElem?_getD]

def laggedFilterWord (lag : Nat) (coeff : List ℚ) (next : BitVec 18)
    (samples : List (BitVec 18)) : BitVec 18 :=
  wordsFilter (laggedWords lag (coeff.map coefBuffWord) next) samples

theorem laggedFilterWord_zero (coeff : List ℚ) (next : BitVec 18) (samples : List (BitVec 18)) :
    laggedFilterWord 0 coeff next samples = filterWord coeff samples := by
  rw [laggedFilterWord, laggedWords_zero, filterWord_eq]

namespace Rtl

variable {δ : Type}

section Slice

def product (a : BitVec 30) (b : BitVec 18) : Int := (a.extractLsb' 0 27).toInt * b.toInt

-- with A * B selected, the product of an operand B and of the A that comes `lag` cycles after it
-- is in P three edges after B is registered, alone or on top of the previous P
structure MulAccumulates (lag : Nat) (dsp : Dsp48e2 δ) : Prop where
  mul : ∀ (ins : Nat → DspInputs) (s : δ), (ins 0).inmode = inmode 0 →
    (ins 2).opmode = opmode false 0 → (ins 2).alumode = alumode 0 →
    dsp.p (Clocked.run dsp.clock ins s 4) = BitVec.ofInt 48 (product (ins lag).a (ins 0).b)
  madd : ∀ (ins : Nat → DspInputs) (s : δ), (ins 0).inmode = inmode 0 →
    (ins 2).opmode = opmode false 1 → (ins 2).alumode = alumode 1 →
    dsp.p (Clocked.run dsp.clock ins s 4) =
      dsp.p (Clocked.run dsp.clock ins s 3) + BitVec.ofInt 48 (product (ins lag).a (ins 0).b)

theorem preAdd_direct (b : BitVec 18) (d : BitVec 27) :
    (preAdd (inmode 0) b d).extractLsb' 0 18 = b := by
  have hadd : preAdd (inmode 0) b d = b.signExtend 27 := by
    rw [preAdd]
    exact BitVec.zero_add _
  rw [hadd]
  refine BitVec.eq_of_getLsbD_eq fun i hi => ?_
  rw [BitVec.getLsbD_extractLsb', BitVec.getLsbD_signExtend, Nat.zero_add]
  simp [hi, Nat.lt_trans hi (by decide : 18 < 27)]

theorem accumulate_first {s : DspRegs} (hop : s.opmode1 = opmode false 0)
    (halu : s.alumode1 = alumode 0) : accumulate s = s.m := by
  rw [accumulate, hop, halu]
  change 0#48 + (0#48 + s.m) = s.m
  rw [BitVec.zero_add, BitVec.zero_add]

theorem accumulate_next {s : DspRegs} (hop : s.opmode1 = opmode false 1)
    (halu : s.alumode1 = alumode 1) : accumulate s = s.p + s.m := by
  rw [accumulate, hop, halu]
  change s.p + (0#48 + s.m) = s.p + s.m
  rw [BitVec.zero_add]

theorem dsp48e2_m {areg : Nat} (hareg : areg = 1 ∨ areg = 2) (ins : Nat → DspInputs)
    (s : DspRegs) (hmode : (ins 0).inmode = inmode 0) :
    (Clocked.run (dsp48e2 areg).clock ins s 3).m =
      BitVec.ofInt 48 (product (ins (2 - areg)).a (ins 0).b) := by
  rw [product, BitVec.ofInt_mul]
  change _ * ((preAdd (ins 0).inmode _ _).extractLsb' 0 18).signExtend 48 = _
  rw [hmode, preAdd_direct]
  obtain rfl | rfl := hareg <;> rfl

-- a register less on A than on B: the coefficient is a tap ahead of its sample
theorem mulAccumulates_dsp48e2 {areg : Nat} (hareg : areg = 1 ∨ areg = 2) :
    MulAccumulates (2 - areg) (dsp48e2 areg) where
  mul := by
    intro ins s hmode hop halu
    rw [← dsp48e2_m hareg ins s hmode]
    exact accumulate_first hop halu
  madd := by
    intro ins s hmode hop halu
    rw [← dsp48e2_m hareg ins s hmode]
    exact accumulate_next hop halu

end Slice

namespace Run

section DataPath

variable (R : Run δ) (k : Nat)

theorem coefBuff_succ : (R.state (k + 1)).coefBuff =
    clockCoefBuff R.p (R.env k) (R.state k) := by
  rw [state, seen_succ, settle]
  split <;> rfl

theorem dspModes_succ : (R.state (k + 1)).dspModes = clockDspModes R.p (R.state k) := by
  rw [state, seen_succ, settle]
  split <;> rfl

theorem dsp_succ : (R.state (k + 1)).dsp =
    R.dsp.clock (dspInputs (R.env k) (R.state k)) (R.state k).dsp := by
  rw [state, seen_succ, settle_dsp]
  rfl

theorem dataBuffA_rddata0 : (R.state (k + 2)).dataBuffA.rddata0 =
    readRam (bufferSize R.p) (R.state k).dataBuffA.contents
      (R.state k).readAddrs.dataBuffA0Rdaddr (R.env k).unknownData := by
  rw [R.dataBuffA_succ (k + 1), clockDataBuff, R.dataBuffA_succ k]
  rfl

theorem coefBuff_rddata : (R.state (k + 2)).coefBuff.rddata =
    readRam (bufferSize R.p) (R.state k).coefBuff.contents
      (R.state k).readAddrs.coefBuffRdaddr (R.env k).unknownData := by
  rw [R.coefBuff_succ (k + 1), clockCoefBuff, R.coefBuff_succ k]
  rfl

variable {R k} {r : Nat}

def coefWrites (R : Run δ) (k : Nat) : Option (Nat × BitVec 18) :=
  if (R.env k).iCoefBuffWren then some ((R.env k).iCoefBuffWraddr, (R.env k).iCoefBuffWrdata)
  else none

theorem coefBuff_contents {a : Nat} (ha : a < bufferSize R.p) (k : Nat) :
    (R.state k).coefBuff.contents a =
      Port.lastWritten R.coefWrites (R.s₀.coefBuff.contents a) a k := by
  refine Port.contents_eq_lastWritten (fun k => (R.state k).coefBuff.contents) ?_
    (fun k => ?_) k
  · change (settle (R.env 0) R.s₀).coefBuff.contents a = _
    rw [settle]
    split <;> rfl
  · rw [R.coefBuff_succ]
    change writeRam _ _ _ _ _ a = _
    rw [writeRam, coefWrites]
    cases (R.env k).iCoefBuffWren with
    | false => rfl
    | true =>
      by_cases hlt : (R.env k).iCoefBuffWraddr < bufferSize R.p
      · rw [if_pos ⟨rfl, hlt⟩]
        rfl
      · -- a write past the end reaches no word
        rw [if_neg fun h => hlt h.2]
        refine (Port.store_of_ne _ fun v hv => ?_).symm
        obtain ⟨rfl, _⟩ := Prod.mk.inj (Option.some.inj hv)
        exact hlt ha

theorem ps6_add (hrel : Released r R.env) (a : Nat) :
    (R.state (r + a + 7)).timeSlice.ps6 = R.slot a := by
  have h := fun j => timeSlice_succ (k := r + a + j) (hrel.free_add a j) (hrel.free_add a (j + 1))
  rw [h 6, h 5, h 4]
  exact ps3_add hrel a

theorem mulMode_add (hrel : Released r R.env) (a : Nat) :
    (R.state (r + a + 8)).dspModes.mulModePs7 = fieldAt R.p.mulMode (R.slot a) 2 := by
  rw [R.dspModes_succ, clockDspModes, ps6_add hrel]

theorem dataBuffA_of_not_commit (hcommit : (R.state k).commit.ps3 = false) :
    (R.state (k + 1)).dataBuffA.contents = (R.state k).dataBuffA.contents := by
  rw [R.dataBuffA_succ k]
  change writeRam _ _ _ _ _ = _
  rw [hcommit, writeRam]
  exact if_neg fun h => absurd h.1 Bool.false_ne_true

end DataPath

section Accumulator

variable {R : Run δ} {r k : Nat}

structure PlainModes (p : RtlParameters) : Prop where
  preAdd : ∀ v ∈ p.preAddMode, v = 0
  chain : ∀ v ∈ p.addPrevEngineAccum, v = 0

def sliceInputs (R : Run δ) (k : Nat) : DspInputs := dspInputs (R.env k) (R.state k)

theorem inmode_succ (hmodes : PlainModes R.p) (k : Nat) :
    (R.sliceInputs (k + 1)).inmode = inmode 0 := by
  change inmode (R.state (k + 1)).dspModes.preaddModePs5 = _
  rw [R.dspModes_succ]
  exact congrArg inmode (fieldAt_of_zero hmodes.preAdd _ 2)

theorem modes_add (hmodes : PlainModes R.p) (hrel : Released r R.env) (a : Nat) {mode : Nat}
    (hmul : fieldAt R.p.mulMode (R.slot a) 2 = mode) :
    (R.sliceInputs (r + a + 8)).opmode = opmode false mode ∧
      (R.sliceInputs (r + a + 8)).alumode = alumode mode := by
  have hchain : (R.state (r + a + 8)).dspModes.addPrevEngineAccumPs7 = false := by
    rw [R.dspModes_succ]
    change bitShifted _ _ = _
    rw [bitShifted, fieldAt_of_zero hmodes.chain]
    rfl
  change opmode (R.state (r + a + 8)).dspModes.addPrevEngineAccumPs7
    (R.state (r + a + 8)).dspModes.mulModePs7 = _ ∧
      alumode (R.state (r + a + 8)).dspModes.mulModePs7 = _
  rw [hchain, mulMode_add hrel, hmul]
  exact ⟨rfl, rfl⟩

theorem dsp_add (R : Run δ) (k j : Nat) : (R.state (k + j)).dsp =
    Clocked.run R.dsp.clock (fun j => R.sliceInputs (k + j)) (R.state k).dsp j := by
  induction j with
  | zero => rfl
  | succ j ih =>
    rw [Clocked.run_succ, ← ih]
    exact R.dsp_succ (k + j)

theorem pass_accumulates {lag : Nat} (hdsp : MulAccumulates lag R.dsp)
    (hmodes : PlainModes R.p) (hrel : Released r R.env) {a n : Nat} {term : Nat → Int}
    (hmul : ∀ j < n, fieldAt R.p.mulMode (R.slot (a + j)) 2 = if j = 0 then 0 else 1)
    (hterm : ∀ j < n, product (R.sliceInputs (r + (a + j) + 6 + lag)).a
      (R.sliceInputs (r + (a + j) + 6)).b = term j) {j : Nat}
    (hj : j < n) : R.dsp.p (R.state (r + (a + j) + 10)).dsp =
      BitVec.ofInt 48 ((List.range (j + 1)).map term).sum := by
  have hrun := fun j => R.dsp_add (r + (a + j) + 6) 4
  induction j with
  | zero =>
    obtain ⟨hop, halu⟩ := modes_add hmodes hrel (a + 0) (hmul 0 hj)
    have hp := hdsp.mul (fun j => R.sliceInputs (r + (a + 0) + 6 + j))
      (R.state (r + (a + 0) + 6)).dsp (inmode_succ hmodes _) hop halu
    rw [← hrun 0] at hp
    rw [hp]
    change BitVec.ofInt 48 (product (R.sliceInputs (r + (a + 0) + 6 + lag)).a
      (R.sliceInputs (r + (a + 0) + 6)).b) = _
    rw [hterm 0 hj]
    simp
  | succ j ih =>
    have hprev := ih (Nat.lt_of_succ_lt hj)
    obtain ⟨hop, halu⟩ := modes_add hmodes hrel (a + (j + 1)) (hmul _ hj)
    have hp := hdsp.madd (fun i => R.sliceInputs (r + (a + (j + 1)) + 6 + i))
      (R.state (r + (a + (j + 1)) + 6)).dsp (inmode_succ hmodes _) hop halu
    rw [← hrun (j + 1), ← R.dsp_add (r + (a + (j + 1)) + 6) 3] at hp
    rw [hp]
    change R.dsp.p (R.state (r + (a + j) + 10)).dsp +
      BitVec.ofInt 48 (product (R.sliceInputs (r + (a + (j + 1)) + 6 + lag)).a
        (R.sliceInputs (r + (a + (j + 1)) + 6)).b) = _
    rw [hprev, hterm _ hj, ← BitVec.ofInt_add, List.range_succ (n := j + 1), List.map_append,
      List.sum_append, List.map_singleton, List.sum_singleton]

end Accumulator

end Run

end Rtl

section Samples

variable {δ : Type} {sort : List FirEngineMacFifoDesc → List FirEngineMacFifoDesc}
  {spec : FirEngineSpec} {mac : FirEngineMacDesc} {T : Nat} {gs : List Nat} {R : Run δ}
  {r k i f : Nat}

def Rtl.Run.samples (R : Run δ) (i k : Nat) : List (BitVec 18) :=
  Toggle.collect (R.committedAt i) k

theorem committedAt_eq (hb : BuiltMac spec T mac) (hgen : Generated sort spec mac R.p)
    (hd : Driven R.p) (hrst : (R.env 0).iRst = true) :
    R.committedAt i k = if R.commitTarget k = some i then
      some (R.state (k - 1)).channels.chosenDataPs2 else none := by
  cases hcommit : (R.state k).commit.ps3 with
  | false => simp [Run.committedAt, Run.commitTarget, hcommit]
  | true =>
    obtain ⟨m, rfl⟩ := Run.exists_of_ps3 hrst hcommit
    have hslot := Run.commitSlot_of_ps3 hcommit
    obtain ⟨f, hf⟩ := updateSlot_of_doUpdate hgen hslot.doUpdate
    obtain ⟨l, hl, hup⟩ := updateFifoNum_of_slot hb hgen hf
    obtain ⟨l', hl', hchannel⟩ := channelSelect_of_slot hb hgen hf
    obtain rfl := hb.inv.position_unique hl hl'
    have hfield := fieldAt_of_getElem? hchannel
      (hgen.render_channelSelect _ (List.mem_of_getElem? hchannel))
    rw [Run.committedAt, Run.commitTarget, hcommit, if_pos rfl, hup, hfield,
      Run.wrdata_of_commit hd hcommit]
    simp

theorem samples_of_quiet {a b : Nat} (hb : BuiltMac spec T mac)
    (hgen : Generated sort spec mac R.p) (hd : Driven R.p) (hrst : (R.env 0).iRst = true)
    (hab : a ≤ b) (h : ∀ k, a ≤ k → k < b → R.commitTarget k ≠ some i) :
    R.samples i b = R.samples i a := by
  refine Clocked.eq_of_quiet hab fun k hk hkb => ?_
  rw [Run.samples, Toggle.collect_succ, committedAt_eq hb hgen hd hrst, if_neg (h k hk hkb)]
  exact List.append_nil _

def Remembers (R : Run δ) (i o m k : Nat) : Prop :=
  ∃ desc, (R.bank k)[i]? = some desc ∧ HoldsRing o m desc ∧
    Cells.Shows o (2 ^ regionBits (m - 1))
      ⟨(R.state k).dataBuffA.contents, (fifoOffset desc).toNat⟩ 0 (R.samples i k)

structure OwnRing (R : Run δ) (i o m : Nat) : Prop where
  lands : ∀ k l, R.commitTarget k = some l → ∃ desc, Run.CommitLands R k l desc
  apart : ∀ k l desc, l ≠ i → (R.bank k)[l]? = some desc →
    ¬ Within o (2 ^ regionBits (m - 1)) (nextAddr desc).toNat
  initial : ∃ desc, R.p.initialDescs[i]? = some desc ∧ HoldsRing o m desc
  below : o + 2 ^ regionBits (m - 1) ≤ bufferSize R.p

variable {o m : Nat}

theorem remembers_zero (hon : PowerOn R.p R.s₀) (hown : OwnRing R i o m) :
    Remembers R i o m 0 := by
  obtain ⟨desc, hdesc, hring⟩ := hown.initial
  refine ⟨desc, hdesc, hring, Cells.shows_nil hring.within fun a ha => ?_⟩
  change (settle (R.env 0) R.s₀).dataBuffA.contents a = 0
  rw [settle_dataBuffA]
  exact hon.dataBuffA a (ha.2.trans_le hown.below)

theorem remembers_succ (hb : BuiltMac spec T mac) (hgen : Generated sort spec mac R.p)
    (hd : Driven R.p) (hrst : (R.env 0).iRst = true) (hown : OwnRing R i o m)
    (h : Remembers R i o m k) : Remembers R i o m (k + 1) := by
  obtain ⟨desc, hdesc, hring, hshows⟩ := h
  have hsamples : R.samples i (k + 1) = R.samples i k ++ (R.committedAt i k).toList :=
    Toggle.collect_succ _ k
  rw [committedAt_eq hb hgen hd hrst] at hsamples
  cases htarget : R.commitTarget k with
  | none =>
    have hcommit : (R.state k).commit.ps3 = false := by
      cases hcommit : (R.state k).commit.ps3 with
      | false => rfl
      | true =>
        obtain ⟨_, _, hsome, _⟩ := Run.commitTarget_of_ps3 hd hrst hcommit
        rw [htarget] at hsome
        cases hsome
    rw [htarget, if_neg (by simp)] at hsamples
    refine ⟨desc, by rwa [Run.bank_succ_of_none htarget], hring, ?_⟩
    rw [hsamples, Run.dataBuffA_of_not_commit hcommit]
    simpa using hshows
  | some l =>
    obtain ⟨desc', hlands⟩ := hown.lands k l htarget
    by_cases hl : l = i
    · subst hl
      obtain rfl := Option.some.inj (hdesc.symm.trans hlands.bank)
      rw [htarget, if_pos rfl] at hsamples
      refine ⟨pushed desc, ?_, hring.pushed, ?_⟩
      · rw [Run.bank_succ_of_some htarget, List.getElem?_modify_eq, hdesc]
        rfl
      · have hput := hshows.put hring.aligned (R.state (k - 1)).channels.chosenDataPs2
        rw [hsamples, hlands.sample, pushed, fifoOffset_fifoDescWord, hring.next]
        exact hput
    · -- a commit to another FIFO writes outside of this ring
      have hother := hown.apart k l desc' hl hlands.bank
      have hne : R.commitTarget k ≠ some i := fun h => hl (Option.some.inj (htarget.symm.trans h))
      rw [if_neg hne] at hsamples
      refine ⟨desc, by rwa [Run.bank_succ_of_ne hne], hring, ?_⟩
      rw [hsamples, Option.toList_none, List.append_nil, hlands.sample]
      refine hshows.congr rfl fun a ha => Function.update_of_ne ?_ _ _
      rintro rfl
      exact hother ha

theorem remembers (hb : BuiltMac spec T mac) (hgen : Generated sort spec mac R.p)
    (hd : Driven R.p) (hon : PowerOn R.p R.s₀) (hrst : (R.env 0).iRst = true)
    (hown : OwnRing R i o m) (k : Nat) : Remembers R i o m k := by
  induction k with
  | zero => exact remembers_zero hon hown
  | succ k ih => exact remembers_succ hb hgen hd hrst hown ih

theorem Remembers.sample {desc : BitVec 16} {j : Nat} (h : Remembers R i o m k)
    (hbank : (R.bank k)[i]? = some desc)
    (haddr : (R.state k).readAddrs.dataBuffA0Rdaddr =
      (back (fifoRegionOrigin desc).toNat (regionSize desc))^[j] (fifoOffset desc).toNat)
    (hj : j < 2 ^ regionBits (m - 1)) (hbelow : o + 2 ^ regionBits (m - 1) ≤ bufferSize R.p) :
    (R.state (k + 2)).dataBuffA.rddata0 = (R.samples i k).reverse.getD j 0 := by
  obtain ⟨desc', hdesc, hring, hshows⟩ := h
  obtain rfl := Option.some.inj (hbank.symm.trans hdesc)
  rw [hring.origin, regionSize_eq, hring.bits] at haddr
  have hwithin := within_iterate_back (Nat.two_pow_pos (regionBits (m - 1))) hring.within j
  rw [Run.dataBuffA_rddata0, haddr, readRam, if_pos (hwithin.2.trans_le hbelow)]
  exact hshows.read j hj

end Samples

section Coefficients

variable {δ : Type} {sort : List FirEngineMacFifoDesc → List FirEngineMacFifoDesc}
  {spec : FirEngineSpec} {mac : FirEngineMacDesc} {p : RtlParameters} {T : Nat} {gs : List Nat}
  {k g o j c : Nat}

theorem FifoAt.coeffValues (hat : FifoAt spec mac sort p k g o) (hb : BuiltMac spec T mac)
    (hr : ∀ f ∈ mac.inputFirs, InRange spec f) (harr : Arranged spec mac sort gs)
    (hgen : Generated sort spec mac p) (hk : gs[k]? = some g)
    (hc : (quantised spec g)[j]? = some c) : p.coeffValues[o + j]? = some c := by
  obtain ⟨o', _, hentry⟩ := harr.entry hb hr hgen hk
  have hle := (hr g hat.mem).le
  have hrender := hgen.render_fifoSizes _ (List.mem_of_getElem? hentry.size)
  have hdesc := hat.desc
  rw [RtlParameters.initialDescs, List.getElem?_map, hentry.size, Option.map_some,
    Option.some.injEq] at hdesc
  have hoffset := hat.offset
  rw [← hdesc, toNat_fifoOffset, BitVec.toNat_ofNat, Nat.mod_eq_of_lt hrender] at hoffset
  obtain rfl : o' = o := by omega
  exact hentry.coeff j c hc

theorem plainModes_of_generated (hgen : Generated sort spec mac p) : Run.PlainModes p where
  preAdd := by
    have hmode : p.preAddMode = mac.establishPreAddModeCtrl := congrArg (·.preAddMode) hgen.result
    rw [hmode]
    exact fun v hv => List.eq_of_mem_replicate hv
  chain := by
    have hmode : p.addPrevEngineAccum = mac.establishAddPrevEngineAccumCtrl :=
      congrArg (·.addPrevEngineAccum) hgen.result
    rw [hmode]
    exact fun v hv => List.eq_of_mem_replicate hv

theorem Pass.mulMode {R : Run δ} {f a : Nat} (hpass : Pass spec mac R f a)
    (hgen : Generated sort spec mac R.p) (hj : j < spec.numCoeff f) :
    fieldAt R.p.mulMode (R.slot (a + j)) 2 = if j = 0 then 0 else 1 := by
  have hmode : R.p.mulMode = mac.establishMulModeCtrl := congrArg (·.mulMode) hgen.result
  rw [fieldAt, hmode, establishMulModeCtrl, List.getD_eq_getElem?_getD, List.getElem?_map,
    hpass.taps j hj]
  cases j <;> rfl

end Coefficients

end FirEngine
