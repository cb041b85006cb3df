import EmbeddedProjects.Lib.Literal
import EmbeddedProjects.Lib.Outcome
import EmbeddedProjects.FirEngine.Parameters
import EmbeddedProjects.FirEngine.Rtl

namespace FirEngine

open Literal

namespace StringUtil

def hexDigitChar (hexDigit : Nat) : Char :=
  if hexDigit < 10 then Char.ofNat ('0'.toNat + hexDigit)
  else Char.ofNat ('a'.toNat + (hexDigit - 10))

-- while (val != 0), each digit in front of `str`; `val` rounds are enough
def hexDigitsLoop : Nat → Nat → List Char → List Char
  | 0, _, str => str
  | fuel + 1, val, str =>
    if val ≠ 0 then hexDigitsLoop fuel (val >>> 4) (hexDigitChar (val &&& 0xf) :: str) else str

def toHexDigits (val : Nat) : List Char := if val = 0 then ['0'] else hexDigitsLoop val val []

def toHexDigitsPadded (val numDigits : Nat) : List Char := (toHexDigits val).leftpad numDigits '0'

theorem digitValue_hexDigitChar {d : Nat} (hd : d < 16) : digitValue (hexDigitChar d) = some d := by
  have key : ∀ d < 16, digitValue (hexDigitChar d) = some d := by decide
  exact key d hd

theorem reads_hexDigitsLoop (fuel val : Nat) {str : List Char} {s : Nat} (hfuel : val ≤ fuel)
    (h : Reads 16 str s) : Reads 16 (hexDigitsLoop fuel val str) (val * 16 ^ str.length + s) := by
  induction fuel generalizing val str s with
  | zero =>
    obtain rfl : val = 0 := by omega
    rw [hexDigitsLoop, Nat.zero_mul, Nat.zero_add]
    exact h
  | succ fuel ih =>
    rw [hexDigitsLoop]
    by_cases hval : val = 0
    · rw [if_neg (not_not.mpr hval), hval, Nat.zero_mul, Nat.zero_add]
      exact h
    · have hlow : val &&& 0xf = val % 16 := Nat.and_two_pow_sub_one_eq_mod val 4
      have hhigh : val >>> 4 = val / 16 := Nat.shiftRight_eq_div_pow val 4
      have hdigit := Reads.cons (digitValue_hexDigitChar (Nat.mod_lt val (by decide)))
        (Nat.mod_lt val (by decide)) h
      have hrest := ih (val / 16) (by omega) hdigit
      have hsum : val / 16 * 16 ^ (str.length + 1) + (val % 16 * 16 ^ str.length + s) =
          val * 16 ^ str.length + s := by
        conv_rhs => rw [← Nat.div_add_mod val 16]
        ring
      rw [List.length_cons, hsum] at hrest
      rw [if_pos hval, hlow, hhigh]
      exact hrest

theorem length_hexDigitsLoop_le (fuel : Nat) {val k : Nat} (str : List Char)
    (hval : val < 16 ^ k) : (hexDigitsLoop fuel val str).length ≤ k + str.length := by
  induction fuel generalizing val k str with
  | zero => exact Nat.le_add_left _ _
  | succ fuel ih =>
    rw [hexDigitsLoop]
    split
    · next hne =>
      cases k with
      | zero =>
        rw [pow_zero] at hval
        omega
      | succ k =>
        have hhigh : val >>> 4 < 16 ^ k := by
          rw [Nat.shiftRight_eq_div_pow, Nat.div_lt_iff_lt_mul (by decide)]
          exact hval
        have hrest := ih (k := k) (hexDigitChar (val &&& 0xf) :: str) hhigh
        rw [List.length_cons] at hrest
        omega
    · exact Nat.le_add_left _ _

theorem reads_toHexDigits (val : Nat) : Reads 16 (toHexDigits val) val := by
  rw [toHexDigits]
  split
  · next h =>
    subst h
    exact Reads.cons (d := 0) (by decide) (by decide) .nil
  · have h := reads_hexDigitsLoop val val le_rfl .nil
    rwa [List.length_nil, pow_zero, Nat.mul_one, Nat.add_zero] at h

theorem length_toHexDigits_le {val k : Nat} (hk : 0 < k) (hval : val < 16 ^ k) :
    (toHexDigits val).length ≤ k := by
  rw [toHexDigits]
  split
  · exact hk
  · exact length_hexDigitsLoop_le val [] hval

theorem reads_toHexDigitsPadded {val n : Nat} (hn : 0 < n) (hval : val < 16 ^ n) :
    Reads 16 (toHexDigitsPadded val n) val ∧ (toHexDigitsPadded val n).length = n := by
  have hlen := length_toHexDigits_le hn hval
  rw [toHexDigitsPadded, List.leftpad]
  refine ⟨(reads_toHexDigits val).zeros (by decide) _, ?_⟩
  rw [List.length_append, List.length_replicate]
  omega

end StringUtil

namespace FirEngineMacDesc

open StringUtil

structure HexFormat where
  base : Char
  maxAllowedValue : Nat
  numDigits : Nat

def hexFormat : Nat → Except Fault HexFormat
  | 1 => .ok ⟨'b', 1, 1⟩
  | 4 => .ok ⟨'h', 0xF, 1⟩
  | 8 => .ok ⟨'h', 0xFF, 2⟩
  | _ => .error .assertion

def hexValues (fmt : HexFormat) : Bool → List Nat → Except Fault (List Char)
  | _, [] => .ok []
  | first, val :: rest => do
    check (val ≤ fmt.maxAllowedValue)
    let text ← hexValues fmt false rest
    .ok ((if first then [] else ['_']) ++ (if fmt.numDigits = 1 then ['_'] else []) ++
      toHexDigitsPadded val fmt.numDigits ++ text)

def renderVectorAsHexString (bitsPerValue : Nat) (values : List Nat) :
    Except Fault (List Char) := do
  let fmt ← hexFormat bitsPerValue
  let text ← hexValues fmt true values.reverse
  .ok ((Nat.toDigits 10 (bitsPerValue * values.length)).leftpad 3 ' ' ++
    '\x27' :: fmt.base :: text)

def concatValues (bitsPerValue : Nat) : Bool → List Nat → Except Fault (List Char)
  | _, [] => .ok []
  | first, val :: rest => do
    check (val < 1 <<< bitsPerValue)
    let text ← concatValues bitsPerValue false rest
    .ok ((if first then [] else [',', ' ']) ++ Nat.toDigits 10 bitsPerValue ++ ['\x27', 'h'] ++
      toHexDigitsPadded val (IntUtils.ceilDiv bitsPerValue 4) ++ text)

def renderVectorAsConcat (bitsPerValue : Nat) (values : List Nat) : Except Fault (List Char) := do
  let text ← concatValues bitsPerValue true values.reverse
  .ok ('\x7b' :: (text ++ ['\x7d']))

def Encodes (bitsPerValue : Nat) (values : List Nat) (literal : Option Sized) : Prop :=
  ∃ V, literal = some ⟨bitsPerValue * values.length, V⟩ ∧
    (∀ t (ht : t < values.length), (V >>> (bitsPerValue * t)) % 2 ^ bitsPerValue = values[t]) ∧
    ∀ slot width, width ≤ bitsPerValue →
      (V >>> (bitsPerValue * slot)) % 2 ^ width = Rtl.fieldAt values slot width

theorem encodes_ofDigits {bits : Nat} {values : List Nat} (h : ∀ v ∈ values, v < 2 ^ bits) :
    Encodes bits values (some ⟨bits * values.length, Nat.ofDigits (2 ^ bits) values⟩) := by
  refine ⟨_, rfl, fun t ht => ?_, fun slot width hw => field_ofDigits h hw slot⟩
  rw [field_ofDigits h le_rfl, List.getD_eq_getElem _ _ ht]
  exact Nat.mod_eq_of_lt (h _ (List.getElem_mem ht))

section HexString

variable {bits radix : Nat} {fmt : HexFormat} {values : List Nat}

structure ReadsAs (bits radix : Nat) (fmt : HexFormat) : Prop where
  base : radixOf fmt.base = some radix
  power : radix ^ fmt.numDigits = 2 ^ bits
  pos : 0 < fmt.numDigits
  range : ∀ v, v < 2 ^ bits → v ≤ fmt.maxAllowedValue
  block : ∀ v, v < 2 ^ bits → Reads radix (toHexDigitsPadded v fmt.numDigits) v ∧
    (toHexDigitsPadded v fmt.numDigits).length = fmt.numDigits

theorem readsAs_binary : ReadsAs 1 2 ⟨'b', 1, 1⟩ where
  base := rfl
  power := rfl
  pos := by decide
  range := fun v hv => Nat.le_of_lt_succ hv
  block := by
    intro v hv
    rw [pow_one] at hv
    obtain rfl | rfl : v = 0 ∨ v = 1 := by omega
    · exact ⟨Reads.cons (d := 0) (by decide) (by decide) .nil, by decide⟩
    · exact ⟨Reads.cons (d := 1) (by decide) (by decide) .nil, by decide⟩

theorem hexFormat_readsAs (h : bits ∈ [1, 4, 8]) :
    ∃ fmt radix, hexFormat bits = .ok fmt ∧ ReadsAs bits radix fmt := by
  simp only [List.mem_cons, List.not_mem_nil, or_false] at h
  obtain rfl | rfl | rfl := h
  · exact ⟨_, 2, rfl, readsAs_binary⟩
  · exact ⟨_, 16, rfl, rfl, rfl, by decide, fun v hv => Nat.le_of_lt_succ hv,
      fun v hv => reads_toHexDigitsPadded (by decide) hv⟩
  · exact ⟨_, 16, rfl, rfl, rfl, by decide, fun v hv => Nat.le_of_lt_succ hv,
      fun v hv => reads_toHexDigitsPadded (by decide) hv⟩

theorem hexValues_eq (h : ReadsAs bits radix fmt) (first : Bool)
    (hrange : ∀ v ∈ values, v < 2 ^ bits) : ∃ text, hexValues fmt first values = .ok text ∧
      text.filter (· != '_') = values.flatMap (toHexDigitsPadded · fmt.numDigits) := by
  induction values generalizing first with
  | nil => exact ⟨[], rfl, rfl⟩
  | cons v values ih =>
    obtain ⟨text, htext, hfilter⟩ := ih false fun u hu => hrange u (List.mem_cons_of_mem v hu)
    have hv := hrange v List.mem_cons_self
    have hmarks : ((if first then [] else ['_']) ++
        if fmt.numDigits = 1 then ['_'] else []).filter (· != '_') = [] := by
      by_cases hdigits : fmt.numDigits = 1 <;> cases first <;> simp [hdigits]
    have hstep : hexValues fmt first (v :: values) = .ok ((if first then [] else ['_']) ++
        (if fmt.numDigits = 1 then ['_'] else []) ++ toHexDigitsPadded v fmt.numDigits ++ text) := by
      rw [hexValues, check, if_pos (decide_eq_true (h.range v hv)), Outcome.ok_bind, htext,
        Outcome.ok_bind]
    refine ⟨_, hstep, ?_⟩
    rw [List.filter_append, List.filter_append, hmarks, (h.block v hv).1.filter_eq_self, hfilter,
      List.nil_append, List.flatMap_cons]

theorem hexString_encodes (hbits : bits ∈ [1, 4, 8]) (hne : values ≠ [])
    (hrange : ∀ v ∈ values, v < 2 ^ bits) :
    ∃ text, renderVectorAsHexString bits values = .ok text ∧
      Encodes bits values (decodeSized text) := by
  obtain ⟨fmt, radix, hfmt, h⟩ := hexFormat_readsAs hbits
  have hrev : ∀ v ∈ values.reverse, v < 2 ^ bits := fun v hv => hrange v (List.mem_reverse.mp hv)
  obtain ⟨text, htext, hfilter⟩ := hexValues_eq h true hrev
  obtain ⟨hreads, hlen⟩ := Reads.blocks fun v hv => h.block v (hrange v hv)
  rw [← hfilter, h.power] at hreads
  rw [← hfilter] at hlen
  have hpos : 0 < fmt.numDigits * values.length :=
    Nat.mul_pos h.pos (List.length_pos_iff.mpr hne)
  refine ⟨_, by rw [renderVectorAsHexString, hfmt, Outcome.ok_bind, htext, Outcome.ok_bind], ?_⟩
  rw [List.leftpad, List.append_assoc,
    decodeSized_eq _ h.base hreads (List.length_pos_iff.mp (hlen ▸ hpos)) (ofDigits_lt hrange)]
  exact encodes_ofDigits hrange

end HexString

section Concat

variable {bits : Nat} {values : List Nat}

def concatItem (bitsPerValue val : Nat) : List Char :=
  Nat.toDigits 10 bitsPerValue ++ '\x27' :: 'h' ::
    toHexDigitsPadded val (IntUtils.ceilDiv bitsPerValue 4)

theorem concatValues_cons (first : Bool) {v : Nat} {text : List Char} (hv : v < 2 ^ bits)
    (htext : concatValues bits false values = .ok text) :
    concatValues bits first (v :: values) =
      .ok ((if first then [] else [',', ' ']) ++ concatItem bits v ++ text) := by
  have hrange : v < 1 <<< bits := by rwa [Nat.one_shiftLeft]
  rw [concatValues, check, if_pos (decide_eq_true hrange), Outcome.ok_bind, htext, Outcome.ok_bind,
    concatItem]
  simp only [List.append_assoc, List.cons_append, List.nil_append]

theorem concatValues_false (hrange : ∀ v ∈ values, v < 2 ^ bits) :
    concatValues bits false values =
      .ok (values.flatMap fun v => ',' :: ' ' :: concatItem bits v) := by
  induction values with
  | nil => rfl
  | cons v values ih =>
    rw [concatValues_cons false (hrange v List.mem_cons_self)
      (ih fun u hu => hrange u (List.mem_cons_of_mem v hu))]
    rfl

theorem intercalate_concatItem (item : List Char) (values : List Nat) :
    [','].intercalate (item :: values.map fun v => ' ' :: concatItem bits v) =
      item ++ values.flatMap fun v => ',' :: ' ' :: concatItem bits v := by
  induction values generalizing item with
  | nil => simp
  | cons v values ih =>
    rw [List.map_cons, List.intercalate_cons_cons, ih, List.flatMap_cons]
    simp

theorem decodeSized_concatItem (pad : Nat) {v : Nat} (hbits : 0 < bits) (hdvd : 4 ∣ bits)
    (hv : v < 2 ^ bits) :
    decodeSized (List.replicate pad ' ' ++ concatItem bits v) = some ⟨bits, v⟩ ∧
      ',' ∉ concatItem bits v := by
  obtain ⟨n, rfl⟩ := hdvd
  have hdigits : IntUtils.ceilDiv (4 * n) 4 = n := by
    rw [IntUtils.ceilDiv]
    omega
  have hv16 : v < 16 ^ n := by rwa [pow_mul] at hv
  obtain ⟨hread, hlen⟩ := reads_toHexDigitsPadded (by omega) hv16
  rw [concatItem, hdigits]
  constructor
  · refine decodeSized_eq pad rfl ?_ ?_ hv
    · rw [hread.filter_eq_self]
      exact hread
    · rw [hread.filter_eq_self]
      exact List.length_pos_iff.mp (by omega)
  · rw [List.mem_append, List.mem_cons, List.mem_cons]
    rintro (hc | hc | hc | hc)
    · have := Nat.isDigit_of_mem_toDigits (by decide) (by decide) hc
      cases this
    · cases hc
    · cases hc
    · exact hread.notMem (by decide) hc

theorem mapM_decodeSized (pad : Nat) (hbits : 0 < bits) (hdvd : 4 ∣ bits)
    (hrange : ∀ v ∈ values, v < 2 ^ bits) :
    (values.map fun v => List.replicate pad ' ' ++ concatItem bits v).mapM decodeSized =
      some (values.map (Sized.mk bits)) := by
  induction values with
  | nil => rfl
  | cons v values ih =>
    rw [List.map_cons, List.mapM_cons,
      (decodeSized_concatItem pad hbits hdvd (hrange v List.mem_cons_self)).1,
      ih fun u hu => hrange u (List.mem_cons_of_mem v hu)]
    rfl

theorem concat_encodes (hbits : 0 < bits) (hdvd : 4 ∣ bits) (hne : values ≠ [])
    (hrange : ∀ v ∈ values, v < 2 ^ bits) :
    ∃ text, renderVectorAsConcat bits values = .ok text ∧
      Encodes bits values (decodeConcat text) := by
  have hrev : ∀ v ∈ values.reverse, v < 2 ^ bits := fun v hv => hrange v (List.mem_reverse.mp hv)
  obtain ⟨v, rest, hcons⟩ := List.exists_cons_of_ne_nil (List.reverse_ne_nil_iff.mpr hne)
  rw [hcons] at hrev
  have hv := hrev v List.mem_cons_self
  have hrest : ∀ u ∈ rest, u < 2 ^ bits := fun u hu => hrev u (List.mem_cons_of_mem v hu)
  have htext := concatValues_cons true hv (concatValues_false hrest)
  rw [if_pos rfl, List.nil_append, ← intercalate_concatItem] at htext
  have hparts : (concatItem bits v :: rest.map fun u => ' ' :: concatItem bits u).mapM
      decodeSized = some ((v :: rest).map (Sized.mk bits)) := by
    have hfirst := (decodeSized_concatItem 0 hbits hdvd hv).1
    rw [List.replicate_zero, List.nil_append] at hfirst
    have htail := mapM_decodeSized 1 hbits hdvd hrest
    rw [List.mapM_cons, hfirst]
    simp only [List.replicate_one, List.singleton_append] at htail
    rw [htail]
    rfl
  have hcomma : ∀ item ∈ concatItem bits v :: rest.map fun u => ' ' :: concatItem bits u,
      ',' ∉ item := by
    intro item hitem
    rcases List.mem_cons.mp hitem with rfl | hitem
    · exact (decodeSized_concatItem 0 hbits hdvd hv).2
    · obtain ⟨u, hu, rfl⟩ := List.mem_map.mp hitem
      rw [List.mem_cons, not_or]
      exact ⟨by decide, (decodeSized_concatItem 0 hbits hdvd (hrest u hu)).2⟩
  refine ⟨_, by rw [renderVectorAsConcat, hcons, htext, Outcome.ok_bind], ?_⟩
  rw [decodeConcat_eq (List.cons_ne_nil _ _) hcomma hparts, ← hcons, foldl_join]
  exact encodes_ofDigits hrange

end Concat

theorem text_of_renderVector {bits : Nat} {values : List Nat} (hbits : bits ∈ [1, 4, 8])
    (hne : values ≠ []) : renderVector bits values = .ok () →
      ∃ text, renderVectorAsHexString bits values = .ok text := by
  intro h
  have hall : values.all (fun v => v < 2 ^ bits) = true := by
    by_contra hno
    rw [renderVector, check, if_neg hno] at h
    cases h
  obtain ⟨text, htext, _⟩ := hexString_encodes hbits hne fun v hv => by
    simpa using List.all_eq_true.mp hall v hv
  exact ⟨text, htext⟩

theorem parameter_literals_decode (bits : Nat) (values : List Nat) (hne : values ≠ [])
    (hrange : ∀ v ∈ values, v < 2 ^ bits) :
    (bits ∈ [1, 4, 8] → ∃ text, renderVectorAsHexString bits values = .ok text ∧
      Encodes bits values (decodeSized text)) ∧
    (bits ∈ [16, 24] → ∃ text, renderVectorAsConcat bits values = .ok text ∧
      Encodes bits values (decodeConcat text)) := by
  refine ⟨fun hbits => hexString_encodes hbits hne hrange, fun hbits => ?_⟩
  simp only [List.mem_cons, List.not_mem_nil, or_false] at hbits
  obtain rfl | rfl := hbits
  · exact concat_encodes (by decide) (by decide) hne hrange
  · exact concat_encodes (by decide) (by decide) hne hrange

theorem parameter_literals_decode_four_slots :
    (∃ text, renderVectorAsHexString 4 [0, 15, 15, 2] = .ok text ∧
      Encodes 4 [0, 15, 15, 2] (decodeSized text)) ∧
    ∃ text, renderVectorAsConcat 16 [65, 1027] = .ok text ∧
      Encodes 16 [65, 1027] (decodeConcat text) :=
  ⟨(parameter_literals_decode 4 [0, 15, 15, 2] (by decide) (by decide)).1 (by decide),
    (parameter_literals_decode 16 [65, 1027] (by decide) (by decide)).2 (by decide)⟩

example : renderVectorAsHexString 4 [0, 15, 15, 2] = .ok " 16'h_2__f__f__0".toList := by decide

end FirEngineMacDesc

end FirEngine
