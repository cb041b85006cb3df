import Mathlib.Data.Bool.AllAny
import EmbeddedProjects.Lib.Orbit
import EmbeddedProjects.Adc.Virtual

namespace Adc.Generator

def maxAdcReading : Nat := 2 ^ 10 - 1

def readingAfter (random : Nat → Nat × Nat) (y : Nat) : Nat × (Nat × Nat) :=
  let x := (random y).1 % 8
  let y := (random y).2 % (maxAdcReading + 1)
  (y, (x, y))

def sprintf (reading : Nat × Nat) : String :=
  String.ofList (Nat.toDigits 10 reading.1 ++ ',' :: (Nat.toDigits 10 reading.2 ++ ['\n']))

-- y starts as the seconds after the hour
def readings (random : Nat → Nat × Nat) (tmSec : Nat) : Nat → Nat × Nat :=
  Orbit.outputs (readingAfter random) tmSec

def isspace (c : Char) : Bool := c ∈ [' ', '\t', '\n', '\x0b', '\x0c', '\r']

def scanInt (s : List Char) : Option (Int × List Char) :=
  let s := s.dropWhile isspace
  let digits := if s.head? = some '-' then s.tail else s
  if (digits.takeWhile Char.isDigit).isEmpty then none
  else
    let value : Int := Nat.ofDigitChars 10 (digits.takeWhile Char.isDigit) 0
    some (if s.head? = some '-' then -value else value, digits.dropWhile Char.isDigit)

def sscanf (buffer : String) : BitVec 32 × BitVec 32 :=
  (scanInt buffer.toList).elim (0, 0) fun x =>
    if x.2.head? = some ',' then
      (scanInt x.2.tail).elim (BitVec.ofInt 32 x.1, 0) fun y =>
        (BitVec.ofInt 32 x.1, BitVec.ofInt 32 y.1)
    else (BitVec.ofInt 32 x.1, 0)

section Text

variable {c : Char}

theorem takeWhile_digits (n : Nat) (rest : List Char) (hc : c.isDigit = false) :
    (Nat.toDigits 10 n ++ c :: rest).takeWhile Char.isDigit = Nat.toDigits 10 n ∧
      (Nat.toDigits 10 n ++ c :: rest).dropWhile Char.isDigit = c :: rest := by
  have hdigits : ∀ d ∈ Nat.toDigits 10 n, d.isDigit = true := fun d hd =>
    Nat.isDigit_of_mem_toDigits (by decide) (by decide) hd
  rw [List.takeWhile_append_of_pos hdigits, List.dropWhile_append_of_pos hdigits]
  simp [hc]

theorem digit_not_space {d : Char} (hd : d.isDigit = true) : isspace d = false ∧ d ≠ '-' := by
  have hspace : ∀ e ∈ ['-', ' ', '\t', '\n', '\x0b', '\x0c', '\r'], e.isDigit = false :=
    List.all_iff_forall_prop.mp (by decide)
  constructor
  · refine decide_eq_false fun hmem => ?_
    exact absurd (hspace d (List.mem_cons_of_mem _ hmem)) (by simp [hd])
  · rintro rfl
    cases hd

theorem scanInt_toDigits (n : Nat) (rest : List Char) (hc : c.isDigit = false) :
    scanInt (Nat.toDigits 10 n ++ c :: rest) = some ((n : Int), c :: rest) := by
  have hsplit := takeWhile_digits n rest hc
  obtain ⟨d, ds, hds⟩ := List.exists_cons_of_ne_nil (Nat.toDigits_ne_nil (n := n) (b := 10))
  have hd : d.isDigit = true :=
    Nat.isDigit_of_mem_toDigits (by decide) (by decide) (hds ▸ List.mem_cons_self)
  have hspace : (Nat.toDigits 10 n ++ c :: rest).dropWhile isspace =
      Nat.toDigits 10 n ++ c :: rest := by
    rw [hds, List.cons_append, List.dropWhile_cons_of_neg (by simp [(digit_not_space hd).1])]
  have hsign : (Nat.toDigits 10 n ++ c :: rest).head? ≠ some '-' := by
    rw [hds]
    simpa using (digit_not_space hd).2
  have hsome : (Nat.toDigits 10 n).isEmpty = false := by simp
  simp only [scanInt, hspace, hsign, if_false, hsplit.1, hsplit.2, hsome,
    Nat.ofDigitChars_ten_toDigits, Bool.false_eq_true]

theorem sscanf_sprintf (x y : Nat) :
    sscanf (sprintf (x, y)) = (BitVec.ofNat 32 x, BitVec.ofNat 32 y) := by
  have hfirst := scanInt_toDigits x (Nat.toDigits 10 y ++ ['\n']) (c := ',') (by decide)
  have hsecond := scanInt_toDigits y [] (c := '\n') (by decide)
  simp only [sscanf, sprintf, String.toList_ofList, hfirst, Option.elim_some, List.head?_cons,
    if_true, List.tail_cons, hsecond, BitVec.ofInt_natCast]

-- buffer has 16 bytes
theorem length_sprintf {x y : Nat} (hx : x < 8) (hy : y < 1024) :
    (sprintf (x, y)).length ≤ 7 := by
  have hone := (Nat.length_toDigits_le_iff (b := 10) (k := 1) (by decide) (by decide)).mpr
    (Nat.lt_of_lt_of_le hx (by decide))
  have hfour := (Nat.length_toDigits_le_iff (b := 10) (k := 4) (by decide) (by decide)).mpr
    (Nat.lt_of_lt_of_le hy (by decide))
  simp only [sprintf, String.length_ofList, List.length_append, List.length_cons, List.length_nil]
  omega

end Text

section Run

variable (random : Nat → Nat × Nat) (tmSec : Nat)

theorem readings_lt (n : Nat) :
    (readings random tmSec n).1 < 8 ∧ (readings random tmSec n).2 < 1024 := by
  induction n generalizing tmSec with
  | zero => exact ⟨Nat.mod_lt _ (by decide), Nat.mod_lt _ (by decide)⟩
  | succ n ih => exact ih (readingAfter random tmSec).1

theorem toInt_ofNat {x : Nat} (hx : x < 1024) : (BitVec.ofNat 32 x).toInt = x := by
  have htoNat : (BitVec.ofNat 32 x).toNat = x := Nat.mod_eq_of_lt (by omega)
  rw [BitVec.toInt_eq_toNat_of_lt (by omega), htoNat]

def sentFor (reading : Nat × Nat) : List (Nat × BitVec 32) :=
  if reading = (0, 0) ∨ reading = (7, 1023) then []
  else [(reading.1, BitVec.ofNat 32 reading.2)]

theorem sent_iff {x y : Nat} (hx : x < 8) (hy : y < 1024) :
    Sent (BitVec.ofNat 32 x) (BitVec.ofNat 32 y) ↔ ¬ ((x, y) = (0, 0) ∨ (x, y) = (7, 1023)) := by
  rw [Sent, toInt_ofNat (by omega), toInt_ofNat hy, Prod.mk.injEq, Prod.mk.injEq]
  omega

theorem decodeEvent_ofNat {x y : Nat} (hx : x < 8) (hy : y < 1024) :
    decodeEvent (BitVec.ofNat 32 y <<< 3 ||| BitVec.ofNat 32 x) = (x, BitVec.ofNat 32 y) := by
  refine decodeEvent_eq hx (BitVec.lt_def.mpr ?_)
  change (BitVec.ofNat 32 y).toNat < 1024
  rwa [BitVec.toNat_ofNat, Nat.mod_eq_of_lt (by omega)]

theorem decoded_write {x y : Nat} (hx : x < 8) (hy : y < 1024) (count : Nat) :
    (writeVadcc sscanf (sprintf (x, y)) count).2.map decodeEvent = sentFor (x, y) := by
  rcases writeVadcc_cases count (sscanf_sprintf x y) with ⟨hsent, hevents⟩ | ⟨hsent, hevents⟩
  · rw [hevents, List.map_singleton, decodeEvent_ofNat hx hy, sentFor,
      if_neg ((sent_iff hx hy).mp hsent)]
  · rw [hevents, sentFor, if_pos (not_not.mp ((sent_iff hx hy).not.mp hsent))]
    rfl

theorem generated_readings :
    (∀ n count, (sprintf (readings random tmSec n)).length < 16 ∧
      (writeVadcc sscanf (sprintf (readings random tmSec n)) count).2.map decodeEvent =
        sentFor (readings random tmSec n)) ∧
    ∃ i p, 0 < p ∧ i + p ≤ 1025 ∧
      ∀ n, i ≤ n → readings random tmSec (n + p) = readings random tmSec n := by
  refine ⟨fun n count => ?_, Orbit.comes_round (fun y => Nat.mod_lt _ (by decide)) tmSec⟩
  obtain ⟨hx, hy⟩ := readings_lt random tmSec n
  exact ⟨Nat.lt_of_le_of_lt (length_sprintf hx hy) (by decide), decoded_write hx hy count⟩

end Run

end Adc.Generator
