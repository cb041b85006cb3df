import Mathlib.Data.Nat.Digits.Lemmas
import Mathlib.Tactic.Ring
import EmbeddedProjects.Lib.Scan

namespace Literal

section Packed

variable {w : Nat} {vs : List Nat}

theorem ofDigits_lt (h : ∀ v ∈ vs, v < 2 ^ w) : Nat.ofDigits (2 ^ w) vs < 2 ^ (w * vs.length) := by
  induction vs with
  | nil => simp
  | cons v vs ih =>
    have hv := h v List.mem_cons_self
    have hrest := ih fun u hu => h u (List.mem_cons_of_mem v hu)
    rw [Nat.ofDigits_cons, List.length_cons, Nat.mul_succ, pow_add]
    calc v + 2 ^ w * Nat.ofDigits (2 ^ w) vs < 2 ^ w * (Nat.ofDigits (2 ^ w) vs + 1) := by
          rw [Nat.mul_succ]
          omega
      _ ≤ 2 ^ w * 2 ^ (w * vs.length) := Nat.mul_le_mul_left _ hrest
      _ = 2 ^ (w * vs.length) * 2 ^ w := Nat.mul_comm _ _

theorem shifted_ofDigits (h : ∀ v ∈ vs, v < 2 ^ w) (t : Nat) :
    Nat.ofDigits (2 ^ w) vs >>> (w * t) = Nat.ofDigits (2 ^ w) (vs.drop t) := by
  rw [Nat.shiftRight_eq_div_pow, pow_mul]
  exact Nat.ofDigits_div_pow_eq_ofDigits_drop t (Nat.two_pow_pos w) vs h

theorem field_ofDigits (h : ∀ v ∈ vs, v < 2 ^ w) {k : Nat} (hk : k ≤ w) (t : Nat) :
    (Nat.ofDigits (2 ^ w) vs >>> (w * t)) % 2 ^ k = vs.getD t 0 % 2 ^ k := by
  rw [shifted_ofDigits h, List.getD_eq_getElem?_getD, ← List.head?_drop]
  have hdvd : 2 ^ k ∣ 2 ^ w := Nat.pow_dvd_pow 2 hk
  cases vs.drop t with
  | nil => rfl
  | cons v rest =>
    rw [Nat.ofDigits_cons, Nat.add_mod,
      Nat.mod_eq_zero_of_dvd (hdvd.mul_right (Nat.ofDigits (2 ^ w) rest)), Nat.add_zero,
      Nat.mod_mod]
    rfl

end Packed

section Digits

variable {radix u v : Nat} {xs ys : List Char}

def digitValue (c : Char) : Option Nat :=
  if '0' ≤ c ∧ c ≤ '9' then some (c.toNat - '0'.toNat)
  else if 'a' ≤ c ∧ c ≤ 'f' then some (c.toNat - 'a'.toNat + 10)
  else if 'A' ≤ c ∧ c ≤ 'F' then some (c.toNat - 'A'.toNat + 10)
  else none

def readDigits (radix : Nat) : Nat → List Char → Option Nat
  | acc, [] => some acc
  | acc, c :: cs =>
    match digitValue c with
    | some d => if d < radix then readDigits radix (acc * radix + d) cs else none
    | none => none

inductive Reads (radix : Nat) : List Char → Nat → Prop
  | nil : Reads radix [] 0
  | cons {c : Char} {d v : Nat} {cs : List Char} : digitValue c = some d → d < radix →
      Reads radix cs v → Reads radix (c :: cs) (d * radix ^ cs.length + v)

theorem Reads.readDigits (h : Reads radix xs v) (acc : Nat) :
    readDigits radix acc xs = some (acc * radix ^ xs.length + v) := by
  induction h generalizing acc with
  | nil => rw [Literal.readDigits, List.length_nil, pow_zero, Nat.mul_one, Nat.add_zero]
  | @cons c d v cs hd hlt _ ih =>
    have hsum : (acc * radix + d) * radix ^ cs.length + v =
        acc * radix ^ (cs.length + 1) + (d * radix ^ cs.length + v) := by ring
    simp only [Literal.readDigits, hd, if_pos hlt, ih, List.length_cons, hsum]

theorem Reads.append (hx : Reads radix xs u) (hy : Reads radix ys v) :
    Reads radix (xs ++ ys) (u * radix ^ ys.length + v) := by
  induction hx with
  | nil =>
    rw [Nat.zero_mul, Nat.zero_add]
    exact hy
  | @cons c d u cs hd hlt _ ih =>
    have hsum : (d * radix ^ cs.length + u) * radix ^ ys.length + v =
        d * radix ^ (cs ++ ys).length + (u * radix ^ ys.length + v) := by
      rw [List.length_append]
      ring
    rw [hsum]
    exact .cons hd hlt ih

theorem Reads.zeros (hr : 0 < radix) (n : Nat) (h : Reads radix xs v) :
    Reads radix (List.replicate n '0' ++ xs) v := by
  induction n with
  | zero => exact h
  | succ n ih =>
    have hcons := Reads.cons (c := '0') (by decide) hr ih
    rwa [Nat.zero_mul, Nat.zero_add] at hcons

theorem Reads.digitValue_isSome (h : Reads radix xs v) :
    ∀ c ∈ xs, (digitValue c).isSome = true := by
  induction h with
  | nil => simp
  | cons hd _ _ ih =>
    intro c hc
    rcases List.mem_cons.mp hc with rfl | hc
    · rw [hd]
      rfl
    · exact ih c hc

theorem Reads.notMem (h : Reads radix xs v) {c : Char} (hc : digitValue c = none) : c ∉ xs := by
  intro hmem
  have hsome := h.digitValue_isSome c hmem
  rw [hc] at hsome
  cases hsome

theorem Reads.filter_eq_self (h : Reads radix xs v) : xs.filter (· != '_') = xs := by
  rw [List.filter_eq_self]
  rintro c hc
  have hne : c ≠ '_' := fun heq => h.notMem (by decide) (heq ▸ hc)
  simpa using hne

theorem Reads.blocks {n : Nat} {block : Nat → List Char} {vs : List Nat}
    (h : ∀ v ∈ vs, Reads radix (block v) v ∧ (block v).length = n) :
    Reads radix (vs.reverse.flatMap block) (Nat.ofDigits (radix ^ n) vs) ∧
      (vs.reverse.flatMap block).length = n * vs.length := by
  induction vs with
  | nil => exact ⟨.nil, rfl⟩
  | cons v vs ih =>
    obtain ⟨hread, hlen⟩ := h v List.mem_cons_self
    obtain ⟨hreads, hlens⟩ := ih fun u hu => h u (List.mem_cons_of_mem v hu)
    rw [List.reverse_cons, List.flatMap_append, List.flatMap_singleton, Nat.ofDigits_cons]
    refine ⟨?_, by rw [List.length_append, hlens, hlen, List.length_cons, Nat.mul_succ]⟩
    have happend := hreads.append hread
    rw [hlen, Nat.mul_comm, Nat.add_comm] at happend
    exact happend

end Digits

structure Sized where
  width : Nat
  value : Nat
  deriving DecidableEq, Repr

def radixOf : Char → Option Nat
  | 'b' => some 2
  | 'o' => some 8
  | 'd' => some 10
  | 'h' => some 16
  | _ => none

def decodeSized (text : List Char) : Option Sized :=
  let text := text.dropWhile (· == ' ')
  let size := text.takeWhile Char.isDigit
  let width := Nat.ofDigitChars 10 size 0
  match text.dropWhile Char.isDigit with
  | tick :: base :: digits =>
    let digits := digits.filter (· != '_')
    if tick = '\x27' ∧ size ≠ [] ∧ digits ≠ [] then do
      let radix ← radixOf base
      let value ← readDigits radix 0 digits
      some ⟨width, value % 2 ^ width⟩
    else none
  | _ => none

def Sized.join (x y : Sized) : Sized := ⟨x.width + y.width, x.value * 2 ^ y.width + y.value⟩

def decodeConcat (text : List Char) : Option Sized :=
  match text with
  | '\x7b' :: rest =>
    if rest.getLast? = some '\x7d' then
      ((rest.dropLast.splitOn ',').mapM decodeSized).map fun items =>
        items.foldl Sized.join ⟨0, 0⟩
    else none
  | _ => none

section Decode

variable {radix width v : Nat} {digits : List Char}

theorem head_toDigits_append {n : Nat} {rest : List Char} :
    ∀ c ∈ (Nat.toDigits 10 n ++ rest).head?, c.isDigit = true := by
  intro c hc
  cases hd : Nat.toDigits 10 n with
  | nil => exact absurd hd Nat.toDigits_ne_nil
  | cons d ds =>
    rw [hd, List.cons_append, List.head?_cons, Option.mem_some_iff] at hc
    subst hc
    exact Nat.isDigit_of_mem_toDigits (by decide) (by decide) (hd ▸ List.mem_cons_self)

theorem decodeSized_eq (pad : Nat) {base : Char} (hradix : radixOf base = some radix)
    (hread : Reads radix (digits.filter (· != '_')) v) (hne : digits.filter (· != '_') ≠ [])
    (hv : v < 2 ^ width) :
    decodeSized (List.replicate pad ' ' ++ (Nat.toDigits 10 width ++ '\x27' :: base :: digits)) =
      some ⟨width, v⟩ := by
  have hblank := (Scan.dropWhile_append_of_avoids (p := (· == ' '))
    (w := List.replicate pad ' ') (r := Nat.toDigits 10 width ++ '\x27' :: base :: digits)
    (fun c hc => by rw [List.eq_of_mem_replicate hc]; rfl) fun c hc => by
      have hdigit := head_toDigits_append c hc
      cases hsp : c == ' ' with
      | false => rfl
      | true =>
        rw [eq_of_beq hsp] at hdigit
        cases hdigit).2
  obtain ⟨hsize, hrest⟩ := Scan.dropWhile_append_of_avoids (p := Char.isDigit)
    (w := Nat.toDigits 10 width) (r := '\x27' :: base :: digits)
    (fun c hc => Nat.isDigit_of_mem_toDigits (by decide) (by decide) hc)
    (fun c hc => by
      obtain rfl : '\x27' = c := by simpa using hc
      rfl)
  have hvalue := hread.readDigits 0
  rw [Nat.zero_mul, Nat.zero_add] at hvalue
  simp only [decodeSized, hblank, hsize, hrest]
  rw [if_pos ⟨trivial, Nat.toDigits_ne_nil, hne⟩]
  simp [hradix, hvalue, Nat.ofDigitChars_ten_toDigits, Nat.mod_eq_of_lt hv]

theorem decodeConcat_eq {items : List (List Char)} {parts : List Sized} (hne : items ≠ [])
    (hcomma : ∀ item ∈ items, ',' ∉ item) (h : items.mapM decodeSized = some parts) :
    decodeConcat ('\x7b' :: ([','].intercalate items ++ ['\x7d'])) =
      some (parts.foldl Sized.join ⟨0, 0⟩) := by
  have hlast : ([','].intercalate items ++ ['\x7d']).getLast? = some '\x7d' :=
    List.getLast?_concat
  rw [decodeConcat, if_pos hlast, List.dropLast_concat, List.splitOn_intercalate ',' hcomma hne, h]
  rfl

theorem foldl_join (w : Nat) (vs : List Nat) :
    (vs.reverse.map (Sized.mk w)).foldl Sized.join ⟨0, 0⟩ =
      ⟨w * vs.length, Nat.ofDigits (2 ^ w) vs⟩ := by
  induction vs with
  | nil => rfl
  | cons v vs ih =>
    rw [List.reverse_cons, List.map_append, List.foldl_append, ih, Nat.ofDigits_cons]
    simp only [List.map_cons, List.map_nil, List.foldl_cons, List.foldl_nil, Sized.join,
      List.length_cons, Nat.mul_succ, Sized.mk.injEq, true_and]
    ring

end Decode

end Literal
