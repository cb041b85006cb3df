import Mathlib.Data.List.Basic
import Mathlib.Data.List.Infix

namespace Numbered

def numbered (stem : String) (n : Nat) (suffix : String) : String := stem ++ toString n ++ suffix

variable {stem stem' suffix suffix' : String} {m n : Nat}

theorem toList_numbered : (numbered stem n suffix).toList =
    stem.toList ++ (Nat.toDigits 10 n ++ suffix.toList) := by
  simp [numbered, String.toList_append]

def StartsWithDigit (s : String) : Prop := ∃ c ∈ s.toList.head?, c.isDigit = true

instance (s : String) : Decidable (StartsWithDigit s) :=
  match h : s.toList.head? with
  | none => isFalse (by simp [StartsWithDigit, h])
  | some c => decidable_of_iff (c.isDigit = true) (by simp [StartsWithDigit, h])

theorem takeWhile_isDigit (h : ¬ StartsWithDigit suffix) :
    (Nat.toDigits 10 n ++ suffix.toList).takeWhile Char.isDigit = Nat.toDigits 10 n := by
  rw [List.takeWhile_append_of_pos fun c hc =>
    Nat.isDigit_of_mem_toDigits (by decide) (by decide) hc]
  cases hs : suffix.toList with
  | nil => simp
  | cons c cs =>
    have hc : c.isDigit = false := by
      simpa [StartsWithDigit, hs] using h
    simp [hc]

theorem numbered_inj (h : ¬ StartsWithDigit suffix) (h' : ¬ StartsWithDigit suffix') :
    numbered stem m suffix = numbered stem n suffix' ↔ m = n ∧ suffix = suffix' := by
  constructor
  · intro heq
    have hlist := congrArg String.toList heq
    rw [toList_numbered, toList_numbered] at hlist
    have htail := List.append_cancel_left hlist
    have hdigits : Nat.toDigits 10 m = Nat.toDigits 10 n := by
      rw [← takeWhile_isDigit h, htail, takeWhile_isDigit h']
    rw [hdigits] at htail
    refine ⟨?_, String.toList_inj.mp (List.append_cancel_left htail)⟩
    have hnum := congrArg (fun digits => Nat.ofDigitChars 10 digits 0) hdigits
    simpa using hnum
  · rintro ⟨rfl, rfl⟩
    rfl

def StemOf (stem s : String) : Prop := stem.toList <+: s.toList

theorem stemOf_numbered (stem : String) (n : Nat) (suffix : String) :
    StemOf stem (numbered stem n suffix) := by
  rw [StemOf, toList_numbered]
  exact List.prefix_append _ _

theorem StemOf.comparable {s : String} (h : StemOf stem s) (h' : StemOf stem' s) :
    StemOf stem stem' ∨ StemOf stem' stem := List.prefix_or_prefix_of_prefix h h'

instance (stem s : String) : Decidable (StemOf stem s) :=
  inferInstanceAs (Decidable (_ <+: _))

theorem ne_append_toString (s : String) (n : Nat) : s ≠ s ++ toString n := by
  intro heq
  have hlen := congrArg String.length heq
  have hpos := Nat.length_repr_pos (n := n)
  rw [String.length_append, Nat.toString_eq_repr] at hlen
  omega

end Numbered
