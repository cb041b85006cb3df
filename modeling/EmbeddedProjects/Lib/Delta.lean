import Mathlib.Data.List.Basic
import Mathlib.Logic.Function.Basic

namespace Delta

variable {ι α : Type} [DecidableEq ι] {old new s : ι → α} {ids : List ι} {i : ι}

def apply (s : ι → α) (es : List (ι × α)) : ι → α :=
  es.foldl (fun s e => Function.update s e.1 e.2) s

@[simp] theorem apply_nil : apply s [] = s := rfl

variable [DecidableEq α]

def changes (ids : List ι) (old new : ι → α) : List (ι × α) :=
  (ids.filter fun i => decide (old i ≠ new i)).map fun i => (i, new i)

theorem apply_changes : apply old (changes ids old new) i = if i ∈ ids then new i else old i := by
  have hset : ∀ ks : List ι, ∀ s : ι → α,
      apply s (ks.map fun i => (i, new i)) i = if i ∈ ks then new i else s i := by
    intro ks
    induction ks with
    | nil => simp
    | cons k ks ih =>
      intro s
      rw [List.map_cons, apply, List.foldl_cons]
      refine (ih _).trans ?_
      by_cases hik : i = k
      · subst hik
        simp
      · simp [hik]
  rw [changes, hset]
  by_cases hi : i ∈ ids
  · by_cases heq : old i = new i
    · simp [hi, heq]
    · simp [hi, heq]
  · simp [hi]

end Delta
