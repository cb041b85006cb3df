import Mathlib.Data.List.Basic
import Mathlib.Data.List.Flatten

namespace Writes

variable {α : Type}

def applyWrites (ws : List (Nat × α)) (l : List α) : List α :=
  ws.foldl (fun l w => l.set w.1 w.2) l

@[simp] theorem applyWrites_cons (w : Nat × α) (ws : List (Nat × α)) (l : List α) :
    applyWrites (w :: ws) l = applyWrites ws (l.set w.1 w.2) := rfl

theorem applyWrites_append (ws ws' : List (Nat × α)) (l : List α) :
    applyWrites (ws ++ ws') l = applyWrites ws' (applyWrites ws l) := by
  simp [applyWrites]

@[simp] theorem length_applyWrites (ws : List (Nat × α)) (l : List α) :
    (applyWrites ws l).length = l.length := by
  induction ws generalizing l with
  | nil => rfl
  | cons w ws ih => simp [ih]

theorem getElem?_applyWrites_of_untouched {ws : List (Nat × α)} {i : Nat}
    (h : ∀ w ∈ ws, w.1 ≠ i) (l : List α) : (applyWrites ws l)[i]? = l[i]? := by
  induction ws generalizing l with
  | nil => rfl
  | cons w ws ih =>
    simp only [List.mem_cons, forall_eq_or_imp] at h
    rw [applyWrites_cons, ih h.2, List.getElem?_set_ne h.1]

theorem getElem?_applyWrites_of_touched {ws : List (Nat × α)} {i : Nat} {l : List α}
    (hi : i < l.length) (h : ∃ w ∈ ws, w.1 = i) :
    ∃ v, (i, v) ∈ ws ∧ (applyWrites ws l)[i]? = some v := by
  induction ws generalizing l with
  | nil => simp at h
  | cons w ws ih =>
    by_cases hws : ∃ w' ∈ ws, w'.1 = i
    · obtain ⟨v, hv, hget⟩ := ih (l := l.set w.1 w.2) (by simpa using hi) hws
      exact ⟨v, List.mem_cons_of_mem _ hv, hget⟩
    · -- the head is the last write to this index
      obtain ⟨w', hw', rfl⟩ := h
      have hw : w' = w := by
        rcases List.mem_cons.mp hw' with h | h
        · exact h
        · exact absurd ⟨w', h, rfl⟩ hws
      subst hw
      refine ⟨w'.2, by simp, ?_⟩
      have hnone : ∀ w ∈ ws, w.1 ≠ w'.1 := fun w hw heq => hws ⟨w, hw, heq⟩
      rw [applyWrites_cons, getElem?_applyWrites_of_untouched hnone]
      simp [hi]

theorem getElem?_applyWrites_congr {ws : List (Nat × α)} {i : Nat} {l l' : List α}
    (hi : i < l.length) (hi' : i < l'.length) (h : ∃ w ∈ ws, w.1 = i) :
    (applyWrites ws l)[i]? = (applyWrites ws l')[i]? := by
  induction ws generalizing l l' with
  | nil => simp at h
  | cons w ws ih =>
    rw [applyWrites_cons, applyWrites_cons]
    by_cases hws : ∃ w' ∈ ws, w'.1 = i
    · exact ih (by simpa using hi) (by simpa using hi') hws
    · obtain ⟨w', hw', rfl⟩ := h
      have hnone : ∀ w ∈ ws, w.1 ≠ w'.1 := fun w hw heq => hws ⟨w, hw, heq⟩
      have hw : w' = w := by
        rcases List.mem_cons.mp hw' with h | h
        · exact h
        · exact absurd rfl (hnone w' h)
      subst hw
      rw [getElem?_applyWrites_of_untouched hnone, getElem?_applyWrites_of_untouched hnone]
      simp [hi, hi']

theorem getElem?_applyWrites_of_agree {ws : List (Nat × α)} {i : Nat} {v : α} {l : List α}
    (hi : i < l.length) (hmem : (i, v) ∈ ws) (hagree : ∀ v', (i, v') ∈ ws → v' = v) :
    (applyWrites ws l)[i]? = some v := by
  obtain ⟨v', hv', hget⟩ := getElem?_applyWrites_of_touched hi ⟨(i, v), hmem, rfl⟩
  rw [hget, hagree v' hv']

theorem getElem?_applyWrites_cases (ws : List (Nat × α)) {i : Nat} {l : List α}
    (hi : i < l.length) :
    (∃ v, (i, v) ∈ ws ∧ (applyWrites ws l)[i]? = some v) ∨
      ((∀ w ∈ ws, w.1 ≠ i) ∧ (applyWrites ws l)[i]? = l[i]?) := by
  by_cases h : ∃ w ∈ ws, w.1 = i
  · exact .inl (getElem?_applyWrites_of_touched hi h)
  · have h' : ∀ w ∈ ws, w.1 ≠ i := fun w hw heq => h ⟨w, hw, heq⟩
    exact .inr ⟨h', getElem?_applyWrites_of_untouched h' l⟩

theorem foldl_flatMap_writes {β : Type} (bs : List β) (f : β → List (Nat × α)) (l : List α) :
    bs.foldl (fun l b => applyWrites (f b) l) l = applyWrites (bs.flatMap f) l := by
  induction bs generalizing l with
  | nil => rfl
  | cons b bs ih => simp [applyWrites_append, ih]

end Writes
