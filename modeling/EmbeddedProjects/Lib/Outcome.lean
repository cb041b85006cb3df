import Mathlib.Data.List.Basic
import Mathlib.Data.List.Forall2

namespace Outcome

variable {ε α β : Type}

theorem bind_eq_ok {x : Except ε α} {f : α → Except ε β} {b : β} :
    (x >>= f) = .ok b ↔ ∃ a, x = .ok a ∧ f a = .ok b := by
  cases x with
  | error e => simp [bind, Except.bind]
  | ok a => simp [bind, Except.bind]

theorem ok_bind (a : α) (f : α → Except ε β) : (Except.ok a >>= f) = f a := rfl

theorem mapM_cons_eq_ok {f : α → Except ε β} {x : α} {xs : List α} {ys : List β} :
    (x :: xs).mapM f = .ok ys ↔ ∃ y zs, f x = .ok y ∧ xs.mapM f = .ok zs ∧ ys = y :: zs := by
  simp only [List.mapM_cons, bind_eq_ok, pure, Except.pure, Except.ok.injEq]
  constructor
  · rintro ⟨y, hy, zs, hzs, rfl⟩
    exact ⟨y, zs, hy, hzs, rfl⟩
  · rintro ⟨y, zs, hy, hzs, rfl⟩
    exact ⟨y, hy, zs, hzs, rfl⟩

theorem mapM_eq_ok_iff {f : α → Except ε β} {xs : List α} {ys : List β} :
    xs.mapM f = .ok ys ↔ List.Forall₂ (fun x y => f x = .ok y) xs ys := by
  induction xs generalizing ys with
  | nil =>
    simp only [List.mapM_nil, List.forall₂_nil_left_iff]
    constructor
    · rintro ⟨⟩
      rfl
    · rintro rfl
      rfl
  | cons x xs ih =>
    rw [mapM_cons_eq_ok]
    constructor
    · rintro ⟨y, zs, hy, hzs, rfl⟩
      exact .cons hy (ih.mp hzs)
    · intro h
      cases h with
      | cons hy hzs => exact ⟨_, _, hy, ih.mpr hzs, rfl⟩

theorem exists_mapM_eq_ok {f : α → Except ε β} {P : β → Prop} {xs : List α}
    (h : ∀ x ∈ xs, ∃ y, f x = .ok y ∧ P y) : ∃ ys, xs.mapM f = .ok ys ∧ ∀ y ∈ ys, P y := by
  induction xs with
  | nil => exact ⟨[], rfl, by simp⟩
  | cons x xs ih =>
    simp only [List.mem_cons, forall_eq_or_imp] at h
    obtain ⟨⟨y, hy, hP⟩, hrest⟩ := h
    obtain ⟨ys, hys, hall⟩ := ih hrest
    exact ⟨y :: ys, mapM_cons_eq_ok.mpr ⟨y, ys, hy, hys, rfl⟩, by simpa using ⟨hP, hall⟩⟩

theorem length_of_mapM {f : α → Except ε β} {xs : List α} {ys : List β}
    (h : xs.mapM f = .ok ys) : ys.length = xs.length :=
  (mapM_eq_ok_iff.mp h).length_eq.symm

theorem getElem?_of_mapM {f : α → Except ε β} {xs : List α} {ys : List β} {i : Nat} {x : α}
    (h : xs.mapM f = .ok ys) (hx : xs[i]? = some x) : ∃ y, ys[i]? = some y ∧ f x = .ok y := by
  replace h := mapM_eq_ok_iff.mp h
  induction h generalizing i with
  | nil => simp at hx
  | cons hxy hrest ih =>
    cases i with
    | zero =>
      simp only [List.getElem?_cons_zero, Option.some.injEq] at hx
      subst hx
      exact ⟨_, by simp, hxy⟩
    | succ i => simpa using ih (i := i) (by simpa using hx)

def okAnd (x : Except ε α) (p : α → Bool) : Bool :=
  match x with
  | .ok a => p a
  | .error _ => false

theorem exists_of_okAnd {x : Except ε α} {p : α → Bool} (h : okAnd x p = true) :
    ∃ a, x = .ok a ∧ p a = true := by
  cases x with
  | error e => cases h
  | ok a => exact ⟨a, rfl, h⟩

section State

variable {σ : Type} (s : σ)

theorem bind_apply (x : EStateM ε σ α) (k : α → EStateM ε σ β) :
    (x >>= k) s = match x s with
      | .ok a s' => k a s'
      | .error e s' => .error e s' := by
  change EStateM.bind x k s = _
  rw [EStateM.bind]
  cases x s <;> rfl

theorem get_apply : (get : EStateM ε σ σ) s = .ok s s := rfl

theorem pure_apply (a : α) : (pure a : EStateM ε σ α) s = .ok a s := rfl

end State

end Outcome
