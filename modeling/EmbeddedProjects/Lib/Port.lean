import Mathlib.Logic.Function.Basic

namespace Port

-- a memory with one write port: in each cycle at most one address takes a word

variable {ι α : Type} [DecidableEq ι]

def store (mem : ι → α) : Option (ι × α) → ι → α
  | none => mem
  | some w => Function.update mem w.1 w.2

def lastWritten (writes : Nat → Option (ι × α)) (init : α) (a : ι) : Nat → α
  | 0 => init
  | k + 1 => store (fun _ => lastWritten writes init a k) (writes k) a

variable {writes : Nat → Option (ι × α)} {init : α} {a : ι} {k : Nat}

theorem store_of_ne (mem : ι → α) {w : Option (ι × α)} (h : ∀ v, w ≠ some (a, v)) :
    store mem w a = mem a := by
  cases w with
  | none => rfl
  | some w =>
    refine Function.update_of_ne (fun ha => ?_) _ _
    subst ha
    exact h w.2 rfl

theorem store_congr {mem mem' : ι → α} (w : Option (ι × α)) (h : mem a = mem' a) :
    store mem w a = store mem' w a := by
  cases w with
  | none => exact h
  | some w =>
    change Function.update mem w.1 w.2 a = Function.update mem' w.1 w.2 a
    rw [Function.update_apply, Function.update_apply, h]

theorem contents_eq_lastWritten (mem : Nat → ι → α) (h₀ : mem 0 a = init)
    (hstep : ∀ k, mem (k + 1) a = store (mem k) (writes k) a) (k : Nat) :
    mem k a = lastWritten writes init a k := by
  induction k with
  | zero => exact h₀
  | succ k ih =>
    rw [hstep, lastWritten]
    exact store_congr (writes k) ih

theorem lastWritten_of_untouched (h : ∀ j < k, ∀ v, writes j ≠ some (a, v)) :
    lastWritten writes init a k = init := by
  induction k with
  | zero => rfl
  | succ k ih =>
    rw [lastWritten, store_of_ne _ (h k (Nat.lt_succ_self k))]
    exact ih fun j hj => h j (Nat.lt_succ_of_lt hj)

end Port
