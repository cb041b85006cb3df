import Mathlib.Data.Nat.Init
import Mathlib.Logic.Function.Iterate

namespace Clocked

variable {ι σ σ' : Type}

def run (step : ι → σ → σ) (env : Nat → ι) (s₀ : σ) : Nat → σ
  | 0 => s₀
  | k + 1 => step (env k) (run step env s₀ k)

variable {step : ι → σ → σ} {step' : ι → σ' → σ'} {env env' : Nat → ι} {s₀ : σ} {s₀' : σ'}

@[simp] theorem run_zero : run step env s₀ 0 = s₀ := rfl

theorem run_succ (k : Nat) : run step env s₀ (k + 1) = step (env k) (run step env s₀ k) := rfl

theorem simulation {R : Nat → σ → σ' → Prop} (h₀ : R 0 s₀ s₀')
    (hstep : ∀ k s s', R k s s' → R (k + 1) (step (env k) s) (step' (env' k) s')) (k : Nat) :
    R k (run step env s₀ k) (run step' env' s₀' k) := by
  induction k with
  | zero => exact h₀
  | succ k ih => exact hstep k _ _ ih

theorem eq_of_quiet {β : Type} {f : Nat → β} {a b : Nat} (hab : a ≤ b)
    (h : ∀ k, a ≤ k → k < b → f (k + 1) = f k) : f b = f a := by
  induction b, hab using Nat.le_induction with
  | base => rfl
  | succ b hab ih =>
    rw [h b hab (Nat.lt_succ_self b)]
    exact ih fun k hk hkb => h k hk (Nat.lt_succ_of_lt hkb)

end Clocked
