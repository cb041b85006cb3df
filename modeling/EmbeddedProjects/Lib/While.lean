import Mathlib.Data.List.Basic

namespace While

variable {σ : Type} {guard : σ → Bool} {body : σ → σ} {s : σ}

def loop (guard : σ → Bool) (body : σ → σ) : Nat → σ → Option (List σ × σ)
  | 0, s => if guard s then none else some ([], s)
  | fuel + 1, s =>
    if guard s then (loop guard body fuel (body s)).map fun r => (s :: r.1, r.2)
    else some ([], s)

theorem loop_of_false (h : guard s = false) (fuel : Nat) :
    loop guard body fuel s = some ([], s) := by
  cases fuel with
  | zero => simp [loop, h]
  | succ fuel => simp [loop, h]

theorem loop_of_true (h : guard s = true) (fuel : Nat) :
    loop guard body (fuel + 1) s = (loop guard body fuel (body s)).map fun r => (s :: r.1, r.2) :=
  if_pos h

theorem loop_total (inv : σ → Prop) (variant : σ → Nat)
    (hstep : ∀ s, inv s → guard s = true → inv (body s) ∧ variant (body s) < variant s)
    (hs : inv s) : ∃ visited final,
      (∀ fuel ≥ variant s, loop guard body fuel s = some (visited, final)) ∧
      (∀ t ∈ visited, inv t ∧ guard t = true) ∧ inv final ∧ guard final = false := by
  induction hn : variant s using Nat.strongRecOn generalizing s with
  | ind n ih =>
    cases hguard : guard s with
    | false => exact ⟨[], s, fun fuel _ => loop_of_false hguard fuel, by simp, hs, hguard⟩
    | true =>
      obtain ⟨hinv, hlt⟩ := hstep s hs hguard
      obtain ⟨visited, final, hloop, hvisited, hfinal⟩ := ih _ (hn ▸ hlt) hinv rfl
      refine ⟨s :: visited, final, fun fuel hfuel => ?_, ?_, hfinal⟩
      · cases fuel with
        | zero => omega
        | succ fuel =>
          have hrest := hloop fuel (by omega)
          rw [loop_of_true hguard, hrest]
          rfl
      · exact List.forall_mem_cons.mpr ⟨⟨hs, hguard⟩, hvisited⟩

end While
