import Mathlib.Data.List.Basic
import Mathlib.Data.Stream.Init

namespace Handle

variable {α ε ρ σ : Type}

abbrev Outcome (ε : Type) := Except ε Unit

inductive Prog (α ε ρ : Type) where
  | done (r : ρ)
  | act (a : α) (next : Prog α ε ρ)
  | request (next : Outcome ε → Prog α ε ρ)
  | free (handle : Outcome ε) (next : Prog α ε ρ)

inductive Call (ε : Type) where
  | request (outcome : Outcome ε)
  | free (handle : Outcome ε)

def Call.acquires : Call ε → Bool
  | .request (.ok _) => true
  | _ => false

def Call.releases : Call ε → Bool
  | .free _ => true
  | _ => false

def Balanced (cs : List (Call ε)) : Prop :=
  (∀ e, Call.free (.error e) ∉ cs) ∧ cs.countP Call.releases = cs.countP Call.acquires

def Call.holding : Bool → Call ε → Option Bool
  | b, .request (.error _) => some b
  | false, .request (.ok _) => some true
  | true, .free (.ok _) => some false
  | _, _ => none

def held (b : Bool) (cs : List (Call ε)) : Option Bool := cs.foldlM Call.holding b

def Refused (o : Stream' (Outcome ε)) (n : Nat) : Prop := ∀ i < n, o.get i ≠ .ok ()

namespace Prog

def bind : Prog α ε ρ → (ρ → Prog α ε σ) → Prog α ε σ
  | done r, f => f r
  | act a next, f => act a (next.bind f)
  | request next, f => request fun k => (next k).bind f
  | free k next, f => free k (next.bind f)

instance : Monad (Prog α ε) where
  pure := done
  bind := bind

def calls : Prog α ε ρ → Stream' (Outcome ε) → List (Call ε)
  | done _, _ => []
  | act _ next, o => next.calls o
  | request next, o => .request o.head :: (next o.head).calls o.tail
  | free k next, o => .free k :: next.calls o

def result : Prog α ε ρ → Stream' (Outcome ε) → ρ
  | done r, _ => r
  | act _ next, o => next.result o
  | request next, o => (next o.head).result o.tail
  | free _ next, o => next.result o

def unmet : Prog α ε ρ → Stream' (Outcome ε) → Stream' (Outcome ε)
  | done _, o => o
  | act _ next, o => next.unmet o
  | request next, o => (next o.head).unmet o.tail
  | free _ next, o => next.unmet o

def exec (perform : σ → α → σ) : Prog α ε ρ → Stream' (Outcome ε) → σ → σ
  | done _, _, s => s
  | act a next, o, s => next.exec perform o (perform s a)
  | request next, o, s => (next o.head).exec perform o.tail s
  | free _ next, o, s => next.exec perform o s

theorem exec_bind {τ : Type} (perform : τ → α → τ) (p : Prog α ε ρ) (f : ρ → Prog α ε σ)
    (o : Stream' (Outcome ε)) (s : τ) :
    (p.bind f).exec perform o s =
      (f (p.result o)).exec perform (p.unmet o) (p.exec perform o s) := by
  induction p generalizing o s with
  | done r => rfl
  | act a next ih => exact ih o (perform s a)
  | request next ih => exact ih o.head o.tail s
  | free k next ih => exact ih o s

theorem calls_bind (p : Prog α ε ρ) (f : ρ → Prog α ε σ) (o : Stream' (Outcome ε)) :
    (p.bind f).calls o = p.calls o ++ (f (p.result o)).calls (p.unmet o) := by
  induction p generalizing o with
  | done r => rfl
  | act a next ih => exact ih o
  | request next ih => exact congrArg (_ :: ·) (ih o.head o.tail)
  | free k next ih => exact congrArg (_ :: ·) (ih o)

theorem calls_bind_silent (p : Prog α ε ρ) {f : ρ → Prog α ε σ}
    (h : ∀ r o', (f r).calls o' = []) (o : Stream' (Outcome ε)) :
    (p.bind f).calls o = p.calls o := by
  rw [calls_bind, h, List.append_nil]

inductive Run : Prog α ε ρ → List (Call ε) → Prog α ε ρ → Prop
  | refl (p) : Run p [] p
  | act {a p cs q} : Run p cs q → Run (act a p) cs q
  | request {p cs q} (k) : Run (p k) cs q → Run (request p) (.request k :: cs) q
  | free {k p cs q} : Run p cs q → Run (free k p) (.free k :: cs) q

theorem Run.trans {p q r : Prog α ε ρ} {cs ds : List (Call ε)} (h : Run p cs q)
    (h' : Run q ds r) : Run p (cs ++ ds) r := by
  induction h with
  | refl p => exact h'
  | act _ ih => exact .act (ih h')
  | request k _ ih => exact .request k (ih h')
  | free _ ih => exact .free (ih h')

end Prog

def Follows : List (Call ε) → Stream' (Outcome ε) → Prop
  | [], _ => True
  | .request k :: cs, o => k = o.head ∧ Follows cs o.tail
  | .free _ :: cs, o => Follows cs o

theorem Prog.Run.calls_eq {p q : Prog α ε ρ} {cs : List (Call ε)} (h : Run p cs q) :
    ∀ o, Follows cs o → ∃ o', p.calls o = cs ++ q.calls o' := by
  induction h with
  | refl p => exact fun o _ => ⟨o, rfl⟩
  | act _ ih => exact ih
  | request k _ ih =>
    rintro o ⟨rfl, hfollows⟩
    obtain ⟨o', ho'⟩ := ih o.tail hfollows
    exact ⟨o', congrArg (_ :: ·) ho'⟩
  | free _ ih =>
    intro o hfollows
    obtain ⟨o', ho'⟩ := ih o hfollows
    exact ⟨o', congrArg (_ :: ·) ho'⟩

theorem Follows.left {cs ds : List (Call ε)} {o : Stream' (Outcome ε)}
    (h : Follows (cs ++ ds) o) : Follows cs o := by
  induction cs generalizing o with
  | nil => trivial
  | cons c cs ih =>
    cases c with
    | request k => exact ⟨h.1, ih h.2⟩
    | free k => exact ih (o := o) h

section Held

variable {b b' : Bool} {cs ds : List (Call ε)} {c : Call ε}

theorem held_cons (b : Bool) (c : Call ε) (cs : List (Call ε)) :
    held b (c :: cs) = (c.holding b).bind (held · cs) := List.foldlM_cons

theorem held_append (b : Bool) (cs ds : List (Call ε)) :
    held b (cs ++ ds) = (held b cs).bind (held · ds) := List.foldlM_append

theorem counts_of_holding (h : c.holding b = some b') :
    [c].countP Call.releases + b'.toNat = [c].countP Call.acquires + b.toNat := by
  rcases c with (_ | _) | (_ | _) <;> cases b <;> cases h <;> rfl

theorem counts_of_held (h : held b cs = some b') :
    cs.countP Call.releases + b'.toNat = cs.countP Call.acquires + b.toNat := by
  induction cs generalizing b with
  | nil => cases h; rfl
  | cons c cs ih =>
    obtain ⟨b'', hc, hcs⟩ := Option.bind_eq_some_iff.mp (held_cons b c cs ▸ h)
    have hstep := counts_of_holding hc
    have hrest := ih hcs
    rw [← List.singleton_append, List.countP_append, List.countP_append]
    omega

theorem error_not_mem_of_held (h : held b cs = some b') (e : ε) : Call.free (.error e) ∉ cs := by
  induction cs generalizing b with
  | nil => exact List.not_mem_nil
  | cons c cs ih =>
    obtain ⟨b'', hc, hcs⟩ := Option.bind_eq_some_iff.mp (held_cons b c cs ▸ h)
    refine List.not_mem_cons_of_ne_of_not_mem ?_ (ih hcs)
    rintro rfl
    cases b <;> cases hc

theorem balanced_of_held (h : held false cs = some false) : Balanced cs :=
  ⟨error_not_mem_of_held h, by simpa using counts_of_held h⟩

theorem not_balanced_of_held (h : held false cs = some true) : ¬ Balanced cs := by
  rintro ⟨_, hcounts⟩
  have := counts_of_held h
  simp at this
  omega

theorem not_balanced_of_mem {e : ε} (h : Call.free (.error e) ∈ cs) : ¬ Balanced cs :=
  fun hbalanced => hbalanced.1 e h

end Held

section Refused

variable {o : Stream' (Outcome ε)}

theorem refused_or_taken (o : Stream' (Outcome ε)) (m : Nat) :
    Refused o m ∨ ∃ n < m, Refused o n ∧ o.get n = .ok () := by
  induction m with
  | zero => exact .inl fun i hi => absurd hi (Nat.not_lt_zero i)
  | succ m ih =>
    obtain h | ⟨n, hn, h, hok⟩ := ih
    · by_cases hok : o.get m = .ok ()
      · exact .inr ⟨m, m.lt_succ_self, h, hok⟩
      · refine .inl fun i hi => ?_
        obtain hi | rfl := Nat.lt_succ_iff_lt_or_eq.mp hi
        · exact h i hi
        · exact hok
    · exact .inr ⟨n, Nat.lt_succ_of_lt hn, h, hok⟩

theorem Refused.cons {n : Nat} (h : Refused o (n + 1)) :
    ∃ e, o.head = .error e ∧ Refused o.tail n := by
  have htail : Refused o.tail n := fun i hi => h (i + 1) (Nat.succ_lt_succ hi)
  cases hk : o.head with
  | ok u => exact absurd hk (h 0 n.succ_pos)
  | error e => exact ⟨e, rfl, htail⟩

theorem held_refused {n : Nat} (b : Bool) (h : Refused o n) (cs : List (Call ε)) :
    held b ((o.take n).map Call.request ++ cs) = held b cs := by
  induction n generalizing o with
  | zero => rfl
  | succ n ih =>
    obtain ⟨e, hk, htail⟩ := h.cons
    have hcall : (Call.request (.error e) : Call ε).holding b = some b := by cases b <;> rfl
    rw [Stream'.take_succ, List.map_cons, List.cons_append, held_cons, hk, hcall]
    exact ih htail

end Refused

end Handle
