import Mathlib.Data.List.Count
import Mathlib.Data.Stream.Init

namespace Ledger

structure Errno where
  code : Int
  nonzero : code ≠ 0

inductive Prog (ρ α β : Type) where
  | done (b : β)
  | act (a : α) (next : Prog ρ α β)
  | take (r : ρ) (next : Option Errno → Prog ρ α β)
  | hold (r : ρ) (next : Prog ρ α β)
  | give (r : ρ) (next : Prog ρ α β)

inductive Event (ρ : Type) where
  | took (r : ρ)
  | gave (r : ρ)
  deriving DecidableEq

abbrev Answers := Stream' (Option Errno)

variable {ρ α β : Type}

namespace Prog

def attempt (r : ρ) (refused : Errno → Prog ρ α β) (next : Prog ρ α β) : Prog ρ α β :=
  .take r fun
    | some err => refused err
    | none => next

def events : Prog ρ α β → Answers → List (Event ρ)
  | done _, _ => []
  | act _ next, o => next.events o
  | take r next, o =>
    if o.head.isNone then .took r :: (next o.head).events o.tail
    else (next o.head).events o.tail
  | hold r next, o => .took r :: next.events o
  | give r next, o => .gave r :: next.events o

def result : Prog ρ α β → Answers → β
  | done b, _ => b
  | act _ next, o => next.result o
  | take _ next, o => (next o.head).result o.tail
  | hold _ next, o => next.result o
  | give _ next, o => next.result o

def acts : Prog ρ α β → Answers → List α
  | done _, _ => []
  | act a next, o => a :: next.acts o
  | take _ next, o => (next o.head).acts o.tail
  | hold _ next, o => next.acts o
  | give _ next, o => next.acts o

end Prog

section Ledger

variable [DecidableEq ρ]

def Event.held (s : List ρ) : Event ρ → Option (List ρ)
  | took r => some (r :: s)
  | gave r => if r ∈ s then some (s.erase r) else none

def Event.piled : List ρ → Event ρ → Option (List ρ)
  | s, took r => some (r :: s)
  | [], gave _ => none
  | r' :: s, gave r => if r = r' then some s else none

def held (s : List ρ) (es : List (Event ρ)) : Option (List ρ) := es.foldlM Event.held s

def piled (s : List ρ) (es : List (Event ρ)) : Option (List ρ) := es.foldlM Event.piled s

variable {s s' : List ρ} {e : Event ρ} {es ds : List (Event ρ)}

theorem held_append (s : List ρ) (es ds : List (Event ρ)) :
    held s (es ++ ds) = (held s es).bind (held · ds) := List.foldlM_append

theorem held_cons (s : List ρ) (e : Event ρ) (es : List (Event ρ)) :
    held s (e :: es) = (e.held s).bind (held · es) := List.foldlM_cons

theorem piled_cons (s : List ρ) (e : Event ρ) (es : List (Event ρ)) :
    piled s (e :: es) = (e.piled s).bind (piled · es) := List.foldlM_cons

theorem Event.held_of_piled (h : e.piled s = some s') : e.held s = some s' := by
  cases e with
  | took r => exact h
  | gave r =>
    cases s with
    | nil => cases h
    | cons r' s =>
      obtain ⟨rfl, rfl⟩ : r = r' ∧ s = s' := by simpa [Event.piled] using h
      simp [Event.held]

theorem held_of_piled (h : piled s es = some s') : held s es = some s' := by
  induction es generalizing s with
  | nil => exact h
  | cons e es ih =>
    obtain ⟨t, he, hes⟩ := Option.bind_eq_some_iff.mp (piled_cons s e es ▸ h)
    rw [held_cons, Event.held_of_piled he]
    exact ih hes

theorem count_of_held (r : ρ) (h : held s es = some s') :
    es.count (.gave r) + s'.count r = es.count (.took r) + s.count r := by
  induction es generalizing s with
  | nil => cases h; rfl
  | cons e es ih =>
    obtain ⟨t, he, hes⟩ := Option.bind_eq_some_iff.mp (held_cons s e es ▸ h)
    have hrest := ih hes
    cases e with
    | took r' =>
      obtain rfl : r' :: s = t := Option.some.inj he
      by_cases hr : r' = r
      · subst hr
        simp only [List.count_cons_self, List.count_cons_of_ne, ne_eq, reduceCtorEq,
          not_false_eq_true] at hrest ⊢
        omega
      · simpa [List.count_cons, hr] using hrest
    | gave r' =>
      obtain ⟨hmem, rfl⟩ : r' ∈ s ∧ s.erase r' = t := by simpa [Event.held] using he
      by_cases hr : r' = r
      · subst hr
        have hpos := List.count_pos_iff.mpr hmem
        rw [List.count_erase_self] at hrest
        simp only [List.count_cons_self, List.count_cons_of_ne, ne_eq, reduceCtorEq,
          not_false_eq_true]
        omega
      · rw [List.count_erase_of_ne (Ne.symm hr)] at hrest
        simpa [List.count_cons, hr] using hrest

end Ledger

section Rules

variable [DecidableEq ρ] {post : β → List ρ → Prop} {s : List ρ}

-- whatever is refused, `p` gives in the opposite order and ends as `post` says
def Prog.Nests (p : Prog ρ α β) (s : List ρ) (post : β → List ρ → Prop) : Prop :=
  ∀ o, ∃ s', piled s (p.events o) = some s' ∧ post (p.result o) s'

namespace Prog.Nests

theorem done {b : β} (h : post b s) : (Prog.done b : Prog ρ α β).Nests s post :=
  fun _ => ⟨s, rfl, h⟩

theorem act {a : α} {p : Prog ρ α β} (h : p.Nests s post) : (Prog.act a p).Nests s post := h

theorem hold {r : ρ} {p : Prog ρ α β} (h : p.Nests (r :: s) post) :
    (Prog.hold r p).Nests s post := h

theorem give {r : ρ} {p : Prog ρ α β} (h : p.Nests s post) :
    (Prog.give r p).Nests (r :: s) post := by
  intro o
  obtain ⟨s', hs', hpost⟩ := h o
  refine ⟨s', ?_, hpost⟩
  change piled (r :: s) (.gave r :: p.events o) = some s'
  rw [piled_cons]
  simpa [Event.piled] using hs'

theorem attempt {r : ρ} {refused : Errno → Prog ρ α β} {next : Prog ρ α β}
    (hrefused : ∀ err, (refused err).Nests s post) (hnext : next.Nests (r :: s) post) :
    (Prog.attempt r refused next).Nests s post := by
  intro o
  cases ho : o.head with
  | some err =>
    obtain ⟨s', hs', hpost⟩ := hrefused err o.tail
    exact ⟨s', by simpa [Prog.attempt, Prog.events, ho] using hs',
      by simpa [Prog.attempt, Prog.result, ho] using hpost⟩
  | none =>
    obtain ⟨s', hs', hpost⟩ := hnext o.tail
    exact ⟨s', by simpa [Prog.attempt, Prog.events, ho, piled_cons, Event.piled] using hs',
      by simpa [Prog.attempt, Prog.result, ho] using hpost⟩

end Prog.Nests

end Rules

def Prog.Fails (p : Prog ρ α Int) : Prop := ∀ o, p.result o ≠ 0

theorem Prog.Fails.attempt {r : ρ} {refused : Errno → Prog ρ α Int} {next : Prog ρ α Int}
    (hrefused : ∀ err, (refused err).Fails) (hnext : next.Fails) :
    (Prog.attempt r refused next).Fails := by
  intro o
  cases ho : o.head with
  | some err => simpa [Prog.attempt, Prog.result, ho] using hrefused err o.tail
  | none => simpa [Prog.attempt, Prog.result, ho] using hnext o.tail

def Prog.Granted (p : Prog ρ α Int) (n : Nat) : Prop :=
  ∀ o, p.result o = 0 ↔ ∀ i < n, o.get i = none

namespace Prog.Granted

variable {n : Nat}

theorem done : (Prog.done 0 : Prog ρ α Int).Granted 0 :=
  fun _ => ⟨fun _ i hi => absurd hi i.not_lt_zero, fun _ => rfl⟩

theorem act {a : α} {p : Prog ρ α Int} (h : p.Granted n) : (Prog.act a p).Granted n := h

theorem hold {r : ρ} {p : Prog ρ α Int} (h : p.Granted n) : (Prog.hold r p).Granted n := h

theorem give {r : ρ} {p : Prog ρ α Int} (h : p.Granted n) : (Prog.give r p).Granted n := h

theorem attempt {r : ρ} {refused : Errno → Prog ρ α Int} {next : Prog ρ α Int}
    (hrefused : ∀ err, (refused err).Fails) (hnext : next.Granted n) :
    (Prog.attempt r refused next).Granted (n + 1) := by
  intro o
  cases ho : o.head with
  | some err =>
    have hne : (Prog.attempt r refused next).result o = (refused err).result o.tail := by
      simp [Prog.attempt, Prog.result, ho]
    refine ⟨fun h => absurd (hne ▸ h) (hrefused err o.tail), fun h => ?_⟩
    have hhead : o.head = none := h 0 n.succ_pos
    rw [ho] at hhead
    cases hhead
  | none =>
    have heq : (Prog.attempt r refused next).result o = next.result o.tail := by
      simp [Prog.attempt, Prog.result, ho]
    rw [heq, hnext o.tail]
    constructor
    · intro h i hi
      cases i with
      | zero => exact ho
      | succ i => exact h i (Nat.lt_of_succ_lt_succ hi)
    · exact fun h i hi => h (i + 1) (Nat.succ_lt_succ hi)

end Prog.Granted

def Prog.Does (p : Prog ρ α Int) (as : List α) : Prop := ∀ o, p.result o = 0 → p.acts o = as

namespace Prog.Does

variable {as : List α}

theorem done {b : Int} : (Prog.done b : Prog ρ α Int).Does [] := fun _ _ => rfl

theorem act {a : α} {p : Prog ρ α Int} (h : p.Does as) : (Prog.act a p).Does (a :: as) :=
  fun o ho => congrArg (a :: ·) (h o ho)

theorem hold {r : ρ} {p : Prog ρ α Int} (h : p.Does as) : (Prog.hold r p).Does as := h

theorem attempt {r : ρ} {refused : Errno → Prog ρ α Int} {next : Prog ρ α Int}
    (hrefused : ∀ err, (refused err).Fails) (hnext : next.Does as) :
    (Prog.attempt r refused next).Does as := by
  intro o
  cases ho : o.head with
  | some err =>
    intro h
    refine absurd ?_ (hrefused err o.tail)
    simpa [Prog.attempt, Prog.result, ho] using h
  | none => simpa [Prog.attempt, Prog.result, Prog.acts, ho] using hnext o.tail

end Prog.Does

structure Driver (ρ α : Type) where
  probe : Prog ρ α Int
  remove : Prog ρ α Unit

namespace Driver

variable (d : Driver ρ α)

def round (o : Answers) : List (Event ρ) :=
  d.probe.events o ++ if d.probe.result o = 0 then d.remove.events o else []

def rounds (os : List Answers) : List (Event ρ) := os.flatMap d.round

def bound (os : List Answers) : Nat := os.countP fun o => d.probe.result o = 0

theorem bound_cons (o : Answers) (os : List Answers) :
    d.bound (o :: os) = d.bound os + if d.probe.result o = 0 then 1 else 0 := by
  simp [bound, List.countP_cons]

variable [DecidableEq ρ]

theorem held_rounds_of_round (clean : Answers → Prop) [DecidablePred clean]
    (h : ∀ o, held [] (d.round o) = if clean o then some [] else none) (os : List Answers) :
    held [] (d.rounds os) = if ∀ o ∈ os, clean o then some [] else none := by
  induction os with
  | nil => rfl
  | cons o os ih =>
    have happend : held [] (d.rounds (o :: os)) =
        (held [] (d.round o)).bind (held · (d.rounds os)) := held_append [] _ _
    by_cases ho : clean o
    · rw [h, if_pos ho] at happend
      simpa [ho] using happend.trans ih
    · rw [h, if_neg ho] at happend
      simpa [ho] using happend

structure Gives (kept extra : List ρ) : Prop where
  probe : d.probe.Nests [] fun err s => s = if err = 0 then kept else []
  remove : ∀ o, d.probe.result o = 0 →
    ∃ given : List ρ, d.remove.events o = given.map .gave ∧ given.Perm (kept ++ extra)

variable {d} {kept extra : List ρ} (hd : d.Gives kept extra)

include hd

theorem Gives.count_round (r : ρ) (o : Answers) :
    (d.round o).count (.gave r) = (d.round o).count (.took r) +
      if d.probe.result o = 0 then extra.count r else 0 := by
  obtain ⟨s, hs, rfl⟩ := hd.probe o
  have hprobe := count_of_held r (held_of_piled hs)
  by_cases hbound : d.probe.result o = 0
  · obtain ⟨given, hremove, hperm⟩ := hd.remove o hbound
    have hgave : (given.map Event.gave).count (.gave r) = kept.count r + extra.count r := by
      rw [List.count_map_of_injective given _ fun _ _ => Event.gave.inj, hperm.count_eq,
        List.count_append]
    have htook : (given.map Event.gave).count (.took r) = 0 :=
      List.count_eq_zero.mpr (by simp)
    simp only [round, hbound, if_true, hremove, List.count_append, hgave, htook,
      List.count_nil] at hprobe ⊢
    omega
  · simpa [round, hbound] using hprobe

theorem Gives.count_rounds (r : ρ) (os : List Answers) :
    (d.rounds os).count (.gave r) =
      (d.rounds os).count (.took r) + d.bound os * extra.count r := by
  induction os with
  | nil => simp [rounds, bound]
  | cons o os ih =>
    have hround := hd.count_round r o
    simp only [rounds, List.flatMap_cons, List.count_append] at ih ⊢
    rw [ih, hround, bound_cons]
    by_cases hbound : d.probe.result o = 0
    · simp only [hbound, if_true, Nat.add_mul, Nat.one_mul]
      omega
    · simp only [hbound, if_false, Nat.add_zero]
      omega

theorem Gives.held_round (hextra : extra ≠ []) (o : Answers) :
    held [] (d.round o) = if d.probe.result o = 0 then none else some [] := by
  by_cases hbound : d.probe.result o = 0
  · rw [if_pos hbound]
    obtain ⟨r, hr⟩ := List.exists_mem_of_ne_nil extra hextra
    have hpos := List.count_pos_iff.mpr hr
    cases hheld : held [] (d.round o) with
    | none => rfl
    | some s =>
      have hcount := count_of_held r hheld
      rw [hd.count_round r o, if_pos hbound, List.count_nil] at hcount
      omega
  · rw [if_neg hbound]
    obtain ⟨s, hs, hpost⟩ := hd.probe o
    obtain rfl : s = [] := by rw [hpost, if_neg hbound]
    simpa [round, hbound] using held_of_piled hs

theorem Gives.held_rounds (hextra : extra ≠ []) (os : List Answers) :
    held [] (d.rounds os) = if d.bound os = 0 then some [] else none := by
  have hrounds := d.held_rounds_of_round (fun o => d.probe.result o ≠ 0)
    (fun o => by rw [hd.held_round hextra o, ite_not]) os
  simpa [bound, List.countP_eq_zero] using hrounds

end Driver

end Ledger
