import Mathlib.Data.List.Basic
import EmbeddedProjects.Lib.Clocked

namespace Toggle

-- a toggle handshake: the sender flips a wire for every sample, the receiver looks at it in the
-- cycles of its own choice

structure Input (α : Type) where
  data : α
  changed : Bool
  select : Bool

structure Latch (α : Type) where
  data : α
  changed : Bool
  prev : Bool

variable {α : Type}

def step (inp : Input α) (s : Latch α) : Latch α where
  data := if s.prev != inp.changed then inp.data else s.data
  changed := inp.changed
  prev := if inp.select then s.changed else s.prev

def sent (inp : Input α) (s : Latch α) : Option α :=
  if inp.changed != s.changed then some inp.data else none

def taken (inp : Input α) (s : Latch α) : Option α :=
  if inp.select && s.changed != s.prev then some s.data else none

def collect (f : Nat → Option α) (n : Nat) : List α := (List.range n).filterMap f

theorem collect_succ (f : Nat → Option α) (n : Nat) :
    collect f (n + 1) = collect f n ++ (f n).toList := by
  rw [collect, collect, List.range_succ, List.filterMap_append]
  cases h : f n <;> simp [h]

theorem collect_add (f : Nat → Option α) (m n : Nat) :
    collect f (m + n) = collect f m ++ collect (fun k => f (m + k)) n := by
  induction n with
  | zero => simp [collect]
  | succ n ih => rw [← Nat.add_assoc, collect_succ, collect_succ, ih, List.append_assoc]

theorem collect_of_none {f : Nat → Option α} {n : Nat} (h : ∀ k < n, f k = none) :
    collect f n = [] := by
  rw [collect, List.filterMap_eq_nil_iff]
  exact fun k hk => h k (List.mem_range.mp hk)

theorem collect_congr {f g : Nat → Option α} {n : Nat} (h : ∀ k < n, f k = g k) :
    collect f n = collect g n := by
  induction n with
  | zero => rfl
  | succ n ih =>
    rw [collect_succ, collect_succ, h n (Nat.lt_succ_self n),
      ih fun k hk => h k (Nat.lt_succ_of_lt hk)]

theorem collect_history {β : Type} (f : Nat → Option α) (g : Nat → List α → β) (n : Nat) :
    ∃ cycle : Nat → Nat, (∀ m < (collect f n).length,
        (f (cycle m)).isSome ∧ collect f (cycle m) = (collect f n).take m) ∧
      collect (fun k => (f k).map fun _ => g k (collect f k)) n =
        (List.range (collect f n).length).map fun m => g (cycle m) ((collect f n).take m) := by
  induction n with
  | zero => exact ⟨id, fun m hm => absurd hm (Nat.not_lt_zero m), rfl⟩
  | succ n ih =>
    obtain ⟨cycle, hcycle, heq⟩ := ih
    rw [collect_succ f n, collect_succ, heq]
    cases hf : f n with
    | none =>
      rw [Option.map_none, Option.toList_none, Option.toList_none, List.append_nil,
        List.append_nil]
      exact ⟨cycle, hcycle, rfl⟩
    | some v =>
      have htake : ∀ m < (collect f n).length, (collect f n ++ [v]).take m = (collect f n).take m :=
        fun m hm => List.take_append_of_le_length (Nat.le_of_lt hm)
      obtain ⟨cycle', hold, hnew⟩ : ∃ cycle' : Nat → Nat,
          (∀ m < (collect f n).length, cycle' m = cycle m) ∧ cycle' (collect f n).length = n :=
        ⟨Function.update cycle (collect f n).length n,
          fun m hm => Function.update_of_ne (Nat.ne_of_lt hm) _ _, Function.update_self _ _ _⟩
      rw [Option.map_some, Option.toList_some, Option.toList_some, List.length_append,
        List.length_singleton]
      refine ⟨cycle', fun m hm => ?_, ?_⟩
      · rcases Nat.lt_or_eq_of_le (Nat.le_of_lt_succ hm) with hlt | rfl
        · rw [hold m hlt, htake m hlt]
          exact hcycle m hlt
        · rw [hnew, List.take_left, hf]
          exact ⟨rfl, rfl⟩
      · rw [List.range_succ, List.map_append, List.map_singleton, hnew, List.take_left]
        refine congrArg (· ++ _) (List.map_congr_left fun m hm => ?_)
        have hlt := List.mem_range.mp hm
        rw [hold m hlt, htake m hlt]

section Runs

variable (env : Nat → Input α) (s₀ : Latch α)

def state (k : Nat) : Latch α := Clocked.run step env s₀ k

def sentAt (k : Nat) : Option α := sent (env k) (state env s₀ k)

def takenAt (k : Nat) : Option α := taken (env k) (state env s₀ k)

structure Fair (G : Nat) : Prop where
  held : ∀ k, sentAt env s₀ (k + 1) = none → (env (k + 1)).data = (env k).data
  spaced : ∀ k l, k < l → (sentAt env s₀ k).isSome → (sentAt env s₀ l).isSome → k + G ≤ l
  apart : ∀ k, (env k).select = true → (env (k + 1)).select = false
  served : ∀ k, ∃ l, k ≤ l ∧ l < k + G ∧ (env l).select = true

structure Waiting (n f : Nat) (v : α) : Prop where
  before : f < n
  sent : (sentAt env s₀ f).isSome
  differs : (state env s₀ n).changed ≠ (state env s₀ n).prev
  unseen : ∀ l, f < l → l < n → (env l).select = false
  wire : ∀ k, n = k + 1 → (env k).data = v
  -- a sample that arrives while its predecessor is taken is latched one cycle later
  latched : (state env s₀ n).data = v ∨ n = f + 1 ∧ (env f).select = true

inductive InFlight (n : Nat) : List α → Prop
  | idle : (state env s₀ n).changed = (state env s₀ n).prev → InFlight n []
  | waiting (f : Nat) (v : α) : Waiting env s₀ n f v → InFlight n [v]

variable {env s₀} {G n : Nat} {rest : List α}

theorem state_succ (k : Nat) : state env s₀ (k + 1) = step (env k) (state env s₀ k) := rfl

theorem sentAt_of_eq (h : (env n).changed = (state env s₀ n).changed) :
    sentAt env s₀ n = none := by
  rw [sentAt, sent, h]
  simp

theorem sentAt_of_ne (h : (env n).changed ≠ (state env s₀ n).changed) :
    sentAt env s₀ n = some (env n).data := by
  rw [sentAt, sent, if_pos (by simpa using h)]

theorem takenAt_of_not_select (h : (env n).select = false) : takenAt env s₀ n = none := by
  rw [takenAt, taken, h]
  rfl

theorem takenAt_of_idle (h : (state env s₀ n).changed = (state env s₀ n).prev) :
    takenAt env s₀ n = none := by
  rw [takenAt, taken, h]
  simp

theorem takenAt_of_select (h : (env n).select = true)
    (hne : (state env s₀ n).changed ≠ (state env s₀ n).prev) :
    takenAt env s₀ n = some (state env s₀ n).data := by
  rw [takenAt, taken, h, if_pos (by simpa using hne)]

theorem Waiting.le (h : Fair env s₀ G) {f : Nat} {v : α} (hw : Waiting env s₀ n f v) :
    n ≤ f + G := by
  obtain ⟨l, hle, hlt, hsel⟩ := h.served (f + 1)
  by_contra hgt
  have := hw.unseen l (by omega) (by omega)
  rw [hsel] at this
  cases this

theorem waiting_of_flip (hflip : (env n).changed ≠ (state env s₀ n).changed)
    (hdiffers : (state env s₀ (n + 1)).changed ≠ (state env s₀ (n + 1)).prev)
    (hlatched : (state env s₀ (n + 1)).data = (env n).data ∨ (env n).select = true) :
    Waiting env s₀ (n + 1) n (env n).data where
  before := Nat.lt_succ_self n
  sent := by
    rw [sentAt_of_ne hflip]
    rfl
  differs := hdiffers
  unseen := fun l hlt hle => absurd hlt (Nat.not_lt.mpr (Nat.le_of_lt_succ hle))
  wire := by
    intro k hk
    obtain rfl := Nat.succ.inj hk
    rfl
  latched := hlatched.imp_right fun hsel => ⟨rfl, hsel⟩

theorem waiting_of_idle (hidle : (state env s₀ n).changed = (state env s₀ n).prev)
    (hflip : (env n).changed ≠ (state env s₀ n).changed) :
    Waiting env s₀ (n + 1) n (env n).data := by
  refine waiting_of_flip hflip ?_ (.inl ?_)
  · rw [state_succ, step, ← hidle, ite_self]
    exact hflip
  · rw [state_succ, step, ← hidle]
    exact if_pos (by simpa using hflip.symm)

theorem Waiting.latched_of_select (h : Fair env s₀ G) {f : Nat} {v : α}
    (hw : Waiting env s₀ n f v) (hsel : (env n).select = true) : (state env s₀ n).data = v := by
  rcases hw.latched with hdata | ⟨rfl, hlast⟩
  · exact hdata
  · rw [h.apart f hlast] at hsel
    cases hsel

-- taken and sent in one cycle: the wire is back at its old level
theorem waiting_of_select (hsel : (env n).select = true)
    (hflip : (env n).changed ≠ (state env s₀ n).changed) :
    Waiting env s₀ (n + 1) n (env n).data := by
  refine waiting_of_flip hflip ?_ (.inr hsel)
  rw [state_succ, step, if_pos hsel]
  exact hflip

theorem Waiting.keep (h : Fair env s₀ G) {f : Nat} {v : α} (hw : Waiting env s₀ n f v)
    (hsel : (env n).select = false) (hquiet : (env n).changed = (state env s₀ n).changed) :
    Waiting env s₀ (n + 1) f v := by
  obtain ⟨m, rfl⟩ := Nat.exists_eq_add_one_of_ne_zero (Nat.ne_of_gt (Nat.zero_lt_of_lt hw.before))
  have hdata : (env (m + 1)).data = v :=
    (h.held m (sentAt_of_eq hquiet)).trans (hw.wire m rfl)
  refine ⟨Nat.lt_succ_of_lt hw.before, hw.sent, ?_, fun l hlt hle => ?_, fun k hk => ?_, ?_⟩
  · rw [state_succ, step, hsel, hquiet]
    exact hw.differs
  · rcases Nat.lt_succ_iff_lt_or_eq.mp hle with hlt' | rfl
    · exact hw.unseen l hlt hlt'
    · exact hsel
  · obtain rfl := Nat.succ.inj hk
    exact hdata
  · rw [state_succ, step, hquiet]
    exact .inl ((if_pos (by simpa using hw.differs.symm)).trans hdata)

theorem idle_of_quiet (hquiet : (env n).changed = (state env s₀ n).changed)
    (hprev : (env n).select = true ∨ (state env s₀ n).changed = (state env s₀ n).prev) :
    (state env s₀ (n + 1)).changed = (state env s₀ (n + 1)).prev := by
  rw [state_succ, step, hquiet]
  rcases hprev with hsel | hidle
  · rw [if_pos hsel]
  · rw [← hidle, ite_self]

theorem inFlight_succ (h : Fair env s₀ G) (hrest : InFlight env s₀ n rest) :
    ∃ rest', InFlight env s₀ (n + 1) rest' ∧
      rest ++ (sentAt env s₀ n).toList = (takenAt env s₀ n).toList ++ rest' := by
  by_cases hquiet : (env n).changed = (state env s₀ n).changed
  · rw [sentAt_of_eq hquiet]
    cases hrest with
    | idle hidle =>
      rw [takenAt_of_idle hidle]
      exact ⟨[], .idle (idle_of_quiet hquiet (.inr hidle)), rfl⟩
    | waiting f v hw =>
      cases hsel : (env n).select with
      | true =>
        rw [takenAt_of_select hsel hw.differs, hw.latched_of_select h hsel]
        exact ⟨[], .idle (idle_of_quiet hquiet (.inl hsel)), rfl⟩
      | false =>
        rw [takenAt_of_not_select hsel]
        exact ⟨[v], .waiting f v (hw.keep h hsel hquiet), rfl⟩
  · rw [sentAt_of_ne hquiet]
    cases hrest with
    | idle hidle =>
      rw [takenAt_of_idle hidle]
      exact ⟨_, .waiting n _ (waiting_of_idle hidle hquiet), rfl⟩
    | waiting f v hw =>
      have hsel : (env n).select = true := by
        obtain ⟨l, hle, hlt, hsel⟩ := h.served (f + 1)
        have hgap : f + G ≤ n := by
          refine h.spaced f n hw.before hw.sent ?_
          rw [sentAt_of_ne hquiet]
          rfl
        rcases Nat.lt_or_eq_of_le (by omega : l ≤ n) with hl | rfl
        · rw [hw.unseen l hle hl] at hsel
          cases hsel
        · exact hsel
      rw [takenAt_of_select hsel hw.differs, hw.latched_of_select h hsel]
      exact ⟨_, .waiting n _ (waiting_of_select hsel hquiet), rfl⟩

theorem collect_eq (h : Fair env s₀ G) (h₀ : s₀.changed = s₀.prev) (n : Nat) :
    ∃ rest, InFlight env s₀ n rest ∧
      collect (sentAt env s₀) n = collect (takenAt env s₀) n ++ rest := by
  induction n with
  | zero => exact ⟨[], .idle h₀, rfl⟩
  | succ n ih =>
    obtain ⟨rest, hrest, heq⟩ := ih
    obtain ⟨rest', hrest', hstep⟩ := inFlight_succ h hrest
    refine ⟨rest', hrest', ?_⟩
    rw [collect_succ, collect_succ, heq, List.append_assoc, hstep, List.append_assoc]

theorem lossless (h : Fair env s₀ G) (h₀ : s₀.changed = s₀.prev) (n : Nat) :
    ∃ rest, collect (sentAt env s₀) n = collect (takenAt env s₀) n ++ rest ∧ rest.length ≤ 1 ∧
      (rest ≠ [] → ∃ f < n, n ≤ f + G ∧ (sentAt env s₀ f).isSome) := by
  obtain ⟨rest, hrest, heq⟩ := collect_eq h h₀ n
  refine ⟨rest, heq, ?_⟩
  cases hrest with
  | idle _ => exact ⟨Nat.zero_le _, fun hne => absurd rfl hne⟩
  | waiting f v hw => exact ⟨Nat.le_refl 1, fun _ => ⟨f, hw.before, hw.le h, hw.sent⟩⟩

end Runs

end Toggle
