import Mathlib.Data.List.Induction
import EmbeddedProjects.KeyPanel.SscHandle

namespace KeyPanel.Sharing

open Handle

structure Caller (ι : Type) where
  entry : ι
  rest : Command Int
  calls : List (Call Errno) := []

structure State (ι : Type) where
  device : Device := {}
  callers : List (Caller ι) := []

-- `ssc_list` may have changed since the last step
inductive Move (ι : Type) where
  | start (entry : ι)
  | advance (i : Nat) (sscList : List Nat)

variable {ι : Type}

-- the spinlock makes one step of each request and each free
def Caller.advance (sscList : List Nat) (device : Device) (caller : Caller ι) :
    Option (Device × Caller ι) :=
  match caller.rest with
  | .done _ => none
  | .act a next => some (device.perform a, { caller with rest := next })
  | .request next =>
    let (outcome, keypanel) := inSscRequest sscList 0 device.keypanel
    some ({ device with keypanel },
      { caller with rest := next outcome, calls := caller.calls ++ [.request outcome] })
  | .free (.ok ()) next =>
    some ({ device with keypanel := inSscFree device.keypanel },
      { caller with rest := next, calls := caller.calls ++ [.free (.ok ())] })
  -- in_ssc_free reads through an error pointer, and no step comes after that
  | .free (.error _) _ => none

def step (program : ι → Command Int) (s : State ι) : Move ι → Option (State ι)
  | .start entry => some { s with callers := s.callers ++ [{ entry, rest := program entry }] }
  | .advance i sscList => do
    let caller ← s.callers[i]?
    let (device, caller) ← caller.advance sscList s.device
    return { device, callers := s.callers.set i caller }

def run (program : ι → Command Int) (moves : List (Move ι)) : Option (State ι) :=
  moves.foldlM (step program) {}

def Caller.holds (caller : Caller ι) : Bool :=
  decide (caller.calls.countP Call.releases < caller.calls.countP Call.acquires)

def Caller.returned (caller : Caller ι) : Bool :=
  match caller.rest with
  | .done _ => true
  | _ => false

def Clear (ok : ι → Stream' (Outcome Errno) → Prop) (s : State ι) : Prop :=
  ∀ caller ∈ s.callers, ∃ o, Follows caller.calls o ∧ ok caller.entry o

structure HandleKept (s : State ι) : Prop where
  user_eq : s.device.keypanel.user = s.callers.countP Caller.holds
  exclusive : s.callers.countP Caller.holds ≤ 1
  no_error_free : ∀ caller ∈ s.callers, ∀ e next, caller.rest ≠ .free (.error e) next
  balanced : ∀ caller ∈ s.callers, caller.returned = true → Balanced caller.calls
  all_returned : (∀ caller ∈ s.callers, caller.returned = true) → s.device.keypanel.user = 0

inductive Counted : Nat → List (Call Errno) → Nat → Prop
  | act (user) : Counted user [] user
  | refused (user e) : Counted user [.request (.error e)] user
  | taken : Counted 0 [.request (.ok ())] 1
  | freed (user) : Counted user [.free (.ok ())] (user - 1)

theorem counted_inSscRequest (sscList : List Nat) (sscNum : Nat) (keypanel : InsyncKeypanel) :
    Counted keypanel.user [.request (inSscRequest sscList sscNum keypanel).1]
      (inSscRequest sscList sscNum keypanel).2.user := by
  rw [inSscRequest]
  split
  · exact .refused _ _
  · split
    next => exact .refused _ _
    next huser =>
      rw [not_not.mp huser]
      exact .taken

theorem user_inSscFree (keypanel : InsyncKeypanel) :
    (inSscFree keypanel).user = keypanel.user - 1 := by
  rw [inSscFree]
  split
  next => rfl
  next huser =>
    have hzero : keypanel.user = 0 := not_not.mp huser
    rw [hzero]

theorem user_perform (device : Device) (a : Action) :
    (device.perform a).keypanel.user = device.keypanel.user := by
  cases a <;> rfl

theorem Counted.held {user user' : Nat} {b b' : Bool} {cs : List (Call Errno)}
    (h : Counted user cs user') (hheld : held b cs = some b') (hb : b.toNat ≤ user) :
    user' + b.toNat = user + b'.toNat ∧ (user ≤ 1 → user' ≤ 1) := by
  cases h with
  | act => cases hheld; exact ⟨rfl, id⟩
  | refused => cases b <;> cases hheld <;> exact ⟨rfl, id⟩
  | taken => cases b <;> cases hheld; exact ⟨rfl, fun _ => Nat.le_refl 1⟩
  | freed =>
    cases b <;> cases hheld
    have : 1 ≤ user := hb
    simp only [Bool.toNat_true, Bool.toNat_false]
    omega

structure Advanced (caller caller' : Caller ι) (user user' : Nat) (cs : List (Call Errno)) :
    Prop where
  entry : caller'.entry = caller.entry
  calls : caller'.calls = caller.calls ++ cs
  rest : Prog.Run caller.rest cs caller'.rest
  user : Counted user cs user'

theorem Caller.advance_spec {sscList : List Nat} {device device' : Device}
    {caller caller' : Caller ι} (h : caller.advance sscList device = some (device', caller')) :
    ∃ cs, Advanced caller caller' device.keypanel.user device'.keypanel.user cs := by
  obtain ⟨entry, rest, calls⟩ := caller
  cases rest with
  | done r => cases h
  | act a next =>
    cases h
    exact ⟨[], rfl, (List.append_nil calls).symm, .act (.refl next),
      (user_perform device a).symm ▸ .act _⟩
  | request next =>
    cases h
    exact ⟨_, rfl, rfl, .request _ (.refl _), counted_inSscRequest sscList 0 device.keypanel⟩
  | free handle next =>
    cases handle with
    | error e => cases h
    | ok =>
      cases h
      exact ⟨_, rfl, rfl, .free (.refl next), (user_inSscFree device.keypanel).symm ▸ .freed _⟩

section Run

variable {program : ι → Command Int} {ok : ι → Stream' (Outcome Errno) → Prop}
  {s s' : State ι} {caller : Caller ι}

structure Inv (program : ι → Command Int) (s : State ι) : Prop where
  runs : ∀ caller ∈ s.callers, Prog.Run (program caller.entry) caller.calls caller.rest
  user_eq : s.device.keypanel.user = s.callers.countP Caller.holds
  user_le : s.device.keypanel.user ≤ 1

theorem Caller.holds_eq {b : Bool} (h : held false caller.calls = some b) : caller.holds = b := by
  have hcounts := counts_of_held h
  rw [Bool.toNat_false, Nat.add_zero] at hcounts
  rw [Caller.holds, ← hcounts]
  cases b <;> simp

section Step

variable (hok : ∀ entry o, ok entry o → held false ((program entry).calls o) = some false)

include hok

theorem exists_held (hclear : Clear ok s) (hmem : caller ∈ s.callers)
    (hrun : Prog.Run (program caller.entry) caller.calls caller.rest) :
    ∃ b o, held false caller.calls = some b ∧ held b (caller.rest.calls o) = some false := by
  obtain ⟨o, hfollows, hentry⟩ := hclear caller hmem
  obtain ⟨o', hcalls⟩ := hrun.calls_eq o hfollows
  have hheld := hok caller.entry o hentry
  rw [hcalls, held_append] at hheld
  obtain ⟨b, hb, hrest⟩ := Option.bind_eq_some_iff.mp hheld
  exact ⟨b, o', hb, hrest⟩

theorem Inv.advance {i : Nat} {caller' : Caller ι} {device' : Device} {cs : List (Call Errno)}
    (h : Inv program s) (hi : s.callers[i]? = some caller)
    (hadvanced : Advanced caller caller' s.device.keypanel.user device'.keypanel.user cs)
    (hclear : Clear ok { device := device', callers := s.callers.set i caller' }) :
    Inv program { device := device', callers := s.callers.set i caller' } := by
  obtain ⟨hlt, hget⟩ := List.getElem?_eq_some_iff.mp hi
  have hmem : caller ∈ s.callers := List.mem_of_getElem? hi
  have hmem' : caller' ∈ s.callers.set i caller' := List.mem_set hlt caller'
  have hrun' : Prog.Run (program caller'.entry) caller'.calls caller'.rest := by
    rw [hadvanced.entry, hadvanced.calls]
    exact (h.runs caller hmem).trans hadvanced.rest
  obtain ⟨b', _, hb', _⟩ := exists_held hok hclear hmem' hrun'
  obtain ⟨b, hb, hcs⟩ : ∃ b, held false caller.calls = some b ∧ held b cs = some b' := by
    rw [hadvanced.calls, held_append] at hb'
    exact Option.bind_eq_some_iff.mp hb'
  have hholds := Caller.holds_eq hb
  have hholds' := Caller.holds_eq hb'
  have hle : b.toNat ≤ s.device.keypanel.user := by
    rw [h.user_eq]
    cases b with
    | false => exact Nat.zero_le _
    | true => exact List.countP_pos_iff.mpr ⟨caller, hmem, hholds⟩
  obtain ⟨huser, huser_le⟩ := hadvanced.user.held hcs hle
  refine ⟨?_, ?_, huser_le h.user_le⟩
  · intro other hother
    obtain hother | rfl := List.mem_or_eq_of_mem_set hother
    · exact h.runs other hother
    · exact hrun'
  · have hcount := List.countP_set (p := Caller.holds) (a := caller') hlt
    have hone : ∀ c : Bool, (if c = true then 1 else 0) = c.toNat := by decide
    rw [hget, hholds, hholds', hone, hone] at hcount
    rw [h.user_eq] at huser hle
    dsimp only
    omega

theorem Inv.step {move : Move ι} (h : Inv program s) (hstep : step program s move = some s')
    (hclear : Clear ok s') : Inv program s' := by
  cases move with
  | start entry =>
    cases hstep
    refine ⟨?_, ?_, h.user_le⟩
    · intro caller hmem
      obtain hmem | hmem := List.mem_append.mp hmem
      · exact h.runs caller hmem
      · obtain rfl := List.mem_singleton.mp hmem
        exact .refl _
    · rw [List.countP_append]
      exact h.user_eq
  | advance i sscList =>
    obtain ⟨caller, hi, hrest⟩ := Option.bind_eq_some_iff.mp hstep
    obtain ⟨⟨device', caller'⟩, hadvance, hs'⟩ := Option.bind_eq_some_iff.mp hrest
    cases hs'
    obtain ⟨cs, hadvanced⟩ := Caller.advance_spec hadvance
    exact h.advance hok hi hadvanced hclear

omit hok in
theorem Clear.of_step {move : Move ι} (hstep : Sharing.step program s move = some s')
    (hclear : Clear ok s') : Clear ok s := by
  intro caller hmem
  cases move with
  | start entry =>
    cases hstep
    exact hclear caller (List.mem_append_left _ hmem)
  | advance i sscList =>
    obtain ⟨moved, hi, hrest⟩ := Option.bind_eq_some_iff.mp hstep
    obtain ⟨⟨device', moved'⟩, hadvance, hs'⟩ := Option.bind_eq_some_iff.mp hrest
    cases hs'
    obtain ⟨cs, hadvanced⟩ := Caller.advance_spec hadvance
    obtain ⟨j, hj⟩ := List.mem_iff_getElem?.mp hmem
    by_cases hij : i = j
    · subst hij
      cases hi.symm.trans hj
      have hlt := (List.getElem?_eq_some_iff.mp hi).1
      obtain ⟨o, hfollows, hentry⟩ := hclear moved' (List.mem_set hlt moved')
      rw [hadvanced.calls] at hfollows
      exact ⟨o, hfollows.left, hadvanced.entry ▸ hentry⟩
    · have hkept : (s.callers.set i moved')[j]? = some caller := by
        rw [List.getElem?_set_ne hij, hj]
      exact hclear caller (List.mem_of_getElem? hkept)

theorem Inv.run {moves : List (Move ι)} (hrun : run program moves = some s)
    (hclear : Clear ok s) : Inv program s := by
  induction moves using List.reverseRecOn generalizing s with
  | nil =>
    cases hrun
    exact ⟨fun caller hmem => absurd hmem List.not_mem_nil, rfl, Nat.zero_le 1⟩
  | append_singleton moves move ih =>
    rw [Sharing.run, List.foldlM_append] at hrun
    obtain ⟨s₁, hs₁, hlast⟩ := Option.bind_eq_some_iff.mp hrun
    have hstep : Sharing.step program s₁ move = some s := by simpa using hlast
    exact (ih hs₁ (hclear.of_step hstep)).step hok hstep hclear

theorem Inv.handleKept (h : Inv program s) (hclear : Clear ok s) : HandleKept s := by
  have hreturned : ∀ caller ∈ s.callers, caller.returned = true →
      held false caller.calls = some false := by
    intro caller hmem hreturned
    obtain ⟨b, o, hb, hrest⟩ := exists_held hok hclear hmem (h.runs caller hmem)
    rw [Caller.returned] at hreturned
    cases hcaller : caller.rest with
    | done r =>
      rw [hcaller] at hrest
      exact hb.trans hrest
    | _ => simp [hcaller] at hreturned
  refine ⟨h.user_eq, h.user_eq ▸ h.user_le, ?_, ?_, ?_⟩
  · intro caller hmem e next hcaller
    obtain ⟨b, o, _, hrest⟩ := exists_held hok hclear hmem (h.runs caller hmem)
    rw [hcaller] at hrest
    exact error_not_mem_of_held hrest e List.mem_cons_self
  · exact fun caller hmem hdone => balanced_of_held (hreturned caller hmem hdone)
  · intro hall
    rw [h.user_eq, List.countP_eq_zero]
    intro caller hmem hholds
    have hfree := Caller.holds_eq (hreturned caller hmem (hall caller hmem))
    exact Bool.noConfusion (hfree.symm.trans hholds)

end Step

end Run

theorem handle_kept_iff (scanLed : String → Option (BitVec 32))
    (scanRx : String → Option (BitVec 32 × BitVec 32)) :
    (∀ entry o, Balanced ((Insync.program scanLed entry).calls o) ↔
      Insync.OutcomesOk scanLed entry o) ∧
    (∀ entry o, Balanced ((Virtual.program scanLed scanRx entry).calls o) ↔
      Virtual.OutcomesOk scanLed scanRx entry o) ∧
    (∀ moves s, run (Insync.program scanLed) moves = some s →
      Clear (Insync.OutcomesOk scanLed) s → HandleKept s) ∧
    (∀ moves s, run (Virtual.program scanLed scanRx) moves = some s →
      Clear (Virtual.OutcomesOk scanLed scanRx) s → HandleKept s) := by
  refine ⟨fun entry _ => Insync.balanced_program_iff entry,
    fun entry _ => Virtual.balanced_program_iff entry, ?_, ?_⟩
  · intro moves s hrun hclear
    have hok : ∀ entry o, Insync.OutcomesOk scanLed entry o →
        held false ((Insync.program scanLed entry).calls o) = some false :=
      fun _ _ => Insync.held_program
    exact (Inv.run hok hrun hclear).handleKept hok hclear
  · intro moves s hrun hclear
    have hok : ∀ entry o, Virtual.OutcomesOk scanLed scanRx entry o →
        held false ((Virtual.program scanLed scanRx entry).calls o) = some false :=
      fun _ _ => Virtual.held_program
    exact (Inv.run hok hrun hclear).handleKept hok hclear

theorem handle_kept_iff_two_callers :
    ∃ s, run (Virtual.program (fun _ => some 1) fun _ => none)
        [.start (.writeLedDataframe "1" 1), .start (.writeLedDataframe "1" 1), .advance 1 [0],
          .advance 0 [0]] = some s ∧
      s.device.keypanel.user = 1 ∧ HandleKept s := by
  refine ⟨_, rfl, rfl, (handle_kept_iff (fun _ => some 1) fun _ => none).2.2.2
    [.start (.writeLedDataframe "1" 1), .start (.writeLedDataframe "1" 1), .advance 1 [0],
      .advance 0 [0]] _ rfl ?_⟩
  have hsecond : ∀ o : Stream' (Outcome Errno), o.get 1 = .ok () → ¬ TakenLast o :=
    fun o hok hlast => absurd hok (hlast.1 1 (by decide))
  intro caller hmem
  obtain rfl | hmem := List.mem_cons.mp hmem
  · exact ⟨.cons (.error .ebusy) (.const (.ok ())), ⟨rfl, trivial⟩, .inr (hsecond _ rfl)⟩
  · obtain rfl := List.mem_singleton.mp hmem
    exact ⟨.const (.ok ()), ⟨rfl, trivial⟩, .inr (hsecond _ rfl)⟩

theorem handle_unbalanced :
    ¬ Balanced ((Insync.program (fun _ => some 1) (.writeLedDataframe "1" 1)).calls
      (.const (.error .ebusy))) ∧
    (run (Virtual.program (fun _ => some 1) fun _ => none)
      ([.start (.writeLedDataframe "1" 1), .start (.writeLedDataframe "1" 1), .advance 0 [0]] ++
        List.replicate 8 (.advance 1 [0]) ++ [.advance 0 [0], .advance 1 [0]])).map
      (fun s => (s.device.keypanel.user, s.callers.map Caller.returned)) =
        some (1, [true, true]) := by
  constructor
  · refine mt (Insync.balanced_program_iff _).mp fun h => ?_
    obtain hscan | h := h
    · cases hscan
    · refine h fun i _ hi => ?_
      cases hi
  · rfl

end KeyPanel.Sharing
