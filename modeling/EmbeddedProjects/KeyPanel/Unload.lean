import EmbeddedProjects.KeyPanel.Gestures

namespace KeyPanel.Virtual

structure Moment where
  jiffy : Jiffy
  rmmod : Bool

-- in_keypanel_remove and in_ssc_keypanel_exit delete no timer, so the timers stay armed in the
-- kernel; one that runs afterwards calls into the freed module
inductive Kernel where
  | loaded (panel : Panel)
  | unloaded (pending : List (Nat × BitVec 32))
  | faulted

def Kernel.step (scan : String → Option Gesture) (now : Nat × Moment) : Kernel → Kernel
  | loaded panel =>
    let panel := panel.step scan (now.1, now.2.jiffy)
    if now.2.rmmod then unloaded panel.pending else loaded panel
  | unloaded pending => if pending.any (·.1 = now.1) then faulted else unloaded pending
  | faulted => faulted

def kernelAt (scan : String → Option Gesture) (ms : Nat → Moment) : Nat → Kernel :=
  Clocked.run (Kernel.step scan) (fun t => (t, ms t)) (.loaded {})

def leftover (gs : Nat → Option Gesture) (u t : Nat) : Prop :=
  ∃ s g x, lastGesture gs (u + 1) = some (s, g) ∧ x ∈ script g.2 ∧ s + x.1 = t ∧ u < t

section Unload

variable {scan : String → Option Gesture} {ms : Nat → Moment} {gs : Nat → Option Gesture}
  {panel : Panel} {pending : List (Nat × BitVec 32)} {s t u n : Nat} {g : Gesture}
  {reported : List (BitVec 32)}

theorem kernelAt_loaded (h : ∀ t < u, (ms t).rmmod = false) (hle : t ≤ u) :
    kernelAt scan ms t = .loaded (panelAt scan (fun t => (ms t).jiffy) t) := by
  induction t with
  | zero => rfl
  | succ t ih =>
    rw [kernelAt, Clocked.run_succ]
    change Kernel.step scan (t, ms t) (kernelAt scan ms t) = _
    rw [ih (Nat.le_of_succ_le hle), Kernel.step, h t hle]
    rfl

theorem kernelAt_unloaded (h : ∀ t < u, (ms t).rmmod = false) (hu : (ms u).rmmod = true) :
    kernelAt scan ms (u + 1) =
      .unloaded (panelAt scan (fun t => (ms t).jiffy) (u + 1)).pending := by
  rw [kernelAt, Clocked.run_succ]
  change Kernel.step scan (u, ms u) (kernelAt scan ms u) = _
  rw [kernelAt_loaded h (Nat.le_refl u), Kernel.step, hu]
  rfl

theorem kernelAt_after (h : kernelAt scan ms (u + 1) = .unloaded pending) (n : Nat) :
    (kernelAt scan ms (u + 1 + n) = .unloaded pending ∧
        ∀ x ∈ pending, u < x.1 → u + 1 + n ≤ x.1) ∨
      kernelAt scan ms (u + 1 + n) = .faulted ∧ ∃ x ∈ pending, u < x.1 ∧ x.1 < u + 1 + n := by
  induction n with
  | zero => exact .inl ⟨h, fun x _ hx => hx⟩
  | succ n ih =>
    have hstep : kernelAt scan ms (u + 1 + (n + 1)) =
        Kernel.step scan (u + 1 + n, ms (u + 1 + n)) (kernelAt scan ms (u + 1 + n)) := rfl
    rw [hstep]
    rcases ih with ⟨hstill, hlater⟩ | ⟨hfault, x, hx, hlt, hpast⟩
    · rw [hstill]
      cases hdue : pending.any (·.1 = u + 1 + n) with
      | true =>
        obtain ⟨x, hx, hnow⟩ := List.any_eq_true.mp hdue
        have hcycle := of_decide_eq_true hnow
        refine .inr ⟨?_, x, hx, by omega, by omega⟩
        rw [Kernel.step, hdue]
        rfl
      | false =>
        refine .inl ⟨?_, fun x hx hlt => ?_⟩
        · rw [Kernel.step, hdue]
          rfl
        · have hnot := List.any_eq_false.mp hdue x hx
          have hge := hlater x hx hlt
          have hne : x.1 ≠ u + 1 + n := fun heq => hnot (decide_eq_true heq)
          omega
    · rw [hfault]
      exact .inr ⟨rfl, x, hx, hlt, by omega⟩

theorem faulted_iff (h : kernelAt scan ms (u + 1) = .unloaded pending) (n : Nat) :
    kernelAt scan ms (u + 1 + n) = .faulted ↔ ∃ x ∈ pending, u < x.1 ∧ x.1 < u + 1 + n := by
  rcases kernelAt_after h n with ⟨hstill, hlater⟩ | ⟨hfault, hdue⟩
  · rw [hstill]
    refine iff_of_false Kernel.noConfusion ?_
    rintro ⟨x, hx, hlt, hpast⟩
    have hge := hlater x hx hlt
    omega
  · exact iff_of_true hfault hdue

theorem exists_armedBy_iff (hg : g.2 ∈ pressEvents) (hn : 0 < n) :
    (∃ timer ∈ armedBy g.1 g.2, timer.1 = n) ↔ ∃ x ∈ script g.2, x.1 = n := by
  have hat : ((armedBy g.1 g.2).filter (·.1 = n)).map Prod.snd = _ := armedBy_at hg hn
  have hlists := congrArg List.length hat
  rw [List.length_map, List.length_map, List.length_map] at hlists
  have hexists : ∀ {α : Type} (l : List (Nat × α)),
      (∃ x ∈ l, x.1 = n) ↔ 0 < (l.filter (·.1 = n)).length := by
    intro α l
    rw [List.length_pos_iff_exists_mem]
    simp only [List.mem_filter, decide_eq_true_eq]
  rw [hexists, hexists, hlists]

theorem Playing.pending_iff (h : Playing s t g panel reported) (hg : g.2 ∈ pressEvents)
    (hn : t ≤ n) :
    (∃ x ∈ panel.pending, x.1 = n) ↔ ∃ x ∈ script g.2, s + x.1 = n := by
  have hbefore := h.before
  have hleft : (∃ x ∈ panel.pending, x.1 = n) ↔ ∃ timer ∈ armedBy g.1 g.2, timer.1 = n - s := by
    rw [h.pending, leftOf, shifted]
    constructor
    · rintro ⟨x, hx, rfl⟩
      obtain ⟨timer, htimer, rfl⟩ := List.mem_map.mp (List.mem_of_mem_filter hx)
      exact ⟨timer, htimer, (Nat.add_sub_cancel_left s timer.1).symm⟩
    · rintro ⟨timer, htimer, heq⟩
      have hsum : s + timer.1 = n := by omega
      refine ⟨_, List.mem_filter.mpr ⟨List.mem_map_of_mem htimer, ?_⟩, hsum⟩
      exact decide_eq_true (hn.trans_eq hsum.symm)
  rw [hleft, exists_armedBy_iff hg (by omega)]
  refine exists_congr fun x => and_congr_right fun _ => ?_
  omega

theorem Follows.pending_iff (hpress : ∀ t g, gs t = some g → g.2 ∈ pressEvents)
    (h : Follows gs (u + 1) panel) (t : Nat) :
    (∃ x ∈ panel.pending, u < x.1 ∧ x.1 = t) ↔ leftover gs u t := by
  rw [Follows] at h
  cases hlast : lastGesture gs (u + 1) with
  | none =>
    rw [hlast] at h
    refine iff_of_false ?_ ?_
    · rintro ⟨x, hx, _⟩
      rw [h.pending] at hx
      cases hx
    · rintro ⟨s, g, x, hsome, _⟩
      cases hlast.symm.trans hsome
  | some w =>
    rw [hlast] at h
    obtain ⟨_, hw⟩ := gesture_of_last hlast
    have hiff := fun hlt : u < t => h.pending_iff (n := t) (hpress w.1 w.2 hw) hlt
    constructor
    · rintro ⟨x, hx, hlt, rfl⟩
      obtain ⟨y, hy, heq⟩ := (hiff hlt).mp ⟨x, hx, rfl⟩
      exact ⟨w.1, w.2, y, hlast, hy, heq, hlt⟩
    · rintro ⟨s, g, y, hsome, hy, heq, hlt⟩
      obtain rfl := Option.some.inj (hlast.symm.trans hsome)
      obtain ⟨x, hx, rfl⟩ := (hiff hlt).mpr ⟨y, hy, heq⟩
      exact ⟨x, hx, hlt, rfl⟩

theorem unloading_mid_gesture_faults (h : Played scan fun t => (ms t).jiffy)
    (hloaded : ∀ t < u, (ms t).rmmod = false) (hu : (ms u).rmmod = true) (n : Nat) :
    kernelAt scan ms (u + 1 + n) = .faulted ↔
      ∃ t < u + 1 + n, leftover (gestureAt scan fun t => (ms t).jiffy) u t := by
  have hfollows := follows_panelAt h (u + 1)
  rw [faulted_iff (kernelAt_unloaded hloaded hu)]
  have hiff := hfollows.pending_iff fun _ _ => mem_pressEvents
  constructor
  · rintro ⟨x, hx, hlt, hpast⟩
    exact ⟨x.1, hpast, (hiff x.1).mp ⟨x, hx, hlt, rfl⟩⟩
  · rintro ⟨t, hpast, hleft⟩
    obtain ⟨x, hx, hlt, rfl⟩ := (hiff t).mpr hleft
    exact ⟨x, hx, hlt, hpast⟩

def cutDouble (t : Nat) : Moment := ⟨doubleThenHold t, t = 300⟩

theorem unloading_mid_gesture_faults_cutDouble :
    (kernelAt scanDoubleThenHold cutDouble (300 + 1 + 100) = .faulted ↔
      ∃ t < 300 + 1 + 100, leftover (gestureAt scanDoubleThenHold doubleThenHold) 300 t) :=
  unloading_mid_gesture_faults played_doubleThenHold (fun _ ht => decide_eq_false ht.ne) rfl 100

end Unload

end KeyPanel.Virtual
