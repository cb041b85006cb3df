import EmbeddedProjects.Lib.Clocked
import EmbeddedProjects.KeyPanel.Deliveries

namespace KeyPanel.Virtual

open Handle

structure Jiffy where
  buffer : Option String
  outcomes : Stream' (Outcome Errno)

structure Panel where
  device : Device := {}
  pending : List (Nat × BitVec 32) := []

def expire : List (BitVec 32) → Command Unit
  | [] => pure ()
  | data :: due => do
    insyncKeypanelInterrupt data
    expire due

def write (scan : String → Option (BitVec 32 × BitVec 32)) : Option String → Command Unit
  | none => pure ()
  | some buffer => do
    let _ ← writeRxData scan buffer buffer.length
    return

def Panel.due (panel : Panel) (jiffies : Nat) : List (BitVec 32) :=
  (panel.pending.filter (·.1 = jiffies)).map Prod.snd

def Panel.step (scan : String → Option (BitVec 32 × BitVec 32)) (now : Nat × Jiffy)
    (panel : Panel) : Panel :=
  let program : Command Unit := do
    expire (panel.due now.1)
    write scan now.2.buffer
  let device := program.exec Device.perform now.2.outcomes { panel.device with timers := [] }
  { device
    pending := panel.pending.filter (·.1 ≠ now.1) ++
      device.timers.map fun timer => (now.1 + timer.1, timer.2) }

def panelAt (scan : String → Option (BitVec 32 × BitVec 32)) (js : Nat → Jiffy) : Nat → Panel :=
  Clocked.run (Panel.step scan) (fun t => (t, js t)) {}

-- the mdelay(1) that follows a refused request is left out, so every request is granted
def Served (o : Stream' (Outcome Errno)) : Prop := ∀ n, o.get n = .ok ()

def receive (device : Device) (data : BitVec 32) : Device :=
  (device.perform (.orRxHoldingRegister data)).perform .processRxDataFrame

def arm (device : Device) (timers : List (Nat × BitVec 32)) : Device :=
  { device with timers := device.timers ++ timers }

def pressTimers (key : BitVec 32) (pressId : Nat) : List (Nat × BitVec 32) :=
  [((pressId - 1) * inSimNextPressTime + inSimKeyUpTime, 0),
    ((pressId - 1) * inSimNextPressTime, 1#32 <<< key)]

def armedBy (key kevent : BitVec 32) : List (Nat × BitVec 32) :=
  if kevent = inPressAndHold then [(inSimHoldUpTime, 0)]
  else (inSimKeyUpTime, 0) ::
    if kevent = inSinglePress then []
    else if kevent = inDoublePress then pressTimers key 2
    else if kevent = inTriplePress then pressTimers key 2 ++ pressTimers key 3
    else pressTimers key 2 ++ (pressTimers key 3 ++ pressTimers key 4)

def presses (n : Nat) : List (Nat × Bool) :=
  (List.range n).flatMap fun i =>
    [(i * inSimNextPressTime, true), (i * inSimNextPressTime + inSimKeyUpTime, false)]

def script (kevent : BitVec 32) : List (Nat × Bool) :=
  if kevent = inSinglePress then presses 1
  else if kevent = inDoublePress then presses 2
  else if kevent = inTriplePress then presses 3
  else if kevent = inQuadPress then presses 4
  else if kevent = inPressAndHold then [(0, true), (inSimHoldUpTime, false)]
  else []

def pressWord (key : BitVec 32) (down : Bool) : BitVec 32 :=
  (if down then inKpEventKeyDown else inKpEventKeyUp) <<< inKpEventEventIdOffset ||| key

section Gestures

abbrev Gesture := BitVec 32 × BitVec 32

def gestureOf (scan : String → Option Gesture) (buffer : Option String) : Option Gesture :=
  (buffer.bind scan).filter (·.2 ∈ pressEvents)

def gestureAt (scan : String → Option Gesture) (js : Nat → Jiffy) (t : Nat) : Option Gesture :=
  gestureOf scan (js t).buffer

def lastGesture (gs : Nat → Option Gesture) : Nat → Option (Nat × Gesture)
  | 0 => none
  | t + 1 => ((gs t).map fun g => (t, g)).or (lastGesture gs t)

def Spaced (gs : Nat → Option Gesture) : Prop :=
  ∀ s t g, s < t → gs s = some g → gs t ≠ none → ∀ x ∈ script g.2, s + x.1 < t

def wordsAt (s t : Nat) (g : Gesture) : List (BitVec 32) :=
  ((script g.2).filter (·.1 = t - s)).map fun x => pressWord g.1 x.2

def eventsAt (gs : Nat → Option Gesture) (t : Nat) : List (BitVec 32) :=
  (lastGesture gs (t + 1)).elim [] fun w => wordsAt w.1 t w.2

end Gestures

section Exec

variable {o : Stream' (Outcome Errno)} {key kevent data : BitVec 32} {device : Device}

theorem Served.drop (h : Served o) (n : Nat) : Served (o.drop n) := by
  intro m
  rw [Stream'.get_drop]
  exact h _

theorem Served.not_refused (h : Served o) : ¬ Refused o 8 := fun hrefused =>
  hrefused 0 (Nat.succ_pos 7) (h 0)

theorem Served.unmet {ρ : Type} (h : Served o) (p : Command ρ) : Served (p.unmet o) := by
  induction p generalizing o with
  | done r => exact h
  | act a next ih => exact ih h
  | request next ih => exact ih o.head (h.drop 1)
  | free k next ih => exact ih h

theorem exec_interrupt (h : Served o) :
    (insyncKeypanelInterrupt data).exec Device.perform o device = receive device data := by
  have htaken : Delivery.taken ⟨data, o⟩ = true := taken_iff.mpr h.not_refused
  exact (deliver_eq device ⟨data, o⟩).trans (if_pos htaken)

theorem exec_expire (due : List (BitVec 32)) (h : Served o) :
    (expire due).exec Device.perform o device = due.foldl receive device := by
  induction due generalizing o device with
  | nil => rfl
  | cons data due ih =>
    refine (Prog.exec_bind Device.perform _ _ o device).trans ?_
    rw [exec_interrupt h]
    exact ih (h.unmet _)

theorem exec_seq (p q : Command Unit) (o : Stream' (Outcome Errno)) (device : Device) :
    (p >>= fun _ => q).exec Device.perform o device =
      q.exec Device.perform (p.unmet o) (p.exec Device.perform o device) :=
  Prog.exec_bind Device.perform p (fun _ => q) o device

theorem arm_arm (device : Device) (xs ys : List (Nat × BitVec 32)) :
    arm (arm device xs) ys = arm device (xs ++ ys) := by
  simp [arm]

theorem exec_firstPress (h : Served o) :
    (firstPress key).exec Device.perform o device =
      arm (receive device (1#32 <<< key)) [(inSimKeyUpTime, 0)] := by
  rw [firstPress, exec_seq, exec_interrupt h]
  rfl

theorem exec_pressAndHold (h : Served o) :
    (pressAndHold key).exec Device.perform o device =
      arm (receive device (1#32 <<< key)) [(inSimHoldUpTime, 0)] := by
  rw [pressAndHold, exec_seq, exec_interrupt h]
  rfl

theorem exec_press (pressId : Nat) (o : Stream' (Outcome Errno)) (device : Device) :
    (press pressId key).exec Device.perform o device = arm device (pressTimers key pressId) := by
  rw [press, exec_seq]
  exact arm_arm device [_] [_]

theorem exec_simulateKeyEvent (h : Served o) :
    (simulateKeyEvent key kevent).exec Device.perform o device =
      if kevent ∈ pressEvents then arm (receive device (1#32 <<< key)) (armedBy key kevent)
      else device := by
  by_cases hmem : kevent ∈ pressEvents
  · rw [if_pos hmem]
    simp only [pressEvents, List.mem_cons, List.not_mem_nil, or_false] at hmem
    obtain rfl | rfl | rfl | rfl | rfl := hmem
    · exact exec_firstPress h
    · change (firstPress key >>= fun _ => press 2 key).exec _ _ _ = _
      rw [exec_seq, exec_firstPress h, exec_press, arm_arm]
      rfl
    · change (firstPress key >>= fun _ => press 2 key >>= fun _ => press 3 key).exec _ _ _ = _
      rw [exec_seq, exec_firstPress h, exec_seq, exec_press, exec_press, arm_arm, arm_arm]
      rfl
    · change (firstPress key >>= fun _ => press 2 key >>= fun _ => press 3 key >>= fun _ =>
        press 4 key).exec _ _ _ = _
      rw [exec_seq, exec_firstPress h, exec_seq, exec_press, exec_seq, exec_press, exec_press,
        arm_arm, arm_arm, arm_arm]
      rfl
    · exact exec_pressAndHold h
  · rw [if_neg hmem]
    simp only [pressEvents, List.mem_cons, List.not_mem_nil, or_false, not_or] at hmem
    obtain ⟨hsingle, hdouble, htriple, hquad, hhold⟩ := hmem
    simp only [simulateKeyEvent, hsingle, hdouble, htriple, hquad, hhold, if_false]
    rfl

theorem exec_writeRxData (scan : String → Option (BitVec 32 × BitVec 32)) (buffer : String)
    (h : Served o) :
    (write scan (some buffer)).exec Device.perform o device =
      ((scan buffer).elim device fun g =>
        if g.2 ∈ pressEvents then arm (receive device (1#32 <<< g.1)) (armedBy g.1 g.2)
        else device) := by
  have hwrite : (write scan (some buffer)).exec Device.perform o device =
      (writeRxData scan buffer buffer.length).exec Device.perform o device :=
    Prog.exec_bind Device.perform _ _ o device
  rw [hwrite, writeRxData]
  cases scan buffer with
  | none => rfl
  | some g =>
    have htries : ¬ (acquire.result o).2 > 7 := by
      have := (tries_retry 8 0 o).1
      have := (tries_retry 8 0 o).2.not.mpr h.not_refused
      rw [acquire]
      omega
    refine (Prog.exec_bind Device.perform acquire _ o device).trans ?_
    simp only [htries, if_false]
    refine (Prog.exec_bind Device.perform (simulateKeyEvent g.1 g.2) _ (acquire.unmet o)
      (acquire.exec Device.perform o device)).trans ?_
    rw [exec_acquire]
    exact exec_simulateKeyEvent (h.unmet acquire)

end Exec

section Level

def level (kevent : BitVec 32) (q : Nat) : Bool :=
  if kevent = inPressAndHold then q < 6
  else q % 2 = 0 && q / 2 < (script kevent).length / 2

def frame (key : BitVec 32) (down : Bool) : BitVec 32 := if down then 1#32 <<< key else 0

variable {key kevent : BitVec 32} {off : Nat}

theorem press_cases (h : kevent ∈ pressEvents) :
    kevent = inSinglePress ∨ kevent = inDoublePress ∨ kevent = inTriplePress ∨
      kevent = inQuadPress ∨ kevent = inPressAndHold := by
  simpa [pressEvents] using h

theorem script_zero (h : kevent ∈ pressEvents) :
    ((script kevent).filter (·.1 = 0)).map Prod.snd = [true] ∧ level kevent 0 = true := by
  obtain rfl | rfl | rfl | rfl | rfl := press_cases h <;> decide

theorem script_multiple (h : kevent ∈ pressEvents) :
    ∀ x ∈ script kevent, x.1 % 200 = 0 ∧ x.1 / 200 < 8 := by
  obtain rfl | rfl | rfl | rfl | rfl := press_cases h <;> decide

theorem script_at_multiple (h : kevent ∈ pressEvents) : ∀ q < 8, 0 < q →
    ((script kevent).filter (·.1 = 200 * q)).map Prod.snd =
      if level kevent q = level kevent (q - 1) then [] else [level kevent q] := by
  obtain rfl | rfl | rfl | rfl | rfl := press_cases h <;> decide

theorem level_late (h : kevent ∈ pressEvents) {q : Nat} (hq : 7 ≤ q) : level kevent q = false := by
  have hlength : (script kevent).length ≤ 8 := by
    obtain rfl | rfl | rfl | rfl | rfl := press_cases h <;> decide
  rw [level]
  split
  · exact decide_eq_false (by omega)
  · simp only [Bool.and_eq_false_iff, decide_eq_false_iff_not]
    omega

theorem armedBy_perm (h : kevent ∈ pressEvents) :
    (armedBy key kevent).Perm ((script kevent).tail.map fun x => (x.1, frame key x.2)) := by
  obtain rfl | rfl | rfl | rfl | rfl := press_cases h
  · exact .refl _
  · exact .cons _ (.swap _ _ _)
  · exact .cons _ ((List.Perm.swap _ _ _).trans (.cons _ (.cons _ (.swap _ _ _))))
  · exact .cons _ ((List.Perm.swap _ _ _).trans (.cons _ (.cons _
      ((List.Perm.swap _ _ _).trans (.cons _ (.cons _ (.swap _ _ _)))))))
  · exact .refl _

theorem script_at (h : kevent ∈ pressEvents) (hoff : 0 < off) :
    ((script kevent).filter (·.1 = off)).map Prod.snd =
      if level kevent (off / 200) = level kevent ((off - 1) / 200) then []
      else [level kevent (off / 200)] := by
  by_cases hmultiple : off % 200 = 0
  · obtain ⟨q, rfl⟩ : ∃ q, off = 200 * q := ⟨off / 200, by omega⟩
    have hq : 200 * q / 200 = q := by omega
    have hpred : (200 * q - 1) / 200 = q - 1 := by omega
    rw [hq, hpred]
    by_cases hlate : q < 8
    · exact script_at_multiple h q hlate (by omega)
    · have hnone : (script kevent).filter (·.1 = 200 * q) = [] :=
        List.filter_eq_nil_iff.mpr fun x hx hxq => by
          have := (script_multiple h x hx).2
          have := of_decide_eq_true hxq
          omega
      rw [hnone, level_late h (by omega), level_late h (by omega)]
      rfl
  · have hnone : (script kevent).filter (·.1 = off) = [] :=
      List.filter_eq_nil_iff.mpr fun x hx hxq => by
        have := (script_multiple h x hx).1
        have := of_decide_eq_true hxq
        omega
    have hsame : (off - 1) / 200 = off / 200 := by omega
    rw [hnone, hsame, if_pos rfl]
    rfl

theorem script_head (h : kevent ∈ pressEvents) :
    script kevent = (0, true) :: (script kevent).tail := by
  obtain rfl | rfl | rfl | rfl | rfl := press_cases h <;> rfl

theorem armedBy_at (h : kevent ∈ pressEvents) (hoff : 0 < off) :
    ((armedBy key kevent).filter (·.1 = off)).map Prod.snd =
      (((script kevent).filter (·.1 = off)).map Prod.snd).map (frame key) := by
  have htail : (script kevent).filter (·.1 = off) = (script kevent).tail.filter (·.1 = off) := by
    rw [script_head h, List.filter_cons_of_neg (by simp; omega)]
    rfl
  have hperm := ((armedBy_perm h : (armedBy key kevent).Perm _).filter (·.1 = off)).map Prod.snd
  rw [List.filter_map, List.map_map] at hperm
  have hframes : ((script kevent).tail.filter (·.1 = off)).map (fun x => frame key x.2) =
      (((script kevent).filter (·.1 = off)).map Prod.snd).map (frame key) := by
    rw [htail, List.map_map]
    rfl
  replace hperm := hperm.trans (.of_eq hframes)
  rw [script_at h hoff] at hperm ⊢
  by_cases hsame : level kevent (off / 200) = level kevent ((off - 1) / 200)
  · rw [if_pos hsame] at hperm ⊢
    exact hperm.eq_nil
  · rw [if_neg hsame] at hperm ⊢
    exact List.perm_singleton.mp hperm

theorem script_tail_pos (h : kevent ∈ pressEvents) : ∀ x ∈ (script kevent).tail, 0 < x.1 := by
  obtain rfl | rfl | rfl | rfl | rfl := press_cases h <;> decide

theorem mem_armedBy (h : kevent ∈ pressEvents) {x : Nat × BitVec 32}
    (hx : x ∈ armedBy key kevent) : ∃ y ∈ (script kevent).tail, y.1 = x.1 := by
  obtain ⟨y, hy, rfl⟩ := List.mem_map.mp ((armedBy_perm h).subset hx)
  exact ⟨y, hy, rfl⟩

theorem level_passed (h : kevent ∈ pressEvents) :
    ∀ q < 7, (∀ x ∈ script kevent, x.1 / 200 ≤ q) → level kevent q = false := by
  obtain rfl | rfl | rfl | rfl | rfl := press_cases h <;> decide

theorem level_of_passed (h : kevent ∈ pressEvents) (hoff : ∀ x ∈ script kevent, x.1 ≤ off) :
    level kevent (off / 200) = false := by
  by_cases hlate : off / 200 < 7
  · exact level_passed h _ hlate fun x hx => Nat.div_le_div_right (hoff x hx)
  · exact level_late h (Nat.not_lt.mp hlate)

end Level

section Frames

variable {key : BitVec 32} {device : Device} {data : BitVec 32} {reported : List (BitVec 32)}

structure Shows (device : Device) (rxFrame : BitVec 32) (reported : List (BitVec 32)) : Prop where
  holding : device.rxHoldingRegister = 0
  shown : device.keypanel.rxFrame = rxFrame
  reported : device.reported = reported

theorem events_down : ∀ k : Fin 19,
    (processFrame {} (1#32 <<< k.val)).2 = [pressWord (BitVec.ofNat 32 k) true] := by
  decide

theorem events_up : ∀ k : Fin 19,
    (processFrame { rxFrame := 1#32 <<< k.val } 0).2 = [pressWord (BitVec.ofNat 32 k) false] := by
  decide

theorem events_of_change (hkey : key.toNat < 19) {b b' : Bool} (hne : b ≠ b') :
    (processFrame { rxFrame := frame key b' } (frame key b)).2 = [pressWord key b] := by
  have hofNat : BitVec.ofNat 32 key.toNat = key := by simp
  cases b with
  | true =>
    obtain rfl : b' = false := by simpa using hne
    exact (events_down ⟨key.toNat, hkey⟩).trans (by rw [hofNat])
  | false =>
    obtain rfl : b' = true := by simpa using hne
    exact (events_up ⟨key.toNat, hkey⟩).trans (by rw [hofNat])

theorem Shows.receive (hkey : key.toNat < 19) {b b' : Bool} (hne : b ≠ b')
    (h : Shows device (frame key b') reported) :
    Shows (receive device (frame key b)) (frame key b) (reported ++ [pressWord key b]) := by
  have hframe : device.rxHoldingRegister ||| frame key b = frame key b := by
    rw [h.holding]
    exact BitVec.zero_or
  have hevents : (processFrame device.keypanel (frame key b)).2 = [pressWord key b] := by
    rw [← events_of_change hkey hne, ← h.shown]
    rfl
  refine ⟨rfl, hframe, ?_⟩
  change device.reported ++
    (processFrame device.keypanel (device.rxHoldingRegister ||| frame key b)).2 = _
  rw [hframe, hevents, h.reported]

theorem Shows.idle (key : BitVec 32) (h : Shows device 0 reported) :
    Shows device (frame key false) reported := h

theorem Shows.arm {rxFrame : BitVec 32} (h : Shows device rxFrame reported)
    (timers : List (Nat × BitVec 32)) : Shows (arm device timers) rxFrame reported :=
  ⟨h.holding, h.shown, h.reported⟩

end Frames

section Run

variable {scan : String → Option Gesture} {js : Nat → Jiffy} {gs : Nat → Option Gesture}
  {t s : Nat} {g : Gesture} {panel : Panel}

def shifted (s : Nat) (timers : List (Nat × BitVec 32)) : List (Nat × BitVec 32) :=
  timers.map fun timer => (s + timer.1, timer.2)

def leftOf (s t : Nat) (g : Gesture) : List (Nat × BitVec 32) :=
  (shifted s (armedBy g.1 g.2)).filter (t ≤ ·.1)

theorem leftOf_due (hst : s < t) :
    ((leftOf s t g).filter (·.1 = t)).map Prod.snd =
      ((armedBy g.1 g.2).filter (·.1 = t - s)).map Prod.snd := by
  have hiff : ∀ x : Nat × BitVec 32,
      (decide (s + x.1 = t) && decide (t ≤ s + x.1)) = decide (x.1 = t - s) := by
    intro x
    rw [← Bool.decide_and, decide_eq_decide]
    omega
  rw [leftOf, shifted, List.filter_filter, List.filter_map, List.map_map]
  exact congrArg (List.map Prod.snd) (List.filter_congr fun x _ => hiff x)

theorem leftOf_rest (s t : Nat) (g : Gesture) :
    (leftOf s t g).filter (·.1 ≠ t) = leftOf s (t + 1) g := by
  rw [leftOf, leftOf, List.filter_filter]
  refine List.filter_congr fun x _ => ?_
  rw [← Bool.decide_and, decide_eq_decide]
  omega

structure Quiet (panel : Panel) (reported : List (BitVec 32)) : Prop where
  pending : panel.pending = []
  shows : Shows panel.device 0 reported

structure Playing (s t : Nat) (g : Gesture) (panel : Panel) (reported : List (BitVec 32)) :
    Prop where
  before : s < t
  pending : panel.pending = leftOf s t g
  shows : Shows panel.device (frame g.1 (level g.2 ((t - 1 - s) / 200))) reported

theorem exec_write {o : Stream' (Outcome Errno)} {device : Device} (h : Served o)
    (buffer : Option String) :
    (write scan buffer).exec Device.perform o device =
      (gestureOf scan buffer).elim device fun g =>
        arm (receive device (1#32 <<< g.1)) (armedBy g.1 g.2) := by
  cases buffer with
  | none => rfl
  | some buffer =>
    rw [exec_writeRxData scan buffer h]
    change _ = ((scan buffer).filter (·.2 ∈ pressEvents)).elim _ _
    cases scan buffer with
    | none => rfl
    | some g =>
      by_cases hg : g.2 ∈ pressEvents
      · rw [Option.filter_some, if_pos (decide_eq_true hg)]
        exact if_pos hg
      · rw [Option.filter_some, if_neg (by simpa using hg)]
        exact if_neg hg

theorem timers_receive (device : Device) (due : List (BitVec 32)) :
    (due.foldl receive device).timers = device.timers := by
  induction due generalizing device with
  | nil => rfl
  | cons data due ih => exact ih (receive device data)

def played (panel : Panel) (t : Nat) : Device :=
  (panel.due t).foldl receive { panel.device with timers := [] }

theorem step_eq {j : Jiffy} (h : Served j.outcomes) (panel : Panel) (t : Nat) :
    panel.step scan (t, j) = (gestureOf scan j.buffer).elim
      { device := played panel t, pending := panel.pending.filter (·.1 ≠ t) } fun g =>
      { device := arm (receive (played panel t) (1#32 <<< g.1)) (armedBy g.1 g.2),
        pending := panel.pending.filter (·.1 ≠ t) ++ shifted t (armedBy g.1 g.2) } := by
  have hnone : (played panel t).timers = [] := timers_receive _ _
  have hexec : ((do
      expire (panel.due t)
      write scan j.buffer : Command Unit).exec Device.perform j.outcomes
        { panel.device with timers := [] }) =
      (gestureOf scan j.buffer).elim (played panel t) fun g =>
        arm (receive (played panel t) (1#32 <<< g.1)) (armedBy g.1 g.2) := by
    rw [exec_seq, exec_expire _ h]
    exact exec_write (h.unmet _) j.buffer
  rw [Panel.step, hexec]
  cases gestureOf scan j.buffer with
  | none => simp [hnone]
  | some g => simp [arm, receive, Device.perform, hnone, shifted]

variable {reported : List (BitVec 32)} {j : Jiffy}

theorem Quiet.played (h : Quiet panel reported) (t : Nat) :
    Shows (played panel t) 0 reported := by
  have hdue : panel.due t = [] := by rw [Panel.due, h.pending]; rfl
  rw [Virtual.played, hdue]
  exact ⟨h.shows.holding, h.shows.shown, h.shows.reported⟩

theorem Quiet.step (h : Quiet panel reported) (hj : Served j.outcomes)
    (hg : gestureOf scan j.buffer = none) : Quiet (panel.step scan (t, j)) reported := by
  rw [step_eq hj, hg]
  exact ⟨by rw [h.pending]; rfl, h.played t⟩

theorem mem_pressEvents (hg : gestureOf scan j.buffer = some g) : g.2 ∈ pressEvents :=
  of_decide_eq_true (Option.filter_eq_some_iff.mp hg).2

theorem wordsAt_self (hg : g.2 ∈ pressEvents) : wordsAt t t g = [pressWord g.1 true] := by
  have hzero := (script_zero hg).1
  rw [wordsAt, Nat.sub_self, ← Function.comp_def (pressWord g.1) Prod.snd, ← List.map_map, hzero]
  rfl

theorem Quiet.press (h : Quiet panel reported) (hj : Served j.outcomes)
    (hg : gestureOf scan j.buffer = some g) (hkey : g.1.toNat < 19) :
    Playing t (t + 1) g (panel.step scan (t, j)) (reported ++ wordsAt t t g) := by
  have hpress := mem_pressEvents hg
  rw [step_eq hj, hg, wordsAt_self hpress]
  refine ⟨Nat.lt_succ_self t, ?_, ?_⟩
  · have hlater : leftOf t (t + 1) g = shifted t (armedBy g.1 g.2) := by
      refine List.filter_eq_self.mpr fun x hx => decide_eq_true ?_
      obtain ⟨timer, htimer, rfl⟩ := List.mem_map.mp hx
      obtain ⟨y, hy, hoff⟩ := mem_armedBy hpress htimer
      have hpos := script_tail_pos hpress y hy
      change t + 1 ≤ t + timer.1
      omega
    change panel.pending.filter _ ++ _ = _
    rw [h.pending, hlater]
    rfl
  · have hlevel : level g.2 ((t + 1 - 1 - t) / 200) = true := by
      rw [Nat.add_sub_cancel, Nat.sub_self]
      exact (script_zero hpress).2
    rw [hlevel]
    exact ((h.played t).idle g.1 |>.receive hkey (b := true) (by decide)).arm _

theorem wordsAt_eq (s t : Nat) (g : Gesture) :
    wordsAt s t g =
      (((script g.2).filter (·.1 = t - s)).map Prod.snd).map (pressWord g.1) := by
  rw [List.map_map]
  rfl

theorem Playing.due (h : Playing s t g panel reported) (hpress : g.2 ∈ pressEvents) :
    panel.due t = (((script g.2).filter (·.1 = t - s)).map Prod.snd).map (frame g.1) := by
  rw [Panel.due, h.pending, leftOf_due h.before]
  exact armedBy_at hpress (Nat.sub_pos_of_lt h.before)

theorem Playing.played (h : Playing s t g panel reported) (hpress : g.2 ∈ pressEvents)
    (hkey : g.1.toNat < 19) :
    Shows (played panel t) (frame g.1 (level g.2 ((t - s) / 200)))
      (reported ++ wordsAt s t g) := by
  have hbefore := h.before
  have hprev : t - s - 1 = t - 1 - s := by omega
  have hidle : Shows { panel.device with timers := [] }
      (frame g.1 (level g.2 ((t - 1 - s) / 200))) reported :=
    ⟨h.shows.holding, h.shows.shown, h.shows.reported⟩
  rw [Virtual.played, h.due hpress, wordsAt_eq, script_at hpress (Nat.sub_pos_of_lt hbefore), hprev]
  by_cases hsame : level g.2 ((t - s) / 200) = level g.2 ((t - 1 - s) / 200)
  · rw [if_pos hsame, hsame]
    simpa using hidle
  · rw [if_neg hsame]
    exact hidle.receive hkey hsame

theorem Playing.step (h : Playing s t g panel reported) (hj : Served j.outcomes)
    (hg : gestureOf scan j.buffer = none) (hpress : g.2 ∈ pressEvents)
    (hkey : g.1.toNat < 19) :
    Playing s (t + 1) g (panel.step scan (t, j)) (reported ++ wordsAt s t g) := by
  rw [step_eq hj, hg]
  refine ⟨Nat.lt_succ_of_lt h.before, ?_, h.played hpress hkey⟩
  change panel.pending.filter _ = _
  rw [h.pending]
  exact leftOf_rest s t g

theorem Playing.quiet (h : Playing s t g panel reported) (hpress : g.2 ∈ pressEvents)
    (hover : ∀ x ∈ script g.2, s + x.1 < t) : Quiet panel reported := by
  refine ⟨?_, ?_⟩
  · rw [h.pending]
    refine List.filter_eq_nil_iff.mpr fun x hx => ?_
    obtain ⟨timer, htimer, rfl⟩ := List.mem_map.mp hx
    obtain ⟨y, hy, hoff⟩ := mem_armedBy hpress htimer
    have hlate := hover y (List.mem_of_mem_tail hy)
    simp only [decide_eq_true_eq, Nat.not_le]
    omega
  · have hlevel : level g.2 ((t - 1 - s) / 200) = false :=
      level_of_passed hpress fun x hx => by
        have := hover x hx
        omega
    have hshows := h.shows
    rw [hlevel] at hshows
    exact hshows

def Follows (gs : Nat → Option Gesture) (t : Nat) (panel : Panel) : Prop :=
  (lastGesture gs t).elim (Quiet panel ((List.range t).flatMap (eventsAt gs))) fun w =>
    Playing w.1 t w.2 panel ((List.range t).flatMap (eventsAt gs))

theorem gesture_of_last (h : lastGesture gs t = some (s, g)) : s < t ∧ gs s = some g := by
  induction t with
  | zero => cases h
  | succ t ih =>
    rw [lastGesture] at h
    cases hgt : gs t with
    | some g' =>
      rw [hgt] at h
      obtain ⟨rfl, rfl⟩ : t = s ∧ g' = g := by simpa using h
      exact ⟨Nat.lt_succ_self t, hgt⟩
    | none =>
      rw [hgt] at h
      exact ⟨Nat.lt_succ_of_lt (ih h).1, (ih h).2⟩

structure Played (scan : String → Option Gesture) (js : Nat → Jiffy) : Prop where
  served : ∀ t, Served (js t).outcomes
  keys : ∀ t g, gestureAt scan js t = some g → g.1.toNat < inKpNumKeys
  spaced : Spaced (gestureAt scan js)

theorem lastGesture_written (h : gs t = some g) : lastGesture gs (t + 1) = some (t, g) := by
  rw [lastGesture, h]
  rfl

theorem lastGesture_unwritten (h : gs t = none) : lastGesture gs (t + 1) = lastGesture gs t := by
  rw [lastGesture, h]
  rfl

theorem Follows.quiet (hspaced : Spaced gs)
    (hpress : ∀ t g, gs t = some g → g.2 ∈ pressEvents) (hg : gs t = some g)
    (h : Follows gs t panel) : Quiet panel ((List.range t).flatMap (eventsAt gs)) := by
  rw [Follows] at h
  cases hlast : lastGesture gs t with
  | none =>
    rw [hlast] at h
    exact h
  | some w =>
    rw [hlast] at h
    obtain ⟨hbefore, hw⟩ := gesture_of_last hlast
    exact h.quiet (hpress w.1 w.2 hw)
      (hspaced w.1 t w.2 hbefore hw fun hnone => by cases hnone.symm.trans hg)

theorem Follows.step (h : Played scan js) (hfollows : Follows (gestureAt scan js) t panel) :
    Follows (gestureAt scan js) (t + 1) (panel.step scan (t, js t)) := by
  have hpress : ∀ t g, gestureAt scan js t = some g → g.2 ∈ pressEvents :=
    fun _ _ => mem_pressEvents
  cases hg : gestureAt scan js t with
  | some g =>
    have hquiet := hfollows.quiet h.spaced hpress hg
    rw [Follows, List.range_succ, List.flatMap_append, List.flatMap_singleton, eventsAt,
      lastGesture_written hg]
    exact hquiet.press (h.served t) hg (h.keys t g hg)
  | none =>
    rw [Follows, List.range_succ, List.flatMap_append, List.flatMap_singleton, eventsAt,
      lastGesture_unwritten hg]
    rw [Follows] at hfollows
    cases hlast : lastGesture (gestureAt scan js) t with
    | none =>
      rw [hlast] at hfollows
      simpa using hfollows.step (h.served t) hg
    | some w =>
      rw [hlast] at hfollows
      obtain ⟨_, hw⟩ := gesture_of_last hlast
      exact hfollows.step (h.served t) hg (hpress w.1 w.2 hw) (h.keys w.1 w.2 hw)

theorem follows_panelAt (h : Played scan js) (t : Nat) :
    Follows (gestureAt scan js) t (panelAt scan js t) := by
  induction t with
  | zero => exact ⟨rfl, rfl, rfl, rfl⟩
  | succ t ih => exact ih.step h

theorem gestures_play_out (h : Played scan js) (t : Nat) :
    (panelAt scan js t).device.reported = (List.range t).flatMap (eventsAt (gestureAt scan js)) ∧
      (gestureAt scan js t ≠ none → (panelAt scan js t).pending = []) := by
  have hfollows := follows_panelAt h t
  refine ⟨?_, fun hwritten => ?_⟩
  · rw [Follows] at hfollows
    cases hlast : lastGesture (gestureAt scan js) t with
    | none =>
      rw [hlast] at hfollows
      exact hfollows.shows.reported
    | some w =>
      rw [hlast] at hfollows
      exact hfollows.shows.reported
  · obtain ⟨g, hg⟩ := Option.ne_none_iff_exists'.mp hwritten
    exact (hfollows.quiet h.spaced (fun _ _ => mem_pressEvents) hg).pending

def doubleThenHold : Nat → Jiffy := fun t =>
  ⟨if t = 0 then some "3,6" else if t = 1000 then some "3,5" else none, Stream'.const (.ok ())⟩

def scanDoubleThenHold (buffer : String) : Option Gesture :=
  if buffer = "3,6" then some (3, inDoublePress)
  else if buffer = "3,5" then some (3, inPressAndHold) else none

theorem gestureAt_doubleThenHold (t : Nat) :
    gestureAt scanDoubleThenHold doubleThenHold t =
      if t = 0 then some (3, inDoublePress) else if t = 1000 then some (3, inPressAndHold)
      else none := by
  rw [gestureAt, doubleThenHold]
  split
  · decide
  · split
    · decide
    · rfl

theorem played_doubleThenHold : Played scanDoubleThenHold doubleThenHold where
  served _ _ := rfl
  keys t g h := by
    rw [gestureAt_doubleThenHold] at h
    split at h
    · cases h; decide
    · split at h
      · cases h; decide
      · cases h
  spaced s t g hst h hwritten := by
    rw [gestureAt_doubleThenHold] at h hwritten
    have ht : t = 1000 := by
      by_contra hne
      exact hwritten (by rw [if_neg (by omega), if_neg hne])
    subst ht
    by_cases hs : s = 0
    · subst hs
      cases h
      decide
    · rw [if_neg hs, if_neg (by omega)] at h
      cases h

theorem gestures_play_out_doubleThenHold :
    (panelAt scanDoubleThenHold doubleThenHold 1000).device.reported =
        (List.range 1000).flatMap (eventsAt (gestureAt scanDoubleThenHold doubleThenHold)) ∧
      (gestureAt scanDoubleThenHold doubleThenHold 1000 ≠ none →
        (panelAt scanDoubleThenHold doubleThenHold 1000).pending = []) :=
  gestures_play_out played_doubleThenHold 1000

end Run

end KeyPanel.Virtual
