import EmbeddedProjects.KeyPanel.Gestures
import EmbeddedProjects.KeyPanel.InputCore

namespace KeyPanel.Virtual

open Handle

inductive TimerList
  | tmUp1
  | tmDown (i : Nat)
  | tmUp (i : Nat)
deriving DecidableEq

open TimerList

def pressLists (pressId : Nat) : List TimerList := [tmUp (pressId - 2), tmDown (pressId - 2)]

def listsOf (kevent : BitVec 32) : List TimerList :=
  if kevent = inPressAndHold then [tmUp1]
  else tmUp1 ::
    if kevent = inSinglePress then []
    else if kevent = inDoublePress then pressLists 2
    else if kevent = inTriplePress then pressLists 2 ++ pressLists 3
    else pressLists 2 ++ (pressLists 3 ++ pressLists 4)

def armedAt (t : Nat) (g : Gesture) : List (TimerList × Nat × BitVec 32) :=
  (listsOf g.2).zip (shifted t (armedBy g.1 g.2))

-- gestures may overlap, but none initialises a timer that is pending
structure Armed (scan : String → Option Gesture) (js : Nat → Jiffy) : Prop where
  served : ∀ t, Served (js t).outcomes
  keys : ∀ t g, gestureAt scan js t = some g → g.1.toNat < inKpNumKeys
  expired : ∀ s t g g', s < t → gestureAt scan js s = some g → gestureAt scan js t = some g' →
    ∀ x ∈ armedAt s g, x.1 ∈ listsOf g'.2 → x.2.1 < t

def KeyFrame (data : BitVec 32) : Prop :=
  ∃ key : BitVec 32, ∃ down : Bool, key.toNat < inKpNumKeys ∧ data = frame key down

structure Heard (device : Device) (frames : List (BitVec 32)) : Prop where
  holding : device.rxHoldingRegister = 0
  shown : device.keypanel.rxFrame = frames.getLastD 0
  reported : device.reported = (KeyPanel.run processFrame {} frames).flatten

structure Releases (t : Nat) (pending : List (Nat × BitVec 32)) (shown : BitVec 32) : Prop where
  later : ∀ timer ∈ pending, t ≤ timer.1
  timers : ∀ timer ∈ pending, timer.2 ≠ 0 → ∃ up ∈ pending, up.2 = 0 ∧ timer.1 < up.1
  shown : shown ≠ 0 → ∃ up ∈ pending, up.2 = 0

structure Pressed (t : Nat) (panel : Panel) (frames : List (BitVec 32)) : Prop where
  heard : Heard panel.device frames
  keys : ∀ f ∈ frames, KeyFrame f
  pending : ∀ timer ∈ panel.pending, KeyFrame timer.2
  releases : Releases t panel.pending (frames.getLastD 0)

structure Named (gs : Nat → Option Gesture) (t : Nat) (panel : Panel)
    (named : List (TimerList × Nat × BitVec 32)) : Prop where
  pending : named.map Prod.snd = panel.pending
  nodup : (named.map Prod.fst).Nodup
  written : ∀ x ∈ named, ∃ s g, s < t ∧ gs s = some g ∧ x ∈ armedAt s g

structure Tracks (gs : Nat → Option Gesture) (t : Nat) (panel : Panel) : Prop where
  reaches : ReachesUserSpace panel.device.reported
  keys : KeyFrame panel.device.keypanel.rxFrame
  known : replay 0 (Changes.forwarded 0 panel.device.reported) = panel.device.keypanel.rxFrame
  released : panel.pending = [] → panel.device.keypanel.rxFrame = 0
  once : ∃ named, Named gs t panel named

section Frames

variable {data key kevent : BitVec 32} {down : Bool}

theorem keyFrame_frame (hkey : key.toNat < inKpNumKeys) (down : Bool) :
    KeyFrame (frame key down) := ⟨key, down, hkey, rfl⟩

theorem keyFrame_zero : KeyFrame 0 := ⟨0, false, by decide, rfl⟩

theorem rotaryByte_frame : ∀ k : Fin 19, ∀ down : Bool,
    rotaryByte (frame (BitVec.ofNat 32 k) down) = 0 := by
  decide

theorem keyStatesOf_frame : ∀ k : Fin 19, ∀ down : Bool,
    keyStatesOf (frame (BitVec.ofNat 32 k) down) = frame (BitVec.ofNat 32 k) down := by
  decide

theorem KeyFrame.rotaryByte_eq_zero (h : KeyFrame data) : rotaryByte data = 0 := by
  obtain ⟨key, down, hkey, rfl⟩ := h
  have hofNat : BitVec.ofNat 32 key.toNat = key := by simp
  exact hofNat ▸ rotaryByte_frame ⟨key.toNat, hkey⟩ down

theorem KeyFrame.keyStatesOf_eq (h : KeyFrame data) : keyStatesOf data = data := by
  obtain ⟨key, down, hkey, rfl⟩ := h
  have hofNat : BitVec.ofNat 32 key.toNat = key := by simp
  exact hofNat ▸ keyStatesOf_frame ⟨key.toNat, hkey⟩ down

theorem keyFrame_of_armedBy (hpress : kevent ∈ pressEvents) (hkey : key.toNat < inKpNumKeys) :
    ∀ timer ∈ armedBy key kevent, KeyFrame timer.2 := by
  intro timer htimer
  obtain ⟨x, _, rfl⟩ := List.mem_map.mp ((armedBy_perm hpress).subset htimer)
  exact keyFrame_frame hkey x.2

theorem not_repeatsTurn {frames : List (BitVec 32)} (h : ∀ f ∈ frames, KeyFrame f) :
    ¬ RepeatsTurn frames := by
  rintro ⟨turn, idle, again, hpart, hsame⟩
  exact hsame.turn (h turn (hpart.subset List.mem_cons_self)).rotaryByte_eq_zero

theorem flatten_run_concat (keypanel : InsyncKeypanel) (frames : List (BitVec 32)) :
    (KeyPanel.run processFrame keypanel (frames ++ [data])).flatten =
      (KeyPanel.run processFrame keypanel frames).flatten ++
        (processFrame { keypanel with rxFrame := frames.getLastD keypanel.rxFrame } data).2 := by
  induction frames generalizing keypanel with
  | nil => simp [KeyPanel.run]
  | cons f frames ih =>
    have hlast : (f :: frames).getLastD keypanel.rxFrame = frames.getLastD f :=
      List.getLastD_cons
    rw [List.cons_append, KeyPanel.run, KeyPanel.run, List.flatten_cons, List.flatten_cons, ih,
      List.append_assoc, hlast]
    rfl

end Frames

section Timers

variable {key kevent shown : BitVec 32} {pending : List (Nat × BitVec 32)} {t : Nat}

theorem script_releases (h : kevent ∈ pressEvents) :
    (∃ up ∈ (script kevent).tail, up.2 = false) ∧
      ∀ x ∈ (script kevent).tail, x.2 = true →
        ∃ up ∈ (script kevent).tail, up.2 = false ∧ x.1 < up.1 := by
  obtain rfl | rfl | rfl | rfl | rfl := press_cases h <;> decide

theorem mem_armedBy_iff (h : kevent ∈ pressEvents) {timer : Nat × BitVec 32} :
    timer ∈ armedBy key kevent ↔
      ∃ x ∈ (script kevent).tail, (x.1, frame key x.2) = timer :=
  (armedBy_perm h).mem_iff.trans List.mem_map

theorem armedBy_releases (h : kevent ∈ pressEvents) :
    ∀ timer ∈ armedBy key kevent, timer.2 ≠ 0 →
      ∃ up ∈ armedBy key kevent, up.2 = 0 ∧ timer.1 < up.1 := by
  intro timer htimer hdown
  obtain ⟨x, hx, rfl⟩ := (mem_armedBy_iff h).mp htimer
  have hxdown : x.2 = true := by
    by_contra hup
    exact hdown (if_neg hup)
  obtain ⟨up, hmem, hup, hlater⟩ := (script_releases h).2 x hx hxdown
  exact ⟨(up.1, frame key up.2), (mem_armedBy_iff h).mpr ⟨up, hmem, rfl⟩, by rw [hup]; rfl, hlater⟩

theorem length_listsOf (h : kevent ∈ pressEvents) :
    (listsOf kevent).length = (shifted t (armedBy key kevent)).length := by
  obtain rfl | rfl | rfl | rfl | rfl := press_cases h <;> rfl

theorem nodup_listsOf (h : kevent ∈ pressEvents) : (listsOf kevent).Nodup := by
  obtain rfl | rfl | rfl | rfl | rfl := press_cases h <;> decide

theorem armedBy_up (h : kevent ∈ pressEvents) : ∃ up ∈ armedBy key kevent, up.2 = 0 := by
  obtain ⟨up, hmem, hup⟩ := (script_releases h).1
  exact ⟨(up.1, frame key up.2), (mem_armedBy_iff h).mpr ⟨up, hmem, rfl⟩, by rw [hup]; rfl⟩

theorem Releases.expire (h : Releases t pending shown) :
    Releases (t + 1) (pending.filter (·.1 ≠ t))
      (((pending.filter (·.1 = t)).map Prod.snd).getLastD shown) := by
  have hmem : ∀ {timer}, timer ∈ pending.filter (·.1 ≠ t) ↔ timer ∈ pending ∧ timer.1 ≠ t := by
    simp
  have hup : ∀ timer ∈ pending, timer.2 ≠ 0 →
      ∃ up ∈ pending.filter (·.1 ≠ t), up.2 = 0 ∧ timer.1 < up.1 := by
    intro timer htimer hdown
    obtain ⟨up, hin, hzero, hlater⟩ := h.timers timer htimer hdown
    have := h.later timer htimer
    exact ⟨up, hmem.mpr ⟨hin, by omega⟩, hzero, hlater⟩
  refine ⟨fun timer htimer => ?_, fun timer htimer => hup timer (hmem.mp htimer).1,
    fun hdown => ?_⟩
  · have := h.later timer (hmem.mp htimer).1
    have := (hmem.mp htimer).2
    omega
  · rcases List.eq_nil_or_concat' (pending.filter (·.1 = t)) with hnone | ⟨before, last, hdue⟩
    · rw [hnone] at hdown
      obtain ⟨up, hin, hzero⟩ := h.shown hdown
      have hlate := List.filter_eq_nil_iff.mp hnone up hin
      exact ⟨up, hmem.mpr ⟨hin, by simpa using hlate⟩, hzero⟩
    · rw [hdue, List.map_append, List.map_singleton, List.getLastD_concat] at hdown
      have hlast : last ∈ pending.filter (·.1 = t) := by
        rw [hdue]
        simp
      obtain ⟨up, hin, hzero, -⟩ := hup last (List.mem_of_mem_filter hlast) hdown
      exact ⟨up, hin, hzero⟩

theorem Releases.press (h : Releases (t + 1) pending shown) (hpress : kevent ∈ pressEvents)
    (data : BitVec 32) :
    Releases (t + 1) (pending ++ shifted t (armedBy key kevent)) data := by
  have hshift : ∀ {timer}, timer ∈ armedBy key kevent →
      (t + timer.1, timer.2) ∈ pending ++ shifted t (armedBy key kevent) := fun htimer =>
    List.mem_append_right pending (List.mem_map_of_mem htimer)
  refine ⟨?_, ?_, fun _ => ?_⟩
  · refine List.forall_mem_append.mpr ⟨h.later, fun timer htimer => ?_⟩
    obtain ⟨armed, harmed, rfl⟩ := List.mem_map.mp htimer
    obtain ⟨y, hy, hoff⟩ := mem_armedBy hpress harmed
    have := script_tail_pos hpress y hy
    change t + 1 ≤ t + armed.1
    omega
  · refine List.forall_mem_append.mpr ⟨fun timer htimer hdown => ?_, fun timer htimer hdown => ?_⟩
    · obtain ⟨up, hin, hzero, hlater⟩ := h.timers timer htimer hdown
      exact ⟨up, List.mem_append_left _ hin, hzero, hlater⟩
    · obtain ⟨armed, harmed, rfl⟩ := List.mem_map.mp htimer
      obtain ⟨up, hin, hzero, hlater⟩ := armedBy_releases hpress armed harmed hdown
      exact ⟨_, hshift hin, hzero, Nat.add_lt_add_left hlater t⟩
  · obtain ⟨up, hin, hzero⟩ : ∃ up ∈ armedBy key kevent, up.2 = 0 := armedBy_up hpress
    exact ⟨_, hshift hin, hzero⟩

end Timers

section Run

variable {device : Device} {panel : Panel} {frames : List (BitVec 32)} {data : BitVec 32}
  {scan : String → Option Gesture} {js : Nat → Jiffy} {gs : Nat → Option Gesture} {j : Jiffy}
  {t : Nat} {g : Gesture} {named : List (TimerList × Nat × BitVec 32)}

theorem Heard.receive (h : Heard device frames) (data : BitVec 32) :
    Heard (receive device data) (frames ++ [data]) := by
  have hframe : device.rxHoldingRegister ||| data = data := by
    rw [h.holding]
    exact BitVec.zero_or
  have hevents : (processFrame device.keypanel data).2 =
      (processFrame { rxFrame := frames.getLastD 0 } data).2 := by
    rw [← h.shown]
    rfl
  have hlast : (frames ++ [data]).getLastD 0 = data := by simp
  refine ⟨rfl, hframe.trans hlast.symm, ?_⟩
  rw [flatten_run_concat, ← h.reported]
  change device.reported ++
    (processFrame device.keypanel (device.rxHoldingRegister ||| data)).2 = _
  rw [hframe, hevents]

theorem Heard.foldl (h : Heard device frames) (due : List (BitVec 32)) :
    Heard (due.foldl Virtual.receive device) (frames ++ due) := by
  induction due generalizing device frames with
  | nil => rwa [List.append_nil]
  | cons data due ih =>
    have hrest := ih (h.receive data)
    rwa [List.append_assoc, List.singleton_append] at hrest

theorem Pressed.keyFrame_due (h : Pressed t panel frames) :
    ∀ data ∈ panel.due t, KeyFrame data := by
  intro data hdata
  obtain ⟨timer, htimer, rfl⟩ := List.mem_map.mp hdata
  exact h.pending timer (List.mem_of_mem_filter htimer)

theorem Pressed.played (h : Pressed t panel frames) :
    Heard (played panel t) (frames ++ panel.due t) ∧
      ∀ f ∈ frames ++ panel.due t, KeyFrame f := by
  have hidle : Heard { panel.device with timers := [] } frames :=
    ⟨h.heard.holding, h.heard.shown, h.heard.reported⟩
  exact ⟨hidle.foldl (panel.due t), List.forall_mem_append.mpr ⟨h.keys, h.keyFrame_due⟩⟩

theorem Pressed.expired (h : Pressed t panel frames) :
    Releases (t + 1) (panel.pending.filter (·.1 ≠ t)) ((frames ++ panel.due t).getLastD 0) := by
  have hlast : (frames ++ panel.due t).getLastD 0 = (panel.due t).getLastD (frames.getLastD 0) := by
    simp only [List.getLastD_eq_getLast?, List.getLast?_append, Option.getD_or]
  rw [hlast]
  exact h.releases.expire

theorem Pressed.step (h : Pressed t panel frames) (hj : Served j.outcomes)
    (hkeys : ∀ g, gestureOf scan j.buffer = some g → g.1.toNat < inKpNumKeys) :
    ∃ frames', Pressed (t + 1) (panel.step scan (t, j)) frames' := by
  obtain ⟨hheard, hframes⟩ := h.played
  have hrest : ∀ timer ∈ panel.pending.filter (·.1 ≠ t), KeyFrame timer.2 := fun timer htimer =>
    h.pending timer (List.mem_of_mem_filter htimer)
  rw [step_eq hj]
  cases hg : gestureOf scan j.buffer with
  | none => exact ⟨_, hheard, hframes, hrest, h.expired⟩
  | some g =>
    have hkey := hkeys g hg
    have hpress := mem_pressEvents hg
    have hdown := hheard.receive (1#32 <<< g.1)
    refine ⟨_, ⟨hdown.holding, hdown.shown, hdown.reported⟩, ?_, ?_, h.expired.press hpress _⟩
    · exact List.forall_mem_append.mpr
        ⟨hframes, List.forall_mem_singleton.mpr (keyFrame_frame hkey true)⟩
    · refine List.forall_mem_append.mpr ⟨hrest, fun timer htimer => ?_⟩
      obtain ⟨armed, harmed, rfl⟩ := List.mem_map.mp htimer
      exact keyFrame_of_armedBy hpress hkey armed harmed

theorem Named.rest (h : Named gs t panel named) :
    (named.filter (·.2.1 ≠ t)).map Prod.snd = panel.pending.filter (·.1 ≠ t) ∧
      ((named.filter (·.2.1 ≠ t)).map Prod.fst).Nodup := by
  refine ⟨?_, (List.filter_sublist.map Prod.fst).nodup h.nodup⟩
  rw [← h.pending, List.filter_map]
  rfl

theorem Named.not_listed (h : Named (gestureAt scan js) t panel named) (harmed : Armed scan js)
    (hlater : ∀ timer ∈ panel.pending, t ≤ timer.1) (hg : gestureAt scan js t = some g) :
    ∀ x ∈ named, x.1 ∉ listsOf g.2 := by
  intro x hx hagain
  obtain ⟨s, g₀, hst, hg₀, hmem⟩ := h.written x hx
  have hpassed := harmed.expired s t g₀ g hst hg₀ hg x hmem hagain
  have hdue := hlater x.2 (h.pending ▸ List.mem_map_of_mem hx)
  exact absurd hpassed (Nat.not_lt.mpr hdue)

theorem armedAt_lists (t : Nat) (hpress : g.2 ∈ pressEvents) :
    (armedAt t g).map Prod.fst = listsOf g.2 :=
  List.map_fst_zip (length_listsOf hpress).le

theorem armedAt_shifted (t : Nat) (hpress : g.2 ∈ pressEvents) :
    (armedAt t g).map Prod.snd = shifted t (armedBy g.1 g.2) :=
  List.map_snd_zip (length_listsOf hpress).ge

theorem Named.step (h : Named (gestureAt scan js) t panel named) (harmed : Armed scan js)
    (hlater : ∀ timer ∈ panel.pending, t ≤ timer.1) :
    ∃ named', Named (gestureAt scan js) (t + 1) (panel.step scan (t, js t)) named' := by
  obtain ⟨hpending, hnodup⟩ := h.rest
  have hwritten : ∀ x ∈ named.filter (·.2.1 ≠ t), ∃ s g, s < t + 1 ∧
      gestureAt scan js s = some g ∧ x ∈ armedAt s g := by
    intro x hx
    obtain ⟨s, g, hst, hg, hmem⟩ := h.written x (List.mem_of_mem_filter hx)
    exact ⟨s, g, Nat.lt_succ_of_lt hst, hg, hmem⟩
  rw [step_eq (harmed.served t)]
  cases hg : gestureOf scan (js t).buffer with
  | none => exact ⟨_, hpending, hnodup, hwritten⟩
  | some g =>
    have hpress := mem_pressEvents hg
    refine ⟨named.filter (·.2.1 ≠ t) ++ armedAt t g, ?_, ?_, ?_⟩
    · rw [List.map_append, hpending, armedAt_shifted t hpress]
      rfl
    · rw [List.map_append, armedAt_lists t hpress]
      refine List.Nodup.append hnodup (nodup_listsOf hpress) fun name hold hagain => ?_
      obtain ⟨x, hx, rfl⟩ := List.mem_map.mp hold
      exact h.not_listed harmed hlater hg x (List.mem_of_mem_filter hx) hagain
    · exact List.forall_mem_append.mpr
        ⟨hwritten, fun x hx => ⟨t, g, Nat.lt_succ_self t, hg, hx⟩⟩

theorem pressed_panelAt (h : Armed scan js) (t : Nat) :
    ∃ frames named, Pressed t (panelAt scan js t) frames ∧
      Named (gestureAt scan js) t (panelAt scan js t) named := by
  induction t with
  | zero =>
    have hnone : Releases 0 [] 0 := ⟨by simp, by simp, by simp⟩
    have hidle : ∀ timer ∈ (panelAt scan js 0).pending, KeyFrame timer.2 := by
      intro timer htimer
      cases htimer
    exact ⟨[], [], ⟨⟨rfl, rfl, rfl⟩, by simp, hidle, hnone⟩, rfl, List.nodup_nil, by simp⟩
  | succ t ih =>
    obtain ⟨frames, named, hpressed, hnamed⟩ := ih
    obtain ⟨frames', hpressed'⟩ := hpressed.step (h.served t) (h.keys t)
    obtain ⟨named', hnamed'⟩ := hnamed.step h hpressed.releases.later
    exact ⟨frames', named', hpressed', hnamed'⟩

theorem Pressed.tracks (h : Pressed t panel frames) (hnamed : Named gs t panel named) :
    Tracks gs t panel := by
  have hreaches : ReachesUserSpace panel.device.reported := by
    rw [h.heard.reported]
    exact (reachesUserSpace_run_iff {} frames).mpr (not_repeatsTurn h.keys)
  have hlast : KeyFrame (frames.getLastD 0) := by
    rcases List.eq_nil_or_concat' frames with rfl | ⟨before, last, rfl⟩
    · exact keyFrame_zero
    · rw [List.getLastD_concat]
      exact h.keys last (by simp)
  refine ⟨hreaches, h.heard.shown ▸ hlast, ?_, fun hidle => ?_, named, hnamed⟩
  · rw [hreaches.complete, h.heard.reported, h.heard.shown]
    exact (replay_run {} frames).trans hlast.keyStatesOf_eq
  · rw [h.heard.shown]
    by_contra hdown
    obtain ⟨up, hup, -⟩ := h.releases.shown hdown
    rw [hidle] at hup
    cases hup

end Run

theorem Played.armed {scan : String → Option Gesture} {js : Nat → Jiffy} (h : Played scan js) :
    Armed scan js where
  served := h.served
  keys := h.keys
  expired s t g g' hst hg hg' x hx _ := by
    obtain ⟨timer, htimer, heq⟩ := List.mem_map.mp (List.of_mem_zip hx).2
    obtain ⟨y, hy, hoff⟩ := mem_armedBy (mem_pressEvents hg) htimer
    have hwritten : gestureAt scan js t ≠ none := by
      rw [hg']
      exact Option.some_ne_none g'
    have hover := h.spaced s t g hst hg hwritten y (List.mem_of_mem_tail hy)
    rw [← heq]
    exact hoff ▸ hover

theorem presses_reach_user_space (scan : String → Option Gesture) (js : Nat → Jiffy)
    (h : Armed scan js) (t : Nat) : Tracks (gestureAt scan js) t (panelAt scan js t) := by
  obtain ⟨frames, named, hpressed, hnamed⟩ := pressed_panelAt h t
  exact hpressed.tracks hnamed

def pressedBetween : Nat → Jiffy := fun t =>
  ⟨if t = 0 then some "3,6" else if t = 300 then some "5,4" else none, Stream'.const (.ok ())⟩

def scanPressedBetween (buffer : String) : Option Gesture :=
  if buffer = "3,6" then some (3, inDoublePress)
  else if buffer = "5,4" then some (5, inSinglePress) else none

theorem gestureAt_pressedBetween {t : Nat} {g : Gesture} :
    gestureAt scanPressedBetween pressedBetween t = some g ↔
      t = 0 ∧ g = (3, inDoublePress) ∨ t = 300 ∧ g = (5, inSinglePress) := by
  have hgesture : gestureAt scanPressedBetween pressedBetween t =
      if t = 0 then some (3, inDoublePress) else if t = 300 then some (5, inSinglePress)
      else none := by
    rw [gestureAt, pressedBetween]
    split
    · decide
    · split
      · decide
      · rfl
  rw [hgesture]
  by_cases hfirst : t = 0
  · simp [hfirst, eq_comm]
  · by_cases hsecond : t = 300
    · simp [hsecond, eq_comm]
    · simp [hfirst, hsecond]

theorem armed_pressedBetween : Armed scanPressedBetween pressedBetween where
  served _ _ := rfl
  keys t g h := by
    obtain ⟨-, rfl⟩ | ⟨-, rfl⟩ := gestureAt_pressedBetween.mp h <;> decide
  expired s t g g' hst hg hg' := by
    obtain ⟨rfl, rfl⟩ | ⟨rfl, rfl⟩ := gestureAt_pressedBetween.mp hg
    · obtain ⟨rfl, rfl⟩ | ⟨rfl, rfl⟩ := gestureAt_pressedBetween.mp hg'
      · cases hst
      · decide
    · obtain ⟨rfl, -⟩ | ⟨rfl, -⟩ := gestureAt_pressedBetween.mp hg' <;> omega

theorem presses_reach_user_space_between :
    ¬ Spaced (gestureAt scanPressedBetween pressedBetween) ∧
      Tracks (gestureAt scanPressedBetween pressedBetween) 1000
        (panelAt scanPressedBetween pressedBetween 1000) := by
  refine ⟨fun hspaced => ?_, presses_reach_user_space _ _ armed_pressedBetween 1000⟩
  have hfirst : gestureAt scanPressedBetween pressedBetween 0 = some (3, inDoublePress) :=
    gestureAt_pressedBetween.mpr (.inl ⟨rfl, rfl⟩)
  have hsecond : gestureAt scanPressedBetween pressedBetween 300 = some (5, inSinglePress) :=
    gestureAt_pressedBetween.mpr (.inr ⟨rfl, rfl⟩)
  have hover := hspaced 0 300 _ (by decide) hfirst (by rw [hsecond]; exact Option.some_ne_none _)
    (400, true) (by decide)
  exact absurd hover (by decide)

end KeyPanel.Virtual
