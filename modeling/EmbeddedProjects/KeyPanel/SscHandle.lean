import EmbeddedProjects.Lib.Handle
import EmbeddedProjects.KeyPanel.RxFrame

namespace KeyPanel

open Handle

inductive Errno where
  | ebusy
  | enodev
  deriving DecidableEq, Repr

structure Device where
  keypanel : InsyncKeypanel := {}
  thr : BitVec 32 := 0
  rxHoldingRegister : BitVec 32 := 0
  reported : List (BitVec 32) := []
  timers : List (Nat × BitVec 32) := []

def inSscRequest (sscList : List Nat) (sscNum : Nat) (keypanel : InsyncKeypanel) :
    Outcome Errno × InsyncKeypanel :=
  if sscNum ∉ sscList then (.error .enodev, keypanel)
  else if keypanel.user ≠ 0 then (.error .ebusy, keypanel)
  else (.ok (), { keypanel with user := keypanel.user + 1 })

def inSscFree (keypanel : InsyncKeypanel) : InsyncKeypanel :=
  if keypanel.user ≠ 0 then { keypanel with user := keypanel.user - 1 } else keypanel

inductive Action where
  | writeThr (ledStates : BitVec 32)
  | orRxHoldingRegister (data : BitVec 32)
  | processRxDataFrame
  | addTimer (delay : Nat) (data : BitVec 32)

def Device.perform (device : Device) : Action → Device
  | .writeThr ledStates => { device with thr := ledStates }
  | .orRxHoldingRegister data =>
    { device with rxHoldingRegister := device.rxHoldingRegister ||| data }
  | .processRxDataFrame =>
    let (keypanel, rxHoldingRegister, events) :=
      Virtual.processRxDataFrame device.keypanel device.rxHoldingRegister
    { device with keypanel, rxHoldingRegister, reported := device.reported ++ events }
  | .addTimer delay data => { device with timers := device.timers ++ [(delay, data)] }

abbrev Command := Prog Action Errno

def perform (a : Action) : Command Unit := .act a (pure ())

def free (keypanel : Outcome Errno) : Command Unit := .free keypanel (pure ())

-- the first number is 8 - tries; at tries > 7 the loop is left before the handle is looked at
def retry : Nat → Nat → Outcome Errno → Command (Outcome Errno × Nat)
  | 0, tries, keypanel => pure (keypanel, tries)
  | _ + 1, tries, .ok () => pure (.ok (), tries)
  | left + 1, tries, .error _ => .request (retry left (tries + 1))

def acquire : Command (Outcome Errno × Nat) := .request (retry 8 0)

namespace Insync

def writeLedDataframe (sscanf : String → Option (BitVec 32)) (buffer : String) (count : Nat) :
    Command Int :=
  match sscanf buffer with
  | none => pure (-1)
  | some ledStates => do
    let ledStates := ledStates &&& inKpLedActiveStatesMask
    let (keypanel, tries) ← acquire
    if tries > 7 then
      free keypanel
      return -1
    else
      perform (.writeThr ledStates)
      free keypanel
      return count

end Insync

namespace Virtual

def insyncKeypanelInterrupt (data : BitVec 32) : Command Unit := do
  perform (.orRxHoldingRegister data)
  let (keypanel, tries) ← acquire
  if tries > 7 then
    return
  else
    perform .processRxDataFrame
    free keypanel

def writeLedDataframe (sscanf : String → Option (BitVec 32)) (buffer : String) (count : Nat) :
    Command Int :=
  match sscanf buffer with
  | none => pure (-1)
  | some _ => do
    let (keypanel, tries) ← acquire
    if tries > 7 then
      return -1
    else
      free keypanel
      return count

-- a timer is armed with how far from `jiffies` it expires; a shift by 32 or more gives 0
def firstPress (key : BitVec 32) : Command Unit := do
  insyncKeypanelInterrupt (1#32 <<< key)
  perform (.addTimer inSimKeyUpTime 0)

def pressAndHold (key : BitVec 32) : Command Unit := do
  insyncKeypanelInterrupt (1#32 <<< key)
  perform (.addTimer inSimHoldUpTime 0)

def press (pressId : Nat) (key : BitVec 32) : Command Unit := do
  perform (.addTimer ((pressId - 1) * inSimNextPressTime + inSimKeyUpTime) 0)
  perform (.addTimer ((pressId - 1) * inSimNextPressTime) (1#32 <<< key))

def simulateKeyEvent (key kevent : BitVec 32) : Command Unit :=
  if kevent = inSinglePress then firstPress key
  else if kevent = inDoublePress then do
    firstPress key
    press 2 key
  else if kevent = inTriplePress then do
    firstPress key
    press 2 key
    press 3 key
  else if kevent = inQuadPress then do
    firstPress key
    press 2 key
    press 3 key
    press 4 key
  else if kevent = inPressAndHold then pressAndHold key
  else pure ()

def writeRxData (sscanf : String → Option (BitVec 32 × BitVec 32)) (buffer : String)
    (count : Nat) : Command Int :=
  match sscanf buffer with
  | none => pure (-1)
  | some (key, kevent) => do
    let (keypanel, tries) ← acquire
    if tries > 7 then
      free keypanel
      return -1
    else
      free keypanel
      simulateKeyEvent key kevent
      return count

end Virtual

-- the last request gets the handle, and nothing looks at it
def TakenLast (outcomes : Stream' (Outcome Errno)) : Prop :=
  Refused outcomes 8 ∧ outcomes.get 8 = .ok ()

inductive Insync.Entry where
  | writeLedDataframe (buffer : String) (count : Nat)

inductive Virtual.Entry where
  | insyncKeypanelInterrupt (data : BitVec 32)
  | writeLedDataframe (buffer : String) (count : Nat)
  | writeRxData (buffer : String) (count : Nat)

section Entries

variable (scanLed : String → Option (BitVec 32))
  (scanRx : String → Option (BitVec 32 × BitVec 32))

def Insync.program : Insync.Entry → Command Int
  | .writeLedDataframe buffer count => Insync.writeLedDataframe scanLed buffer count

def Virtual.program : Virtual.Entry → Command Int
  | .insyncKeypanelInterrupt data => do
    Virtual.insyncKeypanelInterrupt data
    return 0
  | .writeLedDataframe buffer count => Virtual.writeLedDataframe scanLed buffer count
  | .writeRxData buffer count => Virtual.writeRxData scanRx buffer count

def Insync.OutcomesOk : Insync.Entry → Stream' (Outcome Errno) → Prop
  | .writeLedDataframe buffer _, o => scanLed buffer = none ∨ ¬ Refused o 9

def Virtual.pressEvents : List (BitVec 32) :=
  [inSinglePress, inDoublePress, inTriplePress, inQuadPress, inPressAndHold]

def Virtual.PressOk (kevent : BitVec 32) (o : Stream' (Outcome Errno)) : Prop :=
  kevent ∈ pressEvents → ∀ n < 8, Refused o n → o.get n = .ok () → ¬ TakenLast (o.drop (n + 1))

def Virtual.OutcomesOk : Virtual.Entry → Stream' (Outcome Errno) → Prop
  | .insyncKeypanelInterrupt _, o => ¬ TakenLast o
  | .writeLedDataframe buffer _, o => scanLed buffer = none ∨ ¬ TakenLast o
  | .writeRxData buffer _, o =>
    ∀ key kevent, scanRx buffer = some (key, kevent) → ¬ Refused o 9 ∧ PressOk kevent o

end Entries

section Acquire

variable {o : Stream' (Outcome Errno)} {n : Nat} {ρ : Type}

theorem calls_retry_taken (f : Outcome Errno × Nat → Command ρ) {left : Nat} (tries : Nat)
    (hn : n ≤ left) (h : Refused o n) (hok : o.get n = .ok ()) :
    ((Prog.request (retry left tries)).bind f).calls o =
      (o.take n).map Call.request ++
        .request (.ok ()) :: (f (.ok (), tries + n)).calls (o.drop (n + 1)) := by
  induction n generalizing o left tries with
  | zero =>
    have hhead : o.head = .ok () := hok
    have hleft : retry left tries (.ok ()) = .done (.ok (), tries) := by cases left <;> rfl
    rw [Prog.bind, Prog.calls, hhead, hleft]
    rfl
  | succ n ih =>
    obtain ⟨e, hk, htail⟩ := h.cons
    cases left with
    | zero => exact absurd hn (Nat.not_succ_le_zero n)
    | succ left =>
      have hrest := ih (tries + 1) (Nat.le_of_succ_le_succ hn) htail hok
      have htries : tries + (n + 1) = tries + 1 + n := by omega
      rw [Stream'.take_succ, List.map_cons, List.cons_append, Prog.bind, Prog.calls, hk, htries]
      exact congrArg (_ :: ·) hrest

theorem calls_retry_refused (f : Outcome Errno × Nat → Command ρ) (left tries : Nat)
    (h : Refused o (left + 1)) :
    ∃ e, ((Prog.request (retry left tries)).bind f).calls o =
      (o.take (left + 1)).map Call.request ++
        (f (.error e, tries + left)).calls (o.drop (left + 1)) := by
  induction left generalizing o tries with
  | zero =>
    obtain ⟨e, hk, _⟩ := h.cons
    refine ⟨e, ?_⟩
    rw [Stream'.take_succ, List.map_cons, Prog.bind, Prog.calls, hk]
    rfl
  | succ left ih =>
    obtain ⟨e, hk, htail⟩ := h.cons
    obtain ⟨e', hrest⟩ := ih (tries + 1) htail
    have htries : tries + (left + 1) = tries + 1 + left := by omega
    refine ⟨e', ?_⟩
    rw [Stream'.take_succ, List.map_cons, List.cons_append, Prog.bind, Prog.calls, hk, htries]
    exact congrArg (_ :: ·) hrest

theorem held_acquire_taken (f : Outcome Errno × Nat → Command ρ) (hn : n ≤ 8) (h : Refused o n)
    (hok : o.get n = .ok ()) :
    held false ((acquire.bind f).calls o) =
      held true ((f (.ok (), n)).calls (o.drop (n + 1))) := by
  rw [acquire, calls_retry_taken f 0 hn h hok, held_refused false h, held_cons, Nat.zero_add]
  rfl

theorem calls_acquire_refused (f : Outcome Errno × Nat → Command ρ) (h : Refused o 9) :
    ∃ e, (acquire.bind f).calls o =
      (o.take 9).map Call.request ++ (f (.error e, 8)).calls (o.drop 9) :=
  calls_retry_refused f 8 0 h

section Keeping

variable {f : Outcome Errno × Nat → Command ρ}

theorem held_keeping (hgiveUp : ∀ k o', (f (k, 8)).calls o' = [])
    (huse : ∀ n, ¬ n > 7 → ∀ o', held true ((f (.ok (), n)).calls o') = some false)
    (h : ¬ TakenLast o) : held false ((acquire.bind f).calls o) = some false := by
  obtain hrefused | ⟨n, hn, hrefused, hok⟩ := refused_or_taken o 9
  · obtain ⟨e, hcalls⟩ := calls_acquire_refused f hrefused
    rw [hcalls, held_refused false hrefused, hgiveUp]
    rfl
  · have hlast : n ≠ 8 := by
      rintro rfl
      exact h ⟨hrefused, hok⟩
    rw [held_acquire_taken f (Nat.le_of_lt_succ hn) hrefused hok]
    exact huse n (by omega) _

theorem held_keeping_of_takenLast (hgiveUp : ∀ k o', (f (k, 8)).calls o' = [])
    (h : TakenLast o) : held false ((acquire.bind f).calls o) = some true := by
  rw [held_acquire_taken f (Nat.le_refl 8) h.1 h.2, hgiveUp]
  rfl

theorem not_balanced_freeing (hgiveUp : ∀ k o', ∃ cs, (f (k, 8)).calls o' = .free k :: cs)
    (h : Refused o 9) : ¬ Balanced ((acquire.bind f).calls o) := by
  obtain ⟨e, hcalls⟩ := calls_acquire_refused f h
  obtain ⟨cs, hfree⟩ := hgiveUp (.error e) (o.drop 9)
  refine not_balanced_of_mem (e := e) ?_
  rw [hcalls, hfree]
  exact List.mem_append_right _ List.mem_cons_self

end Keeping

end Acquire

section Balance

variable {o : Stream' (Outcome Errno)} {buffer : String} {count : Nat}
  {key kevent data led : BitVec 32} {scanLed : String → Option (BitVec 32)}
  {scanRx : String → Option (BitVec 32 × BitVec 32)}

namespace Insync

theorem held_writeLedDataframe (h : ¬ Refused o 9) :
    held false ((writeLedDataframe scanLed buffer count).calls o) = some false := by
  rw [writeLedDataframe]
  cases scanLed buffer with
  | none => rfl
  | some ledStates =>
    obtain hrefused | ⟨n, hn, hrefused, hok⟩ := refused_or_taken o 9
    · exact absurd hrefused h
    · refine (held_acquire_taken _ (Nat.le_of_lt_succ hn) hrefused hok).trans ?_
      by_cases hlast : n > 7
      · simp only [hlast, if_true]
        rfl
      · simp only [hlast, if_false]
        rfl

theorem not_balanced_writeLedDataframe (hscan : scanLed buffer = some led) (h : Refused o 9) :
    ¬ Balanced ((writeLedDataframe scanLed buffer count).calls o) := by
  rw [writeLedDataframe, hscan]
  exact not_balanced_freeing (fun _ _ => ⟨_, rfl⟩) h

end Insync

namespace Virtual

theorem held_insyncKeypanelInterrupt (h : ¬ TakenLast o) :
    held false ((insyncKeypanelInterrupt data).calls o) = some false := by
  refine held_keeping (fun _ _ => rfl) (fun n hn o' => ?_) h
  simp only [hn, if_false]
  rfl

theorem held_insyncKeypanelInterrupt_of_takenLast (h : TakenLast o) :
    held false ((insyncKeypanelInterrupt data).calls o) = some true :=
  held_keeping_of_takenLast (fun _ _ => rfl) h

theorem held_writeLedDataframe (h : scanLed buffer = none ∨ ¬ TakenLast o) :
    held false ((writeLedDataframe scanLed buffer count).calls o) = some false := by
  rw [writeLedDataframe]
  cases hscan : scanLed buffer with
  | none => rfl
  | some led =>
    refine held_keeping (fun _ _ => rfl) (fun n hn o' => ?_) (h.resolve_left (by simp [hscan]))
    simp only [hn, if_false]
    rfl

theorem held_writeLedDataframe_of_takenLast (hscan : scanLed buffer = some led)
    (h : TakenLast o) :
    held false ((writeLedDataframe scanLed buffer count).calls o) = some true := by
  rw [writeLedDataframe, hscan]
  exact held_keeping_of_takenLast (fun _ _ => rfl) h

theorem calls_firstPress (o : Stream' (Outcome Errno)) :
    (firstPress key).calls o = (insyncKeypanelInterrupt (1#32 <<< key)).calls o :=
  Prog.calls_bind_silent _ (fun _ _ => rfl) o

theorem calls_firstPress_silent {next : Unit → Command Unit}
    (h : ∀ r o', (next r).calls o' = []) (o : Stream' (Outcome Errno)) :
    ((firstPress key).bind next).calls o =
      (insyncKeypanelInterrupt (1#32 <<< key)).calls o :=
  (Prog.calls_bind_silent _ h o).trans (calls_firstPress o)

theorem calls_simulateKeyEvent (o : Stream' (Outcome Errno)) :
    (simulateKeyEvent key kevent).calls o =
      if kevent ∈ pressEvents then (insyncKeypanelInterrupt (1#32 <<< key)).calls o else [] := by
  by_cases hmem : kevent ∈ pressEvents
  · rw [if_pos hmem]
    simp only [pressEvents, List.mem_cons, List.not_mem_nil, or_false] at hmem
    obtain rfl | rfl | rfl | rfl | rfl := hmem
    · exact calls_firstPress o
    · exact calls_firstPress_silent (fun _ _ => rfl) o
    · exact calls_firstPress_silent (fun _ _ => rfl) o
    · exact calls_firstPress_silent (fun _ _ => rfl) o
    · exact Prog.calls_bind_silent _ (fun _ _ => rfl) o
  · rw [if_neg hmem]
    simp only [pressEvents, List.mem_cons, List.not_mem_nil, or_false, not_or] at hmem
    obtain ⟨hsingle, hdouble, htriple, hquad, hhold⟩ := hmem
    simp only [simulateKeyEvent, hsingle, hdouble, htriple, hquad, hhold, if_false]
    rfl

theorem held_writeRxData_taken {n : Nat} (hscan : scanRx buffer = some (key, kevent))
    (hn : n < 8) (hrefused : Refused o n) (hok : o.get n = .ok ()) :
    held false ((writeRxData scanRx buffer count).calls o) =
      if kevent ∈ pressEvents then
        held false ((insyncKeypanelInterrupt (1#32 <<< key)).calls (o.drop (n + 1)))
      else some false := by
  have htries : ¬ n > 7 := by omega
  have hreturn : ((simulateKeyEvent key kevent).bind fun _ => pure (count : Int)).calls
      (o.drop (n + 1)) = (simulateKeyEvent key kevent).calls (o.drop (n + 1)) :=
    Prog.calls_bind_silent _ (fun _ _ => rfl) _
  rw [writeRxData, hscan]
  refine (held_acquire_taken _ (Nat.le_of_lt hn) hrefused hok).trans ?_
  simp only [htries, if_false]
  refine (congrArg (held false) (hreturn.trans (calls_simulateKeyEvent _))).trans ?_
  rw [apply_ite (held false)]
  rfl

theorem held_writeRxData (hscan : scanRx buffer = some (key, kevent)) (h : ¬ Refused o 9)
    (hpress : PressOk kevent o) :
    held false ((writeRxData scanRx buffer count).calls o) = some false := by
  obtain hrefused | ⟨n, hn, hrefused, hok⟩ := refused_or_taken o 9
  · exact absurd hrefused h
  · obtain hn | rfl := Nat.lt_succ_iff_lt_or_eq.mp hn
    · rw [held_writeRxData_taken hscan hn hrefused hok]
      split
      next hmem => exact held_insyncKeypanelInterrupt (hpress hmem n hn hrefused hok)
      next => rfl
    · rw [writeRxData, hscan]
      exact held_acquire_taken _ (Nat.le_refl 8) hrefused hok

theorem not_balanced_writeRxData (hscan : scanRx buffer = some (key, kevent))
    (h : Refused o 9) : ¬ Balanced ((writeRxData scanRx buffer count).calls o) := by
  rw [writeRxData, hscan]
  exact not_balanced_freeing (fun _ _ => ⟨_, rfl⟩) h

end Virtual

end Balance

section Outcomes

variable {scanLed : String → Option (BitVec 32)}
  {scanRx : String → Option (BitVec 32 × BitVec 32)} {o : Stream' (Outcome Errno)}

theorem Insync.held_program {entry : Insync.Entry} (h : OutcomesOk scanLed entry o) :
    held false ((program scanLed entry).calls o) = some false := by
  cases entry with
  | writeLedDataframe buffer count =>
    obtain hscan | h := h
    · rw [program, writeLedDataframe, hscan]
      rfl
    · exact held_writeLedDataframe h

theorem Insync.balanced_program_iff (entry : Insync.Entry) :
    Balanced ((program scanLed entry).calls o) ↔ OutcomesOk scanLed entry o := by
  refine ⟨fun hbalanced => ?_, fun h => balanced_of_held (held_program h)⟩
  cases entry with
  | writeLedDataframe buffer count =>
    cases hscan : scanLed buffer with
    | none => exact .inl hscan
    | some led => exact .inr fun h => not_balanced_writeLedDataframe hscan h hbalanced

theorem Virtual.held_program {entry : Virtual.Entry} (h : OutcomesOk scanLed scanRx entry o) :
    held false ((program scanLed scanRx entry).calls o) = some false := by
  cases entry with
  | insyncKeypanelInterrupt data =>
    exact (congrArg (held false) (Prog.calls_bind_silent _ (fun _ _ => rfl) o)).trans
      (held_insyncKeypanelInterrupt h)
  | writeLedDataframe buffer count => exact held_writeLedDataframe h
  | writeRxData buffer count =>
    cases hscan : scanRx buffer with
    | none =>
      rw [program, writeRxData, hscan]
      rfl
    | some event =>
      obtain ⟨hrefused, hpress⟩ := h event.1 event.2 hscan
      exact held_writeRxData hscan hrefused hpress

theorem Virtual.balanced_program_iff (entry : Virtual.Entry) :
    Balanced ((program scanLed scanRx entry).calls o) ↔ OutcomesOk scanLed scanRx entry o := by
  refine ⟨fun hbalanced => ?_, fun h => balanced_of_held (held_program h)⟩
  cases entry with
  | insyncKeypanelInterrupt data =>
    intro h
    refine not_balanced_of_held ?_ hbalanced
    exact (congrArg (held false) (Prog.calls_bind_silent _ (fun _ _ => rfl) o)).trans
      (held_insyncKeypanelInterrupt_of_takenLast h)
  | writeLedDataframe buffer count =>
    cases hscan : scanLed buffer with
    | none => exact .inl hscan
    | some led =>
      exact .inr fun h =>
        not_balanced_of_held (held_writeLedDataframe_of_takenLast hscan h) hbalanced
  | writeRxData buffer count =>
    intro key kevent hscan
    refine ⟨fun h => not_balanced_writeRxData hscan h hbalanced, ?_⟩
    intro hmem n hn hrefused hok hlast
    refine not_balanced_of_held ?_ hbalanced
    rw [program, held_writeRxData_taken hscan hn hrefused hok, if_pos hmem]
    exact held_insyncKeypanelInterrupt_of_takenLast hlast

end Outcomes

end KeyPanel
