import EmbeddedProjects.Lib.Bits
import EmbeddedProjects.Lib.Delta
import EmbeddedProjects.KeyPanel.RxFrame

namespace KeyPanel

open Bits

variable {keyStates prevKeyStates xor frame : BitVec 32} {keyId rounds j : Nat}

def keyIdOf (w : BitVec 32) : Nat :=
  ((w &&& inKpEventKeyIdMask) >>> inKpEventKeyIdOffset).toNat

def eventIdOf (w : BitVec 32) : BitVec 32 :=
  (w &&& inKpEventEventIdMask) >>> inKpEventEventIdOffset

def decodeKeyEvent (w : BitVec 32) : Option (Nat × Bool) :=
  if eventIdOf w = inKpEventKeyDown then some (keyIdOf w, true)
  else if eventIdOf w = inKpEventKeyUp then some (keyIdOf w, false)
  else none

def applyKeyEvent (keys : BitVec 32) : Nat × Bool → BitVec 32
  | (keyId, true) => keys ||| 1#32 <<< keyId
  | (keyId, false) => keys &&& ~~~(1#32 <<< keyId)

def replay (keys : BitVec 32) (words : List (BitVec 32)) : BitVec 32 :=
  (words.filterMap decodeKeyEvent).foldl applyKeyEvent keys

def run (process : InsyncKeypanel → BitVec 32 → InsyncKeypanel × List (BitVec 32)) :
    InsyncKeypanel → List (BitVec 32) → List (List (BitVec 32))
  | _, [] => []
  | keypanel, frame :: frames =>
    (process keypanel frame).2 :: run process (process keypanel frame).1 frames

def Insync.run : InsyncKeypanel → List (BitVec 32) → List (List (BitVec 32)) :=
  KeyPanel.run Insync.processRxDataFrame

def Virtual.run : InsyncKeypanel → List (BitVec 32) → List (List (BitVec 32)) :=
  KeyPanel.run fun keypanel frame =>
    ((Virtual.processRxDataFrame keypanel frame).1, (Virtual.processRxDataFrame keypanel frame).2.2)

section Scan

theorem keyEventsFrom_eq (h : keyId + rounds ≤ 32) : keyEventsFrom keyStates rounds keyId xor =
    ((List.range' keyId rounds).filter (xor.getLsbD ·)).map (keyEvent keyStates) := by
  induction rounds generalizing keyId xor with
  | zero => rfl
  | succ rounds ih =>
    rw [keyEventsFrom]
    split
    · next hzero => simp [hzero]
    · have hbit := and_mask_ne_zero xor (j := keyId) (by omega)
      rw [List.range'_succ]
      by_cases hset : xor.getLsbD keyId = true
      · have hrest : (List.range' (keyId + 1) rounds).filter
            ((xor &&& ~~~(1#32 <<< keyId)).getLsbD ·) =
              (List.range' (keyId + 1) rounds).filter (xor.getLsbD ·) := by
          refine List.filter_congr fun i hi => ?_
          have hne : i ≠ keyId := by
            have := (List.mem_range'_1.mp hi).1
            omega
          rw [getLsbD_clear]
          simp [hne]
        simp only [hbit.mpr hset, ne_eq, not_false_eq_true, if_true]
        rw [ih (by omega), hrest, List.filter_cons_of_pos hset, List.map_cons]
      · have hclear : xor &&& 1#32 <<< keyId = 0 := by
          by_contra hne
          exact hset (hbit.mp hne)
        simp only [hclear, ne_eq, not_true_eq_false, if_false]
        rw [ih (by omega), List.filter_cons_of_neg hset]

theorem getLsbD_of_lt_1024 (h : xor < 1024) (hj : 10 ≤ j) : xor.getLsbD j = false := by
  have hpow : 2 ^ 10 ≤ 2 ^ j := Nat.pow_le_pow_right (by decide) hj
  have hlt : xor.toNat < 2 ^ j := Nat.lt_of_lt_of_le (BitVec.lt_def.mp h) hpow
  exact Nat.testBit_lt_two_pow hlt

def changedKeys (keyStates prevKeyStates : BitVec 32) : List Nat :=
  (List.range inKpNumKeys).filter ((keyStates ^^^ prevKeyStates).getLsbD ·)

theorem keyEvents_eq : keyEvents keyStates prevKeyStates =
    (changedKeys keyStates prevKeyStates).map (keyEvent keyStates) := by
  rw [keyEvents, changedKeys]
  split
  · next hlt =>
    have hsplit : List.range inKpNumKeys = List.range' 0 10 ++ List.range' 10 9 := rfl
    have hhigh : (List.range' 10 9).filter ((keyStates ^^^ prevKeyStates).getLsbD ·) = [] := by
      refine List.filter_eq_nil_iff.mpr fun j hj => ?_
      rw [getLsbD_of_lt_1024 hlt (List.mem_range'_1.mp hj).1]
      exact Bool.false_ne_true
    rw [keyEventsFrom_eq (by decide), hsplit, List.filter_append, hhigh, List.append_nil]
  · rw [keyEventsFrom_eq (by decide), List.range_eq_range']

theorem and_xor_and (a b m : BitVec 32) : (a &&& m) ^^^ (b &&& m) = (a ^^^ b) &&& m := by
  refine BitVec.eq_of_getLsbD_eq fun i _ => ?_
  simp only [BitVec.getLsbD_xor, BitVec.getLsbD_and]
  cases m.getLsbD i with
  | false => simp
  | true => simp

theorem flatMap_singletons {α β : Type} (p : α → Bool) (f : α → β) (l : List α) :
    (l.flatMap fun a => if p a = true then [f a] else []) = (l.filter p).map f := by
  induction l with
  | nil => rfl
  | cons a l ih =>
    rw [List.flatMap_cons, ih]
    by_cases hp : p a = true
    · simp [hp]
    · simp [hp]

theorem plainKeyEvents_eq : plainKeyEvents keyStates prevKeyStates =
    (changedKeys keyStates prevKeyStates).map (keyEvent keyStates) := by
  rw [plainKeyEvents, changedKeys]
  split
  · rw [← flatMap_singletons]
    refine List.flatMap_congr fun keyId hmem => ?_
    have hlt : keyId < inKpNumKeys := List.mem_range.mp hmem
    have hmask : inKpKeyMask keyId = 1#32 <<< keyId := if_pos hlt
    have hbit := and_mask_ne_zero (keyStates ^^^ prevKeyStates) (Nat.lt_trans hlt (by decide))
    simp only [hmask, and_xor_and, keyEvent, hbit]
    split
    · split
      · rfl
      · rfl
    · rfl
  · next hsame =>
    have hzero : keyStates ^^^ prevKeyStates = 0 := by simpa using hsame
    simp [hzero]

theorem fast_loop_eq_plain_loop :
    keyEvents keyStates prevKeyStates = plainKeyEvents keyStates prevKeyStates :=
  keyEvents_eq.trans plainKeyEvents_eq.symm

end Scan

section Decode

theorem decode_keyEvent (h : keyId < inKpNumKeys) :
    decodeKeyEvent (keyEvent keyStates keyId) = some (keyId, keyStates.getLsbD keyId) := by
  have hwords : ∀ k < inKpNumKeys,
      decodeKeyEvent (inKpEventKeyDown <<< inKpEventEventIdOffset ||| BitVec.ofNat 32 k) =
        some (k, true) ∧
      decodeKeyEvent (inKpEventKeyUp <<< inKpEventEventIdOffset ||| BitVec.ofNat 32 k) =
        some (k, false) := by decide
  have hbit := and_mask_ne_zero keyStates (Nat.lt_trans h (by decide))
  rw [keyEvent]
  cases hset : keyStates.getLsbD keyId with
  | true => rw [if_pos (hbit.mpr hset), (hwords keyId h).1]
  | false =>
    rw [if_neg (fun hne => by rw [hbit.mp hne] at hset; cases hset), (hwords keyId h).2]

-- the encoder's byte is above the event id
theorem eventIdOf_rotary (encoder event : BitVec 32) :
    eventIdOf ((encoder &&& inKpRotaryEncoderMask) >>>
        (inKpRotaryEncoderOffset - inKpEventRotaryValueOffset) |||
      BitVec.ofNat 32 inKpRotaryEncoder ||| event) = eventIdOf event := by
  have hbyte : inKpRotaryEncoderMask >>> (inKpRotaryEncoderOffset - inKpEventRotaryValueOffset) &&&
      inKpEventEventIdMask = 0#32 := by decide
  have hid : BitVec.ofNat 32 inKpRotaryEncoder &&& inKpEventEventIdMask = 0#32 := by decide
  rw [eventIdOf, eventIdOf, BitVec.and_or_distrib_right, BitVec.and_or_distrib_right,
    BitVec.ushiftRight_and_distrib, BitVec.and_assoc, hbyte, hid, BitVec.and_zero,
    BitVec.zero_or, BitVec.zero_or]

theorem decode_rotaryEvents (frame : BitVec 32) :
    ∀ w ∈ rotaryEvents frame, decodeKeyEvent w = none := by
  have hnone : ∀ event : BitVec 32, eventIdOf event ≠ inKpEventKeyDown →
      eventIdOf event ≠ inKpEventKeyUp →
      decodeKeyEvent ((frame &&& inKpRotaryEncoderMask) >>>
          (inKpRotaryEncoderOffset - inKpEventRotaryValueOffset) |||
        BitVec.ofNat 32 inKpRotaryEncoder ||| event) = none := by
    intro event hdown hup
    rw [decodeKeyEvent, eventIdOf_rotary, if_neg hdown, if_neg hup]
  intro w hw
  rw [rotaryEvents] at hw
  split at hw
  · split at hw
    · rw [List.mem_singleton.mp hw]
      exact hnone _ (by decide) (by decide)
    · rw [List.mem_singleton.mp hw]
      exact hnone _ (by decide) (by decide)
  · cases hw

end Decode

section Replay

variable {keypanel : InsyncKeypanel} {frames : List (BitVec 32)}

theorem replay_append (keys : BitVec 32) (words words' : List (BitVec 32)) :
    replay keys (words ++ words') = replay (replay keys words) words' := by
  simp [replay, List.filterMap_append, List.foldl_append]

theorem getLsbD_applyKeyEvent (keys : BitVec 32) {e : Nat × Bool} (he : e.1 < 32) :
    (applyKeyEvent keys e).getLsbD = Function.update keys.getLsbD e.1 e.2 := by
  obtain ⟨k, down⟩ := e
  have hk : k < 32 := he
  funext i
  rw [Function.update_apply]
  cases down with
  | true =>
    simp only [applyKeyEvent, getLsbD_set _ hk]
    split
    · simp [*]
    · simp [*]
  | false =>
    simp only [applyKeyEvent, getLsbD_clear]
    split
    · simp [*]
    · simp [*]

theorem getLsbD_foldl (keys : BitVec 32) {events : List (Nat × Bool)}
    (hevents : ∀ e ∈ events, e.1 < 32) :
    (events.foldl applyKeyEvent keys).getLsbD = Delta.apply keys.getLsbD events := by
  induction events generalizing keys with
  | nil => rfl
  | cons e events ih =>
    simp only [List.mem_cons, forall_eq_or_imp] at hevents
    rw [List.foldl_cons, ih _ hevents.2, getLsbD_applyKeyEvent keys hevents.1]
    rfl

theorem decode_keyEvents : (keyEvents keyStates prevKeyStates).filterMap decodeKeyEvent =
    Delta.changes (List.range inKpNumKeys) prevKeyStates.getLsbD keyStates.getLsbD := by
  have hdecode : (changedKeys keyStates prevKeyStates).filterMap
      (decodeKeyEvent ∘ keyEvent keyStates) =
        (changedKeys keyStates prevKeyStates).map fun k => (k, keyStates.getLsbD k) := by
    rw [← List.filterMap_eq_map]
    refine List.filterMap_congr fun k hk => ?_
    exact decode_keyEvent (List.mem_range.mp (List.mem_filter.mp hk).1)
  have hfilter : changedKeys keyStates prevKeyStates = (List.range inKpNumKeys).filter
      fun k => decide (prevKeyStates.getLsbD k ≠ keyStates.getLsbD k) := by
    refine List.filter_congr fun k _ => ?_
    rw [BitVec.getLsbD_xor]
    cases keyStates.getLsbD k with
    | true => simp
    | false => simp
  rw [keyEvents_eq, List.filterMap_map, hdecode, hfilter, Delta.changes]

theorem decode_processFrame (keypanel : InsyncKeypanel) (frame : BitVec 32) :
    (processFrame keypanel frame).2.filterMap decodeKeyEvent =
      Delta.changes (List.range inKpNumKeys) (keypanel.rxFrame &&& inKpKeyStatesMask).getLsbD
        (frame &&& inKpKeyStatesMask).getLsbD := by
  have hrotary : (rotaryEvents frame).filterMap decodeKeyEvent = [] :=
    List.filterMap_eq_nil_iff.mpr (decode_rotaryEvents frame)
  rw [processFrame, List.filterMap_append, hrotary, List.append_nil, decode_keyEvents]

theorem getLsbD_keyStates_of_ge (frame : BitVec 32) {i : Nat} (h : inKpNumKeys ≤ i) :
    (frame &&& inKpKeyStatesMask).getLsbD i = false := by
  have hmask : ∀ i < 32, inKpNumKeys ≤ i → inKpKeyStatesMask.getLsbD i = false := by decide
  by_cases hi : i < 32
  · rw [BitVec.getLsbD_and, hmask i hi h, Bool.and_false]
  · exact BitVec.getLsbD_of_ge _ _ (Nat.le_of_not_lt hi)

theorem replay_processFrame (keypanel : InsyncKeypanel) (frame : BitVec 32) :
    replay (keypanel.rxFrame &&& inKpKeyStatesMask) (processFrame keypanel frame).2 =
      frame &&& inKpKeyStatesMask := by
  have hids : ∀ e ∈ Delta.changes (List.range inKpNumKeys)
      (keypanel.rxFrame &&& inKpKeyStatesMask).getLsbD (frame &&& inKpKeyStatesMask).getLsbD,
      e.1 < 32 := by
    intro e he
    obtain ⟨k, hk, rfl⟩ := List.mem_map.mp he
    exact Nat.lt_trans (List.mem_range.mp (List.mem_filter.mp hk).1) (by decide)
  refine BitVec.eq_of_getLsbD_eq fun i _ => ?_
  rw [replay, decode_processFrame, getLsbD_foldl _ hids, Delta.apply_changes]
  split
  · rfl
  · next hge =>
    have hclear : inKpNumKeys ≤ i := Nat.le_of_not_lt (mt List.mem_range.mpr hge)
    rw [getLsbD_keyStates_of_ge _ hclear, getLsbD_keyStates_of_ge _ hclear]

theorem keyWords_processFrame (keypanel : InsyncKeypanel) (frame : BitVec 32) :
    (processFrame keypanel frame).2.filter (fun w => (decodeKeyEvent w).isSome) =
      plainKeyEvents (frame &&& inKpKeyStatesMask)
        (keypanel.rxFrame &&& inKpKeyStatesMask) := by
  have hrotary : (rotaryEvents frame).filter (fun w => (decodeKeyEvent w).isSome) = [] := by
    refine List.filter_eq_nil_iff.mpr fun w hw => ?_
    rw [decode_rotaryEvents frame w hw]
    exact Bool.false_ne_true
  have hkeys : ∀ w ∈ keyEvents (frame &&& inKpKeyStatesMask)
      (keypanel.rxFrame &&& inKpKeyStatesMask), (decodeKeyEvent w).isSome = true := by
    intro w hw
    rw [keyEvents_eq] at hw
    obtain ⟨k, hk, rfl⟩ := List.mem_map.mp hw
    rw [decode_keyEvent (List.mem_range.mp (List.mem_filter.mp hk).1)]
    rfl
  rw [processFrame, List.filter_append, hrotary, List.append_nil, List.filter_eq_self.mpr hkeys,
    fast_loop_eq_plain_loop]

theorem replay_run (keypanel : InsyncKeypanel) (frames : List (BitVec 32)) :
    replay (keypanel.rxFrame &&& inKpKeyStatesMask) (run processFrame keypanel frames).flatten =
      frames.getLastD keypanel.rxFrame &&& inKpKeyStatesMask := by
  induction frames generalizing keypanel with
  | nil => rfl
  | cons frame frames ih =>
    rw [run, List.flatten_cons, replay_append, replay_processFrame, List.getLastD_cons]
    exact ih (processFrame keypanel frame).1

theorem keyWords_run (keypanel : InsyncKeypanel) (frames : List (BitVec 32)) :
    (run processFrame keypanel frames).map (·.filter fun w => (decodeKeyEvent w).isSome) =
      List.zipWith (fun frame prev => plainKeyEvents (frame &&& inKpKeyStatesMask)
        (prev &&& inKpKeyStatesMask)) frames (keypanel.rxFrame :: frames) := by
  induction frames generalizing keypanel with
  | nil => rfl
  | cons frame frames ih =>
    rw [run, List.map_cons, keyWords_processFrame, List.zipWith_cons_cons]
    exact congrArg _ (ih (processFrame keypanel frame).1)

end Replay

structure Reconstructs (reports : List (List (BitVec 32))) (frames : List (BitVec 32)) : Prop where
  keyEvents : reports.map (·.filter fun w => (decodeKeyEvent w).isSome) =
    List.zipWith (fun frame prev => plainKeyEvents (frame &&& inKpKeyStatesMask)
      (prev &&& inKpKeyStatesMask)) frames (0 :: frames)
  replay : replay 0 reports.flatten = frames.getLastD 0 &&& inKpKeyStatesMask

theorem key_events_reconstruct_key_states (keypanel : InsyncKeypanel)
    (frames : List (BitVec 32)) :
    Reconstructs (Insync.run { keypanel with rxFrame := 0 } frames) frames ∧
      Reconstructs (Virtual.run { keypanel with rxFrame := 0 } frames) frames := by
  have hzero : 0 &&& inKpKeyStatesMask = 0#32 := BitVec.zero_and
  have hreplay := replay_run { keypanel with rxFrame := 0 } frames
  dsimp only at hreplay
  rw [hzero] at hreplay
  have h : Reconstructs (run processFrame { keypanel with rxFrame := 0 } frames) frames :=
    ⟨keyWords_run _ frames, hreplay⟩
  exact ⟨h, h⟩

example : Insync.run {} [0x00000401, 0x00000400] = [[0x20, 0x2A], [0x00]] := by decide

end KeyPanel
