import EmbeddedProjects.Lib.Changes
import EmbeddedProjects.KeyPanel.Rotary

namespace KeyPanel

def keyStatesOf (frame : BitVec 32) : BitVec 32 := frame &&& inKpKeyStatesMask

structure SameTurn (frame : BitVec 32) (idle : List (BitVec 32)) (frame' : BitVec 32) : Prop where
  turn : rotaryByte frame ≠ 0
  same : rotaryByte frame' = rotaryByte frame
  idle : ∀ z ∈ idle, rotaryByte z = 0 ∧ keyStatesOf z = keyStatesOf frame
  keys : keyStatesOf frame' = keyStatesOf frame

def RepeatsTurn (frames : List (BitVec 32)) : Prop :=
  ∃ frame idle frame', frame :: (idle ++ [frame']) <:+: frames ∧ SameTurn frame idle frame'

structure ReachesUserSpace (words : List (BitVec 32)) : Prop where
  distinct : (0 :: words).IsChain (· ≠ ·)
  complete : Changes.forwarded 0 words = words

section Frame

variable {frame frame' keys w : BitVec 32}

def RepeatsWord (w keys : BitVec 32) (frames : List (BitVec 32)) : Prop :=
  ∃ idle frame, idle ++ [frame] <+: frames ∧
    (∀ z ∈ idle, rotaryByte z = 0 ∧ keyStatesOf z = keys) ∧
      keyStatesOf frame = keys ∧ rotaryEvents frame = [w]

theorem repeatsWord_nil : ¬ RepeatsWord w keys [] := by
  rintro ⟨idle, frame, hpre, -⟩
  simp at hpre

theorem repeatsWord_cons {frames : List (BitVec 32)} :
    RepeatsWord w keys (frame :: frames) ↔ keyStatesOf frame = keys ∧
      (rotaryEvents frame = [w] ∨ rotaryByte frame = 0 ∧ RepeatsWord w keys frames) := by
  constructor
  · rintro ⟨idle, turn, hpre, hidle, hkeys, hturn⟩
    cases idle with
    | nil =>
      rw [List.nil_append, List.cons_prefix_cons] at hpre
      obtain ⟨rfl, -⟩ := hpre
      exact ⟨hkeys, .inl hturn⟩
    | cons z idle =>
      rw [List.cons_append, List.cons_prefix_cons] at hpre
      obtain ⟨rfl, hpre⟩ := hpre
      obtain ⟨hz, hidle⟩ := List.forall_mem_cons.mp hidle
      exact ⟨hz.2, .inr ⟨hz.1, idle, turn, hpre, hidle, hkeys, hturn⟩⟩
  · rintro ⟨hkeys, hturn | ⟨hzero, idle, turn, hpre, hidle, hrest, hturn⟩⟩
    · exact ⟨[], frame, by simp, by simp, hkeys, hturn⟩
    · refine ⟨frame :: idle, turn, List.cons_prefix_cons.mpr ⟨rfl, hpre⟩, ?_, hrest, hturn⟩
      exact List.forall_mem_cons.mpr ⟨⟨hzero, hkeys⟩, hidle⟩

theorem rotaryWord_inj : rotaryWord frame = rotaryWord frame' ↔
    rotaryByte frame = rotaryByte frame' := by
  constructor
  · intro h
    rw [← valueOf_rotaryWord, h, valueOf_rotaryWord]
  · intro h
    rw [rotaryWord, rotaryWord, (encoder_eq_iff frame frame').mpr h]

theorem rotaryEvents_eq_singleton_iff : rotaryEvents frame = [w] ↔
    rotaryByte frame ≠ 0 ∧ rotaryWord frame = w := by
  rw [rotaryEvents_eq]
  split
  · next h => simp [h]
  · next h =>
    rw [List.singleton_inj]
    exact (and_iff_right h).symm

theorem repeatsTurn_nil : ¬ RepeatsTurn [] := by
  rintro ⟨frame, idle, frame', hinfix, -⟩
  simp at hinfix

theorem repeatsTurn_cons {frames : List (BitVec 32)} : RepeatsTurn (frame :: frames) ↔
    rotaryByte frame ≠ 0 ∧ RepeatsWord (rotaryWord frame) (keyStatesOf frame) frames ∨
      RepeatsTurn frames := by
  constructor
  · rintro ⟨turn, idle, again, hinfix, h⟩
    rcases List.infix_cons_iff.mp hinfix with hpre | hinfix
    · obtain ⟨rfl, hrest⟩ := List.cons_prefix_cons.mp hpre
      have hagain : rotaryByte again ≠ 0 := by
        rw [h.same]
        exact h.turn
      exact .inl ⟨h.turn, idle, again, hrest, h.idle, h.keys,
        rotaryEvents_eq_singleton_iff.mpr ⟨hagain, rotaryWord_inj.mpr h.same⟩⟩
    · exact .inr ⟨turn, idle, again, hinfix, h⟩
  · rintro (⟨hne, idle, again, hpre, hidle, hkeys, hturn⟩ | ⟨turn, idle, again, hinfix, h⟩)
    · have hsame := rotaryWord_inj.mp (rotaryEvents_eq_singleton_iff.mp hturn).2
      exact ⟨frame, idle, again,
        List.infix_cons_iff.mpr (.inl (List.cons_prefix_cons.mpr ⟨rfl, hpre⟩)),
        ⟨hne, hsame, hidle, hkeys⟩⟩
    · exact ⟨turn, idle, again, List.infix_cons_iff.mpr (.inr hinfix), h⟩

end Frame

section Run

variable {keypanel : InsyncKeypanel} {frame keys keys' w : BitVec 32}

def AgreesWith (keys w : BitVec 32) : Prop :=
  ∀ keyId down, decodeKeyEvent w = some (keyId, down) → keys.getLsbD keyId = down

theorem mem_changedKeys {keyId : Nat} (h : keyId ∈ changedKeys keys' keys) :
    keyId < inKpNumKeys ∧ keys'.getLsbD keyId ≠ keys.getLsbD keyId := by
  obtain ⟨hmem, hbit⟩ := List.mem_filter.mp h
  rw [BitVec.getLsbD_xor] at hbit
  exact ⟨List.mem_range.mp hmem, bne_iff_ne.mp hbit⟩

theorem decode_of_mem_keyEvents (h : w ∈ keyEvents keys' keys) :
    ∃ keyId ∈ changedKeys keys' keys, decodeKeyEvent w = some (keyId, keys'.getLsbD keyId) := by
  rw [keyEvents_eq] at h
  obtain ⟨keyId, hmem, rfl⟩ := List.mem_map.mp h
  exact ⟨keyId, hmem, decode_keyEvent (mem_changedKeys hmem).1⟩

theorem nodup_keyEvents : (keyEvents keys' keys).Nodup := by
  rw [keyEvents_eq]
  refine List.Nodup.map_on (fun k hk j hj heq => ?_) (List.nodup_range.filter _)
  have hdecode : decodeKeyEvent (keyEvent keys' k) = some (k, keys'.getLsbD k) :=
    decode_keyEvent (mem_changedKeys hk).1
  rw [heq, decode_keyEvent (mem_changedKeys hj).1] at hdecode
  exact (Prod.mk.inj (Option.some.inj hdecode)).1.symm

theorem isChain_keyEvents (h : AgreesWith keys w) :
    (w :: keyEvents keys' keys).IsChain (· ≠ ·) := by
  refine List.Pairwise.isChain (List.nodup_cons.mpr ⟨fun hmem => ?_, nodup_keyEvents⟩)
  obtain ⟨keyId, hchanged, hdecode⟩ := decode_of_mem_keyEvents hmem
  exact (mem_changedKeys hchanged).2 (h keyId _ hdecode).symm

theorem keyEvents_eq_nil_iff {prev : BitVec 32} :
    keyEvents (keyStatesOf frame) (keyStatesOf prev) = [] ↔
      keyStatesOf frame = keyStatesOf prev := by
  rw [keyEvents_eq, List.map_eq_nil_iff, changedKeys, List.filter_eq_nil_iff]
  constructor
  · intro h
    refine BitVec.eq_of_getLsbD_eq fun i _ => ?_
    by_cases hkey : i < inKpNumKeys
    · have hbit := h i (List.mem_range.mpr hkey)
      rw [BitVec.getLsbD_xor, bne_iff_ne, not_not] at hbit
      exact hbit
    · have hclear : inKpNumKeys ≤ i := Nat.le_of_not_lt hkey
      exact (getLsbD_keyStates_of_ge _ hclear).trans (getLsbD_keyStates_of_ge _ hclear).symm
  · intro h k _
    simp [h]

theorem getLastD_mem (w : BitVec 32) (hne : keyEvents keys' keys ≠ []) :
    (keyEvents keys' keys).getLastD w ∈ keyEvents keys' keys := by
  cases h : keyEvents keys' keys with
  | nil => exact absurd h hne
  | cons x xs =>
    rw [List.getLastD_cons]
    exact List.getLastD_mem_cons

theorem processFrame_keyStates : (processFrame keypanel frame).2 =
    keyEvents (keyStatesOf frame) (keyStatesOf keypanel.rxFrame) ++ rotaryEvents frame := rfl

theorem last_processFrame (keypanel : InsyncKeypanel) (frame w : BitVec 32) :
    (rotaryByte frame ≠ 0 ∧ (processFrame keypanel frame).2.getLastD w = rotaryWord frame) ∨
    (rotaryByte frame = 0 ∧ keyStatesOf frame ≠ keyStatesOf keypanel.rxFrame ∧
      (processFrame keypanel frame).2.getLastD w ∈
        keyEvents (keyStatesOf frame) (keyStatesOf keypanel.rxFrame)) ∨
    (rotaryByte frame = 0 ∧ keyStatesOf frame = keyStatesOf keypanel.rxFrame ∧
      (processFrame keypanel frame).2.getLastD w = w) := by
  rw [processFrame_keyStates, rotaryEvents_eq]
  by_cases hbyte : rotaryByte frame = 0
  · rw [if_pos hbyte, List.append_nil]
    by_cases hkeys : keyStatesOf frame = keyStatesOf keypanel.rxFrame
    · refine .inr (.inr ⟨hbyte, hkeys, ?_⟩)
      rw [keyEvents_eq_nil_iff.mpr hkeys]
      rfl
    · exact .inr (.inl ⟨hbyte, hkeys, getLastD_mem w (mt keyEvents_eq_nil_iff.mp hkeys)⟩)
  · refine .inl ⟨hbyte, ?_⟩
    rw [if_neg hbyte]
    simp

theorem agreesWith_processFrame (frame : BitVec 32)
    (h : AgreesWith (keyStatesOf keypanel.rxFrame) w) :
    AgreesWith (keyStatesOf frame) ((processFrame keypanel frame).2.getLastD w) := by
  intro keyId down hdecode
  rcases last_processFrame keypanel frame w with ⟨-, hlast⟩ | ⟨-, -, hmem⟩ | ⟨-, hkeys, hlast⟩
  · rw [hlast, decode_rotaryWord] at hdecode
    cases hdecode
  · obtain ⟨k, -, hk⟩ := decode_of_mem_keyEvents hmem
    rw [hk] at hdecode
    cases hdecode
    rfl
  · rw [hlast] at hdecode
    rw [hkeys]
    exact h keyId down hdecode

theorem rotaryEvents_ne (frame : BitVec 32) (h : w ∈ keyEvents keys' keys) :
    rotaryEvents frame ≠ [w] := by
  intro heq
  obtain ⟨keyId, -, hdecode⟩ := decode_of_mem_keyEvents h
  rw [decode_rotaryEvents frame w (heq ▸ List.mem_singleton_self w)] at hdecode
  cases hdecode

theorem isChain_processFrame (h : AgreesWith (keyStatesOf keypanel.rxFrame) w) :
    (w :: (processFrame keypanel frame).2).IsChain (· ≠ ·) ↔
      ¬ (keyStatesOf frame = keyStatesOf keypanel.rxFrame ∧ rotaryEvents frame = [w]) := by
  rw [processFrame_keyStates, Changes.isChain_cons_append, and_iff_right (isChain_keyEvents h),
    rotaryEvents_eq]
  by_cases hbyte : rotaryByte frame = 0
  · simp [hbyte]
  · rw [if_neg hbyte, List.isChain_pair, List.singleton_inj]
    by_cases hkeys : keyStatesOf frame = keyStatesOf keypanel.rxFrame
    · rw [keyEvents_eq_nil_iff.mpr hkeys, List.getLastD_nil, and_iff_right hkeys]
      exact ne_comm
    · have hmem := getLastD_mem w (mt keyEvents_eq_nil_iff.mp hkeys)
      have hne := rotaryEvents_ne frame hmem
      rw [Ne, rotaryEvents_eq_singleton_iff] at hne
      simp only [hkeys, false_and, not_false_eq_true, iff_true]
      exact fun heq => hne ⟨hbyte, heq.symm⟩

theorem not_repeatsWord_of_mem (frames : List (BitVec 32)) (h : w ∈ keyEvents keys' keys) :
    ¬ RepeatsWord w keys' frames := by
  rintro ⟨idle, turn, -, -, -, hturn⟩
  exact rotaryEvents_ne turn h hturn

theorem isChain_run_iff (keypanel : InsyncKeypanel) (frames : List (BitVec 32))
    (h : AgreesWith (keyStatesOf keypanel.rxFrame) w) :
    (w :: (run processFrame keypanel frames).flatten).IsChain (· ≠ ·) ↔
      ¬ RepeatsWord w (keyStatesOf keypanel.rxFrame) frames ∧ ¬ RepeatsTurn frames := by
  induction frames generalizing keypanel w with
  | nil => simp [run, repeatsWord_nil, repeatsTurn_nil]
  | cons frame frames ih =>
    have hrest := ih (processFrame keypanel frame).1
      (agreesWith_processFrame frame h)
    rw [run, List.flatten_cons, Changes.isChain_cons_append, isChain_processFrame h, hrest,
      repeatsWord_cons, repeatsTurn_cons]
    have hrx : (processFrame keypanel frame).1.rxFrame = frame := rfl
    rw [hrx]
    rcases last_processFrame keypanel frame w with
      ⟨hbyte, hlast⟩ | ⟨hbyte, hkeys, hmem⟩ | ⟨hbyte, hkeys, hlast⟩
    · rw [hlast]
      simp only [hbyte]
      tauto
    · have hnone := not_repeatsWord_of_mem frames hmem
      simp only [hbyte, hkeys]
      tauto
    · have hnone : rotaryEvents frame ≠ [w] := by
        rw [rotaryEvents_eq, if_pos hbyte]
        exact (List.cons_ne_nil w []).symm
      simp only [hbyte, hkeys, hlast, hnone]
      tauto

theorem agreesWith_zero : AgreesWith (keyStatesOf 0) 0 := by
  intro keyId down h
  have hzero : decodeKeyEvent 0 = some (0, false) := by decide
  rw [hzero] at h
  cases h
  decide

theorem reachesUserSpace_run_iff (keypanel : InsyncKeypanel) (frames : List (BitVec 32)) :
    ReachesUserSpace (run processFrame { keypanel with rxFrame := 0 } frames).flatten ↔
      ¬ RepeatsTurn frames := by
  have hchain := isChain_run_iff { keypanel with rxFrame := 0 } frames agreesWith_zero
  have hmem : 0 ∈ keyEvents (keyStatesOf 0) 1 := by decide
  have hzero : ¬ RepeatsWord 0 (keyStatesOf 0) frames := not_repeatsWord_of_mem frames hmem
  rw [and_iff_right hzero] at hchain
  rw [← hchain]
  exact ⟨fun h => h.distinct, fun h => ⟨h, (Changes.forwarded_eq_self_iff 0 _).mpr h⟩⟩

end Run

theorem reports_reach_user_space_iff (keypanel : InsyncKeypanel) (frames : List (BitVec 32)) :
    (ReachesUserSpace (Insync.run { keypanel with rxFrame := 0 } frames).flatten ↔
      ¬ RepeatsTurn frames) ∧
    (ReachesUserSpace (Virtual.run { keypanel with rxFrame := 0 } frames).flatten ↔
      ¬ RepeatsTurn frames) :=
  ⟨reachesUserSpace_run_iff keypanel frames, reachesUserSpace_run_iff keypanel frames⟩

theorem second_turn_swallowed : ∃ frames,
    (Insync.run {} frames).flatten = [0x0153, 0x0153] ∧
      Changes.forwarded 0 (Insync.run {} frames).flatten = [0x0153] ∧
        ¬ ReachesUserSpace (Insync.run {} frames).flatten := by
  have hwords : (Insync.run {} [0x01000000, 0x01000000]).flatten = [0x0153, 0x0153] := by decide
  refine ⟨[0x01000000, 0x01000000], hwords, ?_, ?_⟩
  · rw [hwords]
    decide
  · intro h
    rw [hwords] at h
    exact absurd h.complete (by decide)

end KeyPanel
