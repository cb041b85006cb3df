import EmbeddedProjects.KeyPanel.KeyReplay

namespace KeyPanel

def rotaryByte (frame : BitVec 32) : BitVec 8 := frame.extractLsb' inKpRotaryEncoderOffset 8

def valueOf (w : BitVec 32) : BitVec 8 :=
  ((w &&& inKpEventValueMask) >>> inKpEventRotaryValueOffset).setWidth 8

-- input_set_abs_params( input, ABS_Y, 0, 0xFFFF, 0, 0)
def absYMaximum : BitVec 32 := 0xFFFF

structure ReportsByte (byte : BitVec 8) (w : BitVec 32) : Prop where
  keyId : keyIdOf w = inKpRotaryEncoder
  value : valueOf w = byte
  right : 0 < byte.toInt → eventIdOf w = inKpEventRotaryRightTurn
  left : byte.toInt < 0 → eventIdOf w = inKpEventRotaryLeftTurn
  noKey : decodeKeyEvent w = none

structure ReportsTurn (prev frame : BitVec 32) (words : List (BitVec 32)) : Prop where
  events : ∃ turns,
    words = plainKeyEvents (frame &&& inKpKeyStatesMask) (prev &&& inKpKeyStatesMask) ++ turns ∧
      turns.length = (if rotaryByte frame = 0 then 0 else 1) ∧
        ∀ w ∈ turns, ReportsByte (rotaryByte frame) w
  range : ∀ w ∈ words, w ≤ absYMaximum

inductive ReportsTurns : BitVec 32 → List (BitVec 32) → List (List (BitVec 32)) → Prop
  | nil (prev : BitVec 32) : ReportsTurns prev [] []
  | cons {prev frame : BitVec 32} {frames words reports} :
    ReportsTurn prev frame words → ReportsTurns frame frames reports →
      ReportsTurns prev (frame :: frames) (words :: reports)

def rotaryWord (frame : BitVec 32) : BitVec 32 :=
  (frame &&& inKpRotaryEncoderMask) >>>
      (inKpRotaryEncoderOffset - inKpEventRotaryValueOffset) |||
    BitVec.ofNat 32 inKpRotaryEncoder ||| inKpEventRotaryRightTurn <<< inKpEventEventIdOffset

section Word

variable {frame : BitVec 32}

theorem getLsbD_rotaryMask {i : Nat} (h : i < 32) :
    inKpRotaryEncoderMask.getLsbD i = decide (24 ≤ i) := by
  have hmask : ∀ i < 32, inKpRotaryEncoderMask.getLsbD i = decide (24 ≤ i) := by decide
  exact hmask i h

theorem encoder_eq_iff (frame frame' : BitVec 32) :
    frame &&& inKpRotaryEncoderMask = frame' &&& inKpRotaryEncoderMask ↔
      rotaryByte frame = rotaryByte frame' := by
  constructor
  · intro h
    refine BitVec.eq_of_getLsbD_eq fun i hi => ?_
    have hbit := congrArg (·.getLsbD (24 + i)) h
    have htop : 24 + i < 32 := by omega
    simpa [rotaryByte, inKpRotaryEncoderOffset, hi, getLsbD_rotaryMask htop] using hbit
  · intro h
    refine BitVec.eq_of_getLsbD_eq fun i hi => ?_
    rw [BitVec.getLsbD_and, BitVec.getLsbD_and, getLsbD_rotaryMask hi]
    by_cases htop : 24 ≤ i
    · have hbit := congrArg (·.getLsbD (i - 24)) h
      have hsum : 24 + (i - 24) = i := by omega
      have hlt : i - 24 < 8 := by omega
      simpa [rotaryByte, inKpRotaryEncoderOffset, hsum, hlt, htop] using hbit
    · simp [htop]

theorem encoder_eq_zero_iff : frame &&& inKpRotaryEncoderMask = 0 ↔ rotaryByte frame = 0 := by
  have hzero : 0 &&& inKpRotaryEncoderMask = 0#32 := BitVec.zero_and
  have hiff := encoder_eq_iff frame 0
  rwa [hzero] at hiff

-- a word that is not zero is above zero, so the other branch is never taken
theorem rotaryEvents_eq :
    rotaryEvents frame = if rotaryByte frame = 0 then [] else [rotaryWord frame] := by
  rw [rotaryEvents]
  by_cases h : rotaryByte frame = 0
  · rw [if_pos h, if_neg (not_not_intro (encoder_eq_zero_iff.mpr h))]
  · have hne : frame &&& inKpRotaryEncoderMask ≠ 0 := mt encoder_eq_zero_iff.mp h
    have hpos : frame &&& inKpRotaryEncoderMask > 0 := (BitVec.pos_iff_ne_zero _).mpr hne
    rw [if_neg h, if_pos hne]
    exact if_pos hpos

theorem keyIdOf_rotaryWord : keyIdOf (rotaryWord frame) = inKpRotaryEncoder := by
  have hbyte : inKpRotaryEncoderMask >>> (inKpRotaryEncoderOffset - inKpEventRotaryValueOffset) &&&
      inKpEventKeyIdMask = 0#32 := by decide
  rw [keyIdOf, rotaryWord, BitVec.and_or_distrib_right, BitVec.and_or_distrib_right,
    BitVec.ushiftRight_and_distrib, BitVec.and_assoc, hbyte, BitVec.and_zero, BitVec.zero_or]
  decide

theorem eventIdOf_rotaryWord : eventIdOf (rotaryWord frame) = inKpEventRotaryRightTurn := by
  rw [rotaryWord, eventIdOf_rotary]
  decide

theorem decode_rotaryWord : decodeKeyEvent (rotaryWord frame) = none := by
  rw [decodeKeyEvent, eventIdOf_rotaryWord]
  rfl

theorem getLsbD_rotaryWord {i : Nat} (h : 8 ≤ i) :
    (rotaryWord frame).getLsbD i = (rotaryByte frame).getLsbD (i - 8) := by
  have hlow : ∀ j < 32, 8 ≤ j → (BitVec.ofNat 32 inKpRotaryEncoder |||
      inKpEventRotaryRightTurn <<< inKpEventEventIdOffset).getLsbD j = false := by decide
  have hsum : 24 + (i - 8) = 16 + i := by omega
  rw [rotaryWord, BitVec.or_assoc, BitVec.getLsbD_or, BitVec.getLsbD_ushiftRight,
    BitVec.getLsbD_and, rotaryByte, BitVec.getLsbD_extractLsb']
  simp only [inKpRotaryEncoderOffset, inKpEventRotaryValueOffset, hsum]
  by_cases htop : 16 + i < 32
  · have hlt : i - 8 < 8 := by omega
    have hge : 24 ≤ 16 + i := by omega
    rw [getLsbD_rotaryMask htop, hlow i (by omega) h]
    simp [hlt, hge]
  · have hge : ¬ i - 8 < 8 := by omega
    rw [BitVec.getLsbD_of_ge frame _ (by omega), Bool.false_and, Bool.false_or, Bool.and_false]
    by_cases hi : i < 32
    · exact hlow i hi h
    · exact BitVec.getLsbD_of_ge _ _ (by omega)

theorem valueOf_rotaryWord : valueOf (rotaryWord frame) = rotaryByte frame := by
  have hmask : ∀ i < 8, inKpEventValueMask.getLsbD (8 + i) = true := by decide
  refine BitVec.eq_of_getLsbD_eq fun i hi => ?_
  rw [valueOf, BitVec.getLsbD_setWidth, BitVec.getLsbD_ushiftRight, BitVec.getLsbD_and,
    inKpEventRotaryValueOffset, hmask i hi, getLsbD_rotaryWord (by omega)]
  simp [hi]

theorem rotaryWord_le : rotaryWord frame ≤ absYMaximum := by
  have hlt : (rotaryWord frame).toNat < 2 ^ 16 := by
    refine Nat.lt_pow_two_of_testBit _ fun i hi => ?_
    have hge : 8 ≤ i - 8 := by omega
    exact (getLsbD_rotaryWord (by omega)).trans (BitVec.getLsbD_of_ge _ _ hge)
  exact BitVec.le_def.mpr (Nat.le_of_lt_succ hlt)

theorem plainKeyEvents_le {keyStates prevKeyStates : BitVec 32} :
    ∀ w ∈ plainKeyEvents keyStates prevKeyStates, w ≤ absYMaximum := by
  have hwords : ∀ k < inKpNumKeys,
      inKpEventKeyDown <<< inKpEventEventIdOffset ||| BitVec.ofNat 32 k ≤ absYMaximum ∧
      inKpEventKeyUp <<< inKpEventEventIdOffset ||| BitVec.ofNat 32 k ≤ absYMaximum := by
    decide
  intro w hw
  rw [plainKeyEvents_eq] at hw
  obtain ⟨k, hk, rfl⟩ := List.mem_map.mp hw
  have hlt : k < inKpNumKeys := List.mem_range.mp (List.mem_filter.mp hk).1
  rw [keyEvent]
  split
  · exact (hwords k hlt).1
  · exact (hwords k hlt).2

end Word

section Turns

variable {keypanel : InsyncKeypanel} {frame : BitVec 32}

theorem processFrame_words : (processFrame keypanel frame).2 =
    plainKeyEvents (frame &&& inKpKeyStatesMask) (keypanel.rxFrame &&& inKpKeyStatesMask) ++
      rotaryEvents frame := by
  rw [← fast_loop_eq_plain_loop]
  rfl

theorem reportsByte_rotaryWord_iff :
    ReportsByte (rotaryByte frame) (rotaryWord frame) ↔ 0 ≤ (rotaryByte frame).toInt := by
  constructor
  · intro h
    by_contra hneg
    have hleft := h.left (by omega)
    rw [eventIdOf_rotaryWord] at hleft
    exact absurd hleft (by decide)
  · intro h
    exact ⟨keyIdOf_rotaryWord, valueOf_rotaryWord, fun _ => eventIdOf_rotaryWord,
      fun hneg => absurd h (by omega), decode_rotaryWord⟩

theorem reportsTurn_processFrame_iff (keypanel : InsyncKeypanel) (frame : BitVec 32) :
    ReportsTurn keypanel.rxFrame frame (processFrame keypanel frame).2 ↔
      0 ≤ (rotaryByte frame).toInt := by
  rw [processFrame_words, rotaryEvents_eq]
  constructor
  · rintro ⟨⟨turns, hwords, -, hturns⟩, -⟩
    split at hwords
    · next hzero =>
      rw [hzero]
      decide
    · rw [← List.append_cancel_left hwords] at hturns
      exact reportsByte_rotaryWord_iff.mp (hturns _ (List.mem_singleton_self _))
  · intro h
    constructor
    · refine ⟨_, rfl, ?_, ?_⟩
      · split
        · rfl
        · rfl
      · split
        · exact fun w hw => absurd hw List.not_mem_nil
        · intro w hw
          rw [List.mem_singleton.mp hw]
          exact reportsByte_rotaryWord_iff.mpr h
    · intro w hw
      rcases List.mem_append.mp hw with hkey | hturn
      · exact plainKeyEvents_le w hkey
      · split at hturn
        · cases hturn
        · rw [List.mem_singleton.mp hturn]
          exact rotaryWord_le

theorem reportsTurns_run_iff (keypanel : InsyncKeypanel) (frames : List (BitVec 32)) :
    ReportsTurns keypanel.rxFrame frames (run processFrame keypanel frames) ↔
      ∀ frame ∈ frames, 0 ≤ (rotaryByte frame).toInt := by
  induction frames generalizing keypanel with
  | nil => simp [run, ReportsTurns.nil]
  | cons frame frames ih =>
    have hrest := ih (processFrame keypanel frame).1
    rw [run, List.forall_mem_cons, ← reportsTurn_processFrame_iff keypanel, ← hrest]
    constructor
    · intro h
      cases h with
      | cons hturn hturns => exact ⟨hturn, hturns⟩
    · rintro ⟨hturn, hturns⟩
      exact .cons hturn hturns

end Turns

theorem turns_reported_iff (keypanel : InsyncKeypanel) (frames : List (BitVec 32)) :
    (ReportsTurns keypanel.rxFrame frames (Insync.run keypanel frames) ↔
      ∀ frame ∈ frames, 0 ≤ (rotaryByte frame).toInt) ∧
    (ReportsTurns keypanel.rxFrame frames (Virtual.run keypanel frames) ↔
      ∀ frame ∈ frames, 0 ≤ (rotaryByte frame).toInt) :=
  ⟨reportsTurns_run_iff keypanel frames, reportsTurns_run_iff keypanel frames⟩

theorem left_turn_reported_right : ∃ frame,
    (rotaryByte frame).toInt = -1 ∧
      Insync.run {} [frame] = [[rotaryWord frame]] ∧
        eventIdOf (rotaryWord frame) = inKpEventRotaryRightTurn ∧
          ¬ ReportsTurns 0 [frame] (Insync.run {} [frame]) := by
  have hturn : (rotaryByte 0xFF000000).toInt = -1 := rfl
  refine ⟨0xFF000000, hturn, by decide, by decide, fun h => ?_⟩
  have hright := (reportsTurns_run_iff {} [0xFF000000]).mp h _ (List.mem_singleton_self _)
  omega

end KeyPanel
