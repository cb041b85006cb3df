import Mathlib.Data.List.DropRight
import EmbeddedProjects.KeyPanel.KeyReplay
import EmbeddedProjects.KeyPanel.SscHandle

namespace KeyPanel.Virtual

open Handle Bits

structure Delivery where
  data : BitVec 32
  outcomes : Stream' (Outcome Errno)

def deliver (device : Device) (d : Delivery) : Device :=
  (insyncKeypanelInterrupt d.data).exec Device.perform d.outcomes device

def deliverAll (ds : List Delivery) : Device := ds.foldl deliver {}

-- the interrupt does not return at tries > 7
def Delivery.processed (d : Delivery) : Bool := decide ((acquire.result d.outcomes).2 ≤ 7)

def Delivery.taken (d : Delivery) : Bool := (List.range 8).any fun i => (d.outcomes.get i).isOk

def NeverSticks (ds : List Delivery) : Prop :=
  ∀ before d, before ++ [d] <+: ds → d.processed = true →
    replay 0 (deliverAll (before ++ [d])).reported = d.data &&& inKpKeyStatesMask ∧
    replay 0 (Insync.run {} ((before ++ [d]).map Delivery.data)).flatten =
      d.data &&& inKpKeyStatesMask

-- a frame given up since the last one that was taken has no key that the next one taken lacks
def Covered (ds : List Delivery) : Prop :=
  ∀ before d, before ++ [d] <+: ds → d.taken = true →
    ∀ e ∈ before.rtakeWhile (!·.taken), e.data &&& inKpKeyStatesMask &&& ~~~d.data = 0

section Tries

variable {o : Stream' (Outcome Errno)} {σ : Type}

theorem exec_retry (perform : σ → Action → σ) (left tries : Nat) (k : Outcome Errno)
    (o : Stream' (Outcome Errno)) (s : σ) : (retry left tries k).exec perform o s = s := by
  induction left generalizing tries k o with
  | zero => rfl
  | succ left ih =>
    cases k with
    | ok => rfl
    | error e => exact ih (tries + 1) o.head o.tail

theorem exec_acquire (perform : σ → Action → σ) (o : Stream' (Outcome Errno)) (s : σ) :
    acquire.exec perform o s = s := exec_retry perform 8 0 o.head o.tail s

theorem tries_retry (left tries : Nat) (o : Stream' (Outcome Errno)) :
    ((Prog.request (retry left tries)).result o).2 ≤ tries + left ∧
      (((Prog.request (retry left tries)).result o).2 = tries + left ↔ Refused o left) := by
  induction left generalizing tries o with
  | zero => exact ⟨Nat.le_refl _, iff_of_true rfl fun i hi => absurd hi (Nat.not_lt_zero i)⟩
  | succ left ih =>
    have hresult : (Prog.request (retry (left + 1) tries)).result o =
        (retry (left + 1) tries o.head).result o.tail := rfl
    rw [hresult]
    cases hk : o.head with
    | ok u =>
      have hdone : ((retry (left + 1) tries (.ok u)).result o.tail).2 = tries := rfl
      have hno : ¬ Refused o (left + 1) := fun h => h 0 (Nat.succ_pos left) hk
      rw [hdone]
      exact ⟨Nat.le_add_right _ _, iff_of_false (by omega) hno⟩
    | error e =>
      have hagain : (retry (left + 1) tries (.error e)).result o.tail =
          (Prog.request (retry left (tries + 1))).result o.tail := rfl
      have hrefused : Refused o (left + 1) ↔ Refused o.tail left := by
        constructor
        · intro h
          obtain ⟨_, _, htail⟩ := h.cons
          exact htail
        · intro h i hi
          cases i with
          | zero => exact fun hok => by cases hk.symm.trans hok
          | succ i => exact h i (Nat.lt_of_succ_lt_succ hi)
      have hcount : tries + (left + 1) = tries + 1 + left := by omega
      rw [hagain, hcount, hrefused]
      exact ih (tries + 1) o.tail

theorem taken_iff {d : Delivery} : d.taken = true ↔ ¬ Refused d.outcomes 8 := by
  have hok : ∀ k : Outcome Errno, k.isOk = true ↔ k = .ok () := by
    intro k
    cases k with
    | ok => exact iff_of_true rfl rfl
    | error e => exact iff_of_false (by simp [Except.isOk, Except.toBool]) (by simp)
  rw [Delivery.taken, List.any_eq_true]
  constructor
  · rintro ⟨i, hi, htaken⟩ hrefused
    exact hrefused i (List.mem_range.mp hi) ((hok _).mp htaken)
  · intro h
    obtain hrefused | ⟨n, hn, _, htaken⟩ := refused_or_taken d.outcomes 8
    · exact absurd hrefused h
    · exact ⟨n, List.mem_range.mpr hn, (hok _).mpr htaken⟩

theorem processed_eq_taken (d : Delivery) : d.processed = d.taken := by
  have htries := tries_retry 8 0 d.outcomes
  have hprocessed : d.processed = true ↔ ¬ Refused d.outcomes 8 := by
    rw [Delivery.processed, decide_eq_true_eq, ← htries.2, acquire]
    omega
  exact Bool.eq_iff_iff.mpr (hprocessed.trans taken_iff.symm)

theorem deliver_eq (device : Device) (d : Delivery) : deliver device d =
    if d.taken = true then
      (device.perform (.orRxHoldingRegister d.data)).perform .processRxDataFrame
    else device.perform (.orRxHoldingRegister d.data) := by
  have hexec : deliver device d =
      (acquire.bind fun r : Outcome Errno × Nat =>
        if r.2 > 7 then pure () else do
          perform .processRxDataFrame
          free r.1).exec Device.perform d.outcomes
        (device.perform (.orRxHoldingRegister d.data)) := rfl
  rw [hexec, Prog.exec_bind, exec_acquire, ← processed_eq_taken, Delivery.processed]
  by_cases htries : (acquire.result d.outcomes).2 > 7
  · have hle : ¬ (acquire.result d.outcomes).2 ≤ 7 := Nat.not_le.mpr htries
    simp only [htries, hle, if_true, decide_false, Bool.false_eq_true, if_false]
    rfl
  · have hle : (acquire.result d.outcomes).2 ≤ 7 := Nat.not_lt.mp htries
    simp only [htries, hle, if_false, decide_true, if_true]
    rfl

end Tries

section Run

variable {before ds : List Delivery} {d : Delivery}

structure RunInv (before : List Delivery) (device : Device) : Prop where
  holding : device.rxHoldingRegister =
    orAll ((before.rtakeWhile (!·.taken)).map Delivery.data)
  replayed : replay 0 device.reported = device.keypanel.rxFrame &&& inKpKeyStatesMask

theorem deliverAll_concat (before : List Delivery) (d : Delivery) :
    deliverAll (before ++ [d]) = deliver (deliverAll before) d := by
  simp [deliverAll]

theorem RunInv.deliver {device : Device} (h : RunInv before device) (d : Delivery) :
    RunInv (before ++ [d]) (deliver device d) := by
  rw [deliver_eq]
  cases htaken : d.taken with
  | true =>
    have hnone : (before ++ [d]).rtakeWhile (!·.taken) = [] :=
      List.rtakeWhile_concat_neg _ _ _ (by simp [htaken])
    rw [if_pos rfl]
    refine ⟨by rw [hnone]; rfl, ?_⟩
    change replay 0 (device.reported ++ _) = _
    rw [replay_append, h.replayed]
    exact replay_processFrame device.keypanel _
  | false =>
    have hkept : (before ++ [d]).rtakeWhile (!·.taken) = before.rtakeWhile (!·.taken) ++ [d] :=
      List.rtakeWhile_concat_pos _ _ _ (by simp [htaken])
    rw [if_neg Bool.false_ne_true]
    refine ⟨?_, h.replayed⟩
    rw [hkept, List.map_append, List.map_singleton, orAll_concat, ← h.holding]
    rfl

theorem runInv_deliverAll (before : List Delivery) : RunInv before (deliverAll before) := by
  induction before using List.reverseRecOn with
  | nil => exact ⟨rfl, rfl⟩
  | append_singleton before d ih =>
    rw [deliverAll_concat]
    exact ih.deliver d

theorem replay_deliverAll (hd : d.taken = true) :
    replay 0 (deliverAll (before ++ [d])).reported =
      (orAll ((before.rtakeWhile (!·.taken)).map Delivery.data) ||| d.data) &&&
        inKpKeyStatesMask := by
  rw [(runInv_deliverAll (before ++ [d])).replayed, deliverAll_concat, deliver_eq, if_pos hd,
    ← (runInv_deliverAll before).holding]
  rfl

theorem replay_deliverAll_iff (hd : d.taken = true) :
    replay 0 (deliverAll (before ++ [d])).reported = d.data &&& inKpKeyStatesMask ↔
      ∀ e ∈ before.rtakeWhile (!·.taken), e.data &&& inKpKeyStatesMask &&& ~~~d.data = 0 := by
  rw [replay_deliverAll hd, orAll_or_and_eq_iff]
  exact List.forall_mem_map

theorem replay_insync (before : List Delivery) (d : Delivery) :
    replay 0 (Insync.run {} ((before ++ [d]).map Delivery.data)).flatten =
      d.data &&& inKpKeyStatesMask := by
  have hreal := (key_events_reconstruct_key_states {}
    (before.map Delivery.data ++ [d.data])).1.replay
  rw [List.getLastD_concat] at hreal
  rw [List.map_append, List.map_singleton]
  exact hreal

end Run

theorem virtual_panel_never_sticks_iff (ds : List Delivery) : NeverSticks ds ↔ Covered ds := by
  constructor
  · intro h before d hds htaken
    have hprocessed : d.processed = true := (processed_eq_taken d).trans htaken
    exact (replay_deliverAll_iff htaken).mp (h before d hds hprocessed).1
  · intro h before d hds hprocessed
    have htaken : d.taken = true := (processed_eq_taken d).symm.trans hprocessed
    exact ⟨(replay_deliverAll_iff htaken).mpr (h before d hds htaken), replay_insync before d⟩

theorem abandoned_key_sticks :
    ¬ NeverSticks [⟨0x1, Stream'.const (.error .ebusy)⟩, ⟨0x2, Stream'.const (.ok ())⟩] := by
  intro h
  have hreplay := (h [⟨0x1, Stream'.const (.error .ebusy)⟩] ⟨0x2, Stream'.const (.ok ())⟩
    (List.prefix_refl _) (by decide)).1
  exact absurd hreplay (by decide)

end KeyPanel.Virtual
