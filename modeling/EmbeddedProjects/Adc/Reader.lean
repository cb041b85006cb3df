import EmbeddedProjects.Lib.Changes
import EmbeddedProjects.Adc.Driver

namespace Adc.Reader

structure InputEvent where
  type : BitVec 16
  code : BitVec 16
  value : BitVec 32
  deriving DecidableEq, Repr

def evSyn : BitVec 16 := 0
def evAbs : BitVec 16 := 3
def synReport : BitVec 16 := 0
def absY : BitVec 16 := 1

structure Core where
  value : BitVec 32 := 0
  sync : Bool := true

def inputReportAbs (core : Core) (value : BitVec 32) : Core × List InputEvent :=
  if value = core.value then (core, [])
  else ({ value := value, sync := false }, [⟨evAbs, absY, value⟩])

def inputSync (core : Core) : Core × List InputEvent :=
  if core.sync then (core, []) else ({ core with sync := true }, [⟨evSyn, synReport, 0⟩])

def emitted : Core → List (BitVec 32) → List InputEvent
  | _, [] => []
  | core, value :: values =>
    let (core, data) := inputReportAbs core value
    let (core, sync) := inputSync core
    data ++ (sync ++ emitted core values)

-- adc_ev, of which a read fills as much as it returns
abbrev Buffer := InputEvent × InputEvent

def fill (ev : Buffer) : List InputEvent → Buffer
  | [] => ev
  | [e] => (e, ev.2)
  | e :: e' :: _ => (e, e')

def InputEvent.isData (e : InputEvent) : Bool := e.type = evAbs ∧ e.code = absY

def sanityChecks (ev : Buffer) (rd : Nat) : Option (Bool × (Nat × BitVec 32)) :=
  if ev.1.isData then some (false, decodeEvent ev.1.value)
  else if ev.2.isData then some (rd = 1, decodeEvent ev.2.value)
  else none

def mainLoop : Buffer → List (List InputEvent) → List (Bool × (Nat × BitVec 32))
  | _, [] => []
  | ev, chunk :: chunks =>
    (sanityChecks (fill ev chunk) chunk.length).toList ++ mainLoop (fill ev chunk) chunks

def processed (ev : Buffer) (chunks : List (List InputEvent)) : List (Nat × BitVec 32) :=
  (mainLoop ev chunks).map Prod.snd

structure Reads (chunks : List (List InputEvent)) (events : List InputEvent) : Prop where
  flatten : chunks.flatten = events
  size : ∀ chunk ∈ chunks, chunk.length = 1 ∨ chunk.length = 2

def readings (events : List InputEvent) : List (Nat × BitVec 32) :=
  (events.filter (·.isData)).map fun e => decodeEvent e.value

def Apart (e e' : InputEvent) : Prop := e.isData = true → e'.isData = false

section Core

def packet (value : BitVec 32) : List InputEvent :=
  [⟨evAbs, absY, value⟩, ⟨evSyn, synReport, 0⟩]

theorem emitted_eq (value : BitVec 32) (values : List (BitVec 32)) :
    emitted { value } values = (Changes.forwarded value values).flatMap packet := by
  induction values generalizing value with
  | nil => rfl
  | cons v values ih =>
    by_cases h : v = value
    · simpa [emitted, inputReportAbs, inputSync, Changes.forwarded, h] using ih value
    · simpa [emitted, inputReportAbs, inputSync, Changes.forwarded, h, packet] using ih v

theorem apart_packets (values : List (BitVec 32)) : (values.flatMap packet).IsChain Apart := by
  induction values with
  | nil => exact .nil
  | cons v values ih =>
    cases values with
    | nil => exact .cons_cons (fun _ => rfl) (.singleton _)
    | cons v' values =>
      exact .cons_cons (fun _ => rfl) (.cons_cons (fun h => absurd h (by decide)) ih)

theorem readings_packets (values : List (BitVec 32)) :
    readings (values.flatMap packet) = values.map decodeEvent := by
  induction values with
  | nil => rfl
  | cons v values ih => exact congrArg (decodeEvent v :: ·) ih

end Core

section Loop

variable {ev : Buffer} {chunk : List InputEvent} {chunks : List (List InputEvent)}
  {events : List InputEvent}

theorem readings_append (xs ys : List InputEvent) :
    readings (xs ++ ys) = readings xs ++ readings ys := by
  simp [readings]

theorem fresh_of_single (ev : Buffer) (e : InputEvent) :
    ((sanityChecks (e, ev.2) 1).toList.filter (!·.1)).map Prod.snd = readings [e] := by
  cases he : e.isData with
  | true => simp [sanityChecks, readings, he]
  | false => cases he' : ev.2.isData <;> simp [sanityChecks, readings, he, he']

theorem fresh_of_pair {e e' : InputEvent} (h : Apart e e') :
    ((sanityChecks (e, e') 2).toList.filter (!·.1)).map Prod.snd = readings [e, e'] := by
  cases he : e.isData with
  | true => simp [sanityChecks, readings, he, h he]
  | false => cases he' : e'.isData <;> simp [sanityChecks, readings, he, he']

theorem fresh_of_read (hsize : chunk.length = 1 ∨ chunk.length = 2) (hapart : chunk.IsChain Apart) :
    ((sanityChecks (fill ev chunk) chunk.length).toList.filter (!·.1)).map Prod.snd =
      readings chunk := by
  obtain hone | htwo := hsize
  · obtain ⟨e, rfl⟩ := List.length_eq_one_iff.mp hone
    exact fresh_of_single ev e
  · obtain ⟨e, e', rfl⟩ := List.length_eq_two.mp htwo
    exact fresh_of_pair (List.isChain_pair.mp hapart)

theorem fresh_readings (ev : Buffer)
    (hsize : ∀ chunk ∈ chunks, chunk.length = 1 ∨ chunk.length = 2)
    (hapart : chunks.flatten.IsChain Apart) :
    ((mainLoop ev chunks).filter (!·.1)).map Prod.snd = readings chunks.flatten := by
  induction chunks generalizing ev with
  | nil => rfl
  | cons chunk chunks ih =>
    obtain ⟨hchunk, hchunks⟩ := List.forall_mem_cons.mp hsize
    rw [List.flatten_cons, List.isChain_append] at hapart
    rw [mainLoop, List.filter_append, List.map_append, List.flatten_cons, readings_append,
      fresh_of_read hchunk hapart.1, ih _ hchunks hapart.2.1]

theorem processed_eq_iff (h : ((mainLoop ev chunks).filter (!·.1)).map Prod.snd = readings events) :
    processed ev chunks = readings events ↔ ∀ r ∈ mainLoop ev chunks, r.1 = false := by
  rw [processed, ← h]
  constructor
  · intro heq
    have hlength := congrArg List.length heq
    rw [List.length_map, List.length_map] at hlength
    simpa using List.length_filter_eq_length_iff.mp hlength.symm
  · intro hfresh
    rw [List.filter_eq_self.mpr fun r hr => by simp [hfresh r hr]]

theorem fresh_of_two {r : Bool × (Nat × BitVec 32)} (hr : r ∈ sanityChecks ev 2) :
    r.1 = false := by
  rw [sanityChecks] at hr
  split at hr
  · cases hr; rfl
  · split at hr
    · cases hr; rfl
    · cases hr

theorem fresh_of_pairs (hsize : ∀ chunk ∈ chunks, chunk.length = 2) :
    ∀ r ∈ mainLoop ev chunks, r.1 = false := by
  induction chunks generalizing ev with
  | nil => exact fun r hr => absurd hr List.not_mem_nil
  | cons chunk chunks ih =>
    obtain ⟨hchunk, hchunks⟩ := List.forall_mem_cons.mp hsize
    intro r hr
    obtain hr | hr := List.mem_append.mp hr
    · rw [hchunk] at hr
      exact fresh_of_two (Option.mem_toList.mp hr)
    · exact ih hchunks r hr

theorem stale_check {rd : Nat} {reading : Nat × BitVec 32}
    (h : sanityChecks ev rd = some (true, reading)) :
    rd = 1 ∧ ev.2.isData = true ∧ decodeEvent ev.2.value = reading := by
  rw [sanityChecks] at h
  split at h
  · cases h
  · split at h
    · next hdata =>
      obtain ⟨hone, rfl⟩ : rd = 1 ∧ decodeEvent ev.2.value = reading := by simpa using h
      exact ⟨hone, hdata, rfl⟩
    · cases h

def Known (seen : List (Nat × BitVec 32)) (ev : Buffer) : Prop :=
  ev.2.isData = true → decodeEvent ev.2.value ∈ seen

theorem Known.read {seen : List (Nat × BitVec 32)} (h : Known seen ev)
    (hsize : chunk.length = 1 ∨ chunk.length = 2) (hapart : chunk.IsChain Apart) :
    Known (seen ++ (sanityChecks (fill ev chunk) chunk.length).toList.map Prod.snd)
      (fill ev chunk) := by
  intro hdata
  obtain hone | htwo := hsize
  · obtain ⟨e, rfl⟩ := List.length_eq_one_iff.mp hone
    exact List.mem_append_left _ (h hdata)
  · obtain ⟨e, e', rfl⟩ := List.length_eq_two.mp htwo
    change e'.isData = true at hdata
    have hsync : e.isData = false := by
      by_contra he
      have := List.isChain_pair.mp hapart (by simpa using he)
      simp [hdata] at this
    refine List.mem_append_right _ ?_
    simp [fill, sanityChecks, hsync, hdata]

theorem Known.repeated {seen : List (Nat × BitVec 32)} (h : Known seen ev)
    (hsize : ∀ chunk ∈ chunks, chunk.length = 1 ∨ chunk.length = 2)
    (hapart : chunks.flatten.IsChain Apart) {before after : List (Bool × (Nat × BitVec 32))}
    {reading : Nat × BitVec 32} (hsplit : mainLoop ev chunks = before ++ (true, reading) :: after) :
    reading ∈ seen ++ before.map Prod.snd := by
  induction chunks generalizing ev seen before with
  | nil => simp [mainLoop] at hsplit
  | cons chunk chunks ih =>
    obtain ⟨hchunk, hchunks⟩ := List.forall_mem_cons.mp hsize
    rw [List.flatten_cons, List.isChain_append] at hapart
    have hknown := h.read hchunk hapart.1
    rw [mainLoop] at hsplit
    cases hcheck : sanityChecks (fill ev chunk) chunk.length with
    | none =>
      rw [hcheck] at hsplit hknown
      simpa using ih hknown hchunks hapart.2.1 hsplit
    | some r =>
      rw [hcheck] at hsplit hknown
      cases before with
      | nil =>
        obtain ⟨rfl, -⟩ := List.cons_eq_cons.mp hsplit
        obtain ⟨hone, hdata, rfl⟩ := stale_check hcheck
        obtain ⟨e, rfl⟩ := List.length_eq_one_iff.mp hone
        exact List.mem_append_left _ (h hdata)
      | cons r' before =>
        obtain ⟨rfl, hrest⟩ := List.cons_eq_cons.mp hsplit
        simpa using ih hknown hchunks hapart.2.1 hrest

end Loop

structure ReadsEachChange (words : List (BitVec 32)) (ev : Buffer)
    (chunks : List (List InputEvent)) : Prop where
  once : ((mainLoop ev chunks).filter (!·.1)).map Prod.snd =
    (Changes.forwarded 0 words).map decodeEvent
  exact_iff : processed ev chunks = (Changes.forwarded 0 words).map decodeEvent ↔
    ∀ r ∈ mainLoop ev chunks, r.1 = false
  whole : (∀ chunk ∈ chunks, chunk.length = 2) → ∀ r ∈ mainLoop ev chunks, r.1 = false
  repeated : ev.2.isData = false → ∀ before reading after,
    mainLoop ev chunks = before ++ (true, reading) :: after → reading ∈ before.map Prod.snd

theorem readsEachChange_of_reads {words : List (BitVec 32)} (ev : Buffer)
    {chunks : List (List InputEvent)} (h : Reads chunks (emitted {} words)) :
    ReadsEachChange words ev chunks := by
  have hevents : chunks.flatten = (Changes.forwarded 0 words).flatMap packet :=
    h.flatten.trans (emitted_eq 0 words)
  have hapart : chunks.flatten.IsChain Apart := hevents ▸ apart_packets _
  have hreadings : readings chunks.flatten = (Changes.forwarded 0 words).map decodeEvent := by
    rw [hevents, readings_packets]
  have honce := fresh_readings ev h.size hapart
  refine ⟨honce.trans hreadings, ?_, fresh_of_pairs, fun hev before reading after hsplit => ?_⟩
  · rw [← hreadings]
    exact processed_eq_iff honce
  · have hknown : Known [] ev := fun hdata => absurd (hev.symm.trans hdata) (by decide)
    simpa using hknown.repeated h.size hapart hsplit

theorem reader_reads_each_change (words : List (BitVec 32)) (ev : Buffer)
    (chunks : List (List InputEvent)) (h : Reads chunks (emitted {} words)) :
    ReadsEachChange words ev chunks :=
  readsEachChange_of_reads ev h

theorem reader_reads_each_change_split :
    ReadsEachChange [8, 17] (⟨0, 0, 0⟩, ⟨0, 0, 0⟩)
      [[⟨evAbs, absY, 8⟩], [⟨evSyn, synReport, 0⟩, ⟨evAbs, absY, 17⟩], [⟨evSyn, synReport, 0⟩]] :=
  reader_reads_each_change _ _ _ ⟨by decide, by decide⟩

end Adc.Reader
