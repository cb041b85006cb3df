import EmbeddedProjects.Adc.Generator
import EmbeddedProjects.Adc.Reader

namespace Adc.Simulation

open Generator Reader

theorem mem_unflagged {α : Type} {l : List (Bool × α)}
    (h : ∀ before a after, l = before ++ (true, a) :: after → a ∈ before.map Prod.snd) :
    ∀ r ∈ l, r.2 ∈ (l.filter (!·.1)).map Prod.snd := by
  induction l using List.reverseRecOn with
  | nil => exact fun r hr => absurd hr List.not_mem_nil
  | append_singleton l last ih =>
    have hbefore := ih fun before a after hl => h before a (after ++ [last]) (by rw [hl]; simp)
    rw [List.filter_append, List.map_append]
    intro r hr
    obtain hr | hr := List.mem_append.mp hr
    · exact List.mem_append_left _ (hbefore r hr)
    · obtain rfl := List.mem_singleton.mp hr
      obtain ⟨_ | _, a⟩ := r
      · exact List.mem_append_right _ (by simp)
      · obtain ⟨r', hr', rfl⟩ := List.mem_map.mp (h l a [] rfl)
        exact List.mem_append_left _ (hbefore r' hr')

section Pipeline

variable (random : Nat → Nat × Nat) (tmSec n : Nat)

def reported : List (BitVec 32) :=
  (List.range n).flatMap fun k =>
    let buffer := sprintf (Generator.readings random tmSec k)
    (writeVadcc sscanf buffer buffer.length).2

def shown : List (Nat × BitVec 32) :=
  (List.range n).flatMap fun k => sentFor (Generator.readings random tmSec k)

variable {random tmSec n}

theorem decoded_reported : (reported random tmSec n).map decodeEvent = shown random tmSec n := by
  rw [reported, shown, List.map_flatMap]
  congr 1
  funext k
  obtain ⟨hx, hy⟩ := readings_lt random tmSec k
  exact decoded_write hx hy _

theorem word_of_mem_reported {word : BitVec 32} (h : word ∈ reported random tmSec n) :
    ∃ x y, x < 8 ∧ y < 1024 ∧ Sent (BitVec.ofNat 32 x) (BitVec.ofNat 32 y) ∧
      word = BitVec.ofNat 32 y <<< 3 ||| BitVec.ofNat 32 x := by
  obtain ⟨k, _, hword⟩ := List.mem_flatMap.mp h
  obtain ⟨hx, hy⟩ := readings_lt random tmSec k
  refine ⟨_, _, hx, hy, ?_⟩
  rcases writeVadcc_cases _ (sscanf_sprintf _ _) with ⟨hsent, hevents⟩ | ⟨_, hevents⟩
  · rw [hevents] at hword
    exact ⟨hsent, List.mem_singleton.mp hword⟩
  · rw [hevents] at hword
    cases hword

theorem zero_not_mem_reported : 0 ∉ reported random tmSec n := by
  intro hmem
  obtain ⟨x, y, hx, hy, hsent, hword⟩ := word_of_mem_reported hmem
  have hdecoded := decodeEvent_ofNat hx hy
  rw [← hword] at hdecoded
  obtain ⟨hx, hy⟩ := Prod.mk.inj hdecoded
  rw [← hx, ← hy] at hsent
  exact absurd hsent.2.1 (by decide)

theorem decodeEvent_inj {word word' : BitVec 32} (h : word ∈ reported random tmSec n)
    (h' : word' ∈ reported random tmSec n) :
    decodeEvent word = decodeEvent word' ↔ word = word' := by
  obtain ⟨x, y, hx, hy, _, rfl⟩ := word_of_mem_reported h
  obtain ⟨x', y', hx', hy', _, rfl⟩ := word_of_mem_reported h'
  rw [decodeEvent_ofNat hx hy, decodeEvent_ofNat hx' hy', Prod.mk.injEq]
  constructor
  · rintro ⟨rfl, heq⟩
    rw [heq]
  · intro heq
    have hdecoded := decodeEvent_ofNat hx hy
    rw [heq, decodeEvent_ofNat hx' hy'] at hdecoded
    exact ⟨congrArg Prod.fst hdecoded.symm, congrArg Prod.snd hdecoded.symm⟩

theorem decoded_forwarded : (Changes.forwarded 0 (reported random tmSec n)).map decodeEvent =
    (shown random tmSec n).destutter (· ≠ ·) := by
  rw [Changes.forwarded_eq_destutter zero_not_mem_reported, ← decoded_reported]
  exact List.map_destutter fun _ h _ h' => (decodeEvent_inj h h').not.symm

theorem mem_shown_early {reading : Nat × BitVec 32} (h : reading ∈ shown random tmSec n) :
    reading ∈ shown random tmSec 1025 := by
  obtain ⟨k, _, hreading⟩ := List.mem_flatMap.mp h
  have hseed : ∀ y, (readingAfter random y).1 < 1024 := fun _ => Nat.mod_lt _ (by decide)
  obtain ⟨j, hj, heq⟩ := Orbit.outputs_eq_early hseed tmSec k
  refine List.mem_flatMap.mpr ⟨j, List.mem_range.mpr (Nat.lt_succ_of_le hj), ?_⟩
  rwa [Generator.readings, heq] at hreading

end Pipeline

theorem simulated_readings_are_processed (random : Nat → Nat × Nat) (tmSec n : Nat) (ev : Buffer)
    (chunks : List (List InputEvent)) (h : Reads chunks (emitted {} (reported random tmSec n))) :
    ((mainLoop ev chunks).filter (!·.1)).map Prod.snd =
      (shown random tmSec n).destutter (· ≠ ·) ∧
    ((∀ chunk ∈ chunks, chunk.length = 2) →
      processed ev chunks = (shown random tmSec n).destutter (· ≠ ·)) ∧
    (ev.2.isData = false → ∀ reading ∈ processed ev chunks, reading ∈ shown random tmSec 1025) := by
  have heach := readsEachChange_of_reads ev h
  have honce := heach.once.trans decoded_forwarded
  refine ⟨honce, fun hwhole => ?_, fun hev reading hreading => ?_⟩
  · exact (heach.exact_iff.mpr (heach.whole hwhole)).trans decoded_forwarded
  · obtain ⟨r, hr, rfl⟩ := List.mem_map.mp hreading
    have hmem := mem_unflagged (heach.repeated hev) r hr
    rw [honce] at hmem
    exact mem_shown_early ((List.destutter_sublist _ _).subset hmem)

def splitReads : List (List InputEvent) :=
  [[⟨evAbs, absY, 53⟩], [⟨evSyn, synReport, 0⟩, ⟨evAbs, absY, 62⟩], [⟨evSyn, synReport, 0⟩]]

theorem simulated_readings_are_processed_split :
    processed (⟨0, 0, 0⟩, ⟨0, 0, 0⟩) splitReads = [(5, 6), (6, 7), (6, 7)] ∧
    ((mainLoop (⟨0, 0, 0⟩, ⟨0, 0, 0⟩) splitReads).filter (!·.1)).map Prod.snd =
      (shown (fun y => (y, y + 1)) 5 2).destutter (· ≠ ·) ∧
    ((∀ chunk ∈ splitReads, chunk.length = 2) →
      processed (⟨0, 0, 0⟩, ⟨0, 0, 0⟩) splitReads =
        (shown (fun y => (y, y + 1)) 5 2).destutter (· ≠ ·)) ∧
    ((⟨0, 0, 0⟩ : InputEvent).isData = false →
      ∀ reading ∈ processed (⟨0, 0, 0⟩, ⟨0, 0, 0⟩) splitReads,
        reading ∈ shown (fun y => (y, y + 1)) 5 1025) := by
  refine ⟨by decide, simulated_readings_are_processed (fun y => (y, y + 1)) 5 2 _ _ ⟨?_, ?_⟩⟩
  · decide +kernel
  · decide

end Adc.Simulation
