import EmbeddedProjects.FirEngine.SpecLines

namespace FirEngine

namespace SpecLines

inductive LineEnding where
  | lf
  | crlf
  | cr
  deriving DecidableEq, Repr

def LineEnding.chars : LineEnding → List Char
  | lf => ['\n']
  | crlf => ['\r', '\n']
  | cr => ['\r']

-- every LF of the text is replaced
def LineEnding.encode (e : LineEnding) (s : List Char) : List Char :=
  s.flatMap fun c => if c = '\n' then e.chars else [c]

def IsBreak (c : Char) : Prop := c = '\n' ∨ c = '\r'

def EndsOpen (s : List Char) : Prop := ∃ c, s.getLast? = some c ∧ ¬ IsBreak c

section Split

variable {c : Char} {s : List Char} {e : LineEnding}

theorem splitLines_other (hc : ¬ IsBreak c) (s : List Char) :
    splitLines (c :: s) = consLine c (splitLines s) := by
  rw [splitLines, if_neg fun h => hc (.inl h), if_neg fun h => hc (.inr h)]

theorem splitLines_chars (h : e = .cr → s.head? ≠ some '\n') :
    splitLines (e.chars ++ s) = [] :: splitLines s := by
  cases e with
  | lf => rfl
  | crlf => rfl
  | cr => exact if_neg (h rfl)

theorem encode_cons (e : LineEnding) (c : Char) (s : List Char) :
    e.encode (c :: s) = (if c = '\n' then e.chars else [c]) ++ e.encode s :=
  List.flatMap_cons

theorem head_encode_cr (s : List Char) : (LineEnding.cr.encode s).head? ≠ some '\n' := by
  cases s with
  | nil => exact (Option.some_ne_none _).symm
  | cons c s =>
    rw [encode_cons]
    split
    · exact fun h => absurd (Option.some.inj h) (by decide)
    · next hc => exact fun h => hc (Option.some.inj h)

theorem splitLines_encode (hcr : '\r' ∉ s) : splitLines (e.encode s) = splitLines s := by
  induction s with
  | nil => rfl
  | cons c s ih =>
    have hc : c ≠ '\r' := fun h => hcr (by simp [h])
    have hrest : splitLines (e.encode s) = splitLines s :=
      ih fun h => hcr (List.mem_cons_of_mem c h)
    rw [encode_cons]
    split
    · next hlf =>
      subst hlf
      have hhead : e = .cr → (e.encode s).head? ≠ some '\n' := by
        rintro rfl
        exact head_encode_cr s
      rw [splitLines_chars hhead, hrest]
      rfl
    · next hlf =>
      have hother : ¬ IsBreak c := fun h => h.elim hlf hc
      rw [List.singleton_append, splitLines_other hother, splitLines_other hother, hrest]

theorem splitLines_append_chars (e : LineEnding) (h : EndsOpen s) :
    splitLines (s ++ e.chars) = splitLines s := by
  obtain ⟨c, hlast, hc⟩ := h
  induction s with
  | nil => cases hlast
  | cons d s ih =>
    cases s with
    | nil =>
      obtain rfl : d = c := Option.some.inj hlast
      rw [List.singleton_append, splitLines_other hc, splitLines_other hc]
      cases e with
      | lf => rfl
      | crlf => rfl
      | cr => rfl
    | cons d' s =>
      have hrest := ih hlast
      rw [List.cons_append, splitLines, splitLines, hrest]
      rfl

end Split

theorem line_endings_are_irrelevant (strtod : List Char → ℚ) (spec : FirEngineSpec)
    (s : List Char) :
    ('\r' ∉ s → ∀ e : LineEnding,
      spec.readFromFile strtod (fresh (e.encode s)) = spec.readFromFile strtod (fresh s)) ∧
    (EndsOpen s → ∀ e : LineEnding,
      spec.readFromFile strtod (fresh (s ++ e.chars)) = spec.readFromFile strtod (fresh s)) := by
  constructor
  · intro hcr e
    rw [readFromFile_eq, readFromFile_eq, splitLines_encode hcr]
  · intro hopen e
    rw [readFromFile_eq, readFromFile_eq, splitLines_append_chars e hopen]

theorem line_endings_are_irrelevant_third_line :
    '\r' ∉ "#\n\nx".toList ∧ EndsOpen "#\n\nx".toList ∧
      FirEngineSpec.readFromFile (fun _ => 0) { clockFreq := 1 } (fresh "#\r\n\r\nx".toList) =
        FirEngineSpec.readFromFile (fun _ => 0) { clockFreq := 1 } (fresh "#\n\nx".toList) ∧
      FirEngineSpec.readFromFile (fun _ => 0) { clockFreq := 1 } (fresh "#\n\nx\r".toList) =
        FirEngineSpec.readFromFile (fun _ => 0) { clockFreq := 1 } (fresh "#\n\nx".toList) := by
  have hcr : '\r' ∉ "#\n\nx".toList := by decide
  have hopen : EndsOpen "#\n\nx".toList := ⟨'x', by decide, by simp [IsBreak]⟩
  have h := line_endings_are_irrelevant (fun _ => 0) { clockFreq := 1 } "#\n\nx".toList
  exact ⟨hcr, hopen, h.1 hcr .crlf, h.2 hopen .cr⟩

end SpecLines

end FirEngine
