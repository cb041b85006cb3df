import EmbeddedProjects.FirEngine.SpecReader

namespace FirEngine

namespace SpecLines

variable {strtod : List Char → ℚ} {firSpecs firSpecs' : List FirSpec} {s t : List Char}
  {ls : List (List Char)} {n : Nat}

def consLine (c : Char) : List (List Char) → List (List Char)
  | [] => [[c]]
  | l :: ls => (c :: l) :: ls

-- a CR in front of an LF is part of the same line end
def splitLines : List Char → List (List Char)
  | [] => []
  | c :: s =>
    if c = '\n' then [] :: splitLines s
    else if c = '\r' then
      if s.head? = some '\n' then splitLines s else [] :: splitLines s
    else consLine c (splitLines s)

def fresh (s : List Char) : IStream := { rest := s }

def readAll (strtod : List Char → ℚ) : Nat → List FirSpec → List (List Char) →
    Except Fault (List FirSpec)
  | _, firSpecs, [] => .ok firSpecs
  | lineNum, firSpecs, l :: ls =>
    match readLine strtod firSpecs l with
    | .ok firSpecs => readAll strtod ((lineNum + 1) % 2 ^ 32) firSpecs ls
    | .error fault => .error (onLine lineNum fault)

theorem splitLines_cons (c : Char) (s : List Char) :
    splitLines (c :: s) = (takeLine (c :: s)).1 :: splitLines (takeLine (c :: s)).2.1 := by
  induction s generalizing c with
  | nil =>
    rw [splitLines, takeLine]
    split
    · rfl
    · split
      · rfl
      · rfl
  | cons d s ih =>
    rw [splitLines, takeLine]
    split
    · rfl
    · split
      · split
        · next hd =>
          obtain rfl : d = '\n' := by simpa using hd
          rfl
        · rfl
      · rw [ih d, consLine]

theorem splitLines_noBreak (hbreak : ∀ c ∈ s, c ≠ '\n' ∧ c ≠ '\r') (hs : s ≠ []) :
    splitLines s = [s] := by
  induction s with
  | nil => exact absurd rfl hs
  | cons c s ih =>
    simp only [List.mem_cons, forall_eq_or_imp] at hbreak
    rw [splitLines, if_neg hbreak.1.1, if_neg hbreak.1.2]
    cases s with
    | nil => rfl
    | cons d s => rw [ih hbreak.2 (by simp), consLine]

theorem takeLine_not_eof (c : Char) (s : List Char) :
    ((takeLine (c :: s)).2.2 && (takeLine (c :: s)).1.isEmpty) = false := by
  rw [takeLine]
  split
  · rfl
  · split
    · rfl
    · simp

theorem readLines_eof :
    readLines strtod n firSpecs { rest := s, eofbit := true } = .ok firSpecs := by
  rw [readLines]
  exact dif_pos rfl

-- the read that sets eofbit gives an empty line, and only the read behind it ends the loop
theorem readLines_nil : readLines strtod n firSpecs (fresh []) = .ok firSpecs := by
  rw [readLines]
  exact readLines_eof

theorem readLines_cons (c : Char) (s : List Char) :
    readLines strtod n firSpecs (fresh (c :: s)) =
      match readLine strtod firSpecs (takeLine (c :: s)).1 with
      | .ok firSpecs =>
        readLines strtod ((n + 1) % 2 ^ 32) firSpecs (fresh (takeLine (c :: s)).2.1)
      | .error fault => .error (onLine n fault) := by
  have hget : safeGetline (fresh (c :: s)) =
      ((takeLine (c :: s)).1, fresh (takeLine (c :: s)).2.1) := by
    simp only [safeGetline, fresh, Bool.false_or, takeLine_not_eof]
  rw [readLines, hget]
  refine (dif_neg Bool.false_ne_true).trans ?_
  cases (takeLine (c :: s)).1 with
  | nil => rfl
  | cons d l => rfl

theorem readLines_eq (s : List Char) (n : Nat) (firSpecs : List FirSpec) :
    readLines strtod n firSpecs (fresh s) = readAll strtod n firSpecs (splitLines s) := by
  induction hlen : s.length using Nat.strong_induction_on generalizing s n firSpecs with
  | _ k ih =>
    cases s with
    | nil => exact readLines_nil
    | cons c s =>
      have hlt : (takeLine (c :: s)).2.1.length < k := hlen ▸ length_takeLine_lt c s
      rw [readLines_cons, splitLines_cons, readAll]
      cases readLine strtod firSpecs (takeLine (c :: s)).1 with
      | ok firSpecs' => exact ih _ hlt _ _ _ rfl
      | error fault => rfl

theorem readFromFile_eq (spec : FirEngineSpec) (s : List Char) :
    spec.readFromFile strtod (fresh s) =
      (readAll strtod 1 spec.firSpec (splitLines s) >>= fun firSpecs =>
        .ok { spec with firSpec := firSpecs }) := by
  rw [FirEngineSpec.readFromFile, readLines_eq]

theorem mem_of_mem_splitLines {c : Char} {l : List Char} (hl : l ∈ splitLines s) (hc : c ∈ l) :
    c ∈ s := by
  induction s generalizing l with
  | nil => simp [splitLines] at hl
  | cons d s ih =>
    have hstep : l ∈ splitLines s → c ∈ d :: s := fun h => List.mem_cons_of_mem d (ih h hc)
    have hnew : l ∈ [] :: splitLines s → c ∈ d :: s := by
      intro h
      rcases List.mem_cons.mp h with rfl | h
      · simp at hc
      · exact hstep h
    rw [splitLines] at hl
    split at hl
    · exact hnew hl
    · split at hl
      · split at hl
        · exact hstep hl
        · exact hnew hl
      · cases hsplit : splitLines s with
        | nil =>
          obtain rfl : l = [d] := by simpa [hsplit, consLine] using hl
          simp [List.mem_singleton.mp hc]
        | cons l' ls =>
          rw [hsplit, consLine] at hl
          rcases List.mem_cons.mp hl with rfl | hl
          · rcases List.mem_cons.mp hc with rfl | hc
            · exact List.mem_cons_self
            · exact List.mem_cons_of_mem d (ih (hsplit ▸ List.mem_cons_self) hc)
          · exact hstep (hsplit ▸ List.mem_cons_of_mem l' hl)

end SpecLines

end FirEngine
