import EmbeddedProjects.Lib.Growing
import EmbeddedProjects.Lib.Outcome
import EmbeddedProjects.FirEngine.SpecLines
import Mathlib.Data.List.Pairwise

namespace FirEngine

open StringMatchStream SpecLines

namespace SpecOrder

variable {strtod : List Char → ℚ} {firSpecs firSpecs' : List FirSpec} {s t l l' : List Char}
  {ls ls' : List (List Char)} {n i : Nat}

inductive Field where
  | sampleRate
  | coeff
  deriving DecidableEq, Repr

inductive Setting where
  | sampleRate (value : Nat)
  | coeff (values : List ℚ)
  deriving DecidableEq, Repr

def Setting.field : Setting → Field
  | .sampleRate _ => .sampleRate
  | .coeff _ => .coeff

def Setting.apply : Setting → FirSpec → FirSpec
  | .sampleRate value, firSpec => { firSpec with sampleFreq := value }
  | .coeff values, firSpec => { firSpec with coeff := values }

def assign (i : Nat) (set : Setting) (firSpecs : List FirSpec) : List FirSpec :=
  Growing.update ({} : FirSpec) i set.apply firSpecs

def fieldAt (s : StringMatchStream) : Field :=
  match matchText "sampleRate" s with
  | .ok (true, _) => .sampleRate
  | _ => .coeff

def lineField (l : List Char) : Option (Nat × Field) :=
  match matchText "FIR" (skipWhitespace l) with
  | .ok (true, s) =>
    match readFirIndex s with
    | .ok (firIdx, s) => some (firIdx, fieldAt s)
    | .error _ => none
  | _ => none

section Effect

theorem readSampleRate_cases (s : StringMatchStream) :
    (∃ fault, ∀ firSpec, readSampleRate firSpec s = .error fault) ∨
      ∃ v r, ∀ firSpec, readSampleRate firSpec s =
        .ok ((Setting.sampleRate v).apply firSpec, r) := by
  simp only [readSampleRate]
  cases expectChar '=' (skipWhitespace s) with
  | error fault => exact .inl ⟨fault, fun _ => rfl⟩
  | ok a =>
    cases huint : expectUInt "Unsigned-Integer sample rate" (skipWhitespace a) with
    | error fault => exact .inl ⟨fault, fun _ => by simp [huint, bind, Except.bind]⟩
    | ok p =>
      cases hend : expectChar ';' (skipWhitespace p.2) with
      | error fault => exact .inl ⟨fault, fun _ => by simp [huint, hend, bind, Except.bind]⟩
      | ok r =>
        refine .inr ⟨p.1, r, fun _ => ?_⟩
        simp [huint, hend, bind, Except.bind, Setting.apply]

theorem readCoeff_cases (strtod : List Char → ℚ) (s : StringMatchStream) :
    (∃ fault, ∀ firSpec, readCoeff strtod firSpec s = .error fault) ∨
      ∃ c r, ∀ firSpec, readCoeff strtod firSpec s = .ok ((Setting.coeff c).apply firSpec, r) := by
  simp only [readCoeff]
  cases expectChar '=' (skipWhitespace s) with
  | error fault => exact .inl ⟨fault, fun _ => rfl⟩
  | ok a =>
    cases hopen : expectChar '[' (skipWhitespace a) with
    | error fault => exact .inl ⟨fault, fun _ => by simp [hopen, bind, Except.bind]⟩
    | ok b =>
      cases hlist : readCoeffs strtod [] (skipWhitespace b) with
      | error fault => exact .inl ⟨fault, fun _ => by simp [hopen, hlist, bind, Except.bind]⟩
      | ok p =>
        cases hend : expectChar ';' p.2 with
        | error fault =>
          exact .inl ⟨fault, fun _ => by simp [hopen, hlist, hend, bind, Except.bind]⟩
        | ok r =>
          refine .inr ⟨p.1, r, fun _ => ?_⟩
          simp [hopen, hlist, hend, bind, Except.bind, Setting.apply]

theorem readField_cases (strtod : List Char → ℚ) (s : StringMatchStream) :
    (∃ fault, ∀ firSpec, readField strtod firSpec s = .error fault) ∨
      ∃ set : Setting, set.field = fieldAt s ∧
        ∃ r, ∀ firSpec, readField strtod firSpec s = .ok (set.apply firSpec, r) := by
  simp only [readField, fieldAt]
  cases matchText "sampleRate" s with
  | error fault => exact .inl ⟨fault, fun _ => rfl⟩
  | ok p =>
    obtain ⟨matched, rest⟩ := p
    cases matched with
    | true =>
      rcases readSampleRate_cases rest with ⟨fault, h⟩ | ⟨v, r, h⟩
      · exact .inl ⟨fault, h⟩
      · exact .inr ⟨.sampleRate v, rfl, r, h⟩
    | false =>
      cases hcoeff : matchText "coeff" s with
      | error fault => exact .inl ⟨fault, fun _ => by simp [bind, Except.bind]⟩
      | ok p =>
        obtain ⟨matched, rest⟩ := p
        cases matched with
        | true =>
          rcases readCoeff_cases strtod rest with ⟨fault, h⟩ | ⟨c, r, h⟩
          · exact .inl ⟨fault, h⟩
          · exact .inr ⟨.coeff c, rfl, r, h⟩
        | false => exact .inl ⟨_, fun _ => rfl⟩

theorem readCommand_cases (strtod : List Char → ℚ) (s : StringMatchStream) :
    (∃ fault, ∀ firSpecs, readCommand strtod firSpecs s = .error fault) ∨
      ∃ i r, ∃ set : Setting, readFirIndex s = .ok (i, r) ∧ set.field = fieldAt r ∧
        ∀ firSpecs, readCommand strtod firSpecs s = .ok (assign i set firSpecs) := by
  simp only [readCommand]
  cases readFirIndex s with
  | error fault => exact .inl ⟨fault, fun _ => rfl⟩
  | ok p =>
    rcases readField_cases strtod p.2 with ⟨fault, h⟩ | ⟨set, hset, r, h⟩
    · exact .inl ⟨fault, fun _ => by simp [h, bind, Except.bind]⟩
    · cases hend : readEnd r with
      | error fault => exact .inl ⟨fault, fun _ => by simp [h, hend, bind, Except.bind]⟩
      | ok u =>
        refine .inr ⟨p.1, p.2, set, rfl, hset, fun firSpecs => ?_⟩
        simp only [h, hend, bind, Except.bind]
        rfl

theorem readLine_cases (strtod : List Char → ℚ) (l : List Char) :
    (∃ fault, ∀ firSpecs, readLine strtod firSpecs l = .error fault) ∨
      (lineField l = none ∧ ∀ firSpecs, readLine strtod firSpecs l = .ok firSpecs) ∨
      ∃ i, ∃ set : Setting, lineField l = some (i, set.field) ∧
        ∀ firSpecs, readLine strtod firSpecs l = .ok (assign i set firSpecs) := by
  simp only [readLine, lineField]
  generalize skipWhitespace l = s
  split
  · next hblank =>
    refine .inr (.inl ⟨?_, fun _ => rfl⟩)
    cases s with
    | nil => rfl
    | cons c s =>
      obtain rfl : c = '#' := by simpa using hblank
      rfl
  · cases matchText "FIR" s with
    | error fault => exact .inl ⟨fault, fun _ => rfl⟩
    | ok p =>
      obtain ⟨matched, rest⟩ := p
      cases matched with
      | false => exact .inl ⟨_, fun _ => rfl⟩
      | true =>
        rcases readCommand_cases strtod rest with ⟨fault, h⟩ | ⟨i, r, set, hindex, hset, h⟩
        · exact .inl ⟨fault, h⟩
        · refine .inr (.inr ⟨i, set, ?_, h⟩)
          simp only [hindex, hset]

end Effect

section Order

theorem Setting.apply_comm {a b : Setting} (h : a.field ≠ b.field) (firSpec : FirSpec) :
    a.apply (b.apply firSpec) = b.apply (a.apply firSpec) := by
  cases a with
  | sampleRate v =>
    cases b with
    | sampleRate w => exact absurd rfl h
    | coeff c => rfl
  | coeff c =>
    cases b with
    | sampleRate v => rfl
    | coeff c' => exact absurd rfl h

theorem assign_comm {i j : Nat} {a b : Setting} (h : (i, a.field) ≠ (j, b.field)) :
    assign i a (assign j b firSpecs) = assign j b (assign i a firSpecs) := by
  refine Growing.update_comm ?_
  rintro rfl
  exact Setting.apply_comm fun hfield => h (by rw [hfield])

def lineEffect (strtod : List Char → ℚ) (firSpecs : List FirSpec) (l : List Char) :
    List FirSpec :=
  match readLine strtod firSpecs l with
  | .ok firSpecs => firSpecs
  | .error _ => firSpecs

theorem lineEffect_cases (strtod : List Char → ℚ) (l : List Char) :
    (∀ firSpecs, lineEffect strtod firSpecs l = firSpecs) ∨
      ∃ i, ∃ set : Setting, lineField l = some (i, set.field) ∧
        ∀ firSpecs, lineEffect strtod firSpecs l = assign i set firSpecs := by
  rcases readLine_cases strtod l with ⟨fault, hread⟩ | ⟨_, hread⟩ | ⟨i, set, hfield, hread⟩
  · exact .inl fun firSpecs => by simp [lineEffect, hread]
  · exact .inl fun firSpecs => by simp [lineEffect, hread]
  · exact .inr ⟨i, set, hfield, fun firSpecs => by simp [lineEffect, hread]⟩

theorem lineEffect_comm (h : ∀ k, lineField l = some k → lineField l' ≠ some k) :
    lineEffect strtod (lineEffect strtod firSpecs l) l' =
      lineEffect strtod (lineEffect strtod firSpecs l') l := by
  rcases lineEffect_cases strtod l with hl | ⟨i, a, hi, hl⟩
  · simp only [hl]
  · rcases lineEffect_cases strtod l' with hl' | ⟨j, b, hj, hl'⟩
    · simp only [hl']
    · simp only [hl, hl']
      refine (assign_comm fun heq => h (i, a.field) hi ?_).symm
      rw [hj, heq]

def Accepted (strtod : List Char → ℚ) (l : List Char) : Prop :=
  ∀ firSpecs, ∃ firSpecs', readLine strtod firSpecs l = .ok firSpecs'

theorem accepted_of_ok (h : readLine strtod firSpecs l = .ok firSpecs') : Accepted strtod l := by
  intro specs
  rcases readLine_cases strtod l with ⟨fault, hread⟩ | ⟨_, hread⟩ | ⟨i, set, _, hread⟩
  · rw [hread] at h
    cases h
  · exact ⟨_, hread specs⟩
  · exact ⟨_, hread specs⟩

theorem readAll_ok_iff : (∃ firSpecs', readAll strtod n firSpecs ls = .ok firSpecs') ↔
    ∀ l ∈ ls, Accepted strtod l := by
  induction ls generalizing n firSpecs with
  | nil => simp [readAll]
  | cons l ls ih =>
    simp only [List.mem_cons, forall_eq_or_imp]
    rw [readAll]
    constructor
    · intro h
      cases hread : readLine strtod firSpecs l with
      | ok firSpecs' =>
        rw [hread] at h
        exact ⟨accepted_of_ok hread, ih.mp h⟩
      | error fault =>
        rw [hread] at h
        obtain ⟨_, h⟩ := h
        cases h
    · rintro ⟨hl, hls⟩
      obtain ⟨firSpecs', hread⟩ := hl firSpecs
      rw [hread]
      exact ih.mpr hls

theorem readAll_eq_foldl (h : ∀ l ∈ ls, Accepted strtod l) :
    readAll strtod n firSpecs ls = .ok (ls.foldl (lineEffect strtod) firSpecs) := by
  induction ls generalizing n firSpecs with
  | nil => rfl
  | cons l ls ih =>
    simp only [List.mem_cons, forall_eq_or_imp] at h
    obtain ⟨firSpecs', hread⟩ := h.1 firSpecs
    rw [readAll, hread, List.foldl_cons, lineEffect, hread]
    exact ih h.2

theorem foldl_lineEffect_perm (hperm : ls.Perm ls') (hfields : (ls.filterMap lineField).Nodup) :
    ls.foldl (lineEffect strtod) firSpecs = ls'.foldl (lineEffect strtod) firSpecs := by
  have hpairs : ls.Pairwise fun l l' => ∀ k, lineField l = some k → lineField l' ≠ some k := by
    refine (List.pairwise_filterMap.mp hfields).imp fun h k hk hk' => ?_
    exact h k hk k hk' rfl
  refine hperm.foldl_eq' (fun x hx y hy z => ?_) firSpecs
  by_cases hxy : x = y
  · rw [hxy]
  · have hsymm : ∀ x y : List Char, (∀ k, lineField x = some k → lineField y ≠ some k) →
        ∀ k, lineField y = some k → lineField x ≠ some k := fun _ _ h k hy hx => h k hx hy
    have : Std.Symm fun x y => ∀ k, lineField x = some k → lineField y ≠ some k := ⟨hsymm⟩
    exact lineEffect_comm (hpairs.forall hx hy hxy)

def Field.IsDefault : Field → FirSpec → Prop
  | .sampleRate, firSpec => firSpec.sampleFreq = ({} : FirSpec).sampleFreq
  | .coeff, firSpec => firSpec.coeff = ({} : FirSpec).coeff

theorem Setting.isDefault_apply {a : Setting} {field : Field} {firSpec : FirSpec}
    (hne : a.field ≠ field) (h : field.IsDefault firSpec) : field.IsDefault (a.apply firSpec) := by
  cases a with
  | sampleRate v =>
    cases field with
    | sampleRate => exact absurd rfl hne
    | coeff => exact h
  | coeff c =>
    cases field with
    | sampleRate => exact h
    | coeff => exact absurd rfl hne

theorem isDefault_lineEffect {field : Field} (hne : lineField l ≠ some (i, field))
    (h : field.IsDefault (firSpecs.getD i {})) :
    field.IsDefault ((lineEffect strtod firSpecs l).getD i {}) := by
  rcases lineEffect_cases strtod l with hl | ⟨j, a, hj, hl⟩
  · rwa [hl]
  · rw [hl, assign, Growing.getD_update]
    split
    · next hij =>
      subst hij
      exact Setting.isDefault_apply (fun hfield => hne (by rw [hj, hfield])) h
    · exact h

theorem isDefault_foldl {field : Field} (hne : (i, field) ∉ ls.filterMap lineField)
    (h : field.IsDefault (firSpecs.getD i {})) :
    field.IsDefault ((ls.foldl (lineEffect strtod) firSpecs).getD i {}) := by
  induction ls generalizing firSpecs with
  | nil => exact h
  | cons l ls ih =>
    have hl : lineField l ≠ some (i, field) := fun hl =>
      hne (List.mem_filterMap.mpr ⟨l, List.mem_cons_self, hl⟩)
    have hls : (i, field) ∉ ls.filterMap lineField := fun hmem => by
      obtain ⟨l', hl', hk⟩ := List.mem_filterMap.mp hmem
      exact hne (List.mem_filterMap.mpr ⟨l', List.mem_cons_of_mem l hl', hk⟩)
    exact ih hls (isDefault_lineEffect hl h)

theorem readFromFile_perm (strtod : List Char → ℚ) (clockFreq : ℚ)
    (hperm : (splitLines s).Perm (splitLines t))
    (haccepted : ∃ spec, FirEngineSpec.readFromFile strtod { clockFreq } (fresh s) = .ok spec)
    (hfields : ((splitLines s).filterMap lineField).Nodup) :
    ∃ firSpec, FirEngineSpec.readFromFile strtod { clockFreq } (fresh s) =
        .ok { clockFreq, firSpec } ∧
      FirEngineSpec.readFromFile strtod { clockFreq } (fresh t) = .ok { clockFreq, firSpec } ∧
      ∀ i, ∀ field : Field, (i, field) ∉ (splitLines s).filterMap lineField →
        field.IsDefault (firSpec.getD i {}) := by
  obtain ⟨spec, hspec⟩ := haccepted
  rw [readFromFile_eq] at hspec
  obtain ⟨firSpec, hread, _⟩ := Outcome.bind_eq_ok.mp hspec
  have hs : ∀ l ∈ splitLines s, Accepted strtod l := readAll_ok_iff.mp ⟨firSpec, hread⟩
  have ht : ∀ l ∈ splitLines t, Accepted strtod l := fun l hl => hs l (hperm.mem_iff.mpr hl)
  refine ⟨(splitLines s).foldl (lineEffect strtod) [], ?_, ?_, fun i field hne => ?_⟩
  · rw [readFromFile_eq, readAll_eq_foldl hs]
    rfl
  · rw [readFromFile_eq, readAll_eq_foldl ht, foldl_lineEffect_perm hperm hfields]
    rfl
  · refine isDefault_foldl hne ?_
    cases field with
    | sampleRate => rfl
    | coeff => rfl

theorem readFromFile_perm_two_lines :
    ∃ firSpec, FirEngineSpec.readFromFile (fun _ => 1 / 2) { clockFreq := 1 }
        (fresh "FIR[1].coeff=[.5];\nFIR[0].sampleRate=5;".toList) =
          .ok { clockFreq := 1, firSpec } ∧
      FirEngineSpec.readFromFile (fun _ => 1 / 2) { clockFreq := 1 }
        (fresh "FIR[0].sampleRate=5;\nFIR[1].coeff=[.5];\r\n".toList) =
          .ok { clockFreq := 1, firSpec } ∧
      ∀ i, ∀ field : Field,
        (i, field) ∉ (splitLines "FIR[1].coeff=[.5];\nFIR[0].sampleRate=5;".toList).filterMap
          lineField → field.IsDefault (firSpec.getD i {}) :=
  readFromFile_perm _ _ (by decide +kernel) ⟨⟨1, [⟨5, []⟩, ⟨16000000, [1 / 2]⟩]⟩, by decide +kernel⟩
    (by decide +kernel)

end Order

end SpecOrder

end FirEngine
