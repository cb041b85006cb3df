import Mathlib.Algebra.BigOperators.Group.List.Basic
import Mathlib.Algebra.Order.Ring.Nat

namespace Markup

abbrev Name := List Char

inductive Tag where
  | opening (name : Name)
  | closing (name : Name)
  deriving DecidableEq, Repr

inductive Place where
  | content
  | name (read : List Char)
  | behind (tag : Option Tag)
  | quoted (tag : Option Tag)
  deriving DecidableEq, Repr

@[simp] def tagOf : List Char → Option Tag
  | '/' :: name => some (.closing name)
  | '!' :: _ => none
  | name => some (.opening name)

structure Reader where
  place : Place := .content
  opened : List Name := []
  ignored : Nat := 0
  deriving DecidableEq, Repr

namespace Reader

-- a closing tag that does not close the innermost element is ignored
@[simp] def meet (r : Reader) : Option Tag → Reader
  | none => { r with place := .content }
  | some (.opening name) => { r with place := .content, opened := name :: r.opened }
  | some (.closing name) =>
    if r.opened.head? = some name then { r with place := .content, opened := r.opened.tail }
    else { r with place := .content, ignored := r.ignored + 1 }

@[simp] def step (r : Reader) (c : Char) : Reader :=
  match r.place with
  | .content => if c = '<' then { r with place := .name [] } else r
  | .name read =>
    if c = '>' then r.meet (tagOf read)
    else if c = ' ' then { r with place := .behind (tagOf read) }
    else { r with place := .name (read ++ [c]) }
  | .behind tag =>
    if c = '>' then r.meet tag else if c = '"' then { r with place := .quoted tag } else r
  | .quoted tag => if c = '"' then { r with place := .behind tag } else r

def read (r : Reader) (text : List Char) : Reader := text.foldl step r

variable {r : Reader} {text : List Char} {tag : Option Tag}

@[simp] theorem read_nil (r : Reader) : r.read [] = r := rfl

@[simp] theorem read_cons (r : Reader) (c : Char) (text : List Char) :
    r.read (c :: text) = (r.step c).read text := rfl

theorem read_append (r : Reader) (s t : List Char) : r.read (s ++ t) = (r.read s).read t :=
  List.foldl_append

theorem read_of_still (h : ∀ c ∈ text, r.step c = r) : r.read text = r := by
  induction text with
  | nil => rfl
  | cons c text ih =>
    change (r.step c).read text = r
    rw [h c List.mem_cons_self]
    exact ih fun c' hc' => h c' (List.mem_cons_of_mem c hc')

theorem read_content (hplace : r.place = .content) (h : '<' ∉ text) : r.read text = r := by
  refine read_of_still fun c hc => ?_
  have hne : c ≠ '<' := fun hlt => h (hlt ▸ hc)
  rw [step, hplace]
  exact if_neg hne

theorem read_quoted (hplace : r.place = .quoted tag) (h : '"' ∉ text) : r.read text = r := by
  refine read_of_still fun c hc => ?_
  have hne : c ≠ '"' := fun hquote => h (hquote ▸ hc)
  rw [step, hplace]
  exact if_neg hne

end Reader

def Leads (o : List Name) (text : List Char) (p : List Name) (n : Nat) : Prop :=
  ∀ k, (Reader.mk .content o k).read text = ⟨.content, p, k + n⟩

theorem not_mem_toList {s : String} {l : List Char} (hs : s = String.ofList l)
    (h : l.all (· != '<') = true) : '<' ∉ s.toList := by
  rw [hs, String.toList_ofList]
  intro hmem
  simpa using List.all_eq_true.mp h '<' hmem

namespace Leads

variable {o p q : List Name} {s t : List Char} {m n : Nat}

theorem nil : Leads o [] o 0 := fun _ => rfl

theorem content (h : '<' ∉ s) : Leads o s o 0 := fun _ => Reader.read_content rfl h

theorem plain {s : String} {l : List Char} (hs : s = String.ofList l)
    (h : l.all (· != '<') = true) : Leads o s.toList o 0 := content (not_mem_toList hs h)

theorem literal {s : String} {l : List Char} (hs : s = String.ofList l)
    (h : ∀ k, (Reader.mk .content o k).read l = ⟨.content, p, k + n⟩) : Leads o s.toList p n := by
  intro k
  rw [hs, String.toList_ofList, h]

theorem append (hs : Leads o s p m) (ht : Leads p t q n) : Leads o (s ++ t) q (m + n) := by
  intro k
  rw [Reader.read_append, hs, ht, Nat.add_assoc]

theorem quiet (hs : Leads o s p 0) (ht : Leads p t q 0) : Leads o (s ++ t) q 0 :=
  hs.append ht

theorem quoted (tag : Option Tag) {start stop : List Char}
    (hstart : ∀ k, (Reader.mk .content o k).read start = ⟨.quoted tag, p, k⟩) (hs : '"' ∉ s)
    (hstop : ∀ k, (Reader.mk (.quoted tag) p k).read stop = ⟨.content, q, k⟩) :
    Leads o (start ++ s ++ stop) q 0 := by
  intro k
  rw [Reader.read_append, Reader.read_append, hstart, Reader.read_quoted rfl hs, hstop]
  rfl

theorem flatMap {α : Type} {l : List α} {f : α → List Char} {w : α → Nat}
    (h : ∀ a ∈ l, Leads o (f a) o (w a)) : Leads o (l.flatMap f) o (l.map w).sum := by
  induction l with
  | nil => exact nil
  | cons a l ih =>
    rw [List.flatMap_cons, List.map_cons, List.sum_cons]
    exact (h a List.mem_cons_self).append (ih fun a' ha' => h a' (List.mem_cons_of_mem a ha'))

theorem lines {ss : List String} (h : ∀ s ∈ ss, '<' ∉ s.toList) :
    Leads o (ss.flatMap String.toList) o 0 := by
  refine content fun hmem => ?_
  obtain ⟨s, hs, hlt⟩ := List.mem_flatMap.mp hmem
  exact h s hs hlt

theorem flatMap_quiet {α : Type} {l : List α} {f : α → List Char}
    (h : ∀ a ∈ l, Leads o (f a) o 0) : Leads o (l.flatMap f) o 0 := by
  have hsum : Leads o (l.flatMap f) o (l.map fun _ => 0).sum := flatMap h
  rwa [List.map_const', List.sum_replicate, Nat.nsmul_eq_mul, Nat.mul_zero] at hsum

end Leads

end Markup
