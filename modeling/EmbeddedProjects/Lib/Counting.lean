import Mathlib.Algebra.BigOperators.Group.List.Basic
import Mathlib.Algebra.Group.Action.Defs
import Mathlib.Algebra.Order.BigOperators.Group.List
import Mathlib.Algebra.Order.Ring.Nat
import Mathlib.Data.List.Nodup
import Mathlib.Data.List.Range
import Mathlib.Data.Nat.ModEq

namespace Counting

theorem sum_map_flatMap {α ι : Type} (l : List α) (f : α → List ι) (w : ι → Nat) :
    ((l.flatMap f).map w).sum = (l.map fun a => ((f a).map w).sum).sum := by
  induction l with
  | nil => rfl
  | cons a l ih =>
    rw [List.flatMap_cons, List.map_append, List.sum_append, ih, List.map_cons, List.sum_cons]

section Bounded

variable {l : List Nat} {b : Nat}

theorem sum_le_length_mul (h : ∀ n ∈ l, n ≤ b) : l.sum ≤ l.length * b :=
  List.sum_le_card_nsmul l b h

theorem sum_eq_length_mul_iff (h : ∀ n ∈ l, n ≤ b) :
    l.sum = l.length * b ↔ ∀ n ∈ l, n = b := by
  induction l with
  | nil => simp
  | cons n l ih =>
    have htail : ∀ n' ∈ l, n' ≤ b := fun n' hn' => h n' (List.mem_cons_of_mem n hn')
    have hle := sum_le_length_mul htail
    have hn := h n List.mem_cons_self
    rw [List.sum_cons, List.length_cons, Nat.succ_mul, List.forall_mem_cons, ← ih htail]
    omega

end Bounded

section Keys

variable {α ι : Type} [DecidableEq ι] {key : α → Option ι} {ks : List ι} {l : List α}

theorem sum_indicator (hks : ks.Nodup) {k : ι} (hk : k ∈ ks) :
    (ks.map fun k' => if some k = some k' then 1 else 0).sum = 1 := by
  induction ks with
  | nil => cases hk
  | cons k' ks ih =>
    obtain ⟨hnot, hnodup⟩ := List.nodup_cons.mp hks
    rw [List.map_cons, List.sum_cons]
    rcases List.mem_cons.mp hk with rfl | htail
    · have hzero : ks.map (fun k' => if some k = some k' then 1 else 0) =
          ks.map fun _ => 0 := by
        refine List.map_congr_left fun k' hk' => if_neg fun h => hnot ?_
        rwa [Option.some.inj h]
      rw [if_pos rfl, hzero]
      simp
    · have hne : ¬ some k = some k' := fun h => hnot (Option.some.inj h ▸ htail)
      rw [if_neg hne, ih hnodup htail]

theorem countP_isSome (hks : ks.Nodup) (h : ∀ a ∈ l, ∀ k, key a = some k → k ∈ ks) :
    l.countP (fun a => (key a).isSome) = (ks.map fun k => l.countP (key · = some k)).sum := by
  induction l with
  | nil => simp
  | cons a l ih =>
    have htail := ih fun a' ha' => h a' (List.mem_cons_of_mem a ha')
    have hcount : ∀ k, (a :: l).countP (key · = some k) =
        l.countP (key · = some k) + if key a = some k then 1 else 0 := fun k => by
      simp [List.countP_cons]
    have hone : (ks.map fun k => if key a = some k then 1 else 0).sum =
        if (key a).isSome then 1 else 0 := by
      cases hkey : key a with
      | none => simp
      | some k => exact sum_indicator hks (h a List.mem_cons_self k hkey)
    simp only [hcount, List.sum_map_add, hone, List.countP_cons, htail]

end Keys

section Range

variable {p : Nat → Bool} {I n o : Nat}

theorem countP_eq_range {α : Type} (l : List α) (q : α → Bool) :
    l.countP q = (List.range l.length).countP fun s => (l[s]?).any q := by
  induction l using List.reverseRecOn with
  | nil => rfl
  | append_singleton l a ih =>
    have hbefore : (List.range l.length).countP (fun s => ((l ++ [a])[s]?).any q) =
        (List.range l.length).countP fun s => (l[s]?).any q :=
      List.countP_congr fun s hs => by
        rw [List.getElem?_append_left (List.mem_range.mp hs)]
    rw [List.length_append, List.length_singleton, List.range_succ, List.countP_append,
      List.countP_append, hbefore, ih]
    simp

theorem countP_mul_of_periodic (h : ∀ s, p (s + I) = p s) (q : Nat) :
    (List.range (q * I)).countP p = q * (List.range I).countP p := by
  have hshift : ∀ q s, p (q * I + s) = p s := by
    intro q s
    induction q with
    | zero => rw [Nat.zero_mul, Nat.zero_add]
    | succ q ih =>
      have hsum : (q + 1) * I + s = q * I + s + I := by
        rw [Nat.add_mul]
        omega
      rw [hsum, h, ih]
  induction q with
  | zero => simp
  | succ q ih =>
    have hlast : ((List.range I).map (q * I + ·)).countP p = (List.range I).countP p := by
      rw [List.countP_map]
      exact List.countP_congr fun s _ => by rw [Function.comp_apply, hshift]
    rw [Nat.add_mul, Nat.one_mul, List.range_add, List.countP_append, ih, hlast, Nat.add_mul,
      Nat.one_mul]

def before (I n o s : Nat) : Bool := (List.range n).any fun i => (s + i) % I = o

theorem before_iff {s : Nat} : before I n o s = true ↔ ∃ i < n, (s + i) % I = o := by
  rw [before, List.any_eq_true]
  simp only [List.mem_range, decide_eq_true_eq]

theorem before_add (s : Nat) : before I n o (s + I) = before I n o s := by
  rw [Bool.eq_iff_iff, before_iff, before_iff]
  have hsum : ∀ i, s + I + i = s + i + I := fun i => by omega
  simp only [hsum, Nat.add_mod_right]

theorem countP_before (hn : n ≤ I) (ho : o < I) : (List.range I).countP (before I n o) = n := by
  have hpos : 0 < I := Nat.zero_lt_of_lt ho
  have hback : ∀ i < n, ((o + I - i) % I + i) % I = o := by
    intro i hi
    have hsum : o + I - i + i = o + I := by omega
    rw [Nat.mod_add_mod, hsum, Nat.add_mod_right, Nat.mod_eq_of_lt ho]
  have hperm : ((List.range I).filter (before I n o)).Perm
      ((List.range n).map fun i => (o + I - i) % I) := by
    refine (List.perm_ext_iff_of_nodup (List.nodup_range.filter _) ?_).mpr fun s => ?_
    · refine (List.nodup_map_iff_inj_on List.nodup_range).mpr fun i hi j hj heq => ?_
      have hi := List.mem_range.mp hi
      have hj := List.mem_range.mp hj
      have hmod : (o + I - i) % I + i ≡ (o + I - i) % I + j [MOD I] := by
        have hj' := hback j hj
        rw [← heq] at hj'
        exact (hback i hi).trans hj'.symm
      exact Nat.ModEq.eq_of_lt_of_lt (Nat.ModEq.add_left_cancel' _ hmod) (by omega) (by omega)
    · rw [List.mem_filter, List.mem_range, before_iff, List.mem_map]
      constructor
      · rintro ⟨hs, i, hi, hmod⟩
        refine ⟨i, List.mem_range.mpr hi, ?_⟩
        have hsame : (o + I - i) % I + i ≡ s + i [MOD I] := (hback i hi).trans hmod.symm
        exact Nat.ModEq.eq_of_lt_of_lt (Nat.ModEq.add_right_cancel' _ hsame) (Nat.mod_lt _ hpos) hs
      · rintro ⟨i, hi, rfl⟩
        exact ⟨Nat.mod_lt _ hpos, i, List.mem_range.mp hi, hback i (List.mem_range.mp hi)⟩
  rw [List.countP_eq_length_filter, hperm.length_eq, List.length_map, List.length_range]

end Range

end Counting
