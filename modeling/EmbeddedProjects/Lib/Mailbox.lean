import Mathlib.Data.List.Perm.Basic
import Mathlib.Logic.Function.Basic

namespace Mailbox

variable {ι α : Type} {ids : List ι} {slot : ι → Option α} {i : ι} {a : α}

def contents (ids : List ι) (slot : ι → Option α) : List (ι × α) :=
  ids.filterMap fun i => (slot i).map (i, ·)

theorem contents_congr {slot' : ι → Option α} (h : ∀ j ∈ ids, slot j = slot' j) :
    contents ids slot = contents ids slot' :=
  List.filterMap_congr fun j hj => by rw [h j hj]

theorem contents_empty (h : ∀ j ∈ ids, slot j = none) : contents ids slot = [] :=
  List.filterMap_eq_nil_iff.mpr fun j hj => by rw [h j hj, Option.map_none]

variable [DecidableEq ι]

theorem contents_put (hnodup : ids.Nodup) (hi : i ∈ ids) (hempty : slot i = none) :
    (contents ids (Function.update slot i (some a))).Perm ((i, a) :: contents ids slot) := by
  induction ids with
  | nil => cases hi
  | cons j ids ih =>
    obtain ⟨hj, hrest⟩ := List.nodup_cons.mp hnodup
    by_cases hij : i = j
    · subst hij
      have hsame : contents ids (Function.update slot i (some a)) = contents ids slot := by
        refine contents_congr fun k hk => Function.update_of_ne ?_ _ _
        rintro rfl
        exact hj hk
      have hnew : contents (i :: ids) (Function.update slot i (some a)) =
          (i, a) :: contents ids (Function.update slot i (some a)) := by
        simp [contents]
      have hold : contents (i :: ids) slot = contents ids slot := by simp [contents, hempty]
      rw [hnew, hsame, hold]
    · have hmem : i ∈ ids := (List.mem_cons.mp hi).resolve_left hij
      have hkeep : Function.update slot i (some a) j = slot j :=
        Function.update_of_ne (Ne.symm hij) _ _
      cases hslot : slot j with
      | none =>
        have hskip : ∀ s : ι → Option α, s j = none → contents (j :: ids) s = contents ids s := by
          intro s hs
          simp [contents, hs]
        rw [hskip _ (hkeep.trans hslot), hskip slot hslot]
        exact ih hrest hmem
      | some b =>
        have hhead : ∀ s : ι → Option α, s j = some b →
            contents (j :: ids) s = (j, b) :: contents ids s := by
          intro s hs
          simp [contents, hs]
        rw [hhead _ (hkeep.trans hslot), hhead slot hslot]
        exact ((ih hrest hmem).cons _).trans (.swap _ _ _)

theorem contents_take (hnodup : ids.Nodup) (hi : i ∈ ids) (hfull : slot i = some a) :
    (contents ids slot).Perm ((i, a) :: contents ids (Function.update slot i none)) := by
  have hput := contents_put (a := a) hnodup hi (Function.update_self i none slot)
  rwa [Function.update_idem, ← hfull, Function.update_eq_self] at hput

end Mailbox
