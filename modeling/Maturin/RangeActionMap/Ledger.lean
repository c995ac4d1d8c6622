import Maturin.RangeActionMap.Map

/-!
# Keeping a ledger

To speak of what was ever handed to `remove`, the range map is run on a state with a ghost
component: the segments the map was given and those it has removed. The methods of a segment do not
read the ledger, so a run with the ledger is a run without it.
-/

open Exec

namespace Maturin

/-- The segments a map was given, and those it has handed to `remove`. -/
structure Ledger (S : Type) where
  made : List S
  removed : List S

namespace Ledger

variable {S σ : Type} [Segment S σ]

/-- A segment type whose `remove` is recorded. -/
instance : Segment S (Ledger S × σ) where
  remove self args := do
    modify fun s ↦ ({ s.1 with removed := s.1.removed ++ [self] }, s.2)
    onSnd (Segment.remove self args)
  split self pos args := onSnd (Segment.split self pos args)
  modify self newFlag args := onSnd (Segment.modify self newFlag args)

omit [Segment S σ] in
/-- The closure of `mmap_fixed`, recorded. -/
def make (f : EStateM Panic σ S) : EStateM Panic (Ledger S × σ) S := do
  let seg ← onSnd f
  modify fun s ↦ ({ s.1 with made := s.1.made ++ [seg] }, s.2)
  pure seg

/-! ## A run with the ledger is a run -/

variable {seg : S} {area : RangeArea S} {m : RangeActionMap S} {start end_ pos : ℕ}
variable {flag : IdentType} {args : ArgsType}

theorem erases_remove :
    Erases (Segment.remove seg args : EStateM Panic (Ledger S × σ) S) (Segment.remove seg args) :=
  Erases.modify_bind (fun _ ↦ rfl) (erases_onSnd _)

theorem erases_split :
    Erases (Segment.split seg pos args : EStateM Panic (Ledger S × σ) (S × S))
      (Segment.split seg pos args) :=
  erases_onSnd _

theorem erases_modify :
    Erases (Segment.modify seg flag args : EStateM Panic (Ledger S × σ) S)
      (Segment.modify seg flag args) :=
  erases_onSnd _

omit [Segment S σ] in
theorem erases_make (f : EStateM Panic σ S) : Erases (make f) f := by
  have h : Erases (make f) (f >>= pure) := by
    rw [make]
    exact (erases_onSnd f).bind fun seg ↦ Erases.modify_bind (fun _ ↦ rfl) (erases_pure seg)
  rwa [bind_pure] at h

theorem erases_shrinkOrSplitIfOverlap :
    Erases (area.shrinkOrSplitIfOverlap start end_ args :
        EStateM Panic (Ledger S × σ) (DiffSet S × RangeArea S))
      (area.shrinkOrSplitIfOverlap start end_ args) := by
  rw [RangeArea.shrinkOrSplitIfOverlap, RangeArea.shrinkOrSplitIfOverlap]
  split_ifs
  · exact erases_pure _
  · exact erases_remove.bind fun _ ↦ erases_pure _
  · refine Erases.bind ?_ fun _ ↦ erases_pure _
    refine erases_split.bind fun _ ↦ erases_split.bind fun _ ↦ ?_
    exact erases_remove.bind fun _ ↦ erases_pure _
  · refine Erases.bind ?_ fun _ ↦ erases_pure _
    exact erases_split.bind fun _ ↦ erases_remove.bind fun _ ↦ erases_pure _
  · refine Erases.bind ?_ fun _ ↦ erases_pure _
    exact erases_split.bind fun _ ↦ erases_remove.bind fun _ ↦ erases_pure _
  · exact erases_throw _

theorem erases_splitAndModifyIfOverlap :
    Erases (area.splitAndModifyIfOverlap start end_ flag args :
        EStateM Panic (Ledger S × σ) (CutSet S × RangeArea S))
      (area.splitAndModifyIfOverlap start end_ flag args) := by
  rw [RangeArea.splitAndModifyIfOverlap, RangeArea.splitAndModifyIfOverlap]
  split_ifs
  · exact erases_pure _
  · exact erases_modify.bind fun _ ↦ erases_pure _
  · refine Erases.bind ?_ fun _ ↦ erases_pure _
    refine erases_split.bind fun _ ↦ erases_split.bind fun _ ↦ ?_
    exact erases_modify.bind fun _ ↦ erases_pure _
  · refine Erases.bind ?_ fun _ ↦ erases_pure _
    exact erases_split.bind fun _ ↦ erases_modify.bind fun _ ↦ erases_pure _
  · refine Erases.bind ?_ fun _ ↦ erases_pure _
    exact erases_split.bind fun _ ↦ erases_modify.bind fun _ ↦ erases_pure _
  · exact erases_throw _

theorem erases_unmap :
    Erases (m.unmap start end_ : EStateM Panic (Ledger S × σ) (RangeActionMap S))
      (m.unmap start end_) := by
  refine Erases.bind (Erases.foldlM (fun segments area ↦ ?_) _) fun _ ↦ erases_pure _
  refine erases_shrinkOrSplitIfOverlap.bind fun r ↦ ?_
  obtain ⟨diff, area⟩ := r
  cases diff <;> exact erases_pure _

theorem erases_mprotect :
    Erases (m.mprotect start end_ flag : EStateM Panic (Ledger S × σ) (RangeActionMap S))
      (m.mprotect start end_ flag) := by
  refine Erases.bind (Erases.foldlM (fun segments area ↦ ?_) _) fun _ ↦ erases_pure _
  refine erases_splitAndModifyIfOverlap.bind fun r ↦ ?_
  obtain ⟨cut, area⟩ := r
  cases cut <;> exact erases_pure _

theorem erases_mmapFixed (f : EStateM Panic σ S) :
    Erases (m.mmapFixed start end_ (make f)) (m.mmapFixed start end_ f) := by
  rw [RangeActionMap.mmapFixed, RangeActionMap.mmapFixed]
  split_ifs
  · exact erases_pure _
  · exact erases_unmap.bind fun _ ↦ (erases_make f).bind fun _ ↦ erases_pure _

end Ledger

end Maturin
