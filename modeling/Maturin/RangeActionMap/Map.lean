import Maturin.Base.Addr
import Maturin.Lib.OrdMap
import Maturin.RangeActionMap.Segment
import Mathlib.Order.CompletePartialOrder

/-!
# The range map

`RangeArea` and `RangeActionMap` of the crate `range-action-map`: a map from the start of an
interval to the interval with its segment. `unmap` and `mprotect` take the areas that meet the
given range out of the map, cut each of them, and put the pieces that remain back.
-/

namespace Maturin

/-- An interval `[start, end_)` with its segment. -/
structure RangeArea (S : Type) where
  start : ℕ
  end_ : ℕ
  segment : S

/-- How an area meets the range that `unmap` clears. -/
inductive DiffSet (S : Type)
  | unchanged
  | removed
  | shrinked
  | splitted (right : RangeArea S)

/-- How an area meets the range that `mprotect` changes. -/
inductive CutSet (S : Type)
  | unchanged
  | wholeModified
  | modifiedLeft (right : RangeArea S)
  | modifiedRight (right : RangeArea S)
  | modifiedMiddle (mid right : RangeArea S)

namespace RangeArea

variable {S σ : Type}

/-- Does the area contain the address? -/
def contains (self : RangeArea S) (pos : ℕ) : Bool :=
  decide (self.start ≤ pos) && decide (pos < self.end_)

/-- Does the area meet `[start, end_)`? -/
def isOverlapWith (self : RangeArea S) (start end_ : ℕ) : Bool :=
  !(decide (self.end_ ≤ start) || decide (end_ ≤ self.start))

variable [Segment S σ]

/-- Clear `[start, end_)` in the area. -/
def shrinkOrSplitIfOverlap (self : RangeArea S) (start end_ : ℕ) (args : ArgsType) :
    EStateM Panic σ (DiffSet S × RangeArea S) :=
  if end_ ≤ self.start ∨ self.end_ ≤ start then
    pure (.unchanged, self)
  else if start ≤ self.start ∧ self.end_ ≤ end_ then do
    let segment ← Segment.remove self.segment args
    pure (.removed, { self with segment })
  else if self.start < start ∧ end_ < self.end_ then do
    let oldEnd := self.end_
    let (segment, right) ← Segment.splitAndRemoveMiddle self.segment start end_ args
    pure (.splitted ⟨end_, oldEnd, right⟩, { self with end_ := start, segment })
  else if end_ < self.end_ then do
    let segment ← Segment.shrinkToRight self.segment end_ args
    pure (.shrinked, { self with start := end_, segment })
  else if self.start < start then do
    let segment ← Segment.shrinkToLeft self.segment start args
    pure (.shrinked, { self with end_ := start, segment })
  else
    throw .assertFailed

/-- Change the attribute of `[start, end_)` in the area. -/
def splitAndModifyIfOverlap (self : RangeArea S) (start end_ : ℕ) (newFlag : IdentType)
    (args : ArgsType) : EStateM Panic σ (CutSet S × RangeArea S) :=
  if end_ ≤ self.start ∨ self.end_ ≤ start then
    pure (.unchanged, self)
  else if start ≤ self.start ∧ self.end_ ≤ end_ then do
    let segment ← Segment.modify self.segment newFlag args
    pure (.wholeModified, { self with segment })
  else if self.start < start ∧ end_ < self.end_ then do
    let (segment, middle, right) ← Segment.modifyMiddle self.segment start end_ newFlag args
    let oldEnd := self.end_
    pure (.modifiedMiddle ⟨start, end_, middle⟩ ⟨end_, oldEnd, right⟩,
      { self with end_ := start, segment })
  else if end_ < self.end_ then do
    let oldEnd := self.end_
    let (segment, right) ← Segment.modifyLeft self.segment end_ newFlag args
    pure (.modifiedLeft ⟨end_, oldEnd, right⟩, { self with end_ := end_, segment })
  else if self.start < start then do
    let oldEnd := self.end_
    let (segment, right) ← Segment.modifyRight self.segment start newFlag args
    pure (.modifiedRight ⟨start, oldEnd, right⟩, { self with end_ := start, segment })
  else
    throw .assertFailed

@[simp] theorem contains_iff {self : RangeArea S} {pos : ℕ} :
    self.contains pos = true ↔ self.start ≤ pos ∧ pos < self.end_ := by
  rw [contains, Bool.and_eq_true, decide_eq_true_iff, decide_eq_true_iff]

@[simp] theorem isOverlapWith_iff {self : RangeArea S} {start end_ : ℕ} :
    self.isOverlapWith start end_ = true ↔ start < self.end_ ∧ self.start < end_ := by
  rw [isOverlapWith, Bool.not_eq_true', Bool.or_eq_false_iff, decide_eq_false_iff_not,
    decide_eq_false_iff_not, not_le, not_le]

end RangeArea

/-- Disjoint intervals, each with its segment, stored by their start. -/
structure RangeActionMap (S : Type) where
  segments : OrdMap ℕ (RangeArea S)
  args : ArgsType

namespace RangeActionMap

variable {S σ : Type}

/-- The empty map. -/
def new (args : ArgsType) : RangeActionMap S where
  segments := OrdMap.empty
  args

/-- Insert an interval without looking at the others. -/
def insertRaw (self : RangeActionMap S) (start end_ : ℕ) (segment : S) : RangeActionMap S :=
  { self with segments := self.segments.insert start ⟨start, end_, segment⟩ }

/-- The segment of the area that contains the address. -/
def find (self : RangeActionMap S) (pos : ℕ) : Option S :=
  match self.segments.findLE pos with
  | some (_, area) => if area.contains pos then some area.segment else none
  | none => none

/-- The map after the segment of the area that contains the address was changed in place, through
the shared reference that `find` returns. -/
def setSegment (self : RangeActionMap S) (pos : ℕ) (segment : S) : RangeActionMap S :=
  match self.segments.findLE pos with
  | some (key, area) => { self with segments := self.segments.insert key { area with segment } }
  | none => self

/-- The areas in the order of their starts. -/
def areas (self : RangeActionMap S) : List (RangeArea S) := self.segments.values

/-- The segments in the order of their starts. -/
def iter (self : RangeActionMap S) : List S := self.areas.map (·.segment)

/-- The loop of `find_free_area` over the remaining entries; the sums wrap. -/
def findFreeLoop (len : ℕ) : List (ℕ × RangeArea S) → ℕ → Option ℕ
  | [], lastSegEnd => if wadd lastSegEnd len ≤ UPPER_LIMIT then some lastSegEnd else none
  | (start, seg) :: rest, lastSegEnd =>
    if wadd lastSegEnd len ≤ start then some lastSegEnd
    else findFreeLoop len rest (max lastSegEnd seg.end_)

/-- The first gap of the given length not below `hint`. -/
def findFreeArea (self : RangeActionMap S) (hint len : ℕ) : Option ℕ :=
  findFreeLoop len self.segments.entries (max hint LOWER_LIMIT)

/-- Insert an interval of the given length into the first gap not below `hint`. -/
def mmapAnywhere (self : RangeActionMap S) (hint len : ℕ) (f : ℕ → EStateM Panic σ S) :
    EStateM Panic σ (Option ℕ × RangeActionMap S) :=
  match self.findFreeArea hint len with
  | some start => do
    let segment ← f start
    pure (some start, self.insertRaw start (wadd start len) segment)
  | none => pure (none, self)

variable [Segment S σ]

/-- One round of the loop of `unmap`: cut an area that was taken out, put the pieces back. -/
def unmapArea (start end_ : ℕ) (args : ArgsType) (segments : OrdMap ℕ (RangeArea S))
    (area : RangeArea S) : EStateM Panic σ (OrdMap ℕ (RangeArea S)) := do
  let (diff, area) ← area.shrinkOrSplitIfOverlap start end_ args
  match diff with
  | .shrinked => pure (segments.insert area.start area)
  | .splitted right => pure ((segments.insert area.start area).insert right.start right)
  | .unchanged | .removed => pure segments

/-- Clear `[start, end_)`. -/
def unmap (self : RangeActionMap S) (start end_ : ℕ) : EStateM Panic σ (RangeActionMap S) := do
  let (drained, segments) := self.segments.drainFilter fun x ↦ x.2.isOverlapWith start end_
  let segments ← (drained.map Prod.snd).foldlM (unmapArea start end_ self.args) segments
  pure { self with segments }

/-- One round of the loop of `mprotect`. -/
def mprotectArea (start end_ : ℕ) (newFlags : IdentType) (args : ArgsType)
    (segments : OrdMap ℕ (RangeArea S)) (area : RangeArea S) :
    EStateM Panic σ (OrdMap ℕ (RangeArea S)) := do
  let (cut, area) ← area.splitAndModifyIfOverlap start end_ newFlags args
  match cut with
  | .wholeModified => pure (segments.insert area.start area)
  | .modifiedLeft right | .modifiedRight right =>
    pure ((segments.insert area.start area).insert right.start right)
  | .modifiedMiddle mid right =>
    pure (((segments.insert area.start area).insert mid.start mid).insert right.start right)
  | .unchanged => pure segments

/-- Change the attribute of everything in `[start, end_)`. -/
def mprotect (self : RangeActionMap S) (start end_ : ℕ) (newFlags : IdentType) :
    EStateM Panic σ (RangeActionMap S) := do
  let (drained, segments) := self.segments.drainFilter fun x ↦ x.2.isOverlapWith start end_
  let segments ← (drained.map Prod.snd).foldlM (mprotectArea start end_ newFlags self.args)
    segments
  pure { self with segments }

/-- Insert the interval `[start, end_)` in place of whatever was there. -/
def mmapFixed (self : RangeActionMap S) (start end_ : ℕ) (f : EStateM Panic σ S) :
    EStateM Panic σ (Option ℕ × RangeActionMap S) :=
  if start < LOWER_LIMIT ∨ end_ > UPPER_LIMIT then
    pure (none, self)
  else do
    let self ← self.unmap start end_
    let segment ← f
    pure (some start, self.insertRaw start end_ segment)

end RangeActionMap

end Maturin
