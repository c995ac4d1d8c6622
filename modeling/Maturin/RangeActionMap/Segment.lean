import Maturin.Base.Error
import Maturin.Lib.Exec

/-!
# Segments

`trait Segment` of the crate `range-action-map`: what the range map needs of the segments it holds.
A method taking `&mut self` returns the new `self`. The methods run on a state `σ`, which for the
kernel's `VmArea` holds the page table that `args` points to.
-/

namespace Maturin

abbrev ArgsType := ℕ

abbrev IdentType := ℕ

abbrev LOWER_LIMIT : ℕ := 0x1000

abbrev UPPER_LIMIT : ℕ := 0xffffffffffffffff

/-- `trait Segment`, its required methods. -/
class Segment (S σ : Type) where
  /-- Release the segment. -/
  remove : S → ArgsType → EStateM Panic σ S
  /-- Cut the segment at an absolute position; the first component is the new `self`, the left
  part, the second the returned right part. -/
  split : S → ℕ → ArgsType → EStateM Panic σ (S × S)
  /-- Change the attribute of the segment. -/
  modify : S → IdentType → ArgsType → EStateM Panic σ S

namespace Segment

variable {S σ : Type} [Segment S σ]

/-- Keep the part to the left of `pos`. -/
def shrinkToLeft (self : S) (pos : ℕ) (args : ArgsType) : EStateM Panic σ S := do
  let (self, right) ← split self pos args
  let _ ← remove right args
  pure self

/-- Keep the part to the right of `pos`. -/
def shrinkToRight (self : S) (pos : ℕ) (args : ArgsType) : EStateM Panic σ S := do
  let (self, right) ← split self pos args
  let _ ← remove self args
  pure right

/-- Remove the part between two positions. -/
def splitAndRemoveMiddle (self : S) (posLeft posRight : ℕ) (args : ArgsType) :
    EStateM Panic σ (S × S) := do
  let (self, right) ← split self posRight args
  let (self, middle) ← split self posLeft args
  let _ ← remove middle args
  pure (self, right)

/-- Change the attribute of the part to the left of `pos`. -/
def modifyLeft (self : S) (pos : ℕ) (newFlag : IdentType) (args : ArgsType) :
    EStateM Panic σ (S × S) := do
  let (self, right) ← split self pos args
  let self ← modify self newFlag args
  pure (self, right)

/-- Change the attribute of the part to the right of `pos`. -/
def modifyRight (self : S) (pos : ℕ) (newFlag : IdentType) (args : ArgsType) :
    EStateM Panic σ (S × S) := do
  let (self, right) ← split self pos args
  let right ← modify right newFlag args
  pure (self, right)

/-- Change the attribute of the part between two positions. The result is `self`, the middle and
the right part. -/
def modifyMiddle (self : S) (posLeft posRight : ℕ) (newFlag : IdentType) (args : ArgsType) :
    EStateM Panic σ (S × S × S) := do
  let (self, right) ← split self posRight args
  let (self, middle) ← split self posLeft args
  let middle ← modify middle newFlag args
  pure (self, middle, right)

end Segment

end Maturin
