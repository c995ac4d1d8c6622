import Mathlib.Data.BitVec
import Mathlib.Tactic.Common

/-!
# Sets of declared flags

A type of flags declares some bits of a word. A set of such flags is a word without any other bit,
and there are two ways to make one of an arbitrary word: refusing it when it has a bit that is not
declared, and dropping these bits.
-/

variable {w : ℕ}

namespace Bitflags

/-- The word that has the bits at the given places. -/
def ofPlaces (w : ℕ) (places : List ℕ) : BitVec w := places.foldr (fun i all ↦ 1#w <<< i ||| all) 0

/-- The word has no bit that is not declared. -/
def Declared (all bits : BitVec w) : Prop := bits &&& ~~~all = 0

instance (all bits : BitVec w) : Decidable (Declared all bits) :=
  inferInstanceAs (Decidable (_ = _))

end Bitflags

/-- A word whose bits are among those of `all`. -/
structure Bitflags (all : BitVec w) where
  bits : BitVec w
  declared : Bitflags.Declared all bits
  deriving DecidableEq

namespace Bitflags

variable {all : BitVec w} {bits bits' : BitVec w}

theorem ext_bits {f g : Bitflags all} (h : f.bits = g.bits) : f = g := by
  obtain ⟨bits, hbits⟩ := f
  obtain rfl : bits = g.bits := h
  rfl

/-- The set that the word is, if it has no other bits. -/
def fromBits (all bits : BitVec w) : Option (Bitflags all) :=
  if h : Declared all bits then some ⟨bits, h⟩ else none

theorem declared_and (all bits : BitVec w) : Declared all (bits &&& all) := by
  rw [Declared, BitVec.and_assoc, BitVec.and_not_self]
  exact BitVec.and_zero

theorem declared_zero (all : BitVec w) : Declared all 0 := BitVec.zero_and

/-- The declared flags among the bits of a word. -/
def fromBitsTruncate (all bits : BitVec w) : Bitflags all := ⟨bits &&& all, declared_and all bits⟩

/-- Does the set have all bits of the flag? -/
def contains (self : Bitflags all) (flag : BitVec w) : Bool := self.bits &&& flag == flag

theorem fromBits_of_declared (h : Declared all bits) : fromBits all bits = some ⟨bits, h⟩ :=
  dif_pos h

theorem fromBits_of_not (h : ¬Declared all bits) : fromBits all bits = none := dif_neg h

/-- Bits that are not declared are ignored. -/
theorem fromBitsTruncate_congr (h : bits &&& all = bits' &&& all) :
    fromBitsTruncate all bits = fromBitsTruncate all bits' :=
  ext_bits h

end Bitflags
