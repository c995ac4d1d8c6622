import Maturin.Base.Addr
import Maturin.Base.Error
import Maturin.Lib.Exec

/-!
# Slices and checked arithmetic

`+` and `-` on `usize` depend on the build: one with overflow checks panics where a release build
wraps. Code for which it matters that nothing overflows takes the choice as a parameter `checks`.

A slice of bytes is a list. Taking a part of it checks the bounds, and `copy_from_slice` checks the
lengths.
-/

open Exec

namespace Maturin

variable {τ : Type}

/-- `+` on `usize` -/
def addUsize (checks : Bool) (a b : ℕ) : EStateM Panic τ ℕ :=
  if a + b < 2 ^ 64 then pure (a + b) else if checks then throw .overflow else pure (wadd a b)

/-- `-` on `usize` -/
def subUsize (checks : Bool) (a b : ℕ) : EStateM Panic τ ℕ :=
  if b ≤ a then pure (a - b) else if checks then throw .overflow else pure (wsub a b)

/-- The bounds check of `l[start..end_]`, where `l` has length `len`. -/
def checkRange (start end_ len : ℕ) : EStateM Panic τ Unit :=
  if start ≤ end_ ∧ end_ ≤ len then pure () else throw .indexOutOfBounds

/-- `l[start..end_]` -/
def slice (l : List UInt8) (start end_ : ℕ) : EStateM Panic τ (List UInt8) := do
  checkRange start end_ l.length
  pure ((l.drop start).take (end_ - start))

/-- `dst[start..end_].copy_from_slice(src)`, with the new `dst` as its result. -/
def copyIntoSlice (dst : List UInt8) (start end_ : ℕ) (src : List UInt8) :
    EStateM Panic τ (List UInt8) := do
  checkRange start end_ dst.length
  if src.length = end_ - start then pure (dst.take start ++ src ++ dst.drop end_)
  else throw .lengthMismatch

/-- `l[i]` -/
def index {α : Type} (l : List α) (i : ℕ) : EStateM Panic τ α :=
  match l[i]? with
  | some a => pure a
  | none => throw .indexOutOfBounds

section wp

variable {checks : Bool} {a b start end_ len i : ℕ} {l dst src : List UInt8} {t : τ}
  {E : Panic → τ → Prop}

theorem wp_addUsize {Q : ℕ → τ → Prop} (h : a + b < 2 ^ 64) :
    wp (addUsize checks a b) Q E t ↔ Q (a + b) t := by
  rw [addUsize, if_pos h, wp_pure]

theorem wp_subUsize {Q : ℕ → τ → Prop} (h : b ≤ a) :
    wp (subUsize checks a b) Q E t ↔ Q (a - b) t := by
  rw [subUsize, if_pos h, wp_pure]

theorem wp_checkRange {Q : Unit → τ → Prop} (h : start ≤ end_) (hle : end_ ≤ len) :
    wp (checkRange start end_ len) Q E t ↔ Q () t := by
  rw [checkRange, if_pos ⟨h, hle⟩, wp_pure]

theorem wp_slice {Q : List UInt8 → τ → Prop} (h : start ≤ end_) (hle : end_ ≤ l.length) :
    wp (slice l start end_) Q E t ↔ Q ((l.drop start).take (end_ - start)) t := by
  rw [slice, wp_bind, wp_checkRange h hle, wp_pure]

theorem wp_copyIntoSlice {Q : List UInt8 → τ → Prop} (h : start ≤ end_) (hle : end_ ≤ dst.length)
    (hlen : src.length = end_ - start) :
    wp (copyIntoSlice dst start end_ src) Q E t ↔
      Q (dst.take start ++ src ++ dst.drop end_) t := by
  rw [copyIntoSlice, wp_bind, wp_checkRange h hle, if_pos hlen, wp_pure]

theorem wp_index {α : Type} {l : List α} {Q : α → τ → Prop} (h : i < l.length) :
    wp (index l i) Q E t ↔ Q l[i] t := by
  rw [index, List.getElem?_eq_getElem h, wp_pure]

end wp

end Maturin
