import Mathlib.Order.Interval.Set.Basic

/-!
# The trait `BitAlloc`

The allocators of frames and of file descriptors are bitmaps of the crate `bitmap-allocator`. The
trait is a class of operations, and its documentation is a second class: a bitmap stands for the
set of its free bits, and every operation is what it says of that set. Users of a bitmap are
verified against the documentation, and `Maturin.Alloc.Cascade` shows that the crate meets it.
-/

namespace Maturin

/-- The trait `BitAlloc`. In `dealloc`, `insert` and `remove`, `none` is a failing assertion. -/
class BitAlloc (B : Type) where
  /-- The bits are numbered from `0` to `CAP - 1`. -/
  CAP : ℕ
  DEFAULT : B
  alloc : B → Option (ℕ × B)
  allocContiguous : ℕ → ℕ → B → Option (ℕ × B)
  next : ℕ → B → Option ℕ
  dealloc : ℕ → B → Option B
  insert : ℕ → ℕ → B → Option B
  remove : ℕ → ℕ → B → Option B
  isEmpty : B → Bool
  test : ℕ → B → Bool

/-- The documentation of the trait, over the set of the free bits. -/
class LawfulBitAlloc (B : Type) [BitAlloc B] where
  /-- The free bits of the bitmap are the members of the set. -/
  Free : B → Set ℕ → Prop
  cap_pos : 0 < BitAlloc.CAP B
  free_lt : ∀ {b S k}, Free b S → k ∈ S → k < BitAlloc.CAP B
  free_default : Free (BitAlloc.DEFAULT : B) ∅
  alloc_none : ∀ {b : B} {S}, Free b S → BitAlloc.alloc b = none → S = ∅
  alloc_some : ∀ {b b' : B} {S k}, Free b S → BitAlloc.alloc b = some (k, b') →
    k ∈ S ∧ Free b' (S \ {k})
  allocContiguous_some : ∀ {b b' : B} {S k n a}, Free b S →
    BitAlloc.allocContiguous n a b = some (k, b') → 0 < n →
    Set.Ico k (k + n) ⊆ S ∧ Free b' (S \ Set.Ico k (k + n))
  next_some : ∀ {b : B} {S k m}, Free b S → BitAlloc.next k b = some m → m ∈ S ∧ k ≤ m
  /-- A bit that is free already fails the assertion of `dealloc`. -/
  dealloc_free : ∀ {b : B} {S k}, Free b S → k ∈ S → BitAlloc.dealloc k b = none
  dealloc_taken : ∀ {b : B} {S k}, Free b S → k < BitAlloc.CAP B → k ∉ S →
    ∃ b', BitAlloc.dealloc k b = some b' ∧ Free b' (insert k S)
  /-- A range past the last bit fails the assertion. -/
  insert_of_lt : ∀ {b : B} {l r}, BitAlloc.CAP B < r → BitAlloc.insert l r b = none
  insert_some : ∀ {b : B} {S l r}, Free b S → l < r → r ≤ BitAlloc.CAP B →
    ∃ b', BitAlloc.insert l r b = some b' ∧ Free b' (S ∪ Set.Ico l r)
  remove_of_lt : ∀ {b : B} {l r}, BitAlloc.CAP B < r → BitAlloc.remove l r b = none
  remove_some : ∀ {b : B} {S l r}, Free b S → l < r → r ≤ BitAlloc.CAP B →
    ∃ b', BitAlloc.remove l r b = some b' ∧ Free b' (S \ Set.Ico l r)
  isEmpty_iff : ∀ {b : B} {S}, Free b S → (BitAlloc.isEmpty b = true ↔ S = ∅)
  test_iff : ∀ {b : B} {S k}, Free b S → k < BitAlloc.CAP B → (BitAlloc.test k b = true ↔ k ∈ S)

/-! ## Blocks of free bits -/

namespace BitAlloc

/-- A block of one bit. -/
theorem Ico_succ_self (k : ℕ) : Set.Ico k (k + 1) = {k} := by
  ext m
  rw [Set.mem_Ico, Set.mem_singleton_iff]
  omega

/-- The loop of `find_contiguous`, over the method `next` of the bitmap: every bit of
`[base, offset)` is free. The offset grows in each round, so the capacity bounds their number. -/
def findContiguousLoop (next : ℕ → Option ℕ) (capacity size alignLog2 : ℕ) :
    ℕ → ℕ → ℕ → Option ℕ
  | 0, _, _ => none
  | fuel + 1, base, offset =>
    if offset < capacity then
      match next offset with
      | none => none
      | some n =>
        if n ≠ offset then
          -- no bit of `[offset, n)` is free: go to the next aligned position
          let base := ((n - 1) >>> alignLog2 + 1) <<< alignLog2
          findContiguousLoop next capacity size alignLog2 fuel base base
        else if offset + 1 - base = size then some base
        else findContiguousLoop next capacity size alignLog2 fuel base (offset + 1)
    else none

/-- `find_contiguous`, where the shift by `align_log2` wraps. -/
def findContiguous (next : ℕ → Option ℕ) (isEmpty : Bool) (capacity size alignLog2 : ℕ) :
    Option ℕ :=
  if capacity < 1 <<< (alignLog2 % 64) || isEmpty then none
  else findContiguousLoop next capacity size (alignLog2 % 64) capacity 0 0

variable {next : ℕ → Option ℕ} {S : Set ℕ} {isEmpty : Bool} {capacity size a k : ℕ}

theorem findContiguousLoop_free (hnext : ∀ k m, next k = some m → m ∈ S)
    {fuel base offset : ℕ} (hS : Set.Ico base offset ⊆ S)
    (h : findContiguousLoop next capacity size a fuel base offset = some k) :
    Set.Ico k (k + size) ⊆ S := by
  induction fuel generalizing base offset with
  | zero => exact absurd h (by simp [findContiguousLoop])
  | succ fuel ih =>
    rw [findContiguousLoop] at h
    split at h
    · split at h
      · exact absurd h (by simp)
      · rename_i n hn
        have hmem := hnext _ _ hn
        split at h
        · exact ih (by simp) h
        · rename_i heq
          have hfree : Set.Ico base (offset + 1) ⊆ S := by
            intro x hx
            rcases Nat.lt_succ_iff_lt_or_eq.mp hx.2 with hlt | rfl
            · exact hS ⟨hx.1, hlt⟩
            · rwa [not_not.mp heq] at hmem
          split at h
          · rename_i hsize
            rw [Option.some.injEq] at h
            subst h
            intro x hx
            obtain ⟨hle, hlt⟩ := hx
            exact hfree ⟨hle, by omega⟩
          · exact ih hfree h
    · exact absurd h (by simp)

/-- The block that `find_contiguous` finds consists of free bits. -/
theorem findContiguous_free (hnext : ∀ k m, next k = some m → m ∈ S)
    (h : findContiguous next isEmpty capacity size a = some k) : Set.Ico k (k + size) ⊆ S := by
  rw [findContiguous] at h
  split at h
  · exact absurd h (by simp)
  · exact findContiguousLoop_free hnext (by simp) h

end BitAlloc

end Maturin
