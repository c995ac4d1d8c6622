import Maturin.Memory.World

/-!
# A bitmap of frames

The allocator that the kernel configures in `memory/allocator/frame.rs` hands out the lowest free
bit of a bitmap; bit `i` is the frame at `i * PAGE_SIZE + PHYS_MEMORY_OFFSET`. `Bitmap` keeps the
bits that are taken. It is an instance on which the results about every allocator can be run.
-/

namespace Maturin

/-- The start of the physical memory. -/
abbrev PHYS_MEMORY_OFFSET : ℕ := 0x80000000

/-- The taken bits of a bitmap of 16M bits. -/
structure Bitmap where
  taken : List ℕ

namespace Bitmap

/-- The lowest free bit from `i` on, among `fuel` bits. -/
def firstFree (taken : List ℕ) : ℕ → ℕ → Option ℕ
  | 0, _ => none
  | fuel + 1, i => if i ∈ taken then firstFree taken fuel (i + 1) else some i

def frameIdxToPhysAddr (idx : ℕ) : ℕ := idx * PAGE_SIZE + PHYS_MEMORY_OFFSET

/-- The lowest free bit is at most the number of taken bits. -/
def alloc (s : Bitmap) : Option (ℕ × Bitmap) :=
  match firstFree s.taken (s.taken.length + 1) 0 with
  | some i => if i < 2 ^ 24 then some (frameIdxToPhysAddr i, ⟨i :: s.taken⟩) else none
  | none => none

def dealloc (p : ℕ) (s : Bitmap) : Bitmap :=
  ⟨s.taken.filter fun i ↦ frameIdxToPhysAddr i ≠ p⟩

def inUse (s : Bitmap) : Set ℕ := {p | ∃ i ∈ s.taken, frameIdxToPhysAddr i = p}

theorem firstFree_notMem {taken : List ℕ} {fuel i j : ℕ} (h : firstFree taken fuel i = some j) :
    j ∉ taken := by
  induction fuel generalizing i with
  | zero => exact absurd h (by simp [firstFree])
  | succ fuel ih =>
    rw [firstFree] at h
    split_ifs at h with hi
    · exact ih h
    · rw [Option.some.injEq] at h
      rwa [← h]

theorem frameIdxToPhysAddr_inj {i j : ℕ} (h : frameIdxToPhysAddr i = frameIdxToPhysAddr j) :
    i = j := by
  simp only [frameIdxToPhysAddr, PAGE_SIZE] at h
  omega

theorem alloc_eq_some {s t : Bitmap} {p : ℕ} (h : alloc s = some (p, t)) :
    ∃ i, i ∉ s.taken ∧ i < 2 ^ 24 ∧ p = frameIdxToPhysAddr i ∧ t = ⟨i :: s.taken⟩ := by
  rw [alloc] at h
  split at h
  case h_1 i hi =>
    split_ifs at h with hlt
    rw [Option.some.injEq, Prod.mk.injEq] at h
    exact ⟨i, firstFree_notMem hi, hlt, h.1.symm, h.2.symm⟩
  case h_2 => exact absurd h (by simp)

theorem alloc_fresh {s t : Bitmap} {p : ℕ} (h : alloc s = some (p, t)) : p ∉ inUse s := by
  obtain ⟨i, hi, -, rfl, -⟩ := alloc_eq_some h
  rintro ⟨j, hj, heq⟩
  rw [frameIdxToPhysAddr_inj heq] at hj
  exact hi hj

theorem alloc_aligned {s t : Bitmap} {p : ℕ} (h : alloc s = some (p, t)) :
    PageAligned p ∧ p < 2 ^ 56 := by
  obtain ⟨i, -, hlt, rfl, -⟩ := alloc_eq_some h
  simp only [PageAligned, frameIdxToPhysAddr, PAGE_SIZE, PHYS_MEMORY_OFFSET]
  omega

theorem inUse_alloc {s t : Bitmap} {p : ℕ} (h : alloc s = some (p, t)) :
    inUse t = insert p (inUse s) := by
  obtain ⟨i, -, -, rfl, rfl⟩ := alloc_eq_some h
  ext p
  simp only [inUse, Set.mem_ofPred_eq, List.mem_cons, exists_eq_or_imp, Set.mem_insert_iff]
  exact or_congr_left eq_comm

theorem inUse_dealloc (p : ℕ) (s : Bitmap) : inUse (dealloc p s) = inUse s \ {p} := by
  ext q
  simp only [inUse, dealloc, Set.mem_ofPred_eq, List.mem_filter, ne_eq, decide_not,
    Bool.not_eq_true', decide_eq_false_iff_not, Set.mem_sdiff, Set.mem_singleton_iff]
  constructor
  · rintro ⟨i, ⟨hi, hne⟩, rfl⟩
    exact ⟨⟨i, hi, rfl⟩, hne⟩
  · rintro ⟨⟨i, hi, rfl⟩, hne⟩
    exact ⟨i, ⟨hi, hne⟩, rfl⟩

instance : FrameAllocator Bitmap where
  alloc := alloc
  dealloc := dealloc
  inUse := inUse
  alloc_fresh := alloc_fresh
  alloc_aligned := alloc_aligned
  inUse_alloc := inUse_alloc
  inUse_dealloc := inUse_dealloc

end Bitmap

/-- Files that hold nothing. -/
instance : FileStore Empty Unit where
  readFromOffset f _ _ _ := f.elim
  writeToOffset f _ _ _ := f.elim
  seekFromStart f _ _ := f.elim
  length_read f := f.elim

/-- A machine with zeroed memory and no frame handed out. -/
def World.boot : World Bitmap Unit where
  alloc := ⟨[]⟩
  mem := fun _ ↦ 0
  files := ()
  oom := false

/-- The machine after the kernel took the first frame for its root table. -/
def World.kernel : World Bitmap Unit := { World.boot with alloc := ⟨[0]⟩ }

theorem World.kernel_inUse : PHYS_MEMORY_OFFSET ∈ World.kernel.inUse :=
  ⟨0, List.mem_singleton_self 0, rfl⟩

end Maturin
