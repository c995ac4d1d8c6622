import Maturin.Base.Addr
import Maturin.Base.Error
import Maturin.Lib.Bytes
import Maturin.Lib.Exec
import Mathlib.Data.Set.Insert

/-!
# Physical memory, frames and files

The state on which the memory subsystem works: the frame allocator, the physical memory that the
kernel sees through its linear map, and the files behind mapped pages.

The bitmap allocator behind `Frame::new` and the `File` objects are outside the repository, so they
are classes. An allocator returns a page-aligned frame below `2 ^ 56` that is not in use, or none;
dropping a frame gives it back. A file may do anything with its own state, but reading fills a
buffer of fixed length.
-/

open Exec

namespace Maturin

/-- The allocator behind `Frame::new` and the `Drop` of `Frame`. -/
class FrameAllocator (σ : Type) where
  alloc : σ → Option (ℕ × σ)
  dealloc : ℕ → σ → σ
  /-- The frames that are handed out. -/
  inUse : σ → Set ℕ
  alloc_fresh : ∀ {s p t}, alloc s = some (p, t) → p ∉ inUse s
  alloc_aligned : ∀ {s p t}, alloc s = some (p, t) → PageAligned p ∧ p < 2 ^ 56
  inUse_alloc : ∀ {s p t}, alloc s = some (p, t) → inUse t = insert p (inUse s)
  inUse_dealloc : ∀ p s, inUse (dealloc p s) = inUse s \ {p}

/-- The files behind mapped pages: `F` are the handles, `φ` the state of all files. -/
class FileStore (F φ : Type) where
  /-- `read_from_offset`: the number of bytes read, and the buffer after the call. -/
  readFromOffset : F → ℕ → List UInt8 → φ → (Option ℕ × List UInt8) × φ
  /-- `write_to_offset`: the number of bytes written. -/
  writeToOffset : F → ℕ → List UInt8 → φ → Option ℕ × φ
  /-- `seek(SeekFrom::Start(pos))`: the new position. -/
  seekFromStart : F → ℕ → φ → Option ℕ × φ
  length_read : ∀ f pos buf s, (readFromOffset f pos buf s).1.2.length = buf.length

/-- The state that the memory subsystem works on. -/
structure World (σ φ : Type) where
  alloc : σ
  /-- The physical memory. -/
  mem : ByteMem
  files : φ
  /-- Did `Frame::new` ever fail? No function reads it. -/
  oom : Bool

variable {σ φ F : Type}

namespace World

/-- The frames that are handed out. -/
def inUse [FrameAllocator σ] (w : World σ φ) : Set ℕ := FrameAllocator.inUse w.alloc

def setMem (w : World σ φ) (mem : ByteMem) : World σ φ := { w with mem }

@[simp] theorem setMem_mem (w : World σ φ) (mem : ByteMem) : (w.setMem mem).mem = mem := rfl

@[simp] theorem setMem_oom (w : World σ φ) (mem : ByteMem) : (w.setMem mem).oom = w.oom := rfl

@[simp] theorem setMem_inUse [FrameAllocator σ] (w : World σ φ) (mem : ByteMem) :
    (w.setMem mem).inUse = w.inUse := rfl

end World

/-! ## Frames -/

section frames

variable [FrameAllocator σ]

/-- `Frame::new` -/
def frameNew : EStateM Panic (World σ φ) (Option ℕ) := do
  let w ← get
  match FrameAllocator.alloc w.alloc with
  | some (paddr, alloc) =>
    set { w with alloc }
    pure (some paddr)
  | none =>
    set { w with oom := true }
    pure none

/-- The `Drop` of a `Frame`. -/
def frameDrop (paddr : ℕ) : EStateM Panic (World σ φ) Unit :=
  modify fun w ↦ { w with alloc := FrameAllocator.dealloc paddr w.alloc }

omit [FrameAllocator σ] in
/-- `Frame::zero` -/
def frameZero (paddr : ℕ) : EStateM Panic (World σ φ) Unit :=
  modify fun w ↦ w.setMem (ByteMem.fill paddr PAGE_SIZE 0 w.mem)

theorem wp_frameNew {w : World σ φ} :
    wp frameNew (fun r w' ↦ match r with
      | some p => p ∉ w.inUse ∧ PageAligned p ∧ p < 2 ^ 56 ∧ w'.inUse = insert p w.inUse ∧
          w'.mem = w.mem ∧ w'.oom = w.oom
      | none => w' = { w with oom := true }) noPanic w := by
  rw [frameNew, wp_bind, wp_get]
  cases h : FrameAllocator.alloc w.alloc with
  | none => rfl
  | some r =>
    obtain ⟨p, alloc⟩ := r
    have hp := FrameAllocator.alloc_aligned h
    exact ⟨FrameAllocator.alloc_fresh h, hp.1, hp.2, FrameAllocator.inUse_alloc h, rfl, rfl⟩

/-- The allocator does not touch the files. -/
theorem wp_frameNew_files {w : World σ φ} :
    wp frameNew (fun _ w' ↦ w'.files = w.files) noPanic w := by
  rw [frameNew, wp_bind, wp_get]
  cases FrameAllocator.alloc w.alloc with
  | none => rfl
  | some r => rfl

theorem wp_frameDrop {w : World σ φ} {p : ℕ} :
    wp (frameDrop p) (fun _ w' ↦ w'.inUse = w.inUse \ {p} ∧ w'.mem = w.mem ∧ w'.oom = w.oom)
      noPanic w := by
  rw [frameDrop, wp_modify]
  exact ⟨FrameAllocator.inUse_dealloc p w.alloc, rfl, rfl⟩

end frames

/-! ## Pages do not overlap -/

/-- Two distinct frames share no address. -/
theorem page_disjoint {p q : ℕ} (hp : PageAligned p) (hq : PageAligned q) (hne : p ≠ q) :
    p + PAGE_SIZE ≤ q ∨ q + PAGE_SIZE ≤ p := by
  simp only [PageAligned, PAGE_SIZE] at *
  omega

end Maturin
