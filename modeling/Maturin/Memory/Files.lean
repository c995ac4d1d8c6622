import Maturin.Memory.Backed

/-!
# What reaches the files

An area with a file behind it reads a page from the file when the page gets its frame, and writes it
back when the frame is released. `FileRun l s t` says that the operations `l`, one after another,
turn the state `s` of the files into `t`. The operations on page tables leave the files alone.
-/

open Exec

namespace Maturin

variable {σ φ F : Type}

/-! ## Operations on files -/

/-- An operation on a file at an offset. -/
inductive FileOp (F : Type)
  | read (file : F) (offset : ℕ)
  | write (file : F) (offset : ℕ) (bytes : List UInt8)

/-- The operations lead from one state of the files to another; a buffer to read into may hold
anything. -/
inductive FileRun [FileStore F φ] : List (FileOp F) → φ → φ → Prop
  | nil (s : φ) : FileRun [] s s
  | read {file : F} {offset : ℕ} {buf : List UInt8} {l : List (FileOp F)} {s t : φ}
      (hlen : buf.length = PAGE_SIZE)
      (h : FileRun l (FileStore.readFromOffset file offset buf s).2 t) :
      FileRun (.read file offset :: l) s t
  | write {file : F} {offset : ℕ} {bytes : List UInt8} {l : List (FileOp F)} {s t : φ}
      (h : FileRun l (FileStore.writeToOffset file offset bytes s).2 t) :
      FileRun (.write file offset bytes :: l) s t

namespace FileRun

variable [FileStore F φ] {l l' : List (FileOp F)} {s t u : φ}

theorem append (h : FileRun l s t) (h' : FileRun l' t u) : FileRun (l ++ l') s u := by
  induction h with
  | nil s => exact h'
  | read hlen _ ih => exact .read hlen (ih h')
  | write _ ih => exact .write (ih h')

theorem eq_of_nil (h : FileRun ([] : List (FileOp F)) s t) : t = s := by
  cases h
  rfl

/-- What every operation keeps, a run keeps. -/
theorem keeps {P : φ → Prop} (h : FileRun l s t) (hs : P s)
    (hread : ∀ file offset, .read file offset ∈ l → ∀ buf : List UInt8, buf.length = PAGE_SIZE →
      ∀ s, P s → P (FileStore.readFromOffset file offset buf s).2)
    (hwrite : ∀ file offset bytes, .write file offset bytes ∈ l → ∀ s, P s →
      P (FileStore.writeToOffset file offset bytes s).2) : P t := by
  induction h with
  | nil s => exact hs
  | read hlen _ ih =>
    exact ih (hread _ _ List.mem_cons_self _ hlen _ hs)
      (fun file offset hmem ↦ hread file offset (List.mem_cons_of_mem _ hmem))
      fun file offset bytes hmem ↦ hwrite file offset bytes (List.mem_cons_of_mem _ hmem)
  | write _ ih =>
    exact ih (hwrite _ _ _ List.mem_cons_self _ hs)
      (fun file offset hmem ↦ hread file offset (List.mem_cons_of_mem _ hmem))
      fun file offset bytes hmem ↦ hwrite file offset bytes (List.mem_cons_of_mem _ hmem)

end FileRun

namespace SyncPolicy

/-- Does the policy read from the file? -/
def reads : SyncPolicy → Bool
  | syncRead | syncReadWrite => true
  | syncWrite => false

/-- Does the policy write to the file? -/
def writes : SyncPolicy → Bool
  | syncWrite | syncReadWrite => true
  | syncRead => false

end SyncPolicy

/-- The operation that fills a page from the part of a file behind it. -/
def readOps : Option (BackEndFile F) → List (FileOp F)
  | some backend => if backend.policy.reads then [.read backend.file backend.offset] else []
  | none => []

/-- The operation that writes a page back to the part of a file behind it. -/
def writeOps (bytes : List UInt8) : Option (BackEndFile F) → List (FileOp F)
  | some backend => if backend.policy.writes then [.write backend.file backend.offset bytes] else []
  | none => []

/-- The bytes of a page. -/
def Page.bytes (pg : Page) : List UInt8 := (List.range PAGE_SIZE).map pg.data

/-- The operation that releases a page, if it has a frame. -/
def releaseOps (page : Option Page) (backend : Option (BackEndFile F)) : List (FileOp F) :=
  match page with
  | some pg => writeOps pg.bytes backend
  | none => []

/-! ## The part of a file behind a page -/

namespace BackEndFile

variable {backend : BackEndFile F} {x y : ℕ}

@[simp] theorem split_file : (backend.split x).file = backend.file := rfl

@[simp] theorem split_policy : (backend.split x).policy = backend.policy := rfl

@[simp] theorem split_offset : (backend.split x).offset = wadd backend.offset x := rfl

theorem split_split : (backend.split x).split y = backend.split (x + y) := by
  simp only [split, wadd, BackEndFile.mk.injEq, true_and, and_true]
  omega

end BackEndFile

/-- Writing through an area reaches the file at its offset. -/
theorem wp_writeToOffset_run [FileStore F φ] (backend : BackEndFile F) (pos : ℕ)
    (buf : List UInt8) {w : World σ φ} :
    wp (backend.writeToOffset pos buf) (fun _ w' ↦ ∃ files, w' = { w with files } ∧
      FileRun (writeOps buf (some (backend.split pos))) w.files files) noPanic w := by
  rw [BackEndFile.writeToOffset, writeOps, BackEndFile.split_policy]
  cases backend.policy with
  | syncRead => exact ⟨w.files, rfl, .nil _⟩
  | syncWrite => exact ⟨_, rfl, .write (.nil _)⟩
  | syncReadWrite => exact ⟨_, rfl, .write (.nil _)⟩

/-! ## Page tables leave the files alone -/

section tables

variable {J : φ → Prop}

theorem maintains_readPte (pte : ℕ) :
    Maintains (fun s : PageTable × World σ φ ↦ J s.2.files) (readPte pte) :=
  Maintains.get.bind fun _ ↦ Maintains.pure _

theorem maintains_writePte (pte bits : ℕ) :
    Maintains (fun s : PageTable × World σ φ ↦ J s.2.files) (writePte pte bits) :=
  Maintains.modify fun _ hs ↦ hs

theorem maintains_frameZero (paddr : ℕ) :
    Maintains (fun w : World σ φ ↦ J w.files) (frameZero paddr) :=
  Maintains.modify fun _ hs ↦ hs

variable [FrameAllocator σ]

theorem maintains_frameNew : Maintains (fun w : World σ φ ↦ J w.files) frameNew := by
  intro w hw
  rw [frameNew, wp_bind, wp_get]
  cases FrameAllocator.alloc w.alloc with
  | none => exact hw
  | some r => exact hw

theorem maintains_frameDrop (paddr : ℕ) :
    Maintains (fun w : World σ φ ↦ J w.files) (frameDrop paddr) :=
  Maintains.modify fun _ hs ↦ hs

namespace PageTable

theorem maintains_allocAndSet (pte : ℕ) :
    Maintains (fun s : PageTable × World σ φ ↦ J s.2.files) (allocAndSet pte) := by
  refine (Maintains.onSnd fun _ ↦ maintains_frameNew).bind fun r ↦ ?_
  cases r with
  | none => exact Maintains.pure _
  | some frame =>
    exact (Maintains.onSnd fun _ ↦ maintains_frameZero frame).bind fun _ ↦
      (maintains_writePte _ _).bind fun _ ↦ Maintains.pure _

theorem maintains_getAddrCreate (pte : ℕ) :
    Maintains (fun s : PageTable × World σ φ ↦ J s.2.files) (getAddrCreate pte) := by
  refine (maintains_readPte pte).bind fun bits ↦ ?_
  split_ifs
  · exact Maintains.pure _
  · refine (maintains_allocAndSet pte).bind fun r ↦ ?_
    cases r with
    | none => exact Maintains.pure _
    | some frame =>
      refine Maintains.bind ?_ fun _ ↦ (maintains_readPte pte).bind fun _ ↦ Maintains.pure _
      exact Maintains.modify fun _ hs ↦ hs

theorem maintains_findPteCreate (vaddr : ℕ) :
    Maintains (fun s : PageTable × World σ φ ↦ J s.2.files) (findPteCreate vaddr) := by
  refine Maintains.get.bind fun s ↦ (maintains_getAddrCreate _).bind fun r ↦ ?_
  cases r with
  | none => exact Maintains.pure _
  | some paddr =>
    refine (maintains_getAddrCreate _).bind fun r ↦ ?_
    cases r with
    | none => exact Maintains.pure _
    | some paddr => exact Maintains.pure _

theorem maintains_setFlags (vaddr : ℕ) (flags : PTEFlags) :
    Maintains (fun s : PageTable × World σ φ ↦ J s.2.files) (setFlags vaddr flags).run := by
  refine (maintains_findPteCreate vaddr).run_lift.run_bind fun r ↦ ?_
  cases r with
  | none => exact Maintains.pure _
  | some pte =>
    refine (maintains_readPte pte).run_lift.run_bind fun bits ↦ ?_
    split_ifs
    · exact (maintains_writePte _ _).run_lift
    · exact Maintains.pure _

omit [FrameAllocator σ] in
theorem maintains_findPte (vaddr : ℕ) :
    Maintains (fun s : PageTable × World σ φ ↦ J s.2.files) (findPte vaddr) := by
  refine Maintains.get.bind fun s ↦ (maintains_readPte _).bind fun bits ↦ ?_
  split_ifs
  · exact Maintains.pure _
  · refine (maintains_readPte _).bind fun bits ↦ ?_
    split_ifs
    · exact Maintains.pure _
    · exact Maintains.pure _

omit [FrameAllocator σ] in
theorem maintains_unmap (vaddr : ℕ) :
    Maintains (fun s : PageTable × World σ φ ↦ J s.2.files) (unmap vaddr).run := by
  refine (maintains_findPte vaddr).run_lift.run_bind fun r ↦ ?_
  cases r with
  | none => exact Maintains.pure _
  | some pte =>
    refine (maintains_readPte pte).run_lift.run_bind fun bits ↦ ?_
    split_ifs
    · exact Maintains.pure _
    · exact (maintains_writePte _ _).run_lift

end PageTable

end tables

end Maturin
