import Maturin.Memory.MemorySet

/-!
# The system calls on memory mappings

`sys_mmap`, `sys_munmap` and `sys_mprotect` of `syscall/process.rs`, on the address space of the
calling task. `fds` are the open files of the task by descriptor. A descriptor is a signed number
of 32 bits, which the conversion to `usize` extends by its sign.
-/

open Exec

namespace Maturin

/-- The bits of `prot`. -/
abbrev MMAPPROT := BitVec 32

namespace MMAPPROT

def PROT_READ : MMAPPROT := 1
def PROT_WRITE : MMAPPROT := 2
def PROT_EXEC : MMAPPROT := 4

def contains (self other : MMAPPROT) : Bool := self &&& other == other

/-- The flags of the mapped pages; they are always user pages. -/
def toPTEFlags (self : MMAPPROT) : PTEFlags :=
  let flag := PTEFlags.USER
  let flag := if self.contains PROT_READ then flag ||| PTEFlags.READ else flag
  let flag := if self.contains PROT_WRITE then flag ||| PTEFlags.WRITE else flag
  if self.contains PROT_EXEC then flag ||| PTEFlags.EXECUTE else flag

/-- Which of reading and writing reach the mapped file. -/
def toSyncPolicy (self : MMAPPROT) : SyncPolicy :=
  if self.contains PROT_READ && self.contains PROT_WRITE then .syncReadWrite
  else if self.contains PROT_WRITE then .syncWrite
  else .syncRead

end MMAPPROT

/-- The bits of `flags`. -/
abbrev MMAPFlags := BitVec 32

namespace MMAPFlags

def MAP_SHARED : MMAPFlags := 1
def MAP_PRIVATE : MMAPFlags := 2
def MAP_FIXED : MMAPFlags := 16
def MAP_ANONYMOUS : MMAPFlags := 32

def contains (self other : MMAPFlags) : Bool := self &&& other == other

end MMAPFlags

variable {σ φ F : Type} [FrameAllocator σ] [FileStore F φ]

/-- `mmap` of a task: an error becomes `EINVAL`. -/
def taskMmap (self : MemorySet F) (start end_ : ℕ) (flags : PTEFlags)
    (backend : Option (BackEndFile F)) (anywhere : Bool) :
    EStateM Panic (World σ φ) (Except ErrorNo ℕ × MemorySet F) := do
  let (r, self) ← self.pushWithBackend start end_ flags backend anywhere
  match r with
  | .ok start => pure (.ok start, self)
  | .error _ => pure (.error .EINVAL, self)

/-- The length of a mapping after both ends were aligned. -/
def mmapLen (start len : ℕ) : ℕ := wsub (alignUp (wadd start len)) (alignDown start)

theorem pageAligned_mmapLen (start len : ℕ) : PageAligned (mmapLen start len) := by
  have hal : PageAligned (alignDown start) := pageAligned_alignDown start
  have hup : PageAligned (alignUp (wadd start len)) := pageAligned_alignUp _
  simp only [PageAligned, mmapLen, wsub, PAGE_SIZE] at hal hup ⊢
  omega

theorem pageAligned_wadd {a b : ℕ} (ha : PageAligned a) (hb : PageAligned b) :
    PageAligned (wadd a b) := by
  simp only [PageAligned, wadd, PAGE_SIZE] at ha hb ⊢
  omega

/-- `push_with_backend` finds the length that `sys_mmap` computed. -/
theorem wsub_wadd_mmapLen {start : ℕ} (hstart : start < 2 ^ 64) (len : ℕ) :
    wsub (wadd (alignDown start) (mmapLen start len)) (alignDown start) = mmapLen start len := by
  have hle := alignDown_le start
  have hlt : mmapLen start len < 2 ^ 64 := wsub_lt _ _
  simp only [wsub, wadd]
  omega

/-- May the mapping be placed anywhere? -/
def mmapAnywhere (start : ℕ) (flags : MMAPFlags) : Bool :=
  alignDown start == 0 || !flags.contains MMAPFlags.MAP_FIXED

/-- Map memory. -/
def sysMmap (fds : ℕ → Option F) (self : MemorySet F) (start len : ℕ) (prot : MMAPPROT)
    (flags : MMAPFlags) (fd : BitVec 32) (offset : ℕ) :
    EStateM Panic (World σ φ) (Except ErrorNo ℕ × MemorySet F) :=
  let len := mmapLen start len
  let anywhere := mmapAnywhere start flags
  let start := alignDown start
  if start = 0 ∧ flags.contains MMAPFlags.MAP_FIXED then
    pure (.error .EINVAL, self)
  else if flags.contains MMAPFlags.MAP_ANONYMOUS then
    if fd = -1 ∧ offset = 0 then
      taskMmap self start (wadd start len) prot.toPTEFlags none anywhere
    else
      pure (.error .EINVAL, self)
  else
    match fds (fd.signExtend 64).toNat with
    | some file => do
      let off ← modifyGet fun w ↦
        let (off, files) := FileStore.seekFromStart file offset w.files
        (off, { w with files })
      match off with
      | some _ =>
        taskMmap self start (wadd start len) prot.toPTEFlags
          (some ⟨file, offset, prot.toSyncPolicy⟩) anywhere
      | none => pure (.error .EINVAL, self)
    | none => pure (.error .EINVAL, self)

/-- Unmap memory. -/
def sysMunmap (self : MemorySet F) (start len : ℕ) :
    EStateM Panic (World σ φ) (Except ErrorNo ℕ × MemorySet F) := do
  let (ok, self) ← self.munmap start (wadd start len)
  pure (if ok then .ok 0 else .error .EINVAL, self)

/-- Change the protection of memory. -/
def sysMprotect (self : MemorySet F) (start len : ℕ) (prot : MMAPPROT) :
    EStateM Panic (World σ φ) (Except ErrorNo ℕ × MemorySet F) := do
  let (ok, self) ← self.mprotect start (wadd start len) prot.toPTEFlags
  pure (if ok then .ok 0 else .error .EINVAL, self)

end Maturin
