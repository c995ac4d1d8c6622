import Maturin.Alloc.Cascade
import Maturin.Base.Error
import Maturin.Lib.Exec

/-!
# The descriptor table of a process

`FdManager` of `file/fd_manager.rs` holds the open files by descriptor, the bitmap from which
descriptors are taken (`FdAllocator` of `memory/allocator/fd.rs`, a bitmap of 256 bits), and the
limit that `sys_prlimit64` changes. `Γ` are the files, of which the table only asks whether they
are to be closed by `exec`.
-/

open Exec

namespace Maturin

/-- The limit that no process can raise. -/
abbrev FD_LIMIT_HARD : ℕ := 256

/-- The limit of a new table. -/
abbrev FD_LIMIT_ORIGIN : ℕ := 256

abbrev FdAllocator := BitAlloc256

namespace FdAllocator

def new (limit : ℕ) : Option FdAllocator := BitAlloc.insert 0 limit BitAlloc.DEFAULT

def expandRange (left right : ℕ) : FdAllocator → Option FdAllocator := BitAlloc.insert left right

def shrinkRange (left right : ℕ) : FdAllocator → Option FdAllocator := BitAlloc.remove left right

def alloc : FdAllocator → Option (ℕ × FdAllocator) := BitAlloc.alloc

def dealloc (fd : ℕ) : FdAllocator → Option FdAllocator := BitAlloc.dealloc fd

/-- `alloc_exact`, which does not look whether the descriptor is taken. -/
def allocExact (fd : ℕ) : FdAllocator → Option FdAllocator := BitAlloc.remove fd (fd + 1)

/-- `alloc_exact_if_possible`; the test of a bit past the last one is an index out of bounds. -/
def allocExactIfPossible (fd : ℕ) (b : FdAllocator) : Option FdAllocator :=
  if fd < BitAlloc.CAP FdAllocator then
    if BitAlloc.test fd b then allocExact fd b else some b
  else none

end FdAllocator

/-- `FdManager` -/
structure FdManager (Γ : Type) where
  files : List (Option Γ)
  fdAllocator : FdAllocator
  limit : ℕ
  umask : Int32

variable {Γ : Type}

namespace FdManager

/-- The file in a slot. -/
def slot (m : FdManager Γ) (fd : ℕ) : Option Γ := m.files[fd]?.getD none

/-- Put a file into a slot, after making the vector long enough. -/
def setSlot (m : FdManager Γ) (fd : ℕ) (file : Option Γ) : FdManager Γ where
  files := (m.files ++ List.replicate (fd + 1 - m.files.length) none).set fd file
  fdAllocator := m.fdAllocator
  limit := m.limit
  umask := m.umask

/-- Run a method of the allocator; `none` is a failing assertion. -/
def onAllocator (f : FdAllocator → Option FdAllocator) : EStateM Panic (FdManager Γ) Unit := do
  let m ← get
  match f m.fdAllocator with
  | some fdAllocator => set { m with fdAllocator }
  | none => throw .assertFailed

def push (file : Γ) : EStateM Panic (FdManager Γ) (Except OSError ℕ) := do
  let m ← get
  match FdAllocator.alloc m.fdAllocator with
  | some (fd, fdAllocator) =>
    set ({ m with fdAllocator }.setSlot fd (some file))
    pure (.ok fd)
  | none => pure (.error .fdManager_noAvailableFd)

def getFile (fd : ℕ) : EStateM Panic (FdManager Γ) (Except OSError Γ) := do
  let m ← get
  match m.slot fd with
  | some file => pure (.ok file)
  | none => pure (.error .fdManager_fdNotFound)

def copyFdAnywhere (oldFd : ℕ) : EStateM Panic (FdManager Γ) (Except OSError ℕ) := do
  match ← getFile oldFd with
  | .ok file => push file
  | .error e => pure (.error e)

def copyFdTo (oldFd newFd : ℕ) : EStateM Panic (FdManager Γ) Bool := do
  match ← getFile oldFd with
  | .ok file =>
    onAllocator (FdAllocator.allocExactIfPossible newFd)
    modify (·.setSlot newFd (some file))
    pure true
  | .error _ => pure false

def removeFile (fd : ℕ) : EStateM Panic (FdManager Γ) (Except OSError Γ) := do
  match ← getFile fd with
  | .ok file =>
    onAllocator (FdAllocator.dealloc fd)
    modify (·.setSlot fd none)
    pure (.ok file)
  | .error e => pure (.error e)

/-- `is_full`: take a descriptor and give it back. -/
def isFull : EStateM Panic (FdManager Γ) Bool := do
  let m ← get
  match FdAllocator.alloc m.fdAllocator with
  | some (fd, fdAllocator) =>
    set { m with fdAllocator }
    onAllocator (FdAllocator.dealloc fd)
    pure false
  | none => pure true

/-- `close_cloexec_files`, with the files that have the flag `CLOEXEC` at the time of the call. -/
def closeCloexecFiles (cloexec : Γ → Bool) : EStateM Panic (FdManager Γ) Unit :=
  modify fun m ↦ { m with files := m.files.map (Option.filter fun file ↦ !cloexec file) }

def modifyLimit (newLimit : ℕ) : EStateM Panic (FdManager Γ) Unit := do
  let m ← get
  let newLimit := min newLimit FD_LIMIT_HARD
  if newLimit < m.limit then onAllocator (FdAllocator.shrinkRange newLimit m.limit)
  else if m.limit < newLimit then onAllocator (FdAllocator.expandRange m.limit newLimit)
  modify ({ · with limit := newLimit })

/-- `push(..).unwrap()` -/
def pushUnwrap (file : Γ) : EStateM Panic (FdManager Γ) Unit := do
  match ← push file with
  | .ok _ => pure ()
  | .error e => throw (.unwrap .newFdManager e)

/-- `new`, with the three standard files. -/
def new (stdin stdout stderr : Γ) (umask : Int32) : Option (FdManager Γ) := do
  let fdAllocator ← FdAllocator.new FD_LIMIT_ORIGIN
  let m : FdManager Γ := { files := [], fdAllocator, limit := FD_LIMIT_ORIGIN, umask }
  match ([stdin, stdout, stderr].forM pushUnwrap).run m with
  | .ok _ m => some m
  | .error _ _ => none

/-- One round of the loop of `copy_all`. -/
def copySlot (self newManager : FdManager Γ) (fd : ℕ) : Option (FdManager Γ) := do
  match self.slot fd with
  | some file =>
    let fdAllocator ← FdAllocator.allocExact fd newManager.fdAllocator
    pure ({ newManager with fdAllocator }.setSlot fd (some file))
  | none => pure newManager

def copyAll (self : FdManager Γ) : Option (FdManager Γ) := do
  let fdAllocator ← FdAllocator.new self.limit
  let newManager : FdManager Γ :=
    { files := List.replicate self.files.length none, fdAllocator, limit := self.limit,
      umask := self.umask }
  (List.range self.files.length).foldlM (copySlot self) newManager

end FdManager

/-- `sys_open`, where `openFile` is what resolving the path and opening the file comes to. -/
def sysOpen (openFile : Except ErrorNo Γ) : EStateM Panic (FdManager Γ) (Except ErrorNo ℕ) := do
  if ← FdManager.isFull then pure (.error .EMFILE)
  else
    match openFile with
    | .ok node =>
      match ← FdManager.push node with
      | .ok fd => pure (.ok fd)
      | .error _ => pure (.error .ENOENT)
    | .error e => pure (.error e)

end Maturin
