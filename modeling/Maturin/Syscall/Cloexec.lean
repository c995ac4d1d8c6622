import Maturin.File.Slots
import Maturin.Syscall.Flags

/-!
# The flag that closes a descriptor

Whether `exec` closes a descriptor is told by the flag `CLOEXEC` of its file. The flag is kept in
the file, in the word of the flags with which it was opened, so that all descriptors of the file
have the same one: those that `dup` and `F_DUPFD` made, and those of a process and its children.
`F_SETFL` writes the whole word, and `F_DUPFD_CLOEXEC` sets the flag as its argument, a descriptor,
is odd or even. The standard files and the directories take the flag and do not keep it.

Each descriptor is meant to have a flag of its own, which it gets when it is made and which
`F_SETFD` changes. `FlagCall.own` says what flag that is, and `FlagCall.Spares` when a call leaves
the flag of a file as it is for the other descriptors of the file.
-/

open Exec Function Bitflags

namespace Maturin

/-! ## The flags of a file -/

/-- How a file treats its flags. -/
inductive StatusKind
  /-- `FatFile` -/
  | fat
  /-- `Socket`, which has no `set_close_on_exec` -/
  | socket
  /-- `Stdin`, `Stdout`, `Stderr` and `FdDir`, which take the flag `CLOEXEC` and do not keep it -/
  | silent
  /-- the files that use the methods of the trait -/
  | plain
  deriving DecidableEq

/-- A file as far as its flags go. -/
structure StatusFile where
  kind : StatusKind
  flags : OpenFlags
  deriving DecidableEq

namespace StatusFile

/-- `get_status` -/
def getStatus (self : StatusFile) : OpenFlags :=
  match self.kind with
  | .fat | .socket => self.flags
  | .silent | .plain => 0

/-- `set_status` -/
def setStatus (flags : OpenFlags) (self : StatusFile) : Bool × StatusFile :=
  match self.kind with
  | .fat => (true, { self with flags })
  | .socket =>
    let mask := OpenFlags.NON_BLOCK ||| OpenFlags.CLOEXEC
    (true, { self with flags := self.flags &&& ~~~mask ||| flags &&& mask })
  | .silent | .plain => (false, self)

/-- `set_close_on_exec` -/
def setCloseOnExec (isSet : Bool) (self : StatusFile) : Bool × StatusFile :=
  match self.kind with
  | .fat =>
    (true, { self with
      flags := if isSet then self.flags ||| OpenFlags.CLOEXEC
        else self.flags &&& ~~~OpenFlags.CLOEXEC })
  | .silent => (true, self)
  | .socket | .plain => (false, self)

/-- Does `exec` close the file? -/
def closes (self : StatusFile) : Bool := self.getStatus.contains OpenFlags.CLOEXEC

end StatusFile

/-! ### What the methods do to the flag -/

theorem OpenFlags.contains_CLOEXEC (flags : OpenFlags) :
    flags.contains OpenFlags.CLOEXEC = flags.getLsbD 19 := by
  rw [OpenFlags.contains, Bool.eq_iff_iff, decide_eq_true_iff]
  constructor
  · intro h
    have hbit := congrArg (fun b : OpenFlags ↦ b.getLsbD 19) h
    rwa [BitVec.getLsbD_and, show OpenFlags.CLOEXEC.getLsbD 19 = true by decide,
      Bool.and_true] at hbit
  · intro h
    refine BitVec.eq_of_getLsbD_eq fun i hi ↦ ?_
    rw [BitVec.getLsbD_and]
    by_cases hplace : i = 19
    · rw [hplace, h, Bool.true_and]
    · have hbit : OpenFlags.CLOEXEC.getLsbD i = false := by
        rw [show OpenFlags.CLOEXEC = BitVec.twoPow 32 19 by decide, BitVec.getLsbD_twoPow,
          decide_eq_false (Ne.symm hplace), Bool.and_false]
      rw [hbit, Bool.and_false]

namespace StatusFile

variable {file : StatusFile} (flags : OpenFlags) (isSet : Bool)

theorem setCloseOnExec_fat (h : file.kind = .fat) :
    (file.setCloseOnExec isSet).1 = true ∧ (file.setCloseOnExec isSet).2.closes = isSet := by
  obtain ⟨kind, old⟩ := file
  obtain rfl : kind = .fat := h
  refine ⟨rfl, ?_⟩
  change OpenFlags.contains (if isSet then old ||| OpenFlags.CLOEXEC
    else old &&& ~~~OpenFlags.CLOEXEC) OpenFlags.CLOEXEC = isSet
  rw [OpenFlags.contains_CLOEXEC]
  have hbit : OpenFlags.CLOEXEC.getLsbD 19 = true := by decide
  cases isSet with
  | false => simp [hbit]
  | true => simp [hbit]

theorem setCloseOnExec_silent (h : file.kind = .silent) :
    file.setCloseOnExec isSet = (true, file) := by
  rw [setCloseOnExec, h]

theorem setCloseOnExec_other (h : file.kind = .socket ∨ file.kind = .plain) :
    file.setCloseOnExec isSet = (false, file) := by
  rcases h with h | h <;> rw [setCloseOnExec, h]

theorem closes_silent (h : file.kind = .silent) : file.closes = false := by
  rw [closes, getStatus, h]
  exact (by decide : OpenFlags.contains 0 OpenFlags.CLOEXEC = false)

theorem setStatus_keeps (h : file.kind = .fat ∨ file.kind = .socket) :
    (file.setStatus flags).1 = true ∧
      (file.setStatus flags).2.closes = flags.contains OpenFlags.CLOEXEC := by
  obtain ⟨kind, old⟩ := file
  rcases h with h | h
  · obtain rfl : kind = .fat := h
    exact ⟨rfl, rfl⟩
  · obtain rfl : kind = .socket := h
    refine ⟨rfl, ?_⟩
    change OpenFlags.contains (old &&& ~~~(OpenFlags.NON_BLOCK ||| OpenFlags.CLOEXEC) |||
      flags &&& (OpenFlags.NON_BLOCK ||| OpenFlags.CLOEXEC)) OpenFlags.CLOEXEC = _
    have hbit : (OpenFlags.NON_BLOCK ||| OpenFlags.CLOEXEC).getLsbD 19 = true := by decide
    rw [OpenFlags.contains_CLOEXEC, OpenFlags.contains_CLOEXEC, BitVec.getLsbD_or,
      BitVec.getLsbD_and, BitVec.getLsbD_and, BitVec.getLsbD_not, hbit]
    simp

theorem setStatus_other (h : file.kind = .silent ∨ file.kind = .plain) :
    file.setStatus flags = (false, file) := by
  rcases h with h | h <;> rw [setStatus, h]

end StatusFile

/-! ## The calls -/

/-- The files by number, and the descriptor table of a process. -/
abbrev FileTask := (ℕ → StatusFile) × FdManager ℕ

/-- A method of a file that answers with `true` or `false`. -/
def onFile (id : ℕ) (f : StatusFile → Bool × StatusFile) : EStateM Panic FileTask Bool :=
  modifyGet fun s ↦ ((f (s.1 id)).1, (update s.1 id (f (s.1 id)).2, s.2))

/-- `sys_fcntl64` -/
def sysFcntl64 (fd : ℕ) (cmd arg : BitVec 64) : EStateM Panic FileTask (Except ErrorNo ℕ) := do
  match ← onSnd (FdManager.getFile fd) with
  | .error _ => pure (.error .EBADF)
  | .ok id =>
    match Fcntl64Cmd.tryFrom cmd with
    | some .F_DUPFD =>
      match ← onSnd (FdManager.copyFdAnywhere fd) with
      | .ok newFd => pure (.ok newFd)
      | .error _ => pure (.error .EMFILE)
    | some .F_GETFD =>
      let s ← get
      pure (.ok (if (s.1 id).closes then 1 else 0))
    | some .F_SETFD =>
      if ← onFile id (·.setCloseOnExec (arg.getLsbD 0)) then pure (.ok 0)
      else pure (.error .EINVAL)
    | some .F_GETFL =>
      let s ← get
      pure (.ok (s.1 id).getStatus.toNat)
    | some .F_SETFL =>
      match fromBits OpenFlags.all (arg.setWidth 32) with
      | some flags =>
        if ← onFile id (·.setStatus flags.bits) then pure (.ok 0) else pure (.error .EINVAL)
      | none => pure (.error .EINVAL)
    | some .F_DUPFD_CLOEXEC =>
      match ← onSnd (FdManager.copyFdAnywhere fd) with
      | .ok newFd =>
        if ← onFile id (·.setCloseOnExec (arg.getLsbD 0)) then pure (.ok newFd)
        else
          match ← onSnd (FdManager.removeFile newFd) with
          | .ok _ => pure (.error .EMFILE)
          | .error e => throw (.unwrap .sysFcntl64 e)
      | .error _ => pure (.error .EMFILE)
    | none => pure (.error .EINVAL)

/-- `sys_dup` -/
def sysDup (fd : ℕ) : EStateM Panic FileTask (Except ErrorNo ℕ) := do
  match ← onSnd (FdManager.copyFdAnywhere fd) with
  | .ok newFd => pure (.ok newFd)
  | .error _ => pure (.error .EMFILE)

/-- `sys_dup3` -/
def sysDup3 (oldFd newFd : ℕ) : EStateM Panic FileTask (Except ErrorNo ℕ) := do
  if ← onSnd (FdManager.copyFdTo oldFd newFd) then pure (.ok newFd) else pure (.error .EINVAL)

/-- `sys_close` -/
def sysClose (fd : ℕ) : EStateM Panic FileTask (Except ErrorNo ℕ) := do
  match ← onSnd (FdManager.removeFile fd) with
  | .ok _ => pure (.ok 0)
  | .error _ => pure (.error .EINVAL)

/-- What `exec` does to the descriptors. -/
def execFiles : EStateM Panic FileTask (Except ErrorNo ℕ) := do
  let s ← get
  onSnd (FdManager.closeCloexecFiles fun id ↦ (s.1 id).closes)
  pure (.ok 0)

/-- The calls that make, change and close descriptors. -/
inductive FlagCall
  /-- `sys_open`, with the file that is opened and whether it is to have the flag -/
  | open_ (openFile : Except ErrorNo ℕ) (cloexec : Bool)
  | fcntl64 (fd : ℕ) (cmd arg : BitVec 64)
  | dup (fd : ℕ)
  | dup3 (oldFd newFd : ℕ)
  | close (fd : ℕ)
  | exec

namespace FlagCall

def run : FlagCall → EStateM Panic FileTask (Except ErrorNo ℕ)
  | open_ openFile _ => onSnd (sysOpen openFile)
  | fcntl64 fd cmd arg => sysFcntl64 fd cmd arg
  | dup fd => sysDup fd
  | dup3 oldFd newFd => sysDup3 oldFd newFd
  | close fd => sysClose fd
  | exec => execFiles

/-- The flags that the descriptors of a process are meant to have after a call. -/
def own (r : Except ErrorNo ℕ) (own : ℕ → Bool) (c : FlagCall) : ℕ → Bool :=
  match r with
  | .error _ => own
  | .ok newFd =>
    match c with
    | open_ _ cloexec => update own newFd cloexec
    | fcntl64 fd cmd arg =>
      match Fcntl64Cmd.tryFrom cmd with
      | some .F_DUPFD => update own newFd false
      | some .F_SETFD => update own fd (arg.getLsbD 0)
      | some .F_DUPFD_CLOEXEC => update own newFd true
      | _ => own
    | dup _ => update own newFd false
    | dup3 oldFd newFd => if oldFd = newFd then own else update own newFd false
    | close _ => own
    | exec => own

/-- The call leaves the flag of a file as the descriptors that share the file have it.
`shared fd id` says that a descriptor other than `fd` has the file. -/
def Spares (shared : ℕ → ℕ → Prop) (s : FileTask) : FlagCall → Prop
  | open_ openFile cloexec =>
    ∀ id, openFile = .ok id → FdAllocator.alloc s.2.fdAllocator ≠ none →
      (s.1 id).closes = cloexec
  | fcntl64 fd cmd arg =>
    ∀ id, s.2.slot fd = some id →
      match Fcntl64Cmd.tryFrom cmd with
      | some .F_DUPFD =>
        FdAllocator.alloc s.2.fdAllocator ≠ none → (s.1 id).closes = false
      | some .F_SETFD =>
        match (s.1 id).kind with
        | .fat => shared fd id → (s.1 id).closes = arg.getLsbD 0
        | .silent => arg.getLsbD 0 = false
        | .socket | .plain => True
      | some .F_SETFL =>
        match (s.1 id).kind with
        | .fat | .socket =>
          ∀ flags, fromBits OpenFlags.all (arg.setWidth 32) = some flags →
            OpenFlags.contains flags.bits OpenFlags.CLOEXEC = (s.1 id).closes
        | .silent | .plain => True
      | some .F_DUPFD_CLOEXEC =>
        ∀ newFd b, FdAllocator.alloc s.2.fdAllocator = some (newFd, b) →
          match (s.1 id).kind with
          | .fat => arg.getLsbD 0 = true ∧ (shared newFd id → (s.1 id).closes = true)
          | .silent => False
          | .socket | .plain => True
      | _ => True
  | dup fd =>
    ∀ id, s.2.slot fd = some id → FdAllocator.alloc s.2.fdAllocator ≠ none →
      (s.1 id).closes = false
  | dup3 oldFd newFd =>
    ∀ id, s.2.slot oldFd = some id → oldFd ≠ newFd → (s.1 id).closes = false
  | close _ => True
  | exec => True

end FlagCall

end Maturin
