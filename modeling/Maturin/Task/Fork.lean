import Maturin.File.Slots
import Maturin.Signal.Signal
import Maturin.Syscall.Flags
import Maturin.Task.Heap
import Maturin.Trap.Context

/-!
# What a child gets from its parent

`from_clone` makes the new control block field by field. The context on the kernel stack is copied
with a zero in `a0`, so that, as the comment there says, parent and child differ in nothing but the
returned value when they go on in user mode. The working directory, the descriptor table, the limit,
the umask and the handlers are copied as well.

## What is made afresh

The receivers are new ones, so the child blocks no signal, whatever its parent blocks. The heap top
starts at `USER_STACK_OFFSET`, although the memory of the heap has been copied. And a table whose
limit is zero is not copied at all.
-/

open Exec Bitflags

namespace Maturin

namespace CloneFlags

/-- The file system information is shared. -/
abbrev CLONE_FS : CloneFlags := 1#32 <<< 9

/-- The descriptor table is shared. -/
abbrev CLONE_FILES : CloneFlags := 1#32 <<< 10

/-- The semaphores are shared. -/
abbrev CLONE_SYSVSEM : CloneFlags := 1#32 <<< 18

/-- `tp` gets a new value. -/
abbrev CLONE_SETTLS : CloneFlags := 1#32 <<< 19

/-- The flags with which parent and child share something. -/
def sharing : List CloneFlags :=
  [CLONE_VM, CLONE_FS, CLONE_FILES, CLONE_SIGHAND, CLONE_THREAD, CLONE_SYSVSEM]

end CloneFlags

/-- The fields of a task that a child may have from its parent. -/
structure ForkTask (Γ : Type) where
  /-- The first context on the kernel stack -/
  trapCx : TrapContext
  dir : List Char
  fdManager : FdManager Γ
  signalHandlers : SignalHandlers
  signalReceivers : SignalReceivers
  /-- the number of the `MemorySet` -/
  vm : ℕ
  userHeapTop : ℕ

namespace ForkTask

variable {Γ : Type}

/-- `from_clone`, where a copied address space is `newVm`; `none` is a panic of `copy_all`. -/
def fromClone (self : ForkTask Γ) (userStack : Option ℕ) (flags : CloneFlags) (tls newVm : ℕ) :
    Option (ForkTask Γ) := do
  let vm := if CloneFlags.contains flags .CLONE_VM then self.vm else newVm
  let fdManager ←
    if CloneFlags.contains flags .CLONE_FILES then some self.fdManager else self.fdManager.copyAll
  let trapCx := self.trapCx.setA0 0
  let trapCx := if CloneFlags.contains flags .CLONE_SETTLS then trapCx.setTp tls else trapCx
  let trapCx :=
    match userStack with
    | some userStackPos => trapCx.setSp userStackPos
    | none => trapCx
  some {
    trapCx
    dir := self.dir
    fdManager
    -- the handlers are shared or copied, with the same values
    signalHandlers := self.signalHandlers
    signalReceivers := .new
    vm
    userHeapTop := USER_STACK_OFFSET }

/-- `sys_clone`: the new task, or the error; `none` is a panic. -/
def sysClone (self : ForkTask Γ) (flags : BitVec 64) (userStack : ℤ) (tls newVm : ℕ) :
    Option (Except ErrorNo (ForkTask Γ)) :=
  match resolveCloneFlagsAndSignal flags with
  | .error _ => none
  | .ok (cloneFlags, _) =>
    if userStack < 0 then some (.error .EINVAL)
    else if userStack > 0 then
      (self.fromClone (some userStack.toNat) cloneFlags.bits tls newVm).map .ok
    else (self.fromClone none cloneFlags.bits tls newVm).map .ok

/-- The part of the task that `sys_brk` works on. -/
def heapTask (self : ForkTask Γ) : HeapTask := ⟨self.vm, self.userHeapTop, self.trapCx.getSp⟩

/-- A child that has what its parent has, but for the value that `sys_clone` returns. -/
structure EqualChild (parent child : ForkTask Γ) : Prop where
  registers : child.trapCx = parent.trapCx.setA0 0
  dir : child.dir = parent.dir
  files : child.fdManager.slot = parent.fdManager.slot
  limit : child.fdManager.limit = parent.fdManager.limit
  umask : child.fdManager.umask = parent.fdManager.umask
  handlers : child.signalHandlers = parent.signalHandlers
  mask : child.signalReceivers.mask = parent.signalReceivers.mask
  heapTop : (child.heapTask.sysBrk 0).1 = (parent.heapTask.sysBrk 0).1

/-- The parent has nothing that is made afresh, and no other `tp` is asked for. -/
structure Forkable (parent : ForkTask Γ) (flags : CloneFlags) (tls : ℕ) : Prop where
  mask : parent.signalReceivers.mask = 0
  heapTop : parent.userHeapTop = USER_STACK_OFFSET
  limit : 0 < parent.fdManager.limit
  tp : CloneFlags.contains flags .CLONE_SETTLS = true → tls = parent.trapCx.x 4

end ForkTask

namespace ForkTask

variable {Γ : Type} {parent child : ForkTask Γ} {flags : CloneFlags} {tls newVm : ℕ}

/-- A child with nothing of its parent's but copies. -/
theorem fromClone_of_not_settls (hvm : CloneFlags.contains flags .CLONE_VM = false)
    (hfiles : CloneFlags.contains flags .CLONE_FILES = false)
    (htls : CloneFlags.contains flags .CLONE_SETTLS = false) {m : FdManager Γ}
    (hcopy : parent.fdManager.copyAll = some m) :
    parent.fromClone none flags tls newVm = some { parent with
      trapCx := parent.trapCx.setA0 0
      fdManager := m
      signalReceivers := .new
      vm := newVm
      userHeapTop := USER_STACK_OFFSET } := by
  rw [fromClone, hvm, hfiles, hcopy, htls]
  rfl

/-- What `brk(0)` reports is the heap top. -/
theorem heapTask_sysBrk_zero (self : ForkTask Γ) :
    (self.heapTask.sysBrk 0).1 = self.userHeapTop := by
  rw [HeapTask.sysBrk, if_pos rfl]
  rfl

/-- Without `CLONE_FILES` a child is made as soon as the table is copied. -/
theorem fromClone_of_not_files (h : CloneFlags.contains flags .CLONE_FILES = false)
    (userStack : Option ℕ) :
    parent.fromClone userStack flags tls newVm = some child →
      parent.fdManager.copyAll = some child.fdManager := by
  rw [fromClone, h]
  cases parent.fdManager.copyAll with
  | none => exact fun hsome ↦ by cases hsome
  | some m =>
    rintro ⟨⟩
    rfl

theorem exists_fromClone_iff (h : CloneFlags.contains flags .CLONE_FILES = false)
    (hfits : parent.fdManager.Fits) (userStack : Option ℕ) :
    (∃ child, parent.fromClone userStack flags tls newVm = some child) ↔
      0 < parent.fdManager.limit := by
  rw [← FdManager.exists_copyAll_iff hfits, fromClone, h]
  cases parent.fdManager.copyAll with
  | none => simp
  | some m => simp

/-- A new value of `tp` is the old one if and only if the register has it already. -/
theorem setTp_setA0_eq_iff {cx : TrapContext} {a0 : ℕ} :
    (cx.setA0 a0).setTp tls = cx.setA0 a0 ↔ tls = cx.x 4 := by
  have hx : (cx.setA0 a0).x 4 = cx.x 4 := by
    rw [TrapContext.setA0, TrapContext.setX_x, Function.update_of_ne (by decide)]
  rw [TrapContext.setTp, TrapContext.setX, ← hx]
  constructor
  · intro heq
    exact Function.update_eq_self_iff.mp (congrArg TrapContext.x heq)
  · intro heq
    rw [heq, Function.update_eq_self]

/-- The fields of a child with a memory and a descriptor table of its own. -/
theorem equalChild_iff (hfits : parent.fdManager.Fits) {m : FdManager Γ}
    (hcopy : parent.fdManager.copyAll = some m)
    (hvm : CloneFlags.contains flags .CLONE_VM = false)
    (hfiles : CloneFlags.contains flags .CLONE_FILES = false)
    (hclone : parent.fromClone none flags tls newVm = some child) :
    EqualChild parent child ↔ parent.signalReceivers.mask = 0 ∧
      parent.userHeapTop = USER_STACK_OFFSET ∧
      (CloneFlags.contains flags .CLONE_SETTLS = true → tls = parent.trapCx.x 4) := by
  rw [fromClone, hvm, hfiles, hcopy] at hclone
  obtain rfl := Option.some.inj hclone
  have hcopied := FdManager.copied_copyAll hfits hcopy
  constructor
  · intro h
    have htop := h.heapTop
    rw [heapTask_sysBrk_zero, heapTask_sysBrk_zero] at htop
    refine ⟨h.mask.symm, htop.symm, fun htls ↦ ?_⟩
    -- apart from the thread pointer the registers are those of the parent
    have hcx := h.registers
    rw [htls] at hcx
    exact setTp_setA0_eq_iff.mp hcx
  · rintro ⟨hmask, htop, htp⟩
    refine ⟨?_, rfl, FdManager.copyAll_slot hfits hcopy, hcopied.limit, hcopied.umask, rfl,
      hmask.symm, ?_⟩
    · dsimp only
      split_ifs with htls
      · exact setTp_setA0_eq_iff.mpr (htp htls)
      · rfl
    · rw [heapTask_sysBrk_zero, heapTask_sysBrk_zero]
      exact htop.symm

/-- A task that has just been started, and its table. -/
def started (m : FdManager ℕ) : ForkTask ℕ where
  trapCx := ⟨fun _ ↦ 0, 0, 0x1000, 0, fun _ ↦ 0⟩
  dir := "./".toList
  fdManager := m
  signalHandlers := .new
  signalReceivers := .new
  vm := 0
  userHeapTop := USER_STACK_OFFSET

/-- **A plain fork makes an equal child if and only if the parent blocks no signal, has no heap and
has a limit, and a new `tp` is the old one.** -/
theorem plain_fork_iff {flag : BitVec 64} {cloneFlags : Bitflags CloneFlags.all}
    {signal : SignalNo} (hreach : FdManager.Reach (fun _ _ ↦ True) parent.fdManager)
    (hflag : resolveCloneFlagsAndSignal flag = .ok (cloneFlags, signal))
    (hplain : ∀ f ∈ CloneFlags.sharing, CloneFlags.contains cloneFlags.bits f = false)
    (tls newVm : ℕ) :
    (∃ child, parent.sysClone flag 0 tls newVm = some (.ok child) ∧ EqualChild parent child) ↔
      Forkable parent cloneFlags.bits tls := by
  have hfits : parent.fdManager.Fits := hreach.fits
  have hvm := hplain .CLONE_VM (by simp [CloneFlags.sharing])
  have hfiles := hplain .CLONE_FILES (by simp [CloneFlags.sharing])
  have hcall : ∀ child, parent.sysClone flag 0 tls newVm = some (.ok child) ↔
      parent.fromClone none cloneFlags.bits tls newVm = some child := by
    intro child
    rw [sysClone, hflag]
    dsimp only
    rw [if_neg (lt_irrefl _), if_neg (lt_irrefl _)]
    simp
  constructor
  · rintro ⟨child, hclone, heq⟩
    rw [hcall] at hclone
    have hcopy := fromClone_of_not_files hfiles none hclone
    obtain ⟨hmask, htop, htp⟩ := (equalChild_iff hfits hcopy hvm hfiles hclone).mp heq
    exact ⟨hmask, htop, (FdManager.exists_copyAll_iff hfits).mp ⟨_, hcopy⟩, htp⟩
  · intro h
    obtain ⟨child, hclone⟩ := (exists_fromClone_iff hfiles hfits none).mpr h.limit
    refine ⟨child, (hcall child).mpr hclone, ?_⟩
    have hcopy := fromClone_of_not_files hfiles none hclone
    exact (equalChild_iff hfits hcopy hvm hfiles hclone).mpr ⟨h.mask, h.heapTop, h.tp⟩

/-- A task that has just been started is forked with `SIGCHLD`. -/
theorem plain_fork_started : ∃ m : FdManager ℕ, ∃ child,
    (started m).sysClone 17 0 0 1 = some (.ok child) ∧ EqualChild (started m) child := by
  obtain ⟨m, hm⟩ := Option.isSome_iff_exists.mp
    (show (FdManager.new 10 11 12 0).isSome = true by decide +kernel)
  have hlimit : (FdManager.new 10 11 12 0).map (·.limit) = some 256 := by decide +kernel
  rw [hm, Option.map_some, Option.some.injEq] at hlimit
  have hreach : FdManager.Reach (fun _ _ ↦ True) (started m).fdManager := .new hm
  have hpos : 0 < m.limit := by omega
  have hflag : resolveCloneFlagsAndSignal 17 = .ok (fromBitsTruncate CloneFlags.all 0, 17) := by
    decide +kernel
  have hplain : ∀ f ∈ CloneFlags.sharing,
      CloneFlags.contains (fromBitsTruncate CloneFlags.all 0).bits f = false := by
    have hall : CloneFlags.sharing.all
        (fun f ↦ CloneFlags.contains (fromBitsTruncate CloneFlags.all 0).bits f == false) =
          true := by
      decide +kernel
    exact fun f hf ↦ beq_iff_eq.mp (List.all_eq_true.mp hall f hf)
  have hforkable : Forkable (started m) (fromBitsTruncate CloneFlags.all 0).bits 0 :=
    ⟨rfl, rfl, hpos, fun _ ↦ rfl⟩
  exact ⟨m, (plain_fork_iff hreach hflag hplain 0 1).mpr hforkable⟩

/-- A task that blocks `SIGINT` and has a heap of a page gets a child without either. -/
theorem fork_loses_mask_and_heap : ∃ parent child : ForkTask ℕ,
    FdManager.Reach (fun _ _ ↦ True) parent.fdManager ∧ 0 < parent.fdManager.limit ∧
    parent.sysClone 17 0 0 1 = some (.ok child) ∧
    parent.signalReceivers.mask = 2 ∧ child.signalReceivers.mask = 0 ∧
    (parent.heapTask.sysBrk 0).1 = USER_STACK_OFFSET + 4096 ∧
    (child.heapTask.sysBrk 0).1 = USER_STACK_OFFSET ∧ ¬EqualChild parent child := by
  obtain ⟨m, hm⟩ := Option.isSome_iff_exists.mp
    (show (FdManager.new 10 11 12 0).isSome = true by decide +kernel)
  have hreach : FdManager.Reach (fun _ _ ↦ True) m := .new hm
  have hlimit : (FdManager.new 10 11 12 0).map (·.limit) = some 256 := by decide +kernel
  rw [hm, Option.map_some, Option.some.injEq] at hlimit
  have hpos : 0 < m.limit := by omega
  obtain ⟨m', hcopy⟩ := (FdManager.exists_copyAll_iff hreach.fits).mpr hpos
  have hflag : resolveCloneFlagsAndSignal 17 = .ok (fromBitsTruncate CloneFlags.all 0, 17) := by
    decide +kernel
  let parent : ForkTask ℕ := { started m with
    signalReceivers := ⟨2, 0⟩
    userHeapTop := USER_STACK_OFFSET + 4096 }
  let child : ForkTask ℕ := { started m' with vm := 1, trapCx := parent.trapCx.setA0 0 }
  have hclone : parent.fromClone none (fromBitsTruncate CloneFlags.all 0).bits 0 1 =
      some child :=
    fromClone_of_not_settls (by decide +kernel) (by decide +kernel) (by decide +kernel) hcopy
  have hmask : ¬child.signalReceivers.mask = parent.signalReceivers.mask := by
    change ¬(0 : BitVec 64) = 2
    decide
  refine ⟨parent, child, hreach, hpos, ?_, rfl, rfl, heapTask_sysBrk_zero parent,
    heapTask_sysBrk_zero child, fun heq ↦ hmask heq.mask⟩
  rw [sysClone, hflag]
  dsimp only
  rw [if_neg (lt_irrefl _), if_neg (lt_irrefl _), hclone]
  rfl

end ForkTask

end Maturin
