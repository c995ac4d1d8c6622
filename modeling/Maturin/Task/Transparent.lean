import Maturin.Task.Switch
import Maturin.Trap.KernelStack
import Mathlib.Logic.Relation

/-!
# What a task finds when it returns

Tasks that run on one processor. A task in user mode traps, and its kernel code goes on until
`trap_handler` returns; in between it may be suspended any number of times, and then the idle code
chooses a task to switch to. The kernel may use every register within the calling convention: a
call of a function, like that of `trap_handler`, returns with the stack pointer that it was made
with if all the calls that it makes do so too, `__switch` among them.

The frame brings back the general registers, the program counter, and of the floating-point
registers `fs0` and `fs1` alone. The others are what the kernel, or another task, has left in them.
-/

open Riscv Function

namespace Maturin

variable {ι : Type}

/-! ## The tasks -/

/-- The kernel stacks of the tasks, the places of their contexts and the place of the idle one. -/
structure TaskSet (ι : Type) where
  stack : ι → KernelStack
  cx : ι → ℕ
  idleCx : ℕ
  stack_stack : ∀ i j, i ≠ j →
    BlocksApart (stack i).frame.asPtr KERNEL_STACK_SIZE (stack j).frame.asPtr
      KERNEL_STACK_SIZE
  stack_cx : ∀ i j,
    BlocksApart (stack i).frame.asPtr KERNEL_STACK_SIZE (cx j) (8 * TaskContext.words)
  stack_idle : ∀ i,
    BlocksApart (stack i).frame.asPtr KERNEL_STACK_SIZE idleCx (8 * TaskContext.words)
  cx_cx : ∀ i j, i ≠ j → BlocksApart (cx i) (8 * TaskContext.words) (cx j) (8 * TaskContext.words)
  cx_idle : ∀ i, BlocksApart (cx i) (8 * TaskContext.words) idleCx (8 * TaskContext.words)
  cx_le : ∀ i, cx i + 8 * TaskContext.words ≤ 2 ^ 64
  idleCx_le : idleCx + 8 * TaskContext.words ≤ 2 ^ 64

namespace TaskSet

variable (T : TaskSet ι)

/-- Where the frame of a task is. -/
def frame (i : ι) : ℕ := (T.stack i).getFirstContext

/-- The frames and the contexts of all tasks are kept. -/
structure Keeps (m m' : Machine) : Prop where
  frame : ∀ i, ∀ k < 37, m'.load (T.frame i + 8 * k) = m.load (T.frame i + 8 * k)
  cx : ∀ i, TaskContext.ofMem (T.cx i) m' = TaskContext.ofMem (T.cx i) m

variable {T : TaskSet ι} {i j : ι} {m m' : Machine} {a n k : ℕ}

theorem frame_add (T : TaskSet ι) (i : ι) :
    T.frame i + 8 * 37 = (T.stack i).frame.asPtr + KERNEL_STACK_SIZE := by
  rw [← KernelStack.getSp_eq]
  exact KernelStack.getFirstContext_add

theorem frame_add_lt (T : TaskSet ι) (i : ι) : T.frame i + 8 * 37 < 2 ^ 64 := by
  have hadd := T.frame_add i
  have hlt := (T.stack i).getSp_lt
  rw [← KernelStack.getSp_eq] at hadd
  omega

theorem asPtr_le_frame (T : TaskSet ι) (i : ι) : (T.stack i).frame.asPtr ≤ T.frame i :=
  KernelStack.asPtr_le_getFirstContext

/-- What is apart from a kernel stack is apart from the frame in it. -/
theorem apart_frame (h : BlocksApart (T.stack i).frame.asPtr KERNEL_STACK_SIZE a n) :
    BlocksApart (T.frame i) (8 * 37) a n := by
  have hadd := T.frame_add i
  have hle := T.asPtr_le_frame i
  rw [BlocksApart] at *
  omega

theorem frame_frame (h : i ≠ j) : BlocksApart (T.frame i) (8 * 37) (T.frame j) (8 * 37) :=
  apart_frame (apart_frame (T.stack_stack i j h).symm).symm

/-- The slots of a frame outside the block that has changed. -/
theorem frame_of_within (h : Within a n m m') (hapart : BlocksApart (T.frame i) (8 * 37) a n)
    (hk : k < 37) : m'.load (T.frame i + 8 * k) = m.load (T.frame i + 8 * k) :=
  h.load (by rw [BlocksApart] at *; omega)

theorem cx_of_within (h : Within a n m m')
    (hapart : BlocksApart (T.cx i) (8 * TaskContext.words) a n) :
    TaskContext.ofMem (T.cx i) m' = TaskContext.ofMem (T.cx i) m := by
  have hload : ∀ k < 14, m'.load (T.cx i + 8 * k) = m.load (T.cx i + 8 * k) := by
    intro k hk
    refine h.load ?_
    simp only [BlocksApart, TaskContext.words] at *
    omega
  ext1
  · exact hload 0 (by norm_num)
  · exact hload 1 (by norm_num)
  · funext n
    exact hload (n + 2) (by omega)

end TaskSet

/-! ## The processor -/

/-- What the processor executes: idle code, `__restore` for a task, a task in user mode, the first
instructions of `trap_handler` for a task, or other kernel code for it. -/
inductive CpuMode (ι : Type)
  | idle
  | restoring (i : ι)
  | user (i : ι)
  | trapped (i : ι)
  | kernel (i : ι)

/-- The task that the processor works for. -/
def CpuMode.task : CpuMode ι → Option ι
  | idle => none
  | restoring i | user i | trapped i | kernel i => some i

/-- The registers of a task when it traps, and whether it does so for a system call. -/
structure UserState where
  x : Reg → Word
  f : Reg → Word
  pc : Word
  syscall : Bool

/-- The processor, with a record of what the tasks have done. -/
structure Cpu (ι : Type) where
  m : Machine
  mode : CpuMode ι
  /-- The registers at the last trap, unless the frame has been written anew since then -/
  trappedWith : ι → Option UserState
  /-- The stack pointer that `trap_handler` was called with -/
  calledWith : ι → Word
  /-- The registers that the last call of `__switch` was made with -/
  switchedWith : ι → TaskContext
  /-- The calls of `__switch` since the trap have returned with the registers that they were made
  with -/
  resumed : ι → Prop

/-- The steps, where `R` is the address of `__restore`, that `trap_handler` returns to. -/
inductive CpuStep [DecidableEq ι] (T : TaskSet ι) (R : Word) : Cpu ι → Cpu ι → Prop
  /-- Idle code -/
  | idle {s : Cpu ι} {m' : Machine} (hmode : s.mode = .idle) (hkeeps : T.Keeps s.m m') :
      CpuStep T R s { s with m := m' }
  /-- `run_tasks` switches to a task. -/
  | switchIn {s : Cpu ι} {i : ι} {log : Log SwitchLabel} {m' : Machine} (hmode : s.mode = .idle)
      (ha0 : (s.m.get a0).toNat = T.idleCx) (ha1 : (s.m.get a1).toNat = T.cx i)
      (h : switch s.m = some (log, .ret, m')) :
      CpuStep T R s { s with
        m := m'
        mode := if m'.get ra = R then .restoring i else .kernel i
        resumed := update s.resumed i
          (s.resumed i ∧ TaskContext.ofRegs m' = s.switchedWith i) }
  /-- `suspend_current_task` switches back. -/
  | switchOut {s : Cpu ι} {i : ι} {log : Log SwitchLabel} {m' : Machine}
      (hmode : s.mode = .kernel i) (hra : s.m.get ra ≠ R) (ha0 : (s.m.get a0).toNat = T.cx i)
      (ha1 : (s.m.get a1).toNat = T.idleCx) (h : switch s.m = some (log, .ret, m')) :
      CpuStep T R s { s with
        m := m'
        mode := .idle
        switchedWith := update s.switchedWith i (.ofRegs s.m) }
  /-- Kernel code for a task -/
  | kernel {s : Cpu ι} {i : ι} {m' : Machine} (hmode : s.mode = .kernel i)
      (hkeeps : T.Keeps s.m m') : CpuStep T R s { s with m := m' }
  /-- The result of a system call -/
  | result {s : Cpu ι} {i : ι} {u : UserState} (hmode : s.mode = .kernel i)
      (hu : s.trappedWith i = some u) (hsyscall : u.syscall = true) (v : Word) :
      CpuStep T R s { s with m := s.m.store (T.frame i + 8 * 10) v }
  /-- `exec`, `sigreturn` or the delivery of a signal -/
  | rewrite {s : Cpu ι} {i : ι} {m' : Machine} (hmode : s.mode = .kernel i)
      (hmem : ∀ a, a < T.frame i ∨ T.frame i + 8 * 37 ≤ a → m'.mem a = s.m.mem a)
      (hspp : m'.load (T.frame i + 8 * 32) &&& 0x100 = 0) :
      CpuStep T R s { s with m := m', trappedWith := update s.trappedWith i none }
  /-- `trap_handler` returns. -/
  | ret {s : Cpu ι} {i : ι} (hmode : s.mode = .kernel i)
      (hsp : s.resumed i → s.m.get sp = s.calledWith i) :
      CpuStep T R s { s with mode := .restoring i }
  /-- Back to user mode -/
  | restore {s : Cpu ι} {i : ι} {log : Log TrapLabel} {m' : Machine} (hmode : s.mode = .restoring i)
      (h : restore s.m = some (log, .sret, m')) :
      CpuStep T R s { s with m := m', mode := .user i }
  /-- The code of the user -/
  | user {s : Cpu ι} {i : ι} {m' : Machine} (hmode : s.mode = .user i)
      (hsscratch : m'.csr .sscratch = s.m.csr .sscratch) (hkeeps : T.Keeps s.m m') :
      CpuStep T R s { s with m := m' }
  /-- A trap of the user -/
  | trap {s : Cpu ι} {i : ι} {log : Log TrapLabel} {m' : Machine} (hmode : s.mode = .user i)
      (pc : Word) (syscall : Bool)
      (h : alltraps (takeTrap pc s.m) = some (log, .call .trapHandler, m')) :
      CpuStep T R s { s with
        m := m'
        mode := .trapped i
        trappedWith := update s.trappedWith i (some ⟨s.m.get, s.m.f, pc, syscall⟩)
        calledWith := update s.calledWith i (m'.get sp)
        resumed := update s.resumed i True }
  /-- `user_trap_handler` sets the program counter after a system call. -/
  | dispatch {s : Cpu ι} {i : ι} {u : UserState} (hmode : s.mode = .trapped i)
      (hu : s.trappedWith i = some u) :
      CpuStep T R s { s with
        m := if u.syscall then
            s.m.store (T.frame i + 8 * 33) (s.m.load (T.frame i + 8 * 33) + 4) else s.m
        mode := .kernel i }

/-- At first no task has been in user mode, and the idle code runs. -/
structure CpuStart (T : TaskSet ι) (R : Word) (s : Cpu ι) : Prop where
  mode : s.mode = .idle
  trappedWith : ∀ i, s.trappedWith i = none
  switchedWith : ∀ i, s.switchedWith i = .gotoRestore R (BitVec.ofNat 64 (T.frame i))
  cx : ∀ i, TaskContext.ofMem (T.cx i) s.m = s.switchedWith i
  spp : ∀ i, s.m.load (T.frame i + 8 * 32) &&& 0x100 = 0
  userSp : ∀ i, s.m.load (T.frame i + 8 * 2) ≠ 0

/-- What a step has to do for the registers to come back: a trap is taken with a positive stack
pointer, a frame is not written anew with a stack pointer of zero, and as long as a task waits in
the kernel nothing but `fs0` and `fs1` is changed of the floating-point registers. -/
structure CpuMeets (T : TaskSet ι) (s s' : Cpu ι) : Prop where
  trap : ∀ i, s.mode = .user i → s'.mode = .trapped i → 0 < (s.m.get sp).toInt
  userSp : ∀ i, s'.mode = .kernel i → s'.m.load (T.frame i + 8 * 2) ≠ 0
  f : ∀ i, s.mode ≠ .user i → (s.trappedWith i).isSome →
    ∀ r, r ≠ 8 → r ≠ 9 → s'.m.f r = s.m.f r

/-- The states of a run whose steps meet the condition. -/
inductive CpuReached [DecidableEq ι] (T : TaskSet ι) (R : Word) : Cpu ι → Prop
  | start {s : Cpu ι} (h : CpuStart T R s) : CpuReached T R s
  | step {s s' : Cpu ι} (h : CpuReached T R s) (hstep : CpuStep T R s s')
      (hmeets : CpuMeets T s s') : CpuReached T R s'

/-- The registers of a task are those of its trap, but for the result of a system call and the
program counter after it. -/
structure UserState.Back (u : UserState) (m : Machine) : Prop where
  x : ∀ r, r ≠ 0 → (u.syscall = true → r ≠ a0) → m.get r = u.x r
  f : ∀ r, m.f r = u.f r
  pc : m.csr .sepc = if u.syscall then u.pc + 4 else u.pc

/-! ## The invariant -/

/-- The program counter that a task goes on with. -/
def UserState.next (u : UserState) : Word := if u.syscall then u.pc + 4 else u.pc

/-- The frame at `base`, and the floating-point registers, hold what the task is to get back. -/
structure UserState.Held (u : UserState) (base : ℕ) (m : Machine) (pc : Word) : Prop where
  x : ∀ r : Reg, r ≠ 0 → (u.syscall = true → r ≠ a0) → m.load (base + 8 * r) = u.x r
  pc : m.load (base + 8 * 33) = pc
  fs0 : m.load (base + 8 * 35) = u.f 8
  fs1 : m.load (base + 8 * 36) = u.f 9
  f : ∀ r, r ≠ 8 → r ≠ 9 → m.f r = u.f r

/-- The frame of a task that is not in user mode. -/
structure FrameInv (base : ℕ) (m : Machine) (o : Option UserState) (trapped : Prop) : Prop where
  spp : m.load (base + 8 * 32) &&& 0x100 = 0
  userSp : m.load (base + 8 * 2) ≠ 0
  atTrap : ∀ u, o = some u → trapped → u.Held base m u.pc
  after : ∀ u, o = some u → ¬trapped → u.Held base m u.next

/-- The task has trapped, and `trap_handler` has not returned yet. -/
def Cpu.InHandler (R : Word) (s : Cpu ι) (i : ι) : Prop :=
  s.mode = .trapped i ∨ s.mode = .kernel i ∨ s.mode.task ≠ some i ∧ (s.switchedWith i).ra ≠ R

/-- What holds between the steps. -/
structure CpuInv (T : TaskSet ι) (R : Word) (s : Cpu ι) : Prop where
  frame : ∀ i, s.mode ≠ .user i →
    FrameInv (T.frame i) s.m (s.trappedWith i) (s.mode = .trapped i)
  sscratch : ∀ i, s.mode = .user i → (s.m.csr .sscratch).toNat = (T.stack i).getSp
  cx : ∀ i, s.mode.task ≠ some i → TaskContext.ofMem (T.cx i) s.m = s.switchedWith i
  fresh : ∀ i, s.mode.task ≠ some i → (s.switchedWith i).ra = R →
    (s.switchedWith i).sp.toNat = T.frame i
  restoring : ∀ i, s.mode = .restoring i → (s.m.get sp).toNat = T.frame i
  called : ∀ i, s.InHandler R i → s.resumed i ∧ (s.calledWith i).toNat = T.frame i
  trappedWith : ∀ i, s.mode = .trapped i → (s.trappedWith i).isSome

section

variable {T : TaskSet ι} {R : Word} {s s' : Cpu ι} {i : ι} {m m' : Machine} {base : ℕ}
variable {u : UserState} {o : Option UserState} {p q : Prop} {pc : Word}

theorem UserState.Held.congr (h : u.Held base m pc)
    (hload : ∀ k < 37, m'.load (base + 8 * k) = m.load (base + 8 * k))
    (hf : ∀ r, r ≠ 8 → r ≠ 9 → m'.f r = m.f r) : u.Held base m' pc where
  x r h0 hr := (hload r (by omega)).trans (h.x r h0 hr)
  pc := (hload 33 (by norm_num)).trans h.pc
  fs0 := (hload 35 (by norm_num)).trans h.fs0
  fs1 := (hload 36 (by norm_num)).trans h.fs1
  f r h8 h9 := (hf r h8 h9).trans (h.f r h8 h9)

/-- A frame that has not changed. -/
theorem FrameInv.congr (h : FrameInv base m o p)
    (hload : ∀ k < 37, m'.load (base + 8 * k) = m.load (base + 8 * k))
    (hf : o.isSome → ∀ r, r ≠ 8 → r ≠ 9 → m'.f r = m.f r) (hp : p ↔ q) :
    FrameInv base m' o q where
  spp := (hload 32 (by norm_num)).symm ▸ h.spp
  userSp := (hload 2 (by norm_num)).symm ▸ h.userSp
  atTrap u hu hq := (h.atTrap u hu (hp.mpr hq)).congr hload (hf (Option.isSome_of_eq_some hu))
  after u hu hq := (h.after u hu fun hp' ↦ hq (hp.mp hp')).congr hload
    (hf (Option.isSome_of_eq_some hu))

theorem CpuStart.inv (h : CpuStart T R s) : CpuInv T R s := by
  have hmode := h.mode
  refine ⟨fun i _ ↦ ⟨h.spp i, h.userSp i, ?_, ?_⟩, ?_, fun i _ ↦ h.cx i, ?_, ?_, ?_, ?_⟩
  · intro u hu
    rw [h.trappedWith] at hu
    cases hu
  · intro u hu
    rw [h.trappedWith] at hu
    cases hu
  · intro i hi
    rw [hmode] at hi
    cases hi
  · intro i _ _
    rw [h.switchedWith, TaskContext.gotoRestore, BitVec.toNat_ofNat, Nat.mod_eq_of_lt]
    have hlt := T.frame_add_lt i
    omega
  · intro i hi
    rw [hmode] at hi
    cases hi
  · intro i hi
    rw [Cpu.InHandler, hmode, h.switchedWith] at hi
    obtain hi | hi | ⟨-, hi⟩ := hi
    · cases hi
    · cases hi
    · exact absurd rfl hi
  · intro i hi
    rw [hmode] at hi
    cases hi

/-- A step that keeps the frames and the contexts, and the mode. -/
theorem CpuInv.keeps (h : CpuInv T R s) (hkeeps : T.Keeps s.m m')
    (hf : ∀ i, s.mode ≠ .user i → (s.trappedWith i).isSome → ∀ r, r ≠ 8 → r ≠ 9 → m'.f r = s.m.f r)
    (hsscratch : ∀ i, s.mode = .user i → m'.csr .sscratch = s.m.csr .sscratch)
    (hrestoring : ∀ i, s.mode ≠ .restoring i) : CpuInv T R { s with m := m' } where
  frame i hi := (h.frame i hi).congr (hkeeps.frame i) (hf i hi) Iff.rfl
  sscratch i hi := (congrArg BitVec.toNat (hsscratch i hi)).trans (h.sscratch i hi)
  cx i hi := (hkeeps.cx i).trans (h.cx i hi)
  fresh := h.fresh
  restoring i hi := absurd hi (hrestoring i)
  called := h.called
  trappedWith := h.trappedWith

theorem task_of_mode {i j : ι} {mode : CpuMode ι} (h : mode.task = some i) (hne : j ≠ i) :
    mode.task ≠ some j := by
  rw [h]
  exact fun heq ↦ hne (Option.some.inj heq).symm

/-- The frames of the other tasks. -/
theorem CpuInv.frame_of_within {j : ι} (h : CpuInv T R s)
    (hwithin : Within (T.frame i) (8 * 37) s.m m') (hf : m'.f = s.m.f) (hji : j ≠ i)
    (hj : s.mode ≠ .user j) :
    FrameInv (T.frame j) m' (s.trappedWith j) (s.mode = .trapped j) :=
  (h.frame j hj).congr (fun _ hk ↦ TaskSet.frame_of_within hwithin (TaskSet.frame_frame hji) hk)
    (fun _ _ _ _ ↦ by rw [hf]) Iff.rfl

/-- The contexts, when a frame changes. -/
theorem CpuInv.cx_of_within {j : ι} (h : CpuInv T R s)
    (hwithin : Within (T.frame i) (8 * 37) s.m m') (hj : s.mode.task ≠ some j) :
    TaskContext.ofMem (T.cx j) m' = s.switchedWith j :=
  (TaskSet.cx_of_within hwithin (TaskSet.apart_frame (T.stack_cx i j)).symm).trans (h.cx j hj)

theorem within_store {k : ℕ} (hk : k < 37) (v : Word) :
    Within base (8 * 37) m (m.store (base + 8 * k) v) :=
  fun _ hx ↦ Machine.store_mem_of_notMem (by omega)

theorem load_store_slot {k l : ℕ} (hne : k ≠ l) (v : Word) :
    (m.store (base + 8 * l) v).load (base + 8 * k) = m.load (base + 8 * k) :=
  Machine.load_store_of_disjoint (by omega)

theorem CpuInv.result (h : CpuInv T R s) (hmode : s.mode = .kernel i)
    (hu : s.trappedWith i = some u) (hsyscall : u.syscall = true) (v : Word) :
    CpuInv T R { s with m := s.m.store (T.frame i + 8 * 10) v } := by
  have hwithin : Within (T.frame i) (8 * 37) s.m (s.m.store (T.frame i + 8 * 10) v) :=
    within_store (by norm_num) v
  refine ⟨fun j hj ↦ ?_, fun j hj ↦ ?_, fun j hj ↦ h.cx_of_within hwithin hj, h.fresh,
    fun j hj ↦ ?_, h.called, h.trappedWith⟩
  · by_cases hji : j = i
    · subst hji
      have hframe := h.frame j hj
      have hnot : s.mode ≠ .trapped j := by rw [hmode]; nofun
      have hslot : ∀ k, k ≠ 10 → (s.m.store (T.frame j + 8 * 10) v).load (T.frame j + 8 * k) =
          s.m.load (T.frame j + 8 * k) := fun k hk ↦ load_store_slot hk v
      refine ⟨?_, ?_, fun _ _ hp ↦ absurd hp hnot, fun w hw _ ↦ ?_⟩
      · exact (congrArg (· &&& 0x100) (hslot 32 (by norm_num))).trans hframe.spp
      · exact fun hzero ↦ hframe.userSp ((hslot 2 (by norm_num)).symm.trans hzero)
      · obtain rfl := Option.some.inj (hu.symm.trans hw)
        have hheld := hframe.after u hu hnot
        refine ⟨fun r h0 hr ↦ ?_, ?_, ?_, ?_, hheld.f⟩
        · have hne : r.val ≠ 10 := fun heq ↦ hr hsyscall (Fin.ext heq)
          exact (hslot r hne).trans (hheld.x r h0 hr)
        · exact (hslot 33 (by norm_num)).trans hheld.pc
        · exact (hslot 35 (by norm_num)).trans hheld.fs0
        · exact (hslot 36 (by norm_num)).trans hheld.fs1
    · exact h.frame_of_within hwithin rfl hji hj
  · rw [hmode] at hj
    cases hj
  · rw [hmode] at hj
    cases hj

theorem CpuInv.ret (h : CpuInv T R s) (hmode : s.mode = .kernel i)
    (hsp : s.resumed i → s.m.get sp = s.calledWith i) :
    CpuInv T R { s with mode := .restoring i } := by
  have htask : s.mode.task = some i := by rw [hmode, CpuMode.task]
  have hframe : ∀ j,
      FrameInv (T.frame j) s.m (s.trappedWith j) (CpuMode.restoring i = .trapped j) :=
    fun j ↦ (h.frame j (by rw [hmode]; nofun)).congr (fun _ _ ↦ rfl) (fun _ _ _ _ ↦ rfl)
      (iff_of_false (by rw [hmode]; nofun) nofun)
  have hother : ∀ j, (CpuMode.restoring i).task ≠ some j → s.mode.task ≠ some j := fun j hj ↦ by
    rwa [htask]
  refine ⟨fun j _ ↦ hframe j, nofun, fun j hj ↦ h.cx j (hother j hj),
    fun j hj ↦ h.fresh j (hother j hj), ?_, ?_, nofun⟩
  · rintro j ⟨⟩
    obtain ⟨hresumed, hcalled⟩ := h.called i (Or.inr (Or.inl hmode))
    exact (congrArg BitVec.toNat (hsp hresumed)).trans hcalled
  · rintro j (hj | hj | ⟨hj, hne⟩)
    · cases hj
    · cases hj
    · exact h.called j (Or.inr (Or.inr ⟨hother j hj, hne⟩))

/-- What `__restore` does to the machine. -/
theorem CpuInv.left_of_restore {log : Log TrapLabel} (h : CpuInv T R s)
    (hmode : s.mode = .restoring i) (hrun : Maturin.restore s.m = some (log, .sret, m')) :
    Left (T.frame i) s.m m' := by
  have hframe := h.frame i (by rw [hmode]; nofun)
  have hm : s.m.HasFrame sp (T.frame i) 37 := KernelStack.hasFrame (h.restoring i hmode)
  have hlt := T.frame_add_lt i
  rw [restore_of_ne_zero hm hlt hframe.spp hframe.userSp, Option.some.injEq, Prod.mk.injEq,
    Prod.mk.injEq] at hrun
  rw [← hrun.2.2]
  exact left_leave hm hlt

theorem CpuInv.restore {log : Log TrapLabel} (h : CpuInv T R s) (hmode : s.mode = .restoring i)
    (hrun : Maturin.restore s.m = some (log, .sret, m')) :
    CpuInv T R { s with m := m', mode := .user i } := by
  have hleft := h.left_of_restore hmode hrun
  have hwithin : Within (T.frame i) (8 * 37) s.m m' := fun x hx ↦ hleft.mem x (by omega)
  have htask : s.mode.task = some i := by rw [hmode, CpuMode.task]
  have hother : ∀ j, (CpuMode.user i).task ≠ some j → s.mode.task ≠ some j := fun j hj ↦ by
    rwa [htask]
  refine ⟨fun j hj ↦ ?_, ?_, fun j hj ↦ h.cx_of_within hwithin (hother j hj),
    fun j hj ↦ h.fresh j (hother j hj), nofun, ?_, nofun⟩
  · have hji : j ≠ i := fun heq ↦ hj (congrArg CpuMode.user heq.symm)
    refine (h.frame j (by rw [hmode]; nofun)).congr
      (fun k hk ↦ TaskSet.frame_of_within hwithin (TaskSet.frame_frame hji) hk)
      (fun _ ↦ hleft.f) (iff_of_false (by rw [hmode]; nofun) nofun)
  · rintro j ⟨⟩
    exact hleft.sscratch.trans KernelStack.getFirstContext_add
  · rintro j (hj | hj | ⟨hj, hne⟩)
    · cases hj
    · cases hj
    · exact h.called j (Or.inr (Or.inr ⟨hother j hj, hne⟩))

/-- The frame of a trap. -/
theorem CpuInv.entered_of_trap {log : Log TrapLabel} (h : CpuInv T R s) (hmode : s.mode = .user i)
    (hpos : 0 < (s.m.get sp).toInt)
    (hrun : alltraps (takeTrap pc s.m) = some (log, .call .trapHandler, m')) :
    Entered (T.frame i) (swapSp (takeTrap pc s.m)) m' := by
  have hsp : ((swapSp (takeTrap pc s.m)).get sp).toNat = T.frame i + 8 * 37 := by
    rw [swapSp_sp, KernelStack.takeTrap_sscratch, h.sscratch i hmode]
    exact KernelStack.getFirstContext_add.symm
  rw [alltraps_of_pos (KernelStack.takeTrap_get (u := s.m) pc sp ▸ hpos), Option.some.injEq,
    Prod.mk.injEq, Prod.mk.injEq] at hrun
  rw [← hrun.2.2]
  exact entered_enter hsp

theorem takeTrap_spp (pc : Word) (m : Machine) :
    (takeTrap pc m).csr .sstatus &&& 0x100 = 0 := by
  have hclear : (m.csr .sstatus &&& ~~~(0x122 : Word)) &&& 0x100 = 0 := by
    rw [BitVec.and_assoc, show ~~~(0x122 : Word) &&& 0x100 = 0 by decide]
    exact BitVec.and_zero
  have hshift : ((m.csr .sstatus &&& 2) <<< 4) &&& 0x100 = 0 := by
    rw [BitVec.shiftLeft_and_distrib, BitVec.and_assoc,
      show (2 : Word) <<< 4 &&& 0x100 = 0 by decide]
    exact BitVec.and_zero
  have hsstatus : (takeTrap pc m).csr .sstatus =
      (m.csr .sstatus &&& ~~~(0x122 : Word)) ||| ((m.csr .sstatus &&& 2) <<< 4) := by
    rw [takeTrap, Machine.setCsr_csr, update_self]
  rw [hsstatus, BitVec.and_or_distrib_right, hclear, hshift]
  rfl

variable [DecidableEq ι]

theorem CpuInv.switchIn {log : Log SwitchLabel} (h : CpuInv T R s) (hmode : s.mode = .idle)
    (ha0 : (s.m.get a0).toNat = T.idleCx) (ha1 : (s.m.get a1).toNat = T.cx i)
    (hrun : switch s.m = some (log, .ret, m')) :
    CpuInv T R { s with
      m := m'
      mode := if m'.get ra = R then .restoring i else .kernel i
      resumed := update s.resumed i
        (s.resumed i ∧ TaskContext.ofRegs m' = s.switchedWith i) } := by
  have hswitched := switched_of_switch ⟨ha0, T.idleCx_le⟩ ⟨ha1, T.cx_le i⟩
    (T.cx_idle i).symm hrun
  have hwithin : Within T.idleCx (8 * TaskContext.words) s.m m' := hswitched.mem
  have hidle : ∀ j, s.mode.task ≠ some j := fun j ↦ by
    rw [hmode]
    exact Option.some_ne_none j |>.symm
  have hregs : TaskContext.ofRegs m' = s.switchedWith i := hswitched.loaded.trans (h.cx i (hidle i))
  have hra : m'.get ra = (s.switchedWith i).ra := congrArg TaskContext.ra hregs
  have hsp : m'.get sp = (s.switchedWith i).sp := congrArg TaskContext.sp hregs
  have hframe : ∀ j, FrameInv (T.frame j) m' (s.trappedWith j) False := by
    intro j
    refine (h.frame j (by rw [hmode]; nofun)).congr
      (fun k hk ↦ TaskSet.frame_of_within hwithin (TaskSet.apart_frame (T.stack_idle j)) hk)
      (fun _ _ _ _ ↦ by rw [hswitched.f]) ?_
    rw [hmode]
    exact iff_of_false nofun id
  have hcx : ∀ j, TaskContext.ofMem (T.cx j) m' = s.switchedWith j := fun j ↦
    (TaskSet.cx_of_within hwithin (T.cx_idle j)).trans (h.cx j (hidle j))
  by_cases hR : m'.get ra = R
  · rw [if_pos hR]
    refine ⟨fun j _ ↦ (hframe j).congr (fun _ _ ↦ rfl) (fun _ _ _ _ ↦ rfl) ?_, nofun,
      fun j _ ↦ hcx j, fun j _ ↦ h.fresh j (hidle j), ?_, ?_, nofun⟩
    · exact iff_of_false id nofun
    · rintro j ⟨⟩
      exact (congrArg BitVec.toNat hsp).trans (h.fresh i (hidle i) (hra ▸ hR))
    · rintro j (hj | hj | ⟨hj, hne⟩)
      · cases hj
      · cases hj
      · have hji : j ≠ i := fun heq ↦ hj (congrArg some heq.symm)
        dsimp only
        rw [update_of_ne hji]
        exact h.called j (Or.inr (Or.inr ⟨hidle j, hne⟩))
  · rw [if_neg hR]
    refine ⟨fun j _ ↦ (hframe j).congr (fun _ _ ↦ rfl) (fun _ _ _ _ ↦ rfl) ?_, nofun,
      fun j _ ↦ hcx j, fun j _ ↦ h.fresh j (hidle j), nofun, ?_, nofun⟩
    · exact iff_of_false id nofun
    · intro j hj
      by_cases hji : j = i
      · subst hji
        obtain ⟨hresumed, hcalled⟩ := h.called j (Or.inr (Or.inr ⟨hidle j, hra ▸ hR⟩))
        dsimp only
        rw [update_self]
        exact ⟨⟨hresumed, hregs⟩, hcalled⟩
      · dsimp only
        rw [update_of_ne hji]
        obtain hj | hj | ⟨-, hne⟩ := hj
        · cases hj
        · cases hj
          exact absurd rfl hji
        · exact h.called j (Or.inr (Or.inr ⟨hidle j, hne⟩))

theorem CpuInv.switchOut {log : Log SwitchLabel} (h : CpuInv T R s) (hmode : s.mode = .kernel i)
    (hra : s.m.get ra ≠ R) (ha0 : (s.m.get a0).toNat = T.cx i)
    (ha1 : (s.m.get a1).toNat = T.idleCx) (hrun : switch s.m = some (log, .ret, m')) :
    CpuInv T R { s with
      m := m'
      mode := .idle
      switchedWith := update s.switchedWith i (.ofRegs s.m) } := by
  have hswitched := switched_of_switch ⟨ha0, T.cx_le i⟩ ⟨ha1, T.idleCx_le⟩ (T.cx_idle i) hrun
  have hwithin : Within (T.cx i) (8 * TaskContext.words) s.m m' := hswitched.mem
  have htask : s.mode.task = some i := by rw [hmode, CpuMode.task]
  refine ⟨fun j _ ↦ ?_, nofun, fun j _ ↦ ?_, fun j _ hj ↦ ?_, nofun, fun j hj ↦ ?_, nofun⟩
  · refine (h.frame j (by rw [hmode]; nofun)).congr
      (fun k hk ↦ TaskSet.frame_of_within hwithin (TaskSet.apart_frame (T.stack_cx j i)) hk)
      (fun _ _ _ _ ↦ by rw [hswitched.f]) ?_
    rw [hmode]
    exact iff_of_false nofun nofun
  · by_cases hji : j = i
    · subst hji
      dsimp only
      rw [update_self]
      exact hswitched.saved
    · dsimp only
      rw [update_of_ne hji]
      exact (TaskSet.cx_of_within hwithin (T.cx_cx j i hji)).trans
        (h.cx j (task_of_mode htask hji))
  · by_cases hji : j = i
    · subst hji
      dsimp only at hj
      rw [update_self] at hj
      exact absurd hj hra
    · dsimp only at hj ⊢
      rw [update_of_ne hji] at hj ⊢
      exact h.fresh j (task_of_mode htask hji) hj
  · by_cases hji : j = i
    · subst hji
      exact h.called j (Or.inr (Or.inl hmode))
    · obtain hj | hj | ⟨-, hj⟩ := hj
      · cases hj
      · cases hj
      · dsimp only at hj
        rw [update_of_ne hji] at hj
        exact h.called j (Or.inr (Or.inr ⟨task_of_mode htask hji, hj⟩))

theorem CpuInv.rewrite (h : CpuInv T R s) (hmode : s.mode = .kernel i)
    (hmem : ∀ a, a < T.frame i ∨ T.frame i + 8 * 37 ≤ a → m'.mem a = s.m.mem a)
    (hf : ∀ j, s.mode ≠ .user j → (s.trappedWith j).isSome →
      ∀ r, r ≠ 8 → r ≠ 9 → m'.f r = s.m.f r)
    (hspp : m'.load (T.frame i + 8 * 32) &&& 0x100 = 0)
    (huserSp : m'.load (T.frame i + 8 * 2) ≠ 0) :
    CpuInv T R { s with m := m', trappedWith := update s.trappedWith i none } := by
  have hwithin : Within (T.frame i) (8 * 37) s.m m' := hmem
  refine ⟨fun j hj ↦ ?_, fun j hj ↦ ?_, fun j hj ↦ h.cx_of_within hwithin hj, h.fresh,
    fun j hj ↦ ?_, h.called, fun j hj ↦ ?_⟩
  · by_cases hji : j = i
    · subst hji
      dsimp only
      rw [update_self]
      exact ⟨hspp, huserSp, nofun, nofun⟩
    · dsimp only
      rw [update_of_ne hji]
      exact (h.frame j hj).congr
        (fun _ hk ↦ TaskSet.frame_of_within hwithin (TaskSet.frame_frame hji) hk) (hf j hj) Iff.rfl
  all_goals
    rw [hmode] at hj
    cases hj

theorem CpuInv.trap {log : Log TrapLabel} (h : CpuInv T R s) (hmode : s.mode = .user i)
    (hpos : 0 < (s.m.get sp).toInt) (pc : Word) (syscall : Bool)
    (hrun : alltraps (takeTrap pc s.m) = some (log, .call .trapHandler, m')) :
    CpuInv T R { s with
      m := m'
      mode := .trapped i
      trappedWith := update s.trappedWith i (some ⟨s.m.get, s.m.f, pc, syscall⟩)
      calledWith := update s.calledWith i (m'.get sp)
      resumed := update s.resumed i True } := by
  have hentered := h.entered_of_trap hmode hpos hrun
  have hwithin : Within (T.frame i) (8 * 37) s.m m' := hentered.mem
  have htask : s.mode.task = some i := by rw [hmode, CpuMode.task]
  have hother : ∀ j, (CpuMode.trapped i).task ≠ some j → s.mode.task ≠ some j := fun j hj ↦ by
    rwa [htask]
  have hf : m'.f = s.m.f := hentered.f
  refine ⟨fun j hj ↦ ?_, nofun, fun j hj ↦ h.cx_of_within hwithin (hother j hj),
    fun j hj ↦ h.fresh j (hother j hj), nofun, fun j hj ↦ ?_, ?_⟩
  · by_cases hji : j = i
    · subst hji
      dsimp only
      rw [update_self]
      refine ⟨?_, ?_, fun u hu _ ↦ ?_, fun _ _ hp ↦ absurd rfl hp⟩
      · rw [hentered.sstatus, swapSp_csr, update_of_ne (by decide), takeTrap_spp]
      · rw [hentered.sscratch, swapSp_csr, update_self, KernelStack.takeTrap_get]
        intro hzero
        rw [hzero] at hpos
        exact absurd hpos (by decide)
      · cases hu
        refine ⟨fun r h0 _ ↦ ?_, ?_, ?_, ?_, fun r _ _ ↦ by rw [hf]⟩
        · by_cases hr : r = sp
          · subst hr
            refine hentered.sscratch.trans ?_
            rw [swapSp_csr, update_self, KernelStack.takeTrap_get]
          · rw [hentered.regs r h0 hr, swapSp_get hr, KernelStack.takeTrap_get]
        · rw [hentered.sepc, swapSp_csr, update_of_ne (by decide), KernelStack.takeTrap_sepc]
        · rw [hentered.fs0, swapSp_f, KernelStack.takeTrap_f]
        · rw [hentered.fs1, swapSp_f, KernelStack.takeTrap_f]
    · have hnot : s.mode ≠ .user j := by
        rw [hmode]
        exact fun heq ↦ hji (CpuMode.user.inj heq).symm
      dsimp only
      rw [update_of_ne hji]
      refine (h.frame_of_within hwithin hf hji hnot).congr (fun _ _ ↦ rfl) (fun _ _ _ _ ↦ rfl) ?_
      rw [hmode]
      exact iff_of_false nofun fun heq ↦ hji (CpuMode.trapped.inj heq).symm
  · by_cases hji : j = i
    · subst hji
      dsimp only
      rw [update_self, update_self]
      exact ⟨trivial, hentered.frame.toNat_get⟩
    · dsimp only
      rw [update_of_ne hji, update_of_ne hji]
      obtain hj | hj | ⟨hj, hne⟩ := hj
      · exact absurd (CpuMode.trapped.inj hj).symm hji
      · cases hj
      · exact h.called j (Or.inr (Or.inr ⟨hother j hj, hne⟩))
  · rintro j ⟨⟩
    dsimp only
    rw [update_self]
    rfl

theorem CpuInv.dispatch (h : CpuInv T R s) (hmode : s.mode = .trapped i)
    (hu : s.trappedWith i = some u) :
    CpuInv T R { s with
      m := if u.syscall then
          s.m.store (T.frame i + 8 * 33) (s.m.load (T.frame i + 8 * 33) + 4) else s.m
      mode := .kernel i } := by
  have htask : s.mode.task = some i := by rw [hmode, CpuMode.task]
  have hother : ∀ j, (CpuMode.kernel i).task ≠ some j → s.mode.task ≠ some j := fun j hj ↦ by
    rwa [htask]
  have hheld := (h.frame i (by rw [hmode]; nofun)).atTrap u hu hmode
  obtain ⟨m₁, hm₁⟩ : ∃ m₁, (if u.syscall then
      s.m.store (T.frame i + 8 * 33) (s.m.load (T.frame i + 8 * 33) + 4) else s.m) = m₁ := ⟨_, rfl⟩
  have hwithin : Within (T.frame i) (8 * 37) s.m m₁ := by
    rw [← hm₁]
    split_ifs
    · exact within_store (by norm_num) _
    · exact fun _ _ ↦ rfl
  have hf : m₁.f = s.m.f := by
    rw [← hm₁]
    split_ifs <;> rfl
  have hslot : ∀ k, k ≠ 33 → m₁.load (T.frame i + 8 * k) = s.m.load (T.frame i + 8 * k) := by
    intro k hk
    rw [← hm₁]
    split_ifs
    · exact load_store_slot hk _
    · rfl
  have hpc : m₁.load (T.frame i + 8 * 33) = u.next := by
    rw [← hm₁, UserState.next]
    split_ifs
    · rw [Machine.load_store_self, hheld.pc]
    · exact hheld.pc
  rw [hm₁]
  refine ⟨fun j _ ↦ ?_, nofun, fun j hj ↦ h.cx_of_within hwithin (hother j hj),
    fun j hj ↦ h.fresh j (hother j hj), nofun, fun j hj ↦ ?_, nofun⟩
  · by_cases hji : j = i
    · subst hji
      have hframe := h.frame j (by rw [hmode]; nofun)
      refine ⟨?_, ?_, nofun, fun w hw _ ↦ ?_⟩
      · exact (congrArg (· &&& 0x100) (hslot 32 (by norm_num))).trans hframe.spp
      · exact fun hzero ↦ hframe.userSp ((hslot 2 (by norm_num)).symm.trans hzero)
      · obtain rfl := Option.some.inj (hu.symm.trans hw)
        refine ⟨fun r h0 hr ↦ ?_, hpc, ?_, ?_, fun r h8 h9 ↦ ?_⟩
        · exact (hslot r (by omega)).trans (hheld.x r h0 hr)
        · exact (hslot 35 (by norm_num)).trans hheld.fs0
        · exact (hslot 36 (by norm_num)).trans hheld.fs1
        · rw [hf]
          exact hheld.f r h8 h9
    · refine (h.frame_of_within hwithin hf hji (by rw [hmode]; nofun)).congr (fun _ _ ↦ rfl)
        (fun _ _ _ _ ↦ rfl) (iff_of_false ?_ nofun)
      rw [hmode]
      exact fun heq ↦ hji (CpuMode.trapped.inj heq).symm
  · obtain hj | hj | ⟨hj, hne⟩ := hj
    · cases hj
    · cases hj
      exact h.called i (Or.inl hmode)
    · exact h.called j (Or.inr (Or.inr ⟨hother j hj, hne⟩))

/-- **A step that meets the condition keeps the invariant.** -/
theorem CpuInv.step (h : CpuInv T R s) (hstep : CpuStep T R s s') (hmeets : CpuMeets T s s') :
    CpuInv T R s' := by
  have hf := hmeets.f
  cases hstep with
  | idle hmode hkeeps =>
    refine h.keeps hkeeps hf ?_ ?_ <;> rw [hmode] <;> nofun
  | switchIn hmode ha0 ha1 hrun => exact h.switchIn hmode ha0 ha1 hrun
  | switchOut hmode hra ha0 ha1 hrun => exact h.switchOut hmode hra ha0 ha1 hrun
  | kernel hmode hkeeps =>
    refine h.keeps hkeeps hf ?_ ?_ <;> rw [hmode] <;> nofun
  | result hmode hu hsyscall v => exact h.result hmode hu hsyscall v
  | rewrite hmode hmem hspp =>
    exact h.rewrite hmode hmem hf hspp (hmeets.userSp _ hmode)
  | ret hmode hsp => exact h.ret hmode hsp
  | restore hmode hrun => exact h.restore hmode hrun
  | user hmode hsscratch hkeeps =>
    exact h.keeps hkeeps hf (fun _ _ ↦ hsscratch) (by rw [hmode]; nofun)
  | trap hmode pc syscall hrun =>
    exact h.trap hmode (hmeets.trap _ hmode rfl) pc syscall hrun
  | dispatch hmode hu => exact h.dispatch hmode hu

/-- **Every run.** -/
theorem CpuReached.inv (h : CpuReached T R s) : CpuInv T R s := by
  induction h with
  | start h => exact h.inv
  | step _ hstep hmeets ih => exact ih.step hstep hmeets

/-- From `__restore` there is one way on. -/
theorem CpuStep.of_restoring (hmode : s.mode = .restoring i) (hstep : CpuStep T R s s') :
    ∃ log m', Maturin.restore s.m = some (log, .sret, m') ∧
      s' = { s with m := m', mode := .user i } := by
  cases hstep with
  | restore hj hrun =>
    obtain rfl := CpuMode.restoring.inj (hmode.symm.trans hj)
    exact ⟨_, _, hrun, rfl⟩
  | idle hj | switchIn hj | switchOut hj | kernel hj | result hj | rewrite hj | ret hj | user hj
  | trap hj | dispatch hj =>
    rw [hmode] at hj
    cases hj

theorem CpuReached.exists_start (h : CpuReached T R s) :
    ∃ s₀, CpuStart T R s₀ ∧ Relation.ReflTransGen (CpuStep T R) s₀ s := by
  induction h with
  | start h => exact ⟨_, h, .refl⟩
  | step _ hstep _ ih =>
    obtain ⟨s₀, hstart, hrun⟩ := ih
    exact ⟨s₀, hstart, hrun.tail hstep⟩

end

/-! ## A task alone -/

/-- A processor that is about to switch to its only task, which starts with the stack pointer
`v`. -/
def aboutToStart (T : TaskSet Unit) (R v : Word) : Cpu Unit where
  m :=
    { x := fun r ↦ if r = a0 then BitVec.ofNat 64 T.idleCx else BitVec.ofNat 64 (T.cx ())
      f := fun _ ↦ 0
      csr := fun _ ↦ 0
      mem := ByteMem.store 8 (T.cx ()) R.toNat (ByteMem.store 8 (T.cx () + 8) (T.frame ())
        (ByteMem.store 8 (T.frame () + 8 * 2) v.toNat fun _ ↦ 0)) }
  mode := .idle
  trappedWith _ := none
  calledWith _ := 0
  switchedWith _ := .gotoRestore R (BitVec.ofNat 64 (T.frame ()))
  resumed _ := True

section

variable {T : TaskSet Unit} {R v : Word}

theorem cpuStart_aboutToStart (hv : v ≠ 0) : CpuStart T R (aboutToStart T R v) := by
  have hapart := TaskSet.apart_frame (T.stack_cx () ())
  have hlt := T.frame_add_lt ()
  simp only [BlocksApart, TaskContext.words] at hapart
  have hR : R.toNat < 256 ^ 8 := R.isLt
  have hv' : v.toNat < 256 ^ 8 := v.isLt
  have hframe : T.frame () < 256 ^ 8 := by
    norm_num
    omega
  have hzero : ∀ a, ByteMem.load 8 (fun _ ↦ 0) a = 0 := fun a ↦
    ByteMem.load_eq_zero fun _ _ _ ↦ rfl
  refine ⟨rfl, fun _ ↦ rfl, fun _ ↦ rfl, ?_, ?_, ?_⟩
  · intro i
    obtain rfl : i = () := rfl
    ext1
    · simp only [TaskContext.ofMem, aboutToStart, Machine.load, TaskContext.gotoRestore,
        Nat.mul_zero, Nat.add_zero]
      rw [ByteMem.load_store hR, BitVec.ofNat_toNat, BitVec.setWidth_eq]
    · simp only [TaskContext.ofMem, aboutToStart, Machine.load, TaskContext.gotoRestore,
        Nat.mul_one]
      rw [ByteMem.load_store_of_disjoint (by omega), ByteMem.load_store hframe]
    · funext n
      simp only [TaskContext.ofMem, aboutToStart, Machine.load, TaskContext.gotoRestore]
      rw [ByteMem.load_store_of_disjoint (by omega), ByteMem.load_store_of_disjoint (by omega),
        ByteMem.load_store_of_disjoint (by omega), hzero]
      rfl
  · intro i
    obtain rfl : i = () := rfl
    simp only [aboutToStart, Machine.load]
    rw [ByteMem.load_store_of_disjoint (by omega), ByteMem.load_store_of_disjoint (by omega),
      ByteMem.load_store_of_disjoint (by omega), hzero]
    rfl
  · intro i
    obtain rfl : i = () := rfl
    simp only [aboutToStart, Machine.load]
    rw [ByteMem.load_store_of_disjoint (by omega), ByteMem.load_store_of_disjoint (by omega),
      ByteMem.load_store hv', BitVec.ofNat_toNat, BitVec.setWidth_eq]
    exact hv

/-- The slot with the stack pointer of the task. -/
theorem load_aboutToStart : (aboutToStart T R v).m.load (T.frame () + 8 * 2) = v := by
  have hapart := TaskSet.apart_frame (T.stack_cx () ())
  simp only [BlocksApart, TaskContext.words] at hapart
  have hv' : v.toNat < 256 ^ 8 := v.isLt
  simp only [aboutToStart, Machine.load]
  rw [ByteMem.load_store_of_disjoint (by omega), ByteMem.load_store_of_disjoint (by omega),
    ByteMem.load_store hv', BitVec.ofNat_toNat, BitVec.setWidth_eq]

/-- The task is switched to. -/
theorem exists_restoring (hv : v ≠ 0) : ∃ s : Cpu Unit, CpuReached T R s ∧
    s.mode = .restoring () ∧ s.trappedWith () = none ∧ s.m.load (T.frame () + 8 * 2) = v := by
  have hstart := cpuStart_aboutToStart (T := T) (R := R) hv
  have hidle := T.idleCx_le
  have hcx := T.cx_le ()
  simp only [TaskContext.words] at hidle hcx
  have ha0 : ((aboutToStart T R v).m.get a0).toNat = T.idleCx := by
    rw [Machine.get_of_ne (by decide), aboutToStart]
    dsimp only
    rw [if_pos rfl, BitVec.toNat_ofNat, Nat.mod_eq_of_lt (by omega)]
  have ha1 : ((aboutToStart T R v).m.get a1).toNat = T.cx () := by
    rw [Machine.get_of_ne (by decide), aboutToStart]
    dsimp only
    rw [if_neg (by decide), BitVec.toNat_ofNat, Nat.mod_eq_of_lt (by omega)]
  obtain ⟨log, m', hrun, hswitched⟩ := exists_switch ⟨ha0, T.idleCx_le⟩ ⟨ha1, T.cx_le ()⟩
    (T.cx_idle ()).symm
  have hra : m'.get ra = R :=
    congrArg TaskContext.ra (hswitched.loaded.trans (hstart.cx ()))
  have hstep := CpuStep.switchIn (T := T) (R := R) (i := ()) rfl ha0 ha1 hrun
  rw [if_pos hra] at hstep
  refine ⟨_, .step (.start hstart) hstep ⟨nofun, nofun, nofun⟩, rfl, rfl, ?_⟩
  exact (TaskSet.frame_of_within hswitched.mem (TaskSet.apart_frame (T.stack_idle ()))
    (by norm_num)).trans load_aboutToStart

/-- The task runs and traps, and its trap is handled. -/
theorem exists_kernel (hv : 0 < v.toInt) : ∃ (s : Cpu Unit) (u : UserState),
    CpuReached T R s ∧ s.mode = .kernel () ∧ s.trappedWith () = some u ∧ s.resumed () ∧
      s.m.get sp = s.calledWith () ∧ s.m.f = u.f := by
  have hne : v ≠ 0 := by
    rintro rfl
    exact absurd hv (by decide)
  obtain ⟨s, hreached, hmode, hnone, hload⟩ := exists_restoring (T := T) (R := R) hne
  have hinv := hreached.inv
  have hframe := hinv.frame () (by rw [hmode]; nofun)
  have hm : s.m.HasFrame sp (T.frame ()) 37 := KernelStack.hasFrame (hinv.restoring () hmode)
  have hlt := T.frame_add_lt ()
  -- to user mode
  obtain ⟨log₂, m₂, hrestore, hleft⟩ : ∃ log m₂, restore s.m = some (log, .sret, m₂) ∧
      Left (T.frame ()) s.m m₂ :=
    ⟨_, _, restore_of_ne_zero hm hlt hframe.spp hframe.userSp, left_leave hm hlt⟩
  have huser := CpuStep.restore (T := T) (R := R) hmode hrestore
  have hreached₂ : CpuReached T R { s with m := m₂, mode := .user () } := by
    refine .step hreached huser ⟨fun i hi ↦ ?_, nofun, fun i _ hi ↦ ?_⟩
    · rw [hmode] at hi
      cases hi
    · rw [hnone] at hi
      cases hi
  have hpos : 0 < (m₂.get sp).toInt := by rwa [hleft.sp, hload]
  -- into the kernel
  obtain ⟨log, m₃, hrun⟩ : ∃ log m₃,
      alltraps (takeTrap 0 m₂) = some (log, .call .trapHandler, m₃) :=
    ⟨_, _, alltraps_of_pos hpos⟩
  have htrap := CpuStep.trap (T := T) (R := R) (s := { s with m := m₂, mode := .user () })
    rfl 0 false hrun
  have hentered := hreached₂.inv.entered_of_trap rfl hpos hrun
  have hreached₃ := CpuReached.step hreached₂ htrap
    ⟨fun _ _ _ ↦ hpos, nofun, fun i hi ↦ absurd rfl hi⟩
  obtain ⟨s₃, hs₃, hmode₃, hu₃, hresumed₃, hcalled₃, hf₃⟩ : ∃ s₃ : Cpu Unit, CpuReached T R s₃ ∧
      s₃.mode = .trapped () ∧
      s₃.trappedWith () = some ⟨m₂.get, m₂.f, 0, false⟩ ∧ s₃.resumed () ∧
      s₃.m.get sp = s₃.calledWith () ∧ s₃.m.f = m₂.f := by
    refine ⟨_, hreached₃, rfl, ?_, ?_, ?_, hentered.f⟩
    · dsimp only
      rw [update_self]
    · dsimp only
      rw [update_self]
      trivial
    · dsimp only
      rw [update_self]
  -- where its trap is handled
  have hdispatch := CpuStep.dispatch (T := T) (R := R) hmode₃ hu₃
  rw [if_neg Bool.false_ne_true] at hdispatch
  have huserSp := (hs₃.inv.frame () (by rw [hmode₃]; nofun)).userSp
  refine ⟨_, _, .step hs₃ hdispatch ⟨fun i hi ↦ ?_, fun _ _ ↦ huserSp, fun _ _ _ _ _ _ ↦ rfl⟩, rfl,
    hu₃, hresumed₃, hcalled₃, hf₃⟩
  rw [hmode₃] at hi
  cases hi

/-- From `__restore` a task gets to user mode. -/
theorem CpuInv.exists_restore {s : Cpu Unit} (h : CpuInv T R s) (hmode : s.mode = .restoring ()) :
    ∃ log m', Maturin.restore s.m = some (log, .sret, m') := by
  have hframe := h.frame () (by rw [hmode]; nofun)
  have hm : s.m.HasFrame sp (T.frame ()) 37 := KernelStack.hasFrame (h.restoring () hmode)
  exact ⟨_, _, restore_of_ne_zero hm (T.frame_add_lt ()) hframe.spp hframe.userSp⟩

end

/-- One task, with its contexts in the kernel's data. -/
def oneTask : TaskSet Unit where
  stack _ := KernelStack.last
  cx _ := 0xFFFF_FFFF_8100_0000
  idleCx := 0xFFFF_FFFF_8100_1000
  stack_stack i j h := absurd rfl h
  stack_cx _ _ := by decide
  stack_idle _ := by decide
  cx_cx i j h := absurd rfl h
  cx_idle _ := by decide
  cx_le _ := by decide
  idleCx_le := by decide

/-! ## Back in user mode -/

section

variable [DecidableEq ι] {T : TaskSet ι} {R : Word} {s s' : Cpu ι} {i : ι} {u : UserState}

/-- **A task gets its registers back.** When a task returns to user mode from a trap, and its frame
has not been written anew, its registers are those of the trap. -/
theorem CpuReached.back (h : CpuReached T R s) (hmode : s.mode = .restoring i)
    (hu : s.trappedWith i = some u) (hstep : CpuStep T R s s') :
    s'.mode = .user i ∧ u.Back s'.m := by
  have hinv := h.inv
  have hheld := (hinv.frame i (by rw [hmode]; nofun)).after u hu (by rw [hmode]; nofun)
  obtain ⟨log, m', hrun, rfl⟩ := hstep.of_restoring hmode
  have hleft := hinv.left_of_restore hmode hrun
  refine ⟨rfl, ⟨fun r h0 hr ↦ ?_, fun r ↦ ?_, hleft.sepc.trans hheld.pc⟩⟩
  · by_cases hsp : r = sp
    · subst hsp
      exact hleft.sp.trans (hheld.x sp h0 hr)
    · exact (hleft.regs r h0 hsp).trans (hheld.x r h0 hr)
  · by_cases h8 : r = 8
    · subst h8
      exact hleft.fs0.trans hheld.fs0
    by_cases h9 : r = 9
    · subst h9
      exact hleft.fs1.trans hheld.fs1
    exact (hleft.f r h8 h9).trans (hheld.f r h8 h9)

theorem back_oneTask : ∃ (s s' : Cpu Unit) (u : UserState), s.mode = .restoring () ∧
    s.trappedWith () = some u ∧ s'.mode = .user () ∧ u.Back s'.m := by
  obtain ⟨s, u, hs, hmode, hu, -, hcalled, -⟩ := exists_kernel (T := oneTask)
    (R := 0xFFFF_FFFF_8020_0000) (v := 0x3FE0_0000) (by decide)
  have hret := CpuStep.ret (T := oneTask) (R := 0xFFFF_FFFF_8020_0000) hmode fun _ ↦ hcalled
  have hreached := hs.step hret ⟨fun _ _ ↦ nofun, nofun, fun _ _ _ _ _ _ ↦ rfl⟩
  obtain ⟨log, m', hrestore⟩ := hreached.inv.exists_restore rfl
  obtain ⟨hmode', hback⟩ := hreached.back rfl hu (.restore rfl hrestore)
  exact ⟨{ s with mode := .restoring () }, _, u, rfl, hu, hmode', hback⟩

end

/-- **The other floating-point registers do not come back.** A task traps, the kernel uses `f0`,
and the task goes on with what the kernel has left there. -/
theorem exists_not_back (T : TaskSet Unit) (R : Word) : ∃ (s₀ s s' : Cpu Unit) (u : UserState),
    CpuStart T R s₀ ∧ Relation.ReflTransGen (CpuStep T R) s₀ s ∧ s.mode = .restoring () ∧
      s.trappedWith () = some u ∧ CpuStep T R s s' ∧ s'.m.f 0 = u.f 0 + 1 := by
  obtain ⟨s, u, hs, hmode, hu, hresumed, hcalled, hf⟩ :=
    exists_kernel (T := T) (R := R) (v := 0x3FE0_0000) (by decide)
  obtain ⟨s₀, hstart, hrun⟩ := hs.exists_start
  obtain ⟨m', hm'⟩ : ∃ m', s.m.setF 0 (u.f 0 + 1) = m' := ⟨_, rfl⟩
  have hmem : m'.mem = s.m.mem := by rw [← hm', Machine.setF_mem]
  have hget : m'.get sp = s.m.get sp := by rw [← hm', Machine.get_setF]
  have hf' : m'.f 0 = u.f 0 + 1 := by rw [← hm', Machine.setF_f, update_self]
  have hload : ∀ a, m'.load a = s.m.load a := fun a ↦ Machine.load_congr fun b _ _ ↦
    congrFun hmem b
  -- the kernel writes `f0` and returns
  have hkeeps : T.Keeps s.m m' :=
    ⟨fun _ _ _ ↦ hload _, fun _ ↦ TaskContext.ext (hload _) (hload _) (funext fun _ ↦ hload _)⟩
  have hkernel := CpuStep.kernel (R := R) hmode hkeeps
  have hret := CpuStep.ret (T := T) (R := R) (s := { s with m := m' }) hmode
    fun _ ↦ hget.trans hcalled
  -- the frame is still that of the trap
  have hframe := hs.inv.frame () (by rw [hmode]; nofun)
  have hinv := hs.inv.ret hmode fun _ ↦ hcalled
  have hm : m'.HasFrame sp (T.frame ()) 37 :=
    KernelStack.hasFrame ((congrArg BitVec.toNat hget).trans (hinv.restoring () rfl))
  have hlt := T.frame_add_lt ()
  have hspp : m'.load (T.frame () + 8 * 32) &&& 0x100 = 0 := by rw [hload, hframe.spp]
  have huserSp : m'.load (T.frame () + 8 * 2) ≠ 0 := by rw [hload]; exact hframe.userSp
  obtain ⟨log, m₂, hrestore, hleft⟩ : ∃ log m₂, restore m' = some (log, .sret, m₂) ∧
      Left (T.frame ()) m' m₂ :=
    ⟨_, _, restore_of_ne_zero hm hlt hspp huserSp, left_leave hm hlt⟩
  refine ⟨s₀, _, _, u, hstart, (hrun.tail hkernel).tail hret, rfl, hu, .restore rfl hrestore, ?_⟩
  exact (hleft.f 0 (by decide) (by decide)).trans hf'

theorem not_back_oneTask : ∃ (s₀ s s' : Cpu Unit) (u : UserState),
    CpuStart oneTask 0xFFFF_FFFF_8020_0000 s₀ ∧
      Relation.ReflTransGen (CpuStep oneTask 0xFFFF_FFFF_8020_0000) s₀ s ∧
      s.mode = .restoring () ∧ s.trappedWith () = some u ∧
      CpuStep oneTask 0xFFFF_FFFF_8020_0000 s s' ∧ ¬u.Back s'.m := by
  obtain ⟨s₀, s, s', u, hstart, hrun, hmode, hu, hstep, hf⟩ :=
    exists_not_back oneTask 0xFFFF_FFFF_8020_0000
  refine ⟨s₀, s, s', u, hstart, hrun, hmode, hu, hstep, fun hback ↦ ?_⟩
  rw [hback.f 0] at hf
  bv_omega

end Maturin
