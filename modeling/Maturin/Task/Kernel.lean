import Maturin.Task.WaitingBoard
import Mathlib.Algebra.Group.Int.Defs
import Mathlib.Logic.Function.Basic
import Mathlib.Data.List.Induction
import Mathlib.Data.List.Nodup

/-!
# Tasks, CPUs and the scheduler

The tasks of the kernel, the queue of the scheduler, and the CPUs that each execute the loop of
`run_tasks`. A step is what one CPU does under one lock, so that the steps of the CPUs interleave in
every way. Between two steps the position of the CPU says what it does next.

A task is named by the number of its control block, as `Arc` pointers are; its `tid` is given out
again once the control block is gone.
-/

namespace Maturin

/-- Whether the kernel runs the test cases one after the other instead of an initial process. -/
abbrev IS_TEST_ENV : Bool := true

/-- The `ppid` of a task without a parent. -/
abbrev NO_PARENT : ℕ := 2 ^ 64 - 1

abbrev TID_LIMIT : ℕ := 4096

/-- `CloneFlags` -/
abbrev CloneFlags := BitVec 32

namespace CloneFlags

/-- The handlers of signals are shared. -/
abbrev CLONE_SIGHAND : CloneFlags := 1#32 <<< 11

/-- The new task gets the `ppid` of the caller: a sibling is made, not a child. -/
abbrev CLONE_PARENT : CloneFlags := 1#32 <<< 15

/-- The new task is a thread of the caller's process. -/
abbrev CLONE_THREAD : CloneFlags := 1#32 <<< 16

/-- `contains` -/
def contains (self flag : CloneFlags) : Bool := self &&& flag == flag

end CloneFlags

/-- `WaitFlags::WNOHANG` -/
abbrev WNOHANG : BitVec 32 := 1#32 <<< 0

/-- `TaskStatus` -/
inductive TaskStatus
  | unInit
  | ready
  | running
  | dying
  | zombie
  | exited
  deriving DecidableEq

/-- Where a task goes on when it is switched in: in user mode, after a system call of which nothing
is left but the return, or in the loop of `sys_wait4`. -/
inductive Resume
  | user
  | wait4 (pid : ℤ) (option : BitVec 32)
  deriving DecidableEq

/-- `TaskControlBlock` -/
structure TaskControlBlock where
  pid : ℕ
  tid : ℕ
  ppid : ℕ
  taskStatus : TaskStatus
  /-- Where `task_cx` leads. -/
  taskCx : Resume
  parent : Option ℕ
  children : List ℕ
  exitCode : BitVec 32
  deriving DecidableEq

/-- Where a CPU is in `run_tasks`, or in the task that it runs. -/
inductive Pc
  /-- At the head of the loop -/
  | idle
  /-- The task was fetched, and `check_thread_blocked` is next. -/
  | fetched (task : ℕ)
  /-- The task is blocked, and is pushed next. -/
  | blocked (task : ℕ)
  /-- The task is not blocked, and is switched in next. -/
  | unblocked (task : ℕ)
  /-- The current task executes. -/
  | running (cx : Resume)
  /-- The current task is in `sys_clone`, and pushes the new task next. -/
  | cloned (newTask : ℕ)
  /-- Back from the current task -/
  | left
  /-- The task is not the current one any more. -/
  | taken (task : ℕ)
  /-- `loop {}` -/
  | halted
  deriving DecidableEq

/-- The task that the CPU holds in a local variable. -/
def Pc.held : Pc → Option ℕ
  | fetched task | blocked task | unblocked task | cloned task | taken task => some task
  | idle | running _ | left | halted => none

@[simp] theorem Pc.held_fetched (task : ℕ) : (fetched task).held = some task := rfl

@[simp] theorem Pc.held_blocked (task : ℕ) : (blocked task).held = some task := rfl

@[simp] theorem Pc.held_unblocked (task : ℕ) : (unblocked task).held = some task := rfl

@[simp] theorem Pc.held_cloned (task : ℕ) : (cloned task).held = some task := rfl

@[simp] theorem Pc.held_taken (task : ℕ) : (taken task).held = some task := rfl

@[simp] theorem Pc.held_idle : idle.held = none := rfl

@[simp] theorem Pc.held_running (cx : Resume) : (running cx).held = none := rfl

@[simp] theorem Pc.held_left : left.held = none := rfl

@[simp] theorem Pc.held_halted : halted.held = none := rfl

/-- `CpuLocal` -/
structure CpuLocal where
  current : Option ℕ
  pc : Pc
  deriving DecidableEq

/-- The kernel. -/
structure Kernel where
  /-- The control blocks, of which the first `next` have been created. -/
  tcb : ℕ → TaskControlBlock
  next : ℕ
  /-- The `ready_queue` of `GLOBAL_TASK_SCHEDULER` -/
  readyQueue : List ℕ
  /-- `CPU_CONTEXTS` -/
  cpus : ℕ → CpuLocal
  /-- `WAITING_BOARD` -/
  waitingBoard : WaitingBoard
  /-- `ORIGIN_USER_PROC` -/
  origin : ℕ
  /-- The machine's clock -/
  clock : ℕ

/-- `from_app_name`, where the new task gets `tid`. -/
def TaskControlBlock.fromAppName (ppid tid : ℕ) : TaskControlBlock where
  pid := tid
  tid := tid
  ppid := ppid
  taskStatus := .ready
  taskCx := .user
  parent := none
  children := []
  exitCode := 0

namespace Kernel

/-! ## Fields -/

/-- Changes the control block of a task. -/
def modify (k : Kernel) (task : ℕ) (f : TaskControlBlock → TaskControlBlock) : Kernel :=
  { k with tcb := Function.update k.tcb task (f (k.tcb task)) }

/-- Changes what a CPU does. -/
def setCpu (k : Kernel) (cpu : ℕ) (current : Option ℕ) (pc : Pc) : Kernel :=
  { k with cpus := Function.update k.cpus cpu ⟨current, pc⟩ }

/-- Moves a CPU. -/
abbrev setPc (k : Kernel) (cpu : ℕ) (pc : Pc) : Kernel := k.setCpu cpu (k.cpus cpu).current pc

/-- Creates a task. -/
def create (k : Kernel) (newTask : TaskControlBlock) : Kernel :=
  { k with tcb := Function.update k.tcb k.next newTask, next := k.next + 1 }

/-- A task that is gone: it has exited, and nobody's child any more. -/
def Dropped (k : Kernel) (task : ℕ) : Prop :=
  (k.tcb task).taskStatus = .zombie ∧ ∀ parent < k.next, task ∉ (k.tcb parent).children

instance (k : Kernel) (task : ℕ) : Decidable (k.Dropped task) :=
  inferInstanceAs (Decidable (_ ∧ _))

/-- A `tid` that `Tid::new` can return: that of a task is free again once the task is gone. -/
def Free (k : Kernel) (tid : ℕ) : Prop :=
  2 ≤ tid ∧ tid < TID_LIMIT ∧ ∀ task < k.next, (k.tcb task).tid = tid → k.Dropped task

instance (k : Kernel) (tid : ℕ) : Decidable (k.Free tid) :=
  inferInstanceAs (Decidable (_ ∧ _ ∧ _))

variable {k : Kernel} {cpu cpu' task task' : ℕ} {current : Option ℕ} {pc : Pc}
  {f : TaskControlBlock → TaskControlBlock} {t : TaskControlBlock}

@[simp] theorem modify_tcb_self : (k.modify task f).tcb task = f (k.tcb task) :=
  Function.update_self ..

theorem modify_tcb_of_ne (h : task' ≠ task) : (k.modify task f).tcb task' = k.tcb task' :=
  Function.update_of_ne h ..

@[simp] theorem modify_next : (k.modify task f).next = k.next := rfl

@[simp] theorem modify_readyQueue : (k.modify task f).readyQueue = k.readyQueue := rfl

@[simp] theorem modify_cpus : (k.modify task f).cpus = k.cpus := rfl

@[simp] theorem modify_waitingBoard : (k.modify task f).waitingBoard = k.waitingBoard := rfl

@[simp] theorem modify_clock : (k.modify task f).clock = k.clock := rfl

@[simp] theorem create_tcb_self : (k.create t).tcb k.next = t := Function.update_self ..

theorem create_tcb_of_ne (h : task ≠ k.next) : (k.create t).tcb task = k.tcb task :=
  Function.update_of_ne h ..

@[simp] theorem create_next : (k.create t).next = k.next + 1 := rfl

@[simp] theorem create_readyQueue : (k.create t).readyQueue = k.readyQueue := rfl

@[simp] theorem create_cpus : (k.create t).cpus = k.cpus := rfl

@[simp] theorem create_waitingBoard : (k.create t).waitingBoard = k.waitingBoard := rfl

@[simp] theorem create_clock : (k.create t).clock = k.clock := rfl

@[simp] theorem setCpu_cpus_self : (k.setCpu cpu current pc).cpus cpu = ⟨current, pc⟩ :=
  Function.update_self ..

theorem setCpu_cpus_of_ne (h : cpu' ≠ cpu) : (k.setCpu cpu current pc).cpus cpu' = k.cpus cpu' :=
  Function.update_of_ne h ..

theorem setPc_eq_self (h : (k.cpus cpu).pc = pc) : k.setPc cpu pc = k := by
  subst h
  rw [setPc, setCpu, Function.update_eq_self]

theorem modify_eq_self (h : f (k.tcb task) = k.tcb task) : k.modify task f = k := by
  rw [modify, h, Function.update_eq_self]

@[simp] theorem setCpu_tcb : (k.setCpu cpu current pc).tcb = k.tcb := rfl

@[simp] theorem setCpu_next : (k.setCpu cpu current pc).next = k.next := rfl

@[simp] theorem setCpu_readyQueue : (k.setCpu cpu current pc).readyQueue = k.readyQueue := rfl

@[simp] theorem setCpu_waitingBoard : (k.setCpu cpu current pc).waitingBoard = k.waitingBoard := rfl

@[simp] theorem setCpu_clock : (k.setCpu cpu current pc).clock = k.clock := rfl

/-! ## The scheduler -/

/-- `push_task_to_scheduler` -/
def pushTaskToScheduler (k : Kernel) (task : ℕ) : Kernel :=
  { k with readyQueue := k.readyQueue ++ [task] }

/-- `fetch_task_from_scheduler` on a CPU. In the tests an empty queue makes the next test case, with
the `tid` given, or ends the loop for good where there is none left. -/
def fetchTaskFromScheduler (k : Kernel) (cpu : ℕ) (testcase : Option ℕ) : Option Kernel :=
  match k.readyQueue with
  | task :: rest => some ({ k with readyQueue := rest }.setPc cpu (.fetched task))
  | [] =>
    if IS_TEST_ENV then
      match testcase with
      | some tid =>
        if k.Free tid then
          some ((k.create (.fromAppName NO_PARENT tid)).setPc cpu (.fetched k.next))
        else none
      | none => some (k.setPc cpu .halted)
    else some k

/-- `check_thread_blocked` on the task fetched -/
def checkThreadBlocked (k : Kernel) (cpu task : ℕ) : Kernel :=
  let (blocked, board) := k.waitingBoard.checkThreadBlocked (k.tcb task).tid k.clock
  { k with waitingBoard := board }.setPc cpu (if blocked then .blocked task else .unblocked task)

theorem checkThreadBlocked_cpus : (k.checkThreadBlocked cpu task).cpus =
    Function.update k.cpus cpu ⟨(k.cpus cpu).current,
      if (k.waitingBoard.checkThreadBlocked (k.tcb task).tid k.clock).1 then .blocked task
      else .unblocked task⟩ := rfl

/-- The switch into a task -/
def switchInto (k : Kernel) (cpu task : ℕ) : Kernel :=
  (k.modify task ({ · with taskStatus := .running })).setCpu cpu (some task)
    (.running (k.tcb task).taskCx)

/-- `suspend_current_task`: the context saved leads to `cx`. -/
def suspendCurrentTask (k : Kernel) (cpu task : ℕ) (cx : Resume) : Kernel :=
  (k.modify task ({ · with taskStatus := .ready, taskCx := cx })).setPc cpu .left

/-- `exit_current_task` -/
def exitCurrentTask (k : Kernel) (cpu task : ℕ) (exitCode : BitVec 32) : Kernel :=
  (k.modify task ({ · with taskStatus := .dying, exitCode })).setPc cpu .left

section

variable {cx : Resume} {exitCode : BitVec 32}

@[simp] theorem switchInto_tcb_self :
    (k.switchInto cpu task).tcb task = { k.tcb task with taskStatus := .running } :=
  modify_tcb_self (f := ({ · with taskStatus := .running }))

theorem switchInto_tcb_of_ne (h : task' ≠ task) :
    (k.switchInto cpu task).tcb task' = k.tcb task' :=
  modify_tcb_of_ne (f := ({ · with taskStatus := .running })) h

@[simp] theorem suspendCurrentTask_tcb_self :
    (k.suspendCurrentTask cpu task cx).tcb task =
      { k.tcb task with taskStatus := .ready, taskCx := cx } :=
  modify_tcb_self (f := ({ · with taskStatus := .ready, taskCx := cx }))

theorem suspendCurrentTask_tcb_of_ne (h : task' ≠ task) :
    (k.suspendCurrentTask cpu task cx).tcb task' = k.tcb task' :=
  modify_tcb_of_ne (f := ({ · with taskStatus := .ready, taskCx := cx })) h

@[simp] theorem exitCurrentTask_tcb_self :
    (k.exitCurrentTask cpu task exitCode).tcb task =
      { k.tcb task with taskStatus := .dying, exitCode } :=
  modify_tcb_self (f := ({ · with taskStatus := .dying, exitCode }))

theorem exitCurrentTask_tcb_of_ne (h : task' ≠ task) :
    (k.exitCurrentTask cpu task exitCode).tcb task' = k.tcb task' :=
  modify_tcb_of_ne (f := ({ · with taskStatus := .dying, exitCode })) h

end

/-- What happens to a child of a task that exits. -/
def orphan (task : ℕ) (k : Kernel) (child : ℕ) : Kernel :=
  if (k.tcb task).ppid = NO_PARENT ∨ IS_TEST_ENV then
    k.modify child ({ · with ppid := NO_PARENT })
  else
    (k.modify child ({ · with parent := some k.origin, ppid := 0 })).modify k.origin
      fun t ↦ { t with children := t.children ++ [child] }

/-- `handle_zombie_task` -/
def handleZombieTask (k : Kernel) (task : ℕ) : Kernel :=
  ((k.tcb task).children.foldl (orphan task) k).modify task
    ({ · with children := [], taskStatus := .zombie })

/-- What remains of an exit: the children have no parent any more. -/
theorem handleZombieTask_eq (k : Kernel) (task : ℕ) :
    k.handleZombieTask task = { k with
      tcb := fun u ↦ { k.tcb u with
        ppid := if u ∈ (k.tcb task).children then NO_PARENT else (k.tcb u).ppid
        children := if u = task then [] else (k.tcb u).children
        taskStatus := if u = task then .zombie else (k.tcb u).taskStatus } } := by
  -- each child on the list loses its parent
  have hfold (l : List ℕ) : l.foldl (orphan task) k = { k with
      tcb := fun u ↦ { k.tcb u with
        ppid := if u ∈ l then NO_PARENT else (k.tcb u).ppid } } := by
    induction l using List.reverseRecOn with
    | nil => simp
    | append_singleton l child ih =>
      rw [List.foldl_concat, ih, orphan, if_pos (.inr rfl), modify]
      congr 1
      funext u
      by_cases hu : u = child
      · subst hu
        simp
      · rw [Function.update_of_ne hu]
        simp [hu]
  rw [handleZombieTask, hfold, modify]
  congr 1
  funext u
  by_cases hu : u = task
  · subst hu
    simp
  · rw [Function.update_of_ne hu]
    simp [hu]

/-- What `run_tasks` does with the task that it took from the CPU, where `none` is a panic. -/
def switchedOut (k : Kernel) (cpu task : ℕ) : Option Kernel :=
  match (k.tcb task).taskStatus with
  | .ready => some ((k.pushTaskToScheduler task).setPc cpu .idle)
  | .dying =>
    if !IS_TEST_ENV ∧ (k.tcb task).pid = 0 then none
    else some ((k.handleZombieTask task).setPc cpu .idle)
  | _ => none

/-! ## System calls -/

/-- The new task of `from_clone`, which gets `tid`. -/
def clonedTask (k : Kernel) (task : ℕ) (flags : CloneFlags) (tid : ℕ) : TaskControlBlock where
  pid := if flags.contains .CLONE_THREAD then (k.tcb task).pid else tid
  tid := tid
  ppid := if flags.contains .CLONE_PARENT then (k.tcb task).ppid else (k.tcb task).tid
  taskStatus := .ready
  taskCx := .user
  parent := some task
  children := []
  exitCode := 0

/-- `from_clone` -/
def fromClone (k : Kernel) (task : ℕ) (flags : CloneFlags) (tid : ℕ) : Kernel :=
  if flags.contains .CLONE_PARENT then k.create (k.clonedTask task flags tid)
  else (k.create (k.clonedTask task flags tid)).modify task
    fun t ↦ { t with children := t.children ++ [k.next] }

section fromClone

variable {flags : CloneFlags} {tid : ℕ}

@[simp] theorem fromClone_next : (k.fromClone task flags tid).next = k.next + 1 := by
  rw [fromClone]
  split_ifs <;> rfl

@[simp] theorem fromClone_readyQueue :
    (k.fromClone task flags tid).readyQueue = k.readyQueue := by
  rw [fromClone]
  split_ifs <;> rfl

@[simp] theorem fromClone_cpus : (k.fromClone task flags tid).cpus = k.cpus := by
  rw [fromClone]
  split_ifs <;> rfl

@[simp] theorem fromClone_waitingBoard :
    (k.fromClone task flags tid).waitingBoard = k.waitingBoard := by
  rw [fromClone]
  split_ifs <;> rfl

@[simp] theorem fromClone_clock : (k.fromClone task flags tid).clock = k.clock := by
  rw [fromClone]
  split_ifs <;> rfl

@[simp] theorem fromClone_tcb_next (hlt : task < k.next) :
    (k.fromClone task flags tid).tcb k.next = k.clonedTask task flags tid := by
  rw [fromClone]
  split_ifs
  · exact create_tcb_self
  · rw [modify_tcb_of_ne hlt.ne', create_tcb_self]

theorem fromClone_tcb_self (hlt : task < k.next) :
    (k.fromClone task flags tid).tcb task = { k.tcb task with
      children := (k.tcb task).children ++
        if flags.contains .CLONE_PARENT then [] else [k.next] } := by
  rw [fromClone]
  split_ifs
  · rw [create_tcb_of_ne hlt.ne, List.append_nil]
  · rw [modify_tcb_self, create_tcb_of_ne hlt.ne]

theorem fromClone_tcb_of_ne (hnext : task' ≠ k.next) (hne : task' ≠ task) :
    (k.fromClone task flags tid).tcb task' = k.tcb task' := by
  rw [fromClone]
  split_ifs
  · exact create_tcb_of_ne hnext
  · rw [modify_tcb_of_ne hne, create_tcb_of_ne hnext]

/-- A clone changes nothing of an old task but the children. -/
theorem fromClone_tcb_of_lt (flags : CloneFlags) (tid : ℕ) (hlt : task < k.next)
    (hlt' : task' < k.next) :
    (k.fromClone task flags tid).tcb task' = { k.tcb task' with
      children := ((k.fromClone task flags tid).tcb task').children } := by
  by_cases hne : task' = task
  · subst hne
    rw [fromClone_tcb_self hlt]
  · rw [fromClone_tcb_of_ne hlt'.ne hne]

end fromClone

/-- `sys_clone` until it pushes the new task; a negative stack is an error. -/
def sysClone (k : Kernel) (cpu task : ℕ) (flags : CloneFlags) (userStack : ℤ) (tid : ℕ) :
    Option Kernel :=
  if userStack < 0 then some k
  else if k.Free tid then some ((k.fromClone task flags tid).setPc cpu (.cloned k.next))
  else none

/-- `sys_exec`, where the new program is found and loaded or not. -/
def sysExec (k : Kernel) (cpu task : ℕ) (loaded : Bool) : Kernel :=
  if loaded then k.modify task ({ · with taskCx := .user }) else k.exitCurrentTask cpu task 0

/-- `get_code_if_exit` -/
def getCodeIfExit (k : Kernel) (task : ℕ) : Option (BitVec 32) :=
  match (k.tcb task).taskStatus with
  | .zombie => some (k.tcb task).exitCode
  | _ => none

/-- The `flag` of `waitpid`, and what it has found. -/
inductive WaitFlag
  /-- -1: there is no such child. -/
  | noChild
  /-- -2: no such child has exited. -/
  | notExited
  | found (idx : ℕ) (exitCode : BitVec 32) (pidFound : ℤ)
  deriving DecidableEq

/-- The loop of `waitpid` over the children, from the index `idx` on. -/
def waitLoop (k : Kernel) (pid : ℤ) : List ℕ → ℕ → WaitFlag → WaitFlag
  | [], _, flag => flag
  | child :: rest, idx, flag =>
    if pid = -1 then
      match k.getCodeIfExit child with
      | some code => .found idx code (k.tcb child).pid
      | none => k.waitLoop pid rest (idx + 1) .notExited
    else if ((k.tcb child).pid : ℤ) = pid % 2 ^ 64 then
      match k.getCodeIfExit child with
      | some code => .found idx code pid
      | none => .notExited
    else k.waitLoop pid rest (idx + 1) flag

/-- What `waitpid` finds for a task. -/
def waitpid (k : Kernel) (task : ℕ) (pid : ℤ) : WaitFlag :=
  k.waitLoop pid (k.tcb task).children 0 .noChild

/-- One round of the loop of `sys_wait4`. -/
def sysWait4 (k : Kernel) (cpu task : ℕ) (pid : ℤ) (option : BitVec 32) : Kernel :=
  match k.waitpid task pid with
  | .noChild => k.setPc cpu (.running .user)
  | .notExited =>
    if option &&& WNOHANG = WNOHANG then k.setPc cpu (.running .user)
    else k.suspendCurrentTask cpu task (.wait4 pid option)
  | .found idx _ _ =>
    (k.modify task fun t ↦ { t with children := t.children.eraseIdx idx }).setPc
      cpu (.running .user)

/-- The word in which `waitpid` gives the user an exit code. -/
def waitStatus (exitCode : BitVec 32) : BitVec 32 := exitCode <<< 8

/-- `sys_futex`, where `word` is what is at the address, if that is valid. -/
def sysFutex (k : Kernel) (cpu task : ℕ) (futexOp val : BitVec 32) (word : Option (BitVec 32))
    (timeout : Option TimeSpec) : Kernel :=
  match futexOperation futexOp with
  | .WAIT =>
    if word = some val then
      { k with
        waitingBoard := k.waitingBoard.setWaiterForThread (k.tcb task).tid
          (.new (timedOut timeout)) }.suspendCurrentTask cpu task .user
    else k
  | .WAKE => k.suspendCurrentTask cpu task .user
  | _ => k

end Kernel

/-- What the current task of a CPU does in user mode. -/
def Kernel.inUser (k : Kernel) (cpu : ℕ) (f : ℕ → Option Kernel) : Option Kernel :=
  match k.cpus cpu with
  | ⟨some task, .running .user⟩ => f task
  | _ => none

/-! ## Steps -/

/-- What happens, on a CPU or to the clock. -/
inductive KernelEvent
  | fetch (cpu : ℕ) (testcase : Option ℕ)
  | check (cpu : ℕ)
  | switchInto (cpu : ℕ)
  /-- `push_task_to_scheduler` of a blocked task or a new one -/
  | push (cpu : ℕ)
  | clone (cpu : ℕ) (flags : CloneFlags) (userStack : ℤ) (tid : ℕ)
  /-- The task gives up the CPU: it yields, waits for something in a loop, or the timer
  interrupts. -/
  | suspend (cpu : ℕ)
  | exec (cpu : ℕ) (loaded : Bool)
  | exit (cpu : ℕ) (exitCode : BitVec 32)
  /-- The task calls `sys_wait4`. -/
  | wait4 (cpu : ℕ) (pid : ℤ) (option : BitVec 32)
  /-- The task is in the loop of `sys_wait4`. -/
  | waitpid (cpu : ℕ)
  | futex (cpu : ℕ) (uaddr : ℕ) (futexOp val : BitVec 32) (word : Option (BitVec 32))
      (timeout : Option TimeSpec)
  /-- `take_current` -/
  | take (cpu : ℕ)
  | switchedOut (cpu : ℕ)
  | tick (clock : ℕ)

namespace KernelEvent

/-- The kernel after an event, if the event can happen. -/
def step (k : Kernel) : KernelEvent → Option Kernel
  | fetch cpu testcase =>
    match (k.cpus cpu).pc with
    | .idle => k.fetchTaskFromScheduler cpu testcase
    | _ => none
  | check cpu =>
    match (k.cpus cpu).pc with
    | .fetched task => some (k.checkThreadBlocked cpu task)
    | _ => none
  | switchInto cpu =>
    match (k.cpus cpu).pc with
    | .unblocked task => some (k.switchInto cpu task)
    | _ => none
  | push cpu =>
    match (k.cpus cpu).pc with
    | .blocked task => some ((k.pushTaskToScheduler task).setPc cpu .idle)
    | .cloned task => some ((k.pushTaskToScheduler task).setPc cpu (.running .user))
    | _ => none
  | clone cpu flags userStack tid => k.inUser cpu fun task ↦ k.sysClone cpu task flags userStack tid
  | suspend cpu => k.inUser cpu fun task ↦ some (k.suspendCurrentTask cpu task .user)
  | exec cpu loaded => k.inUser cpu fun task ↦ some (k.sysExec cpu task loaded)
  | exit cpu exitCode => k.inUser cpu fun task ↦ some (k.exitCurrentTask cpu task exitCode)
  | wait4 cpu pid option =>
    k.inUser cpu fun _ ↦ some (k.setPc cpu (.running (.wait4 pid option)))
  | waitpid cpu =>
    match k.cpus cpu with
    | ⟨some task, .running (.wait4 pid option)⟩ => some (k.sysWait4 cpu task pid option)
    | _ => none
  | futex cpu _ futexOp val word timeout =>
    k.inUser cpu fun task ↦ some (k.sysFutex cpu task futexOp val word timeout)
  | take cpu =>
    match k.cpus cpu with
    | ⟨some task, .left⟩ => some (k.setCpu cpu none (.taken task))
    | _ => none
  | switchedOut cpu =>
    match (k.cpus cpu).pc with
    | .taken task => k.switchedOut cpu task
    | _ => none
  | tick clock => if k.clock ≤ clock then some { k with clock } else none

end KernelEvent

namespace Kernel

/-- The kernel when `run_tasks` begins: the scheduler has the first test case, or the initial
process. -/
def boot (tid clock : ℕ) : Kernel where
  tcb _ := .fromAppName (if IS_TEST_ENV then NO_PARENT else 0) tid
  next := 1
  readyQueue := [0]
  cpus _ := ⟨none, .idle⟩
  waitingBoard := []
  origin := 0
  clock := clock

end Kernel

end Maturin
