import Maturin.Lib.Throughout
import Maturin.Signal.Kill
import Maturin.Task.Places

/-!
# What is held by a task that a signal ends

`handle_signals` takes a strong reference to the task and two locks, that of the receivers and that
of the handlers, which other threads may share. They are dropped when it returns. But
`exit_current_task` does not return: it leaves the kernel stack as it is, and nothing on it is
dropped any more. Before the exit by default the two locks are dropped by hand, and before the exit
in a handler nothing is. The reference is dropped nowhere.
-/

open Exec

namespace Maturin

attribute [local irreducible] wsub

/-! ## One trap -/

/-- What `handle_signals` has taken and not dropped: the reference to the task and the two locks. -/
structure Held where
  task : Bool
  receivers : Bool
  handlers : Bool
  deriving DecidableEq

namespace Held

def nothing : Held := ⟨false, false, false⟩

def all : Held := ⟨true, true, true⟩

end Held

/-- Why a function of the kernel does not return. -/
inductive Stop
  | panic (p : Panic)
  /-- The task has been left. -/
  | exited (code : ℤ)

/-- A task, and what a function of the kernel holds. -/
structure HoldingTask where
  task : SignalTask
  held : Held

namespace HoldingTask

variable {α : Type}

/-- A call of a function that drops what it takes. -/
def call (x : EStateM Panic SignalTask α) : EStateM Stop HoldingTask α := fun s ↦
  match x.run s.task with
  | .ok a task => .ok a { s with task }
  | .error p task => .error (.panic p) { s with task }

/-- `exit_current_task` drops what it takes itself, and does not return. -/
def exitCurrentTask (code : ℤ) : EStateM Stop HoldingTask Unit := do
  call (SignalTask.exitCurrentTask code)
  throw (.exited code)

def handleByDefault (signal : SignalNo) : EStateM Stop HoldingTask Unit :=
  match SigActionDefault.ofSignal signal with
  | .terminate => do
    -- `drop(handler)` and `drop(sig_inner)`
    modify fun s ↦ { s with held := { s.held with handlers := false } }
    modify fun s ↦ { s with held := { s.held with receivers := false } }
    exitCurrentTask 0
  | .ignore => do
    let _ ← call SignalTask.loadTrapCxIfHandlingSignals
    pure ()

def handleByAction (signum : ℕ) : Option SigAction → EStateM Stop HoldingTask Unit
  | some action =>
    if action.handler = SIG_IGN then pure () else call (SignalTask.enterHandler signum action)
  | none => handleByDefault (SignalNo.ofUsize signum)

def handleSignal (signum : ℕ) : EStateM Stop HoldingTask Unit := do
  let signal := SignalNo.ofUsize signum
  if ← call SignalTask.saveTrapCxIfNotHandlingSignals then
    let action ← call (SignalTask.getActionRef signum)
    handleByAction signum action
  else if signal = SignalNo.SIGSEGV ∨ signal = SignalNo.SIGBUS then exitCurrentTask (-1)
  else pure ()

/-- What `handle_signals` does between taking and dropping. -/
def handleOneSignal : EStateM Stop HoldingTask Unit := do
  let s ← get
  match s.task.receivers.getOneSignal with
  | some (signum, receivers) =>
    set { s with task := { s.task with receivers } }
    handleSignal signum
  | none => pure ()

/-- `handle_signals`, with what it takes and drops. -/
def handleSignals : EStateM Stop HoldingTask Unit := do
  modify ({ · with held := .all })
  handleOneSignal
  modify ({ · with held := .nothing })

end HoldingTask

namespace SignalTask

/-- The trap takes a signal that ends the task. -/
def TakesEnd (s : SignalTask) : Prop :=
  ∃ signum receivers, s.receivers.getOneSignal = some (signum, receivers) ∧ s.Ends signum

/-- What is held after an exit, by the state before the trap. -/
def leaves (s : SignalTask) : Held :=
  if s.trapCxBeforeSignal = none then ⟨true, false, false⟩ else .all

end SignalTask

namespace SignalTask

variable {s : SignalTask}

theorem leaves_task : s.leaves.task = true := by
  rw [leaves]
  split_ifs
  · rfl
  · rfl

theorem leaves_of_none (h : s.trapCxBeforeSignal = none) : s.leaves = ⟨true, false, false⟩ :=
  if_pos h

theorem leaves_of_ne_none (h : s.trapCxBeforeSignal ≠ none) : s.leaves = .all := if_neg h

end SignalTask

namespace HoldingTask

variable {s t : SignalTask} {signum : ℕ} {held : Held} {α : Type} {a : α}

theorem run_call {x : EStateM Panic SignalTask α} (h : x.run s = .ok a t) :
    (call x).run ⟨s, held⟩ = .ok a ⟨t, held⟩ := by
  change call x ⟨s, held⟩ = _
  rw [call, h]

theorem run_exitCurrentTask (code : ℤ) :
    (exitCurrentTask code).run ⟨s, held⟩ =
      .error (.exited code) ⟨{ s with exited := some code }, held⟩ := rfl

/-- Both programs do the same to the task. The second does not return if the task ends, and then
leaves what is given. -/
def Follows (x : EStateM Panic SignalTask Unit) (y : EStateM Stop HoldingTask Unit) (ends : Prop)
    (left : Held) (s : SignalTask) : Prop :=
  ∃ t, x.run s = .ok () t ∧
    (ends → ∃ code, y.run ⟨s, .all⟩ = .error (.exited code) ⟨t, left⟩) ∧
    (¬ ends → y.run ⟨s, .all⟩ = .ok () ⟨t, .all⟩)

theorem Follows.of_not {x : EStateM Panic SignalTask Unit} {y : EStateM Stop HoldingTask Unit}
    {ends : Prop} {left : Held} (hends : ¬ ends) (hx : x.run s = .ok () t)
    (hy : y.run ⟨s, .all⟩ = .ok () ⟨t, .all⟩) : Follows x y ends left s :=
  ⟨t, hx, fun h ↦ absurd h hends, fun _ ↦ hy⟩

theorem Follows.of_ends {x : EStateM Panic SignalTask Unit} {y : EStateM Stop HoldingTask Unit}
    {ends : Prop} {left : Held} {code : ℤ} (hends : ends) (hx : x.run s = .ok () t)
    (hy : y.run ⟨s, .all⟩ = .error (.exited code) ⟨t, left⟩) : Follows x y ends left s :=
  ⟨t, hx, fun _ ↦ ⟨code, hy⟩, fun h ↦ absurd hends h⟩

theorem Follows.congr {x x' : EStateM Panic SignalTask Unit}
    {y y' : EStateM Stop HoldingTask Unit} {ends : Prop} {left : Held} {s' : SignalTask}
    (h : Follows x' y' ends left s') (hx : x.run s = x'.run s')
    (hy : y.run ⟨s, .all⟩ = y'.run ⟨s', .all⟩) : Follows x y ends left s := by
  rw [Follows, hx, hy]
  exact h

theorem follows_handleByAction (signum : ℕ) (action : Option SigAction) (s : SignalTask) :
    Follows (SignalTask.handleByAction signum action) (handleByAction signum action)
      (SigAction.dispositionOf signum action = .terminate) ⟨true, false, false⟩ s := by
  cases action with
  | some action =>
    rw [SignalTask.handleByAction, handleByAction, SigAction.dispositionOf, SigAction.disposition]
    split_ifs
    · exact .of_not not_false rfl rfl
    · have hwp : wp (SignalTask.enterHandler signum action) (fun _ _ ↦ True) noPanic s :=
        wp_imp SignalTask.wp_enterHandler fun _ _ _ ↦ trivial
      obtain ⟨⟨⟩, t, hrun, -⟩ := exists_of_wp hwp
      exact .of_not not_false hrun (run_call hrun)
  | none =>
    rw [SignalTask.handleByAction, handleByAction, SigAction.dispositionOf,
      SignalTask.handleByDefault, handleByDefault]
    cases SigActionDefault.ofSignal (SignalNo.ofUsize signum) with
    | terminate => exact .of_ends rfl rfl rfl
    | ignore =>
      -- the default ignores the signal, and puts the context back
      obtain ⟨b, t, hload⟩ := SignalTask.exists_run_load s
      refine .of_not Disposition.noConfusion (t := t) ?_ ?_
      · dsimp only
        rw [run_bind_of_ok hload]
        rfl
      · dsimp only
        rw [run_bind_of_ok (run_call hload)]
        rfl

/-- With an empty slot the context is saved, and the action says what is done. -/
theorem run_handleSignal_of_none {action : Option SigAction} (hslot : s.trapCxBeforeSignal = none)
    (h : s.handlers.getActionRef signum = some action) :
    (handleSignal signum).run ⟨s, held⟩ = (handleByAction signum action).run ⟨s.saved, held⟩ := by
  have hget : (SignalTask.getActionRef signum).run s.saved = .ok action s.saved :=
    SignalTask.run_getActionRef h
  rw [handleSignal, run_bind_of_ok (run_call (SignalTask.run_save_of_none hslot)), if_pos rfl,
    run_bind_of_ok (run_call hget)]

/-- With a full slot a fault ends the task, and any other signal does nothing. -/
theorem run_handleSignal_of_some {cx : TrapContext} (hslot : s.trapCxBeforeSignal = some cx) :
    (handleSignal signum).run ⟨s, held⟩ =
      (if SignalNo.ofUsize signum = SignalNo.SIGSEGV ∨ SignalNo.ofUsize signum = SignalNo.SIGBUS
        then exitCurrentTask (-1) else pure ()).run ⟨s, held⟩ := by
  rw [handleSignal, run_bind_of_ok (run_call (SignalTask.run_save_of_some hslot)),
    if_neg (by simp)]

theorem follows_handleSignal (hs : SignalTask.IsSignal signum) :
    Follows (SignalTask.handleSignal signum) (handleSignal signum) (s.Ends signum) s.leaves s := by
  rw [SignalTask.Ends, SignalTask.leaves]
  cases hslot : s.trapCxBeforeSignal with
  | none =>
    rw [if_pos rfl, if_pos rfl]
    obtain ⟨action, haction⟩ := SignalTask.exists_getActionRef s.handlers hs
    rw [SignalHandlers.disposition, haction, Option.join_some]
    exact (follows_handleByAction signum action s.saved).congr
      (SignalTask.run_handleSignal_of_none hslot haction) (run_handleSignal_of_none hslot haction)
  | some cx =>
    rw [if_neg (Option.some_ne_none cx), if_neg (Option.some_ne_none cx)]
    apply Follows.congr _ (SignalTask.run_handleSignal_of_some hslot)
      (run_handleSignal_of_some hslot)
    split_ifs with hfault
    · exact .of_ends hfault rfl (run_exitCurrentTask (-1))
    · exact .of_not hfault rfl rfl

/-- **What each way out leaves.** `handle_signals` does to the task what it does without the locks;
if it takes a signal that ends the task it does not return, and the reference is held. -/
theorem run_handleSignals (s : SignalTask) :
    ∃ t, SignalTask.handleSignals.run s = .ok () t ∧
      (s.TakesEnd → ∃ code, handleSignals.run ⟨s, .nothing⟩ = .error (.exited code) ⟨t, s.leaves⟩) ∧
      (¬ s.TakesEnd → handleSignals.run ⟨s, .nothing⟩ = .ok () ⟨t, .nothing⟩) := by
  have htake : handleSignals.run ⟨s, .nothing⟩ =
      (do
        handleOneSignal
        modify fun u : HoldingTask ↦ { u with held := .nothing }).run ⟨s, .all⟩ := rfl
  rw [htake]
  cases hget : s.receivers.getOneSignal with
  | none =>
    have hnone : ¬ s.TakesEnd := by
      rintro ⟨signum, receivers, hsome, -⟩
      rw [hget] at hsome
      cases hsome
    refine ⟨s, SignalTask.run_handleSignals_of_none hget, fun h ↦ absurd h hnone, fun _ ↦ ?_⟩
    rw [run_bind_of_ok (b := ()) (u := ⟨s, .all⟩)]
    · rfl
    · rw [handleOneSignal, run_get_bind, hget]
      rfl
  | some taken =>
    obtain ⟨signum, receivers⟩ := taken
    obtain ⟨hs, -⟩ := SignalTask.getOneSignal_eq_some hget
    obtain ⟨t, hrun, hends, hreturns⟩ := follows_handleSignal (s := { s with receivers }) hs
    -- the signal that ends the task is the one that is taken
    have htakes : s.TakesEnd ↔ ({ s with receivers } : SignalTask).Ends signum := by
      constructor
      · rintro ⟨signum', receivers', hsome, hend⟩
        obtain ⟨rfl, -⟩ := Prod.mk.inj (Option.some.inj (hget.symm.trans hsome))
        exact hend
      · exact fun hend ↦ ⟨signum, receivers, hget, hend⟩
    have hone : handleOneSignal.run ⟨s, .all⟩ =
        (handleSignal signum).run ⟨{ s with receivers }, .all⟩ := by
      rw [handleOneSignal, run_get_bind, hget]
      rfl
    refine ⟨t, (SignalTask.run_handleSignals_of_some hget).trans hrun, fun h ↦ ?_, fun h ↦ ?_⟩
    · obtain ⟨code, hcode⟩ := hends (htakes.mp h)
      exact ⟨code, run_bind_of_error (hone.trans hcode)⟩
    · rw [run_bind_of_ok (hone.trans (hreturns (mt htakes.mpr h)))]
      rfl

end HoldingTask

/-! ## All tasks -/

/-- The kernel, with the signals of the tasks. -/
structure SignalKernel where
  kernel : Kernel
  /-- The part of each task that signals work on, but for its handlers. -/
  tasks : ℕ → SignalTask
  tableOf : ℕ → ℕ
  /-- The handlers; a table has the number of the task that it was made for. -/
  tables : ℕ → SignalHandlers
  /-- What the stack of a task that has been left still holds. -/
  left : ℕ → Held

/-- What happens in the kernel, with the signals. -/
inductive SignalKernelEvent
  | kernel (e : KernelEvent)
  /-- Something else than a trap happens to the signals of a task. -/
  | task (task : ℕ) (e : TaskEvent)
  /-- The task of a CPU is about to return to user mode. -/
  | trap (cpu : ℕ)

namespace SignalKernel

/-- When `run_tasks` begins, there is one task. -/
def boot (tid clock : ℕ) : SignalKernel :=
  ⟨.boot tid clock, fun _ ↦ .new, fun _ ↦ 0, fun _ ↦ .new, fun _ ↦ .nothing⟩

/-- The part of a task that signals work on -/
def view (s : SignalKernel) (task : ℕ) : SignalTask :=
  { s.tasks task with handlers := s.tables (s.tableOf task) }

def put (s : SignalKernel) (task : ℕ) (t : SignalTask) : SignalKernel :=
  { s with
    tasks := Function.update s.tasks task t
    tables := Function.update s.tables (s.tableOf task) t.handlers }

/-- The task that is created next -/
def addTask (s : SignalKernel) (t : SignalTask) (table : ℕ) : SignalKernel :=
  { s with
    tasks := Function.update s.tasks s.kernel.next t
    tableOf := Function.update s.tableOf s.kernel.next table
    tables := Function.update s.tables table t.handlers }

/-- The signals after an event of the kernel, which may create a task. -/
def afterKernel (s : SignalKernel) : KernelEvent → SignalKernel
  | .clone cpu flags userStack _ =>
    match (s.kernel.cpus cpu).current with
    | some task =>
      if userStack < 0 then s
      else
        let t := s.view task
        s.addTask
          { t with
            receivers := .new
            trapCx := t.trapCx.setA0 0
            trapCxBeforeSignal := none
            signalSetSiginfo := false
            exited := none
            entered := [] }
          (if flags.contains .CLONE_SIGHAND then s.tableOf task else s.kernel.next)
    | none => s
  | .fetch _ (some _) => if s.kernel.readyQueue = [] then s.addTask .new s.kernel.next else s
  | _ => s

/-- The lock of the receivers of the task can be taken. -/
def ReceiversFree (s : SignalKernel) (task : ℕ) : Prop := (s.left task).receivers = false

/-- The lock of the handlers of the task can be taken. -/
def HandlersFree (s : SignalKernel) (task : ℕ) : Prop :=
  ∀ u < s.kernel.next, s.tableOf u = s.tableOf task → (s.left u).handlers = false

/-- The task whose handlers are locked -/
def locksHandlers (s : SignalKernel) : SignalKernelEvent → Option ℕ
  | .kernel (.clone cpu flags _ _) =>
    if flags.contains .CLONE_SIGHAND then none else (s.kernel.cpus cpu).current
  | .task task (.signal (.setAction _ _)) | .task task (.exec ..) => some task
  | .trap cpu => (s.kernel.cpus cpu).current
  | _ => none

/-- The task whose receivers are locked -/
def locksReceivers (s : SignalKernel) : SignalKernelEvent → Option ℕ
  | .task task (.signal (.send _)) | .task task (.signal (.setMask _ _))
  | .task task (.exec ..) => some task
  | .trap cpu => (s.kernel.cpus cpu).current
  | _ => none

/-- The event is not kept waiting by a lock on a stack that has been left. -/
def CanLock (s : SignalKernel) (e : SignalKernelEvent) : Prop :=
  (∀ task ∈ s.locksHandlers e, s.HandlersFree task) ∧
    ∀ task ∈ s.locksReceivers e, s.ReceiversFree task

instance {s : SignalKernel} {task : ℕ} : Decidable (s.ReceiversFree task) :=
  inferInstanceAs (Decidable (_ = _))

instance {s : SignalKernel} {task : ℕ} : Decidable (s.HandlersFree task) :=
  inferInstanceAs (Decidable (∀ u < _, _))

instance {s : SignalKernel} {e : SignalKernelEvent} : Decidable (s.CanLock e) :=
  inferInstanceAs (Decidable (_ ∧ _))

/-- The trap of a task on a CPU -/
def trap (s : SignalKernel) (cpu task : ℕ) : SignalKernel :=
  match HoldingTask.handleSignals.run ⟨s.view task, .nothing⟩ with
  | .ok _ t => { s.put task t.task with left := Function.update s.left task t.held }
  | .error (.exited code) t =>
    { s.put task t.task with
      kernel := s.kernel.exitCurrentTask cpu task (BitVec.ofInt 32 code)
      left := Function.update s.left task t.held }
  | .error (.panic _) _ => s

/-- Something happens to the signals of a task; a trap is another event. -/
def actTask (s : SignalKernel) (task : ℕ) : TaskEvent → SignalKernel
  | .signal .trap => s
  | e =>
    match e.run.run (s.view task) with
    | .ok _ t => s.put task t
    | .error _ _ => s

/-- What an event does if no lock keeps it waiting. -/
def act (s : SignalKernel) : SignalKernelEvent → SignalKernel
  | .kernel e =>
    match e.step s.kernel with
    | some kernel => { s.afterKernel e with kernel }
    | none => s
  | .task task e => s.actTask task e
  | .trap cpu =>
    match s.kernel.cpus cpu with
    | ⟨some task, .running .user⟩ => s.trap cpu task
    | _ => s

/-- An event that waits for a lock changes nothing. -/
def step (s : SignalKernel) (e : SignalKernelEvent) : SignalKernel :=
  if s.CanLock e then s.act e else s

/-! ## What is to be released -/

/-- There is no strong reference to the task. -/
def Freed (s : SignalKernel) (task : ℕ) : Prop :=
  (∀ p, ¬ s.kernel.At task p) ∧ (∀ parent < s.kernel.next, task ∉ (s.kernel.tcb parent).children) ∧
    (s.left task).task = false

/-- No stack that has been left holds anything; so that every task can lock its handlers, and a task
is freed when it has been reaped. -/
structure Released (s : SignalKernel) : Prop where
  left : ∀ task, s.left task = .nothing
  locks : ∀ task, s.HandlersFree task
  freed : ∀ task, s.kernel.Dropped task → s.Freed task

/-- If the event is a trap, it takes no signal that ends the task. -/
def NoneEnds (s : SignalKernel) : SignalKernelEvent → Prop
  | .trap cpu => ∀ task, s.kernel.cpus cpu = ⟨some task, .running .user⟩ → ¬ (s.view task).TakesEnd
  | _ => True

/-- If the event is a trap, it takes no signal that ends the task in a handler. -/
def NoneFaults (s : SignalKernel) : SignalKernelEvent → Prop
  | .trap cpu => ∀ task, s.kernel.cpus cpu = ⟨some task, .running .user⟩ →
      (s.view task).TakesEnd → (s.view task).trapCxBeforeSignal = none
  | _ => True

variable {s : SignalKernel} {e : SignalKernelEvent} {cpu task : ℕ}

/-! ## One event -/

/-- A trap that takes a signal that ends the task leaves its stack. -/
theorem trap_of_takesEnd (cpu : ℕ) (h : (s.view task).TakesEnd) : ∃ code t, s.trap cpu task =
    { s.put task t with
      kernel := s.kernel.exitCurrentTask cpu task code
      left := Function.update s.left task (s.view task).leaves } := by
  obtain ⟨t, -, hends, -⟩ := HoldingTask.run_handleSignals (s.view task)
  obtain ⟨code, hrun⟩ := hends h
  rw [trap, hrun]
  exact ⟨_, t, rfl⟩

theorem trap_of_not_takesEnd (cpu : ℕ) (h : ¬ (s.view task).TakesEnd) : ∃ t, s.trap cpu task =
    { s.put task t with left := Function.update s.left task .nothing } := by
  obtain ⟨t, -, -, hreturns⟩ := HoldingTask.run_handleSignals (s.view task)
  rw [trap, hreturns h]
  exact ⟨t, rfl⟩

theorem afterKernel_left (e : KernelEvent) : (s.afterKernel e).left = s.left := by
  rw [afterKernel.eq_def]
  split
  · split
    · split_ifs
      · rfl
      · rfl
      · rfl
    · rfl
  · split_ifs
    · rfl
    · rfl
  · rfl

theorem actTask_eq (task : ℕ) (e : TaskEvent) :
    (s.actTask task e).left = s.left ∧ (s.actTask task e).kernel = s.kernel := by
  rw [actTask.eq_def]
  split
  · exact ⟨rfl, rfl⟩
  · split
    · exact ⟨rfl, rfl⟩
    · exact ⟨rfl, rfl⟩

/-- What an event can do: it goes on in the kernel or at a task, and leaves no stack, or is a
trap. -/
theorem act_cases (s : SignalKernel) (e : SignalKernelEvent) :
    ((s.act e).left = s.left ∧
      ((s.act e).kernel = s.kernel ∨ ∃ e', KernelEvent.step s.kernel e' = some (s.act e).kernel)) ∨
    ∃ cpu task, e = .trap cpu ∧ s.kernel.cpus cpu = ⟨some task, .running .user⟩ ∧
      s.act e = s.trap cpu task := by
  cases e with
  | kernel e =>
    rw [act]
    cases hstep : e.step s.kernel with
    | some k => exact .inl ⟨afterKernel_left e, .inr ⟨e, hstep⟩⟩
    | none => exact .inl ⟨rfl, .inl rfl⟩
  | task task e =>
    obtain ⟨hleft, hkernel⟩ := s.actTask_eq task e
    exact .inl ⟨hleft, .inl hkernel⟩
  | trap cpu =>
    by_cases hcpu : ∃ task, s.kernel.cpus cpu = ⟨some task, .running .user⟩
    · obtain ⟨task, hcpu⟩ := hcpu
      refine .inr ⟨cpu, task, rfl, hcpu, ?_⟩
      rw [act, hcpu]
    · -- a trap of a CPU that runs no user code does nothing
      have hact : s.act (.trap cpu) = s := by
        rw [act]
        split
        · rename_i task hrunning
          exact absurd ⟨task, hrunning⟩ hcpu
        · rfl
      rw [hact]
      exact .inl ⟨rfl, .inl rfl⟩

theorem placed_step (h : s.kernel.Placed) : (s.step e).kernel.Placed := by
  rw [step]
  split_ifs
  · rcases s.act_cases e with ⟨-, hkernel | ⟨e', hstep⟩⟩ | ⟨cpu, task, -, hcpu, hact⟩
    · rw [hkernel]
      exact h
    · exact h.trans (Kernel.trans_of_step hstep)
    · rw [hact]
      by_cases hends : (s.view task).TakesEnd
      · obtain ⟨code, t, htrap⟩ := trap_of_takesEnd cpu hends
        rw [htrap]
        exact h.trans (.exit (e := .exit cpu code) code hcpu)
      · obtain ⟨t, htrap⟩ := trap_of_not_takesEnd cpu hends
        rw [htrap]
        exact h
  · exact h

/-- No stack that has been left holds a lock. -/
def Unlocked (s : SignalKernel) : Prop :=
  ∀ task, (s.left task).receivers = false ∧ (s.left task).handlers = false

theorem Unlocked.canLock (h : s.Unlocked) (e : SignalKernelEvent) : s.CanLock e :=
  ⟨fun _ _ u _ _ ↦ (h u).2, fun task _ ↦ (h task).1⟩

theorem unlocked_of_left (h : ∀ task, s.left task = .nothing) : s.Unlocked := by
  intro task
  rw [h task]
  exact ⟨rfl, rfl⟩

/-- What a trap leaves, where no lock keeps it waiting. -/
theorem step_left (h : s.Unlocked) (e : SignalKernelEvent) :
    (s.step e).left = s.left ∨ ∃ cpu task, e = .trap cpu ∧
      s.kernel.cpus cpu = ⟨some task, .running .user⟩ ∧
      ((s.view task).TakesEnd ∧
          (s.step e).left = Function.update s.left task (s.view task).leaves ∨
        ¬ (s.view task).TakesEnd ∧
          (s.step e).left = Function.update s.left task .nothing) := by
  rw [step, if_pos (h.canLock e)]
  rcases s.act_cases e with ⟨hleft, -⟩ | ⟨cpu, task, he, hcpu, hact⟩
  · exact .inl hleft
  · refine .inr ⟨cpu, task, he, hcpu, ?_⟩
    rw [hact]
    by_cases hends : (s.view task).TakesEnd
    · obtain ⟨code, t, htrap⟩ := trap_of_takesEnd cpu hends
      rw [htrap]
      exact .inl ⟨hends, rfl⟩
    · obtain ⟨t, htrap⟩ := trap_of_not_takesEnd cpu hends
      rw [htrap]
      exact .inr ⟨hends, rfl⟩

theorem step_trap (h : s.Unlocked) (hcpu : s.kernel.cpus cpu = ⟨some task, .running .user⟩) :
    s.step (.trap cpu) = s.trap cpu task := by
  rw [step, if_pos (h.canLock _), act, hcpu]

/-! ## Nothing is left -/

/-- The kernel as `run_tasks` knows it, with stacks that hold nothing. -/
structure Quiet (s : SignalKernel) : Prop where
  placed : s.kernel.Placed
  left : ∀ task, s.left task = .nothing

theorem quiet_boot (tid clock : ℕ) : (boot tid clock).Quiet :=
  ⟨Kernel.placed_boot tid clock, fun _ ↦ rfl⟩

/-- A zombie is in no place, so that its parent has the last reference. -/
theorem Quiet.released (h : s.Quiet) : s.Released := by
  refine ⟨h.left, fun task u _ _ ↦ (unlocked_of_left h.left u).2, fun task hdropped ↦ ?_⟩
  refine ⟨fun p hat ↦ h.placed.ne_zombie hat hdropped.1, hdropped.2, ?_⟩
  rw [h.left task]
  rfl

theorem Quiet.step (h : s.Quiet) (hnone : s.NoneEnds e) : (s.step e).Quiet := by
  refine ⟨placed_step h.placed, ?_⟩
  rcases step_left (unlocked_of_left h.left) e with hleft | ⟨cpu, task, rfl, hcpu, hleft⟩
  · rw [hleft]
    exact h.left
  · obtain ⟨-, hleft⟩ := hleft.resolve_left fun hends ↦ hnone task hcpu hends.1
    rw [hleft]
    exact (Function.forall_update_iff s.left fun _ held ↦ held = .nothing).mpr
      ⟨rfl, fun u _ ↦ h.left u⟩

/-- A trap that ends a task leaves a reference to it. -/
theorem Quiet.released_step_iff (h : s.Quiet) : (s.step e).Released ↔ s.NoneEnds e := by
  constructor
  · intro hreleased
    cases e with
    | kernel | task => trivial
    | trap cpu =>
      intro task hcpu hends
      have hleft := hreleased.left task
      obtain ⟨code, t, htrap⟩ := trap_of_takesEnd cpu hends
      rw [step_trap (unlocked_of_left h.left) hcpu, htrap] at hleft
      dsimp only at hleft
      rw [Function.update_self] at hleft
      have htask : (s.view task).leaves.task = true := SignalTask.leaves_task
      rw [hleft] at htask
      exact absurd htask (by decide)
  · exact fun hnone ↦ (h.step hnone).released

/-! ## No lock is left -/

/-- A stack is left with no lock. -/
theorem Unlocked.update (h : s.Unlocked) {s' : SignalKernel} {held : Held}
    (hleft : s'.left = Function.update s.left task held)
    (hheld : held.receivers = false ∧ held.handlers = false) : s'.Unlocked := by
  rw [Unlocked, hleft]
  exact (Function.forall_update_iff s.left fun _ held ↦
    held.receivers = false ∧ held.handlers = false).mpr ⟨hheld, fun u _ ↦ h u⟩

theorem Unlocked.step (h : s.Unlocked) (hnone : s.NoneFaults e) : (s.step e).Unlocked := by
  rcases step_left h e with hleft | ⟨cpu, task, rfl, hcpu, hleft⟩
  · rw [Unlocked, hleft]
    exact h
  · rcases hleft with ⟨hends, hleft⟩ | ⟨-, hleft⟩
    · -- the slot was empty, so that the locks were dropped by hand
      rw [SignalTask.leaves_of_none (hnone task hcpu hends)] at hleft
      exact h.update hleft ⟨rfl, rfl⟩
    · exact h.update hleft ⟨rfl, rfl⟩

/-- A trap that ends a task in a handler leaves the lock of its handlers. -/
theorem handlersFree_step_iff (hp : s.kernel.Placed) (h : s.Unlocked) :
    (∀ task, (s.step e).HandlersFree task) ↔ s.NoneFaults e := by
  constructor
  · intro hfree
    cases e with
    | kernel | task => trivial
    | trap cpu =>
      intro task hcpu hends
      by_contra hslot
      have hlock := hfree task
      obtain ⟨code, t, htrap⟩ := trap_of_takesEnd cpu hends
      rw [step_trap h hcpu, htrap] at hlock
      have hheld := hlock task (hp.current_lt hcpu) rfl
      dsimp only at hheld
      rw [Function.update_self, SignalTask.leaves_of_ne_none hslot] at hheld
      exact absurd hheld (by decide)
  · exact fun hnone task u _ _ ↦ ((h.step hnone) u).2

/-- **What an exit releases.** On every way out that ends the task, `handle_signals` holds the
reference to it, and in a handler also the locks. In every run, what it takes is released at every
step if and only if no trap ends a task; and the handlers can be locked at every step if and only if
no trap ends a task in a handler. -/
theorem exits_release_iff (tid clock : ℕ) (events : List SignalKernelEvent) :
    (∀ s : SignalTask, s.TakesEnd → ∃ t code,
      HoldingTask.handleSignals.run ⟨s, .nothing⟩ = .error (.exited code) ⟨t, s.leaves⟩) ∧
    (Throughout step (fun s e ↦ (s.step e).Released) (boot tid clock) events ↔
      Throughout step NoneEnds (boot tid clock) events) ∧
    (Throughout step (fun s e ↦ ∀ task, (s.step e).HandlersFree task) (boot tid clock) events ↔
      Throughout step NoneFaults (boot tid clock) events) := by
  have hquiet := quiet_boot tid clock
  have hall : Throughout step (fun _ _ ↦ True) (boot tid clock) events :=
    Throughout.of_forall (fun _ _ ↦ trivial) _ _
  refine ⟨fun s hends ↦ ?_, ?_, ?_⟩
  · obtain ⟨t, -, hexits, -⟩ := HoldingTask.run_handleSignals s
    obtain ⟨code, hrun⟩ := hexits hends
    exact ⟨t, code, hrun⟩
  · exact Throughout.iff (I := Quiet) hall hquiet (fun _ _ h _ ↦ h.released_step_iff)
      fun _ _ h _ hnone ↦ h.step hnone
  · refine Throughout.iff (I := fun s ↦ s.kernel.Placed ∧ s.Unlocked) hall
      ⟨hquiet.placed, unlocked_of_left hquiet.left⟩ (fun _ _ h _ ↦ handlersFree_step_iff h.1 h.2)
      fun _ _ h _ hnone ↦ ⟨placed_step h.1, h.2.step hnone⟩

/-! ## A task that stays and a lock that stays -/

/-- The first task makes another with the flags, which is switched in on the CPU 1 and does what is
given. -/
def twoTasks (flags : CloneFlags) (events : List SignalKernelEvent) : SignalKernel :=
  let start : List KernelEvent :=
    Kernel.switchIn 0 ++ [.clone 0 flags 0 3, .push 0] ++ Kernel.switchIn 1
  events.foldl step (start.foldl (fun s e ↦ s.step (.kernel e)) (boot 2 0))

/-- `SIGTERM` ends the second task, and its parent reaps it; it is not freed. In the other run both
share their handlers, and the second has a fault in a handler; the first waits for the lock. -/
theorem exits_leave :
    (∃ s, s = twoTasks 0 [.task 1 (.signal (.send 15)), .trap 1, .kernel (.take 1),
        .kernel (.switchedOut 1), .kernel (.wait4 0 (-1) 0), .kernel (.waitpid 0)] ∧
      s.kernel.Dropped 1 ∧ ¬ s.Freed 1) ∧
    ∃ s, s = twoTasks .CLONE_SIGHAND [.task 1 (.signal (.setAction 10 ⟨0x1000, 0, 0, 0⟩)),
        .task 1 (.signal (.send 10)), .trap 1, .task 1 (.signal (.send 11)), .trap 1] ∧
      (s.left 1).receivers = true ∧ ¬ s.HandlersFree 0 ∧ ¬ s.CanLock (.trap 0) := by
  refine ⟨⟨_, rfl, by decide +kernel, fun h ↦ ?_⟩, _, rfl, by decide +kernel, by decide +kernel,
    by decide +kernel⟩
  exact absurd h.2.2 (by decide +kernel)

end SignalKernel

end Maturin
