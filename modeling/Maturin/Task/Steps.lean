import Maturin.Task.Kernel

/-!
# Runs of the kernel

`Trans` says once what a step can do; what every run preserves is proved from it. A run also keeps a
log of the exits and waits, which the kernel itself forgets.
-/

namespace Maturin

/-- A futex wait in progress: the address, the timeout and the time at which it began. -/
structure FutexWait where
  uaddr : ℕ
  timeout : Option TimeSpec
  since : ℕ
  deriving DecidableEq

/-- What the log keeps of a step. -/
inductive Note
  | exited (task : ℕ) (exitCode : BitVec 32)
  /-- A round of `sys_wait4`, and the child that it returns with its exit code. -/
  | waited (task : ℕ) (pid : ℤ) (child : Option (ℕ × BitVec 32))
  /-- The task found the expected value and waits. -/
  | waits (task : ℕ) (wait : FutexWait)
  | resumed (task : ℕ)
  deriving DecidableEq

namespace KernelEvent

/-- What the log keeps of an event. -/
def note (k : Kernel) : KernelEvent → Option Note
  | exit cpu exitCode => (k.cpus cpu).current.map (.exited · exitCode)
  | exec cpu false => (k.cpus cpu).current.map (.exited · 0)
  | waitpid cpu =>
    match k.cpus cpu with
    | ⟨some task, .running (.wait4 pid _)⟩ =>
      match k.waitpid task pid with
      | .found idx exitCode _ =>
        some (.waited task pid ((k.tcb task).children[idx]?.map (·, exitCode)))
      | _ => some (.waited task pid none)
    | _ => none
  | futex cpu uaddr futexOp val word timeout =>
    if futexOperation futexOp = .WAIT ∧ word = some val then
      (k.cpus cpu).current.map (.waits · ⟨uaddr, timeout, k.clock⟩)
    else none
  | switchInto cpu => (k.cpus cpu).pc.held.map .resumed
  | _ => none

end KernelEvent

namespace Kernel

variable {k k' : Kernel} {cpu task tid : ℕ} {e : KernelEvent}

/-- What a step can do: the kernel after the event, and what the log keeps of it. -/
inductive Trans (k : Kernel) : KernelEvent → Option Note → Kernel → Prop
  | fetch {cpu task : ℕ} {testcase : Option ℕ} {rest : List ℕ} (hpc : (k.cpus cpu).pc = .idle)
      (hqueue : k.readyQueue = task :: rest) :
      Trans k (.fetch cpu testcase) none ({ k with readyQueue := rest }.setPc cpu (.fetched task))
  | load {cpu tid : ℕ} (hpc : (k.cpus cpu).pc = .idle) (hqueue : k.readyQueue = [])
      (hfree : k.Free tid) :
      Trans k (.fetch cpu (some tid)) none
        ((k.create (.fromAppName NO_PARENT tid)).setPc cpu (.fetched k.next))
  | halt {cpu : ℕ} (hpc : (k.cpus cpu).pc = .idle) :
      Trans k (.fetch cpu none) none (k.setPc cpu .halted)
  | check {cpu task : ℕ} (hpc : (k.cpus cpu).pc = .fetched task) :
      Trans k (.check cpu) none (k.checkThreadBlocked cpu task)
  | switchInto {cpu task : ℕ} (hpc : (k.cpus cpu).pc = .unblocked task) :
      Trans k (.switchInto cpu) (some (.resumed task)) (k.switchInto cpu task)
  | repush {cpu task : ℕ} (hpc : (k.cpus cpu).pc = .blocked task) :
      Trans k (.push cpu) none ((k.pushTaskToScheduler task).setPc cpu .idle)
  | pushNew {cpu task : ℕ} (hpc : (k.cpus cpu).pc = .cloned task) :
      Trans k (.push cpu) none ((k.pushTaskToScheduler task).setPc cpu (.running .user))
  | clone {cpu task tid : ℕ} {flags : CloneFlags} {userStack : ℤ}
      (hcpu : k.cpus cpu = ⟨some task, .running .user⟩) (hstack : 0 ≤ userStack)
      (hfree : k.Free tid) :
      Trans k (.clone cpu flags userStack tid) none
        ((k.fromClone task flags tid).setPc cpu (.cloned k.next))
  /-- The task is suspended, in whatever call. -/
  | suspend {e : KernelEvent} {note : Option Note} {cpu task : ℕ} {cx : Resume} (cx' : Resume)
      (hcpu : k.cpus cpu = ⟨some task, .running cx⟩)
      (hnote : ∀ n ∈ note, ∃ pid, n = .waited task pid none ∧ k.waitpid task pid = .notExited) :
      Trans k e note (k.suspendCurrentTask cpu task cx')
  | futexWait {cpu task uaddr : ℕ} {futexOp val : BitVec 32} {word : Option (BitVec 32)}
      {timeout : Option TimeSpec} (hcpu : k.cpus cpu = ⟨some task, .running .user⟩) :
      Trans k (.futex cpu uaddr futexOp val word timeout)
        (some (.waits task ⟨uaddr, timeout, k.clock⟩))
        ({ k with
          waitingBoard := k.waitingBoard.setWaiterForThread (k.tcb task).tid
            (.new (timedOut timeout)) }.suspendCurrentTask cpu task .user)
  | exit {e : KernelEvent} {cpu task : ℕ} (exitCode : BitVec 32)
      (hcpu : k.cpus cpu = ⟨some task, .running .user⟩) :
      Trans k e (some (.exited task exitCode)) (k.exitCurrentTask cpu task exitCode)
  | exec {cpu task : ℕ} (hcpu : k.cpus cpu = ⟨some task, .running .user⟩) :
      Trans k (.exec cpu true) none (k.modify task ({ · with taskCx := .user }))
  /-- The call fails and changes nothing. -/
  | fail {e : KernelEvent} : Trans k e none k
  /-- The task enters `sys_wait4`, or leaves it without a child. -/
  | goOn {e : KernelEvent} {note : Option Note} {cpu task : ℕ} {cx : Resume} (cx' : Resume)
      (hcpu : k.cpus cpu = ⟨some task, .running cx⟩)
      (hnote : ∀ n ∈ note, ∃ pid, n = .waited task pid none ∧
        (k.waitpid task pid = .notExited ∨ k.waitpid task pid = .noChild)) :
      Trans k e note (k.setPc cpu (.running cx'))
  | reap {cpu task idx : ℕ} {pid pidFound : ℤ} {option exitCode : BitVec 32}
      (hcpu : k.cpus cpu = ⟨some task, .running (.wait4 pid option)⟩)
      (hfound : k.waitpid task pid = .found idx exitCode pidFound) :
      Trans k (.waitpid cpu)
        (some (.waited task pid ((k.tcb task).children[idx]?.map (·, exitCode))))
        ((k.modify task fun t ↦ { t with children := t.children.eraseIdx idx }).setPc cpu
          (.running .user))
  | take {cpu task : ℕ} (hcpu : k.cpus cpu = ⟨some task, .left⟩) :
      Trans k (.take cpu) none (k.setCpu cpu none (.taken task))
  | requeue {cpu task : ℕ} (hpc : (k.cpus cpu).pc = .taken task)
      (hstatus : (k.tcb task).taskStatus = .ready) :
      Trans k (.switchedOut cpu) none ((k.pushTaskToScheduler task).setPc cpu .idle)
  | zombie {cpu task : ℕ} (hpc : (k.cpus cpu).pc = .taken task)
      (hstatus : (k.tcb task).taskStatus = .dying) :
      Trans k (.switchedOut cpu) none ((k.handleZombieTask task).setPc cpu .idle)
  | tick {clock : ℕ} (h : k.clock ≤ clock) : Trans k (.tick clock) none { k with clock }

theorem of_inUser {f : ℕ → Option Kernel} (h : k.inUser cpu f = some k') :
    ∃ task, k.cpus cpu = ⟨some task, .running .user⟩ ∧ f task = some k' := by
  rw [inUser] at h
  split at h
  · rename_i task hcpu
    exact ⟨task, hcpu, h⟩
  · exact absurd h (by simp)

theorem trans_fetch {testcase : Option ℕ}
    (h : (KernelEvent.fetch cpu testcase).step k = some k') :
    Trans k (.fetch cpu testcase) none k' := by
  rw [KernelEvent.step] at h
  split at h
  · rename_i hpc
    cases hqueue : k.readyQueue with
    | cons task rest =>
      rw [fetchTaskFromScheduler.eq_def, hqueue] at h
      obtain rfl := Option.some.inj h
      exact .fetch hpc hqueue
    | nil =>
      rw [fetchTaskFromScheduler.eq_def, hqueue] at h
      cases testcase with
      | none =>
        obtain rfl := Option.some.inj h
        exact .halt hpc
      | some tid =>
        dsimp only at h
        split_ifs at h with _ hfree
        · obtain rfl := Option.some.inj h
          exact .load hpc hqueue hfree
        · exact absurd rfl ‹¬ _›
  · exact absurd h (by simp)

theorem trans_waitpid (h : (KernelEvent.waitpid cpu).step k = some k') :
    Trans k (.waitpid cpu) ((KernelEvent.waitpid cpu).note k) k' := by
  rw [KernelEvent.step] at h
  split at h
  · rename_i task pid option hcpu
    obtain rfl := Option.some.inj h
    rw [sysWait4, KernelEvent.note, hcpu]
    dsimp only
    cases hflag : k.waitpid task pid with
    | noChild =>
      refine .goOn .user hcpu ?_
      intro n hn
      exact ⟨pid, (Option.mem_some_iff.mp hn).symm, .inr hflag⟩
    | notExited =>
      dsimp only
      split_ifs
      · refine .goOn .user hcpu ?_
        intro n hn
        exact ⟨pid, (Option.mem_some_iff.mp hn).symm, .inl hflag⟩
      · refine .suspend _ hcpu ?_
        intro n hn
        exact ⟨pid, (Option.mem_some_iff.mp hn).symm, hflag⟩
    | found idx exitCode pidFound => exact .reap hcpu hflag
  · exact absurd h (by simp)

theorem trans_futex {uaddr : ℕ} {futexOp val : BitVec 32} {word : Option (BitVec 32)}
    {timeout : Option TimeSpec}
    (h : (KernelEvent.futex cpu uaddr futexOp val word timeout).step k = some k') :
    Trans k (.futex cpu uaddr futexOp val word timeout)
      ((KernelEvent.futex cpu uaddr futexOp val word timeout).note k) k' := by
  obtain ⟨task, hcpu, h⟩ := of_inUser h
  obtain rfl := Option.some.inj h
  rw [sysFutex, KernelEvent.note, hcpu]
  cases hop : futexOperation futexOp with
  | WAIT =>
    by_cases hword : word = some val
    · rw [if_pos ⟨rfl, hword⟩]
      dsimp only
      rw [if_pos hword]
      exact .futexWait hcpu
    · rw [if_neg (fun hand ↦ hword hand.2)]
      dsimp only
      rw [if_neg hword]
      exact .fail
  | WAKE => exact .suspend _ hcpu (by simp)
  | REQUEUE => exact .fail
  | UNSUPPORTED => exact .fail

/-- Every step is one of these. -/
theorem trans_of_step (h : e.step k = some k') : Trans k e (e.note k) k' := by
  cases e with
  | fetch cpu testcase => exact trans_fetch h
  | waitpid cpu => exact trans_waitpid h
  | futex cpu uaddr futexOp val word timeout => exact trans_futex h
  | check cpu =>
    rw [KernelEvent.step] at h
    split at h
    · rename_i hpc
      obtain rfl := Option.some.inj h
      exact .check hpc
    · exact absurd h (by simp)
  | switchInto cpu =>
    rw [KernelEvent.step] at h
    split at h
    · rename_i hpc
      obtain rfl := Option.some.inj h
      rw [KernelEvent.note, hpc]
      exact .switchInto hpc
    · exact absurd h (by simp)
  | push cpu =>
    rw [KernelEvent.step] at h
    split at h
    · rename_i hpc
      obtain rfl := Option.some.inj h
      exact .repush hpc
    · rename_i hpc
      obtain rfl := Option.some.inj h
      exact .pushNew hpc
    · exact absurd h (by simp)
  | clone cpu flags userStack tid =>
    obtain ⟨task, hcpu, h⟩ := of_inUser h
    rw [sysClone] at h
    split_ifs at h with hstack hfree
    · obtain rfl := Option.some.inj h
      exact .fail
    · obtain rfl := Option.some.inj h
      exact .clone hcpu (Int.not_lt.mp hstack) hfree
  | suspend cpu =>
    obtain ⟨task, hcpu, h⟩ := of_inUser h
    obtain rfl := Option.some.inj h
    exact .suspend _ hcpu (by simp [KernelEvent.note])
  | exec cpu loaded =>
    obtain ⟨task, hcpu, h⟩ := of_inUser h
    obtain rfl := Option.some.inj h
    cases loaded with
    | true => exact .exec hcpu
    | false =>
      rw [KernelEvent.note, hcpu]
      exact .exit 0 hcpu
  | exit cpu exitCode =>
    obtain ⟨task, hcpu, h⟩ := of_inUser h
    obtain rfl := Option.some.inj h
    rw [KernelEvent.note, hcpu]
    exact .exit exitCode hcpu
  | wait4 cpu pid option =>
    obtain ⟨task, hcpu, h⟩ := of_inUser h
    obtain rfl := Option.some.inj h
    exact .goOn _ hcpu (by simp [KernelEvent.note])
  | take cpu =>
    rw [KernelEvent.step] at h
    split at h
    · rename_i hcpu
      obtain rfl := Option.some.inj h
      exact .take hcpu
    · exact absurd h (by simp)
  | switchedOut cpu =>
    rw [KernelEvent.step] at h
    split at h
    · rename_i hpc
      rw [Kernel.switchedOut] at h
      split at h
      · rename_i hstatus
        obtain rfl := Option.some.inj h
        exact .requeue hpc hstatus
      · rename_i hstatus
        rw [if_neg (by simp)] at h
        obtain rfl := Option.some.inj h
        exact .zombie hpc hstatus
      · exact absurd h (by simp)
    · exact absurd h (by simp)
  | tick clock =>
    rw [KernelEvent.step] at h
    split_ifs at h with hle
    obtain rfl := Option.some.inj h
    exact .tick hle

/-! ## Runs -/

/-- A run from a kernel and a log, each of whose events satisfies `ok`; the last note comes
first. -/
inductive Run (ok : KernelEvent → Kernel → List Note → Prop) (k : Kernel) (log : List Note) :
    Kernel → List Note → Prop
  | refl : Run ok k log k log
  | step {e : KernelEvent} {k' k'' : Kernel} {log' : List Note} (h : Run ok k log k' log')
      (hok : ok e k' log') (hstep : e.step k' = some k'') :
      Run ok k log k'' ((e.note k').toList ++ log')

/-- Any event. -/
def anyEvent (_e : KernelEvent) (_k : Kernel) (_log : List Note) : Prop := True

/-- What a run from the boot reaches. -/
def Reached (ok : KernelEvent → Kernel → List Note → Prop) (k : Kernel) (log : List Note) : Prop :=
  ∃ tid clock, 2 ≤ tid ∧ tid < TID_LIMIT ∧ Run ok (boot tid clock) [] k log

variable {ok ok' : KernelEvent → Kernel → List Note → Prop} {log log' : List Note}

theorem Run.mono (h : Run ok k log k' log') (himp : ∀ e k log, ok e k log → ok' e k log) :
    Run ok' k log k' log' := by
  induction h with
  | refl => exact .refl
  | step _ hok hstep ih => exact ih.step (himp _ _ _ hok) hstep

theorem Reached.mono (h : Reached ok k log) (himp : ∀ e k log, ok e k log → ok' e k log) :
    Reached ok' k log := by
  obtain ⟨tid, clock, hle, hlt, hrun⟩ := h
  exact ⟨tid, clock, hle, hlt, hrun.mono himp⟩

/-- What holds at the boot and is kept by every step holds in every run. -/
theorem Reached.inv {I : Kernel → List Note → Prop}
    (hboot : ∀ tid clock, 2 ≤ tid → tid < TID_LIMIT → I (boot tid clock) [])
    (hstep : ∀ {e k log note k'}, Reached ok k log → I k log → ok e k log → Trans k e note k' →
      I k' (note.toList ++ log))
    (h : Reached ok k log) : I k log := by
  obtain ⟨tid, clock, hle, hlt, hrun⟩ := h
  induction hrun with
  | refl => exact hboot tid clock hle hlt
  | step hrun hok hs ih => exact hstep ⟨tid, clock, hle, hlt, hrun⟩ ih hok (trans_of_step hs)

/-- Executes events, each of which has to pass a test. -/
def replay (test : KernelEvent → Kernel → List Note → Bool) :
    List KernelEvent → Kernel × List Note → Option (Kernel × List Note)
  | [], s => some s
  | e :: es, (k, log) =>
    if test e k log then
      match e.step k with
      | some k' => replay test es (k', (e.note k).toList ++ log)
      | none => none
    else none

theorem run_of_replay {test : KernelEvent → Kernel → List Note → Bool}
    (htest : ∀ e k log, test e k log = true → ok e k log) {es : List KernelEvent}
    {s s' : Kernel × List Note} (h : replay test es s = some s') :
    ∀ {k log}, Run ok k log s.1 s.2 → Run ok k log s'.1 s'.2 := by
  induction es generalizing s with
  | nil =>
    intro k log hrun
    obtain rfl := Option.some.inj h
    exact hrun
  | cons e es ih =>
    intro k log hrun
    obtain ⟨k₁, log₁⟩ := s
    rw [replay] at h
    split_ifs at h with hok
    split at h
    · rename_i k₂ hstep
      exact ih h (hrun.step (htest e k₁ log₁ hok) hstep)
    · exact absurd h (by simp)

/-- What concrete events reach. -/
theorem reached_of_replay (ok : KernelEvent → Kernel → List Note → Prop)
    (test : KernelEvent → Kernel → List Note → Bool) (es : List KernelEvent)
    (P : Kernel × List Note → Bool) (htest : ∀ e k log, test e k log = true → ok e k log)
    (h : (replay test es (boot 2 0, [])).any P = true) :
    ∃ k log, Reached ok k log ∧ P (k, log) = true := by
  obtain ⟨⟨k, log⟩, hs, hP⟩ := (Option.any_eq_true _ _).mp h
  exact ⟨k, log, ⟨2, 0, le_rfl, by decide, run_of_replay htest hs .refl⟩, hP⟩

end Kernel

end Maturin
