import Maturin.Task.Futex
import Maturin.Base.Error
import Mathlib.Data.Finset.Card
import Mathlib.Data.Finset.Filter
import Mathlib.Data.Finset.Range

/-!
# Whom a futex wakes

`FUTEX_WAKE` is to wake at most `val` of the tasks that wait at its address, and to return how many
it has woken. It gives up the CPU and returns `val`. The board of waiters is as before, and it does
not even hold the addresses at which the tasks wait.
-/

namespace Maturin

/-- What `sys_futex` returns, where `word` is what is at the address, if that is valid. -/
def futexResult (futexOp val : BitVec 32) (word : Option (BitVec 32)) : Except ErrorNo ℕ :=
  match futexOperation futexOp with
  | .WAIT =>
    match word with
    | some realVal => if realVal ≠ val then .error .EAGAIN else .ok 0
    | none => .error .EFAULT
  | .WAKE => .ok val.toNat
  | _ => .error .EINVAL

namespace Kernel

variable {k k' : Kernel} {cpu task t uaddr : ℕ} {futexOp val : BitVec 32}
  {word : Option (BitVec 32)} {timeout : Option TimeSpec} {log : List Note} {wait : FutexWait}
  {ok : KernelEvent → Kernel → List Note → Prop}

/-- `check_thread_blocked` keeps the task from being switched in. -/
def Blocked (k : Kernel) (task : ℕ) : Prop :=
  (k.waitingBoard.checkThreadBlocked (k.tcb task).tid k.clock).1 = true

instance (k : Kernel) (task : ℕ) : Decidable (k.Blocked task) :=
  inferInstanceAs (Decidable (_ = _))

/-- The tasks that wait at an address. -/
def waitersAt (k : Kernel) (log : List Note) (uaddr : ℕ) : Finset ℕ :=
  {t ∈ Finset.range k.next | (waitOf t log).map FutexWait.uaddr = some uaddr ∧ k.Blocked t}

/-- The tasks that wait at an address, and that a step lets go. -/
def wokenAt (k k' : Kernel) (log : List Note) (uaddr : ℕ) : Finset ℕ :=
  {t ∈ k.waitersAt log uaddr | ¬k'.Blocked t}

/-- What a call that is to wake `val` tasks at an address should do. -/
structure WakesUpTo (k k' : Kernel) (log : List Note) (uaddr : ℕ) (val : BitVec 32)
    (result : Except ErrorNo ℕ) : Prop where
  result_eq : result = .ok (k.wokenAt k' log uaddr).card
  card_eq : (k.wokenAt k' log uaddr).card = min val.toNat (k.waitersAt log uaddr).card
  others : ∀ uaddr', uaddr' ≠ uaddr → k.wokenAt k' log uaddr' = ∅

/-- A wait lasts until the clock reaches the time in the waiter. -/
theorem Reached.mem_waitersAt (h : Reached ok k log) (hwait : waitOf t log = some wait)
    (hnot : ¬k.Unblocked t) :
    t ∈ k.waitersAt log wait.uaddr ↔ getTimeUs k.clock < wait.waiter.timedOutUs := by
  have hw := h.waiting hwait
  have hblocked := WaitingBoard.checkThreadBlocked_of_waiterOf k.clock (hw.waiter hnot)
  rw [waitersAt, Finset.mem_filter, Finset.mem_range, hwait, Option.map_some, Blocked, hblocked,
    FutexWait.isWoken_waiter]
  simp [hw.lt_next]

/-- A wake leaves the board, the clock and the `tid`s. -/
theorem blocked_of_wake (hop : futexOperation futexOp = .WAKE)
    (hstep : (KernelEvent.futex cpu uaddr futexOp val word timeout).step k = some k') (t : ℕ) :
    k'.Blocked t ↔ k.Blocked t := by
  rw [KernelEvent.step, inUser] at hstep
  split at hstep
  case h_2 => cases hstep
  case h_1 task hcpu =>
    obtain rfl := Option.some.inj hstep
    rw [sysFutex, hop]
    dsimp only
    have htid : ((k.suspendCurrentTask cpu task .user).tcb t).tid = (k.tcb t).tid := by
      by_cases ht : t = task
      · rw [ht, suspendCurrentTask_tcb_self]
      · rw [suspendCurrentTask_tcb_of_ne ht]
    rw [Blocked, htid]
    rfl

theorem wokenAt_eq_empty (log : List Note) (h : ∀ t, k'.Blocked t ↔ k.Blocked t) (uaddr : ℕ) :
    k.wokenAt k' log uaddr = ∅ := by
  refine Finset.filter_eq_empty_iff.mpr fun t ht ↦ not_not.mpr ((h t).mpr ?_)
  exact (Finset.mem_filter.mp ht).2.2

/-- **A wake does what it should only if it is to wake nobody**, whoever waits. -/
theorem wakesUpTo_iff (hop : futexOperation futexOp = .WAKE)
    (hstep : (KernelEvent.futex cpu uaddr futexOp val word timeout).step k = some k') :
    WakesUpTo k k' log uaddr val (futexResult futexOp val word) ↔ val = 0 := by
  have hnone := wokenAt_eq_empty log (blocked_of_wake hop hstep)
  have hresult : futexResult futexOp val word = .ok val.toNat := by
    unfold futexResult
    rw [hop]
  refine ⟨fun h ↦ ?_, ?_⟩
  · have hval := h.result_eq
    rw [hresult, hnone, Finset.card_empty] at hval
    exact BitVec.eq_of_toNat_eq (Except.ok.inj hval)
  · rintro rfl
    refine ⟨?_, ?_, fun uaddr' _ ↦ hnone uaddr'⟩
    · rw [hresult, hnone]
      rfl
    · rw [hnone]
      exact (Nat.zero_min _).symm

/-- A task makes another one, and waits at an address for a second. The other one runs. -/
def oneWaits : List KernelEvent :=
  switchIn 0 ++ [.clone 0 0 0 3, .push 0] ++ [.futex 0 4096 0 5 (some 5) (some ⟨1, 0⟩), .take 0,
    .switchedOut 0] ++ switchIn 0

theorem exists_oneWaits : ∃ (k : Kernel) (log : List Note), Reached anyEvent k log ∧
    k.cpus 0 = ⟨some 1, .running .user⟩ ∧ k.waitersAt log 4096 = {0} := by
  obtain ⟨k, log, hreached, hP⟩ := reached_of_replay anyEvent (fun _ _ _ ↦ true) oneWaits
    (fun s ↦ decide (s.1.cpus 0 = ⟨some 1, .running .user⟩ ∧ s.1.waitersAt s.2 4096 = {0}))
    (fun _ _ _ _ ↦ trivial) (by decide +kernel)
  exact ⟨k, log, hreached, of_decide_eq_true hP⟩

/-- A call that is to wake nobody wakes nobody. -/
theorem wakesUpTo_zero : ∃ (k k' : Kernel) (log : List Note), Reached anyEvent k log ∧
    k.waitersAt log 4096 = {0} ∧ (KernelEvent.futex 0 4096 1 0 none none).step k = some k' ∧
      WakesUpTo k k' log 4096 0 (futexResult 1 0 none) := by
  obtain ⟨k, log, hreached, hcpu, hwaiters⟩ := exists_oneWaits
  have hstep : (KernelEvent.futex 0 4096 1 0 none none).step k =
      some (k.sysFutex 0 1 1 0 none none) := by
    rw [KernelEvent.step, inUser, hcpu]
  exact ⟨k, _, log, hreached, hwaiters, hstep, (wakesUpTo_iff (by decide) hstep).mpr rfl⟩

/-- A call that is to wake one task returns 1, and the task stays blocked. -/
theorem not_wakesUpTo_one : ∃ (k k' : Kernel) (log : List Note), Reached anyEvent k log ∧
    k.waitersAt log 4096 = {0} ∧ (KernelEvent.futex 0 4096 1 1 none none).step k = some k' ∧
      futexResult 1 1 none = .ok 1 ∧ k'.Blocked 0 ∧
      ¬WakesUpTo k k' log 4096 1 (futexResult 1 1 none) := by
  obtain ⟨k, log, hreached, hcpu, hwaiters⟩ := exists_oneWaits
  have hstep : (KernelEvent.futex 0 4096 1 1 none none).step k =
      some (k.sysFutex 0 1 1 1 none none) := by
    rw [KernelEvent.step, inUser, hcpu]
  have hblocked := blocked_of_wake (by decide) hstep
  refine ⟨k, _, log, hreached, hwaiters, hstep, by decide, (hblocked 0).mpr ?_, fun h ↦ ?_⟩
  · have hmem : 0 ∈ k.waitersAt log 4096 := hwaiters ▸ Finset.mem_singleton_self 0
    exact (Finset.mem_filter.mp hmem).2.2
  · have hcard := h.card_eq
    rw [wokenAt_eq_empty log hblocked, hwaiters] at hcard
    exact absurd hcard (by decide)

end Kernel

end Maturin
