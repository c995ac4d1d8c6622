import Maturin.Base.Time
import Mathlib.Data.List.Basic

/-!
# The waiting board

`WAITING_BOARD` holds what a task waits for, at the index of its `tid`. `run_tasks` looks there
before it switches a task in. The only waiter is that of a futex.
-/

namespace Maturin

/-- `FutexWaiter` -/
structure FutexWaiter where
  /-- The task is woken when the time in microseconds has reached this. -/
  timedOutUs : ℕ
  woken : Bool
  deriving DecidableEq, Repr

namespace FutexWaiter

/-- `new`: no time at all is the last one. -/
def new (timedOut : Option ℕ) : FutexWaiter := ⟨timedOut.getD (2 ^ 64 - 1), false⟩

/-- `wake` -/
def wake (self : FutexWaiter) : FutexWaiter := { self with woken := true }

/-- `is_woken` when the machine's clock shows `now`. -/
def isWoken (self : FutexWaiter) (now : ℕ) : Bool :=
  if self.woken then true else decide (self.timedOutUs ≤ getTimeUs now)

end FutexWaiter

/-- `WAITING_BOARD` -/
abbrev WaitingBoard := List (Option FutexWaiter)

namespace WaitingBoard

variable (board : WaitingBoard) (tid tid' now : ℕ) (waiter : FutexWaiter)

/-- `set_waiter_for_thread` -/
def setWaiterForThread : WaitingBoard :=
  (if board.length ≤ tid then board ++ List.replicate (tid + 1 - board.length) none else board).set
    tid (some waiter)

/-- `check_thread_blocked`, which takes a waiter off the board unless it still waits. -/
def checkThreadBlocked : Bool × WaitingBoard :=
  if board.length ≤ tid then (false, board)
  else
    match board[tid]?.join with
    | none => (false, board.set tid none)
    | some waiter =>
      if waiter.isWoken now then (false, board.set tid none) else (true, board)

/-- `wake_thread`, which nothing calls. -/
def wakeThread : Bool × WaitingBoard :=
  if board.length ≤ tid then (false, board)
  else
    match board[tid]?.join with
    | none => (false, board)
    | some waiter => (true, board.set tid (some waiter.wake))

/-- What the thread waits for. -/
def waiterOf : Option FutexWaiter := board[tid]?.join

variable {board tid tid' now waiter}

@[simp] theorem waiterOf_setWaiterForThread_self :
    waiterOf (setWaiterForThread board tid waiter) tid = some waiter := by
  rw [waiterOf, setWaiterForThread, List.getElem?_set_self]
  · rfl
  · split_ifs with h
    · rw [List.length_append, List.length_replicate]
      omega
    · exact Nat.lt_of_not_le h

theorem waiterOf_setWaiterForThread_of_ne (hne : tid' ≠ tid) :
    waiterOf (setWaiterForThread board tid waiter) tid' = waiterOf board tid' := by
  rw [waiterOf, setWaiterForThread, List.getElem?_set_ne hne.symm]
  split_ifs with h
  · rw [List.getElem?_append]
    split_ifs with hlt
    · rfl
    · rw [waiterOf, List.getElem?_eq_none (Nat.le_of_not_lt hlt), List.getElem?_replicate]
      split_ifs <;> rfl
  · rfl

/-- A check leaves the waiters of the other threads. -/
theorem waiterOf_checkThreadBlocked_of_ne (hne : tid' ≠ tid) :
    waiterOf (checkThreadBlocked board tid now).2 tid' = waiterOf board tid' := by
  rw [checkThreadBlocked]
  split_ifs with h
  · rfl
  · split
    · rw [waiterOf, List.getElem?_set_ne hne.symm, waiterOf]
    · split_ifs
      · rw [waiterOf, List.getElem?_set_ne hne.symm, waiterOf]
      · rfl

/-- A check of a thread that still waits leaves its waiter. -/
theorem waiterOf_checkThreadBlocked_self (h : (checkThreadBlocked board tid now).1 = true) :
    waiterOf (checkThreadBlocked board tid now).2 tid = waiterOf board tid := by
  rw [checkThreadBlocked] at h ⊢
  split_ifs at h ⊢ with hlen
  split at h
  · exact absurd h Bool.false_ne_true
  · split_ifs at h ⊢
    rfl

/-- A thread is blocked exactly if its waiter is not woken. -/
theorem checkThreadBlocked_of_waiterOf (now : ℕ) (h : waiterOf board tid = some waiter) :
    (checkThreadBlocked board tid now).1 = !waiter.isWoken now := by
  have hlen : ¬ board.length ≤ tid := by
    intro hle
    rw [waiterOf, List.getElem?_eq_none hle] at h
    exact absurd h (by simp)
  rw [checkThreadBlocked, if_neg hlen]
  rw [waiterOf] at h
  rw [h]
  dsimp only
  split_ifs with hwoken
  · rw [hwoken, Bool.not_true]
  · rw [Bool.not_eq_true] at hwoken
    rw [hwoken, Bool.not_false]

end WaitingBoard

/-- `Flags`: what is asked of a futex. -/
inductive FutexOp
  | WAIT
  | WAKE
  | REQUEUE
  | UNSUPPORTED
  deriving DecidableEq

/-- `FutexFlag::operation` -/
def futexOperation (futexOp : BitVec 32) : FutexOp :=
  match (futexOp &&& 0x7f#32).toNat with
  | 0 => .WAIT
  | 1 => .WAKE
  | 3 => .REQUEUE
  | _ => .UNSUPPORTED

/-- The argument of `FutexWaiter::new` in `sys_futex`: the time that is given, in microseconds, and
0 where none is given. -/
def timedOut (timeout : Option TimeSpec) : Option ℕ :=
  match timeout with
  | some timeSpec => some (TimeVal.ofTimeSpec timeSpec).toUsize
  | none => some 0

end Maturin
