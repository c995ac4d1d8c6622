import Maturin.Base.Error
import Maturin.Base.Time
import Maturin.Signal.Signal

/-!
# The times of a task

`TimeStat` of `task/time_stat.rs` adds up the time that a task spends in user mode and in the
kernel, and runs its interval timer down. The clock counts microseconds and never goes back, so that
no difference of a reading and an earlier one wraps; a function that reads the clock has its reading
as an argument.
-/

namespace Maturin

/-! ## The statistics -/

/-- `TimerType` -/
inductive TimerType
  | NONE
  | REAL
  | VIRTUAL
  | PROF
  deriving DecidableEq, Repr

namespace TimerType

/-- `From<usize>`, which cuts the number to 32 bits. -/
def ofUsize (num : ℕ) : TimerType :=
  match num % 2 ^ 32 with
  | 0 => REAL
  | 1 => VIRTUAL
  | 2 => PROF
  | _ => NONE

/-- The timer runs in the kernel too. -/
def runsInKernel : TimerType → Bool
  | REAL | PROF => true
  | NONE | VIRTUAL => false

/-- There is a timer. -/
def isSet : TimerType → Bool
  | NONE => false
  | REAL | VIRTUAL | PROF => true

/-- The signal of a timer that runs out. -/
def signal : TimerType → Option SignalNo
  | NONE => none
  | REAL => some SignalNo.SIGALRM
  | VIRTUAL => some SignalNo.SIGVTALRM
  | PROF => some SignalNo.SIGPROF

end TimerType

/-- `TimeStat` -/
structure TimeStat where
  tid : ℕ
  utimeUs : ℕ
  stimeUs : ℕ
  userTick : ℕ
  kernelTick : ℕ
  startTick : ℕ
  timerType : TimerType
  timerIntervalUs : ℕ
  timerRemainedUs : ℕ
  deriving DecidableEq, Repr

namespace TimeStat

def new (tid now : ℕ) : TimeStat where
  tid
  utimeUs := 0
  stimeUs := 0
  userTick := 0
  kernelTick := 0
  startTick := now
  timerType := .NONE
  timerIntervalUs := 0
  timerRemainedUs := 0

def clear (now : ℕ) (self : TimeStat) : TimeStat :=
  { self with utimeUs := 0, stimeUs := 0, userTick := 0, kernelTick := 0, startTick := now }

/-- `update_timer_and_send_signal`, with the signal that it sends to the thread. The flag says
whether the timer ran out. -/
def updateTimerAndSendSignal (delta : ℕ) (self : TimeStat) :
    TimeStat × Bool × Option SignalNo :=
  if self.timerRemainedUs = 0 then (self, false, none)
  else if delta < self.timerRemainedUs then
    ({ self with timerRemainedUs := self.timerRemainedUs - delta }, false, none)
  else
    ({ self with timerRemainedUs := self.timerIntervalUs }, true, self.timerType.signal)

/-- The update of the timer if it is of a type that the caller keeps; nothing is sent otherwise. -/
def updateTimerIf (keeps : TimerType → Bool) (delta : ℕ) (self : TimeStat) :
    TimeStat × Option SignalNo :=
  if keeps self.timerType then
    let (self, _, signal) := self.updateTimerAndSendSignal delta
    (self, signal)
  else (self, none)

/-- `timer_kernel_to_user` -/
def timerKernelToUser (now : ℕ) (self : TimeStat) : TimeStat × Option SignalNo :=
  let delta := now - self.kernelTick
  let (self, signal) := self.updateTimerIf TimerType.runsInKernel delta
  ({ self with stimeUs := self.stimeUs + delta, userTick := now }, signal)

/-- `timer_user_to_kernel`, which measures from `kernel_tick` too. -/
def timerUserToKernel (now : ℕ) (self : TimeStat) : TimeStat × Option SignalNo :=
  let delta := now - self.kernelTick
  let (self, signal) := self.updateTimerIf TimerType.isSet delta
  ({ self with utimeUs := self.utimeUs + delta, kernelTick := now }, signal)

/-- `switch_into_task` -/
def switchIntoTask (now : ℕ) (self : TimeStat) : TimeStat := { self with kernelTick := now }

/-- `switch_out_task` -/
def switchOutTask (now : ℕ) (self : TimeStat) : TimeStat × Option SignalNo :=
  let delta := now - self.kernelTick
  ({ self with stimeUs := self.stimeUs + delta }).updateTimerIf TimerType.runsInKernel delta

/-- `output_raw_timer` -/
def outputRawTimer (self : TimeStat) : ℕ × ℕ := (self.timerIntervalUs, self.timerRemainedUs)

/-- `set_raw_timer` -/
def setRawTimer (timerIntervalUs timerRemainedUs timerType : ℕ) (self : TimeStat) :
    TimeStat × Bool :=
  let self := { self with
    timerType := TimerType.ofUsize timerType
    timerIntervalUs
    timerRemainedUs }
  (self, self.timerType.isSet)

/-- `sys_settimer`. `newValue` is what the user's pointer points to, if the address is the user's;
`oldValue` says whether the address of a pointer for the old timer is, if there is one. The result
has the old timer, if it is written to the user. -/
def sysSettimer (which : ℕ) (newValue : Option ITimerVal) (oldValue : Option Bool)
    (self : TimeStat) : TimeStat × Except ErrorNo (Option ITimerVal) :=
  match newValue with
  | none => (self, .error .EFAULT)
  | some newValue =>
    if oldValue = some false then (self, .error .EFAULT)
    else
      let old := oldValue.map fun _ ↦
        (⟨.ofUsize self.outputRawTimer.1, .ofUsize self.outputRawTimer.2⟩ : ITimerVal)
      let (self, isSet) := self.setRawTimer newValue.itInterval.toUsize
        newValue.itValue.toUsize which
      (self, if isSet then .ok old else .error .EFAULT)

/-! ## What the functions change -/

variable {self : TimeStat} {keeps : TimerType → Bool} {delta now : ℕ}

/-- The timer runs down by `delta`, runs out, or does not run. -/
theorem updateTimerIf_eq (keeps : TimerType → Bool) (delta : ℕ) (self : TimeStat) :
    self.updateTimerIf keeps delta =
      if keeps self.timerType = false ∨ self.timerRemainedUs = 0 then (self, none)
      else if delta < self.timerRemainedUs then
        ({ self with timerRemainedUs := self.timerRemainedUs - delta }, none)
      else ({ self with timerRemainedUs := self.timerIntervalUs }, self.timerType.signal) := by
  rw [updateTimerIf, updateTimerAndSendSignal]
  cases keeps self.timerType with
  | false => simp
  | true =>
    simp only [if_true, Bool.true_eq_false, false_or]
    split_ifs <;> rfl

/-- An update of the timer changes nothing but the time that remains. -/
theorem updateTimerIf_fst : (self.updateTimerIf keeps delta).1 =
    { self with timerRemainedUs := (self.updateTimerIf keeps delta).1.timerRemainedUs } := by
  rw [updateTimerIf_eq]
  split_ifs <;> rfl

@[simp] theorem utimeUs_timerKernelToUser :
    (self.timerKernelToUser now).1.utimeUs = self.utimeUs := by
  rw [timerKernelToUser]
  dsimp only
  rw [updateTimerIf_fst]

@[simp] theorem stimeUs_timerKernelToUser :
    (self.timerKernelToUser now).1.stimeUs = self.stimeUs + (now - self.kernelTick) := by
  rw [timerKernelToUser]
  dsimp only
  rw [updateTimerIf_fst]

@[simp] theorem kernelTick_timerKernelToUser :
    (self.timerKernelToUser now).1.kernelTick = self.kernelTick := by
  rw [timerKernelToUser]
  dsimp only
  rw [updateTimerIf_fst]

@[simp] theorem utimeUs_timerUserToKernel :
    (self.timerUserToKernel now).1.utimeUs = self.utimeUs + (now - self.kernelTick) := by
  rw [timerUserToKernel]
  dsimp only
  rw [updateTimerIf_fst]

@[simp] theorem stimeUs_timerUserToKernel :
    (self.timerUserToKernel now).1.stimeUs = self.stimeUs := by
  rw [timerUserToKernel]
  dsimp only
  rw [updateTimerIf_fst]

@[simp] theorem kernelTick_timerUserToKernel :
    (self.timerUserToKernel now).1.kernelTick = now := rfl

@[simp] theorem utimeUs_switchOutTask : (self.switchOutTask now).1.utimeUs = self.utimeUs := by
  rw [switchOutTask, updateTimerIf_fst]

@[simp] theorem stimeUs_switchOutTask :
    (self.switchOutTask now).1.stimeUs = self.stimeUs + (now - self.kernelTick) := by
  rw [switchOutTask, updateTimerIf_fst]

@[simp] theorem kernelTick_switchOutTask :
    (self.switchOutTask now).1.kernelTick = self.kernelTick := by
  rw [switchOutTask, updateTimerIf_fst]

/-- Setting the timer changes the timer only. -/
theorem sysSettimer_fst (which : ℕ) (newValue : Option ITimerVal) (oldValue : Option Bool)
    (self : TimeStat) : ∃ timerType timerIntervalUs timerRemainedUs,
      (self.sysSettimer which newValue oldValue).1 =
        { self with timerType, timerIntervalUs, timerRemainedUs } := by
  rw [sysSettimer.eq_def]
  cases newValue with
  | none => exact ⟨_, _, _, rfl⟩
  | some newValue =>
    dsimp only
    split_ifs <;> exact ⟨_, _, _, rfl⟩

end TimeStat

end Maturin
