import Maturin.Task.TimeStat

/-!
# Whether the times of a task are exact

A task is switched in and out by `run_tasks`, and between that it changes between the kernel and
user mode: `trap_handler` and then `user_trap_handler` call `timer_user_to_kernel`, and
`trap_handler` calls `timer_kernel_to_user` when it returns. A new task and a new program do not
return from a trap: the context that they start from goes to user mode, and no function is called.

Every function measures from `kernel_tick`. It charges the right interval only if this is the time
at which the task entered the mode that it leaves, and the mark is not set when the task returns to
user mode. `TaskClock` keeps the true times beside the statistics.
-/

namespace Maturin

/-- Where a task is. -/
inductive Mode
  | off
  | kernel
  | user
  deriving DecidableEq

/-- The statistics of a task and, beside them, what it really did. -/
structure TaskClock where
  stat : TimeStat
  mode : Mode
  /-- The context that the task resumes from goes to user mode, not back into a trap. -/
  direct : Bool
  /-- The last reading of the clock. -/
  now : ℕ
  /-- When the task entered its mode. -/
  since : ℕ
  /-- When the task was switched in, or executed its program, whichever was later. -/
  start : ℕ
  /-- How long it was on a CPU since it was created or executed its program, without the stay that
  is not over. -/
  cpu : ℕ
  /-- How long it was in user mode since then, without the interval that is not over. -/
  user : ℕ
  /-- When the timer was last set or run down. -/
  charged : ℕ

/-- What happens to a task, with the readings of the clock. -/
inductive TimeEvent
  | switchInto (t : ℕ)
  /-- The first entry of a new task or program into user mode -/
  | enterUser (t : ℕ)
  /-- `trap_handler` reads `t` and then `user_trap_handler` reads `t'`. -/
  | trap (t t' : ℕ)
  | returnUser (t : ℕ)
  | switchOut (t : ℕ)
  /-- A program is found, and then loaded or not. -/
  | exec (t : ℕ) (loaded : Bool)
  | settimer (t which : ℕ) (newValue : Option ITimerVal) (oldValue : Option Bool)

namespace TimeEvent

/-- The event can happen, and its clock does not go back. -/
def Enabled : TimeEvent → TaskClock → Prop
  | switchInto t, s => s.mode = .off ∧ s.now ≤ t
  | enterUser t, s => s.mode = .kernel ∧ s.direct = true ∧ s.now ≤ t
  | trap t t', s => s.mode = .user ∧ s.now ≤ t ∧ t ≤ t'
  | returnUser t, s | switchOut t, s | exec t _, s | settimer t .., s =>
    s.mode = .kernel ∧ s.direct = false ∧ s.now ≤ t

/-- The task after the event. -/
def run : TimeEvent → TaskClock → TaskClock
  | switchInto t, s =>
    { s with stat := s.stat.switchIntoTask t, mode := .kernel, now := t, since := t, start := t }
  | enterUser t, s => { s with mode := .user, direct := false, now := t, since := t }
  | trap t t', s =>
    { s with
      stat := ((s.stat.timerUserToKernel t).1.timerUserToKernel t').1
      mode := .kernel
      now := t'
      since := t
      user := s.user + (t - s.since)
      charged := t' }
  | returnUser t, s =>
    { s with
      stat := (s.stat.timerKernelToUser t).1
      mode := .user
      now := t
      since := t
      charged := t }
  | switchOut t, s =>
    { s with
      stat := (s.stat.switchOutTask t).1
      mode := .off
      now := t
      since := t
      cpu := s.cpu + (t - s.start)
      charged := t }
  | exec t loaded, s =>
    { s with
      stat := s.stat.clear t
      direct := loaded
      now := t
      since := t
      start := t
      cpu := 0
      user := 0 }
  | settimer t which newValue oldValue, s =>
    { s with
      stat := (s.stat.sysSettimer which newValue oldValue).1
      now := t
      charged := t }

/-- The signals that the event sends to the task, with the times. -/
def sent : TimeEvent → TaskClock → List (ℕ × SignalNo)
  | trap t t', s =>
    let (stat, signal) := s.stat.timerUserToKernel t
    (signal.map (t, ·)).toList ++ ((stat.timerUserToKernel t').2.map (t', ·)).toList
  | returnUser t, s => ((s.stat.timerKernelToUser t).2.map (t, ·)).toList
  | switchOut t, s => ((s.stat.switchOutTask t).2.map (t, ·)).toList
  | _, _ => []

/-- The event charges exactly the interval that ends with it: `kernel_tick` is where the interval
began, the two readings of a trap are one, and a new program enters user mode at once. -/
def Charges : TimeEvent → TaskClock → Prop
  | enterUser t, s => t = s.since
  | trap t t', s => s.stat.kernelTick = s.since ∧ t' = t
  | returnUser _, s | switchOut _, s => s.stat.kernelTick = s.since
  | switchInto _, _ | exec .., _ | settimer .., _ => True

end TimeEvent

namespace TaskClock

/-- A task created at the time `t`. -/
def new (tid t : ℕ) : TaskClock where
  stat := .new tid t
  mode := .off
  direct := true
  now := t
  since := t
  start := t
  cpu := 0
  user := 0
  charged := t

/-- The time of the interval in progress at the moment `T`. -/
def inProgress (s : TaskClock) (T : ℕ) : ℕ := if s.mode = .off then 0 else T - s.since

/-- The time on a CPU up to the moment `T`, since the task was created or executed its program. -/
def onCpu (s : TaskClock) (T : ℕ) : ℕ := s.cpu + if s.mode = .off then 0 else T - s.start

/-- The times are exact: the sum of both is the time on a CPU but for the interval in progress, and
the user time is the time in user mode. -/
def Exact (s : TaskClock) : Prop :=
  s.stat.utimeUs = s.user ∧
    ∀ T, s.now ≤ T → s.stat.utimeUs + s.stat.stimeUs + s.inProgress T = s.onCpu T

/-- The states of a task in runs whose events satisfy `ok`. -/
inductive Reached (ok : TimeEvent → TaskClock → Prop) : TaskClock → Prop
  | new (tid t : ℕ) : Reached ok (new tid t)
  | step {s : TaskClock} {e : TimeEvent} (h : Reached ok s) (he : e.Enabled s) (hok : ok e s) :
      Reached ok (e.run s)

/-- The order of the marks. -/
structure Ordered (s : TaskClock) : Prop where
  kernelTick_le : s.stat.kernelTick ≤ s.since
  start_le : s.start ≤ s.since
  since_le : s.since ≤ s.now

variable {s : TaskClock} {e : TimeEvent}

/-! ## One step -/

/-- An event that charges the right interval keeps the marks in order. -/
theorem Ordered.run (h : s.Ordered) (he : e.Enabled s) (hok : e.Charges s) : (e.run s).Ordered := by
  obtain ⟨hkt, hstart, hsince⟩ := h
  cases e with
  | switchInto t => exact ⟨le_rfl, le_rfl, le_rfl⟩
  | enterUser t =>
    have ht := hsince.trans he.2.2
    exact ⟨hkt.trans ht, hstart.trans ht, le_rfl⟩
  | trap t t' =>
    have ht := hsince.trans he.2.1
    exact ⟨hok.2.le, hstart.trans ht, he.2.2⟩
  | returnUser t =>
    have ht := hsince.trans he.2.2
    refine ⟨?_, hstart.trans ht, le_rfl⟩
    change (s.stat.timerKernelToUser t).1.kernelTick ≤ t
    rw [TimeStat.kernelTick_timerKernelToUser]
    exact hkt.trans ht
  | switchOut t =>
    have ht := hsince.trans he.2.2
    refine ⟨?_, hstart.trans ht, le_rfl⟩
    change (s.stat.switchOutTask t).1.kernelTick ≤ t
    rw [TimeStat.kernelTick_switchOutTask]
    exact hkt.trans ht
  | exec t loaded => exact ⟨Nat.zero_le t, le_rfl, le_rfl⟩
  | settimer t which newValue oldValue =>
    refine ⟨?_, hstart, hsince.trans he.2.2⟩
    change (s.stat.sysSettimer which newValue oldValue).1.kernelTick ≤ s.since
    obtain ⟨_, _, _, heq⟩ := TimeStat.sysSettimer_fst which newValue oldValue s.stat
    rw [heq]
    exact hkt

/-- Off the CPU there is no interval in progress. -/
theorem exact_iff_of_off (hmode : s.mode = .off) :
    s.Exact ↔ s.stat.utimeUs = s.user ∧ s.stat.utimeUs + s.stat.stimeUs = s.cpu := by
  simp only [Exact, inProgress, onCpu, if_pos hmode, Nat.add_zero]
  exact ⟨fun h ↦ ⟨h.1, h.2 s.now le_rfl⟩, fun h ↦ ⟨h.1, fun _ _ ↦ h.2⟩⟩

/-- On the CPU the interval in progress is the part of the stay that is not charged. -/
theorem exact_iff_of_on (hstart : s.start ≤ s.since) (hsince : s.since ≤ s.now)
    (hmode : s.mode ≠ .off) :
    s.Exact ↔ s.stat.utimeUs = s.user ∧
      s.stat.utimeUs + s.stat.stimeUs + s.start = s.cpu + s.since := by
  simp only [Exact, inProgress, onCpu, if_neg hmode]
  refine and_congr_right fun _ ↦ ⟨fun hall ↦ ?_, fun heq T hT ↦ ?_⟩
  · have := hall s.now le_rfl
    omega
  · omega

/-- An event keeps the times exact if and only if it charges the right interval. -/
theorem exact_run_iff (h : s.Ordered) (hexact : s.Exact) (he : e.Enabled s) :
    (e.run s).Exact ↔ e.Charges s := by
  obtain ⟨hkt, hstart, hsince⟩ := h
  cases e with
  | switchInto t =>
    obtain ⟨hutime, hsum⟩ := (exact_iff_of_off he.1).mp hexact
    refine iff_of_true ?_ trivial
    rw [exact_iff_of_on (s := (TimeEvent.switchInto t).run s) le_rfl le_rfl
      (by simp [TimeEvent.run])]
    exact ⟨hutime, congrArg (· + t) hsum⟩
  | enterUser t =>
    obtain ⟨hmode, -, ht⟩ := he
    obtain ⟨hutime, hsum⟩ := (exact_iff_of_on hstart hsince (by rw [hmode]; decide)).mp hexact
    rw [exact_iff_of_on (s := (TimeEvent.enterUser t).run s) (hstart.trans (hsince.trans ht)) le_rfl
      (by simp [TimeEvent.run])]
    -- the time since the last entry is charged only if the mark was set then
    change (_ ∧ s.stat.utimeUs + s.stat.stimeUs + s.start = s.cpu + t) ↔ t = s.since
    rw [hsum, Nat.add_left_cancel_iff, eq_comm (a := s.since)]
    exact and_iff_right hutime
  | trap t t' =>
    obtain ⟨hmode, ht, ht'⟩ := he
    obtain ⟨hutime, hsum⟩ := (exact_iff_of_on hstart hsince (by rw [hmode]; decide)).mp hexact
    rw [exact_iff_of_on (s := (TimeEvent.trap t t').run s) (hstart.trans (hsince.trans ht)) ht'
      (by simp [TimeEvent.run])]
    simp only [TimeEvent.run, TimeEvent.Charges, TimeStat.utimeUs_timerUserToKernel,
      TimeStat.stimeUs_timerUserToKernel, TimeStat.kernelTick_timerUserToKernel]
    omega
  | returnUser t =>
    obtain ⟨hmode, -, ht⟩ := he
    obtain ⟨hutime, hsum⟩ := (exact_iff_of_on hstart hsince (by rw [hmode]; decide)).mp hexact
    rw [exact_iff_of_on (s := (TimeEvent.returnUser t).run s)
      (hstart.trans (hsince.trans ht)) le_rfl (by simp [TimeEvent.run])]
    simp only [TimeEvent.run, TimeEvent.Charges, TimeStat.utimeUs_timerKernelToUser,
      TimeStat.stimeUs_timerKernelToUser]
    omega
  | switchOut t =>
    obtain ⟨hmode, -, ht⟩ := he
    obtain ⟨hutime, hsum⟩ := (exact_iff_of_on hstart hsince (by rw [hmode]; decide)).mp hexact
    rw [exact_iff_of_off (s := (TimeEvent.switchOut t).run s) (by simp [TimeEvent.run])]
    simp only [TimeEvent.run, TimeEvent.Charges, TimeStat.utimeUs_switchOutTask,
      TimeStat.stimeUs_switchOutTask]
    omega
  | exec t loaded =>
    refine iff_of_true ?_ trivial
    rw [exact_iff_of_on (s := (TimeEvent.exec t loaded).run s) le_rfl le_rfl
      (by simp [TimeEvent.run, he.1])]
    exact ⟨rfl, rfl⟩
  | settimer t which newValue oldValue =>
    obtain ⟨hmode, -, ht⟩ := he
    obtain ⟨hutime, hsum⟩ := (exact_iff_of_on hstart hsince (by rw [hmode]; decide)).mp hexact
    obtain ⟨_, _, _, heq⟩ := TimeStat.sysSettimer_fst which newValue oldValue s.stat
    refine iff_of_true ?_ trivial
    rw [exact_iff_of_on (s := (TimeEvent.settimer t which newValue oldValue).run s) hstart
      (hsince.trans ht) (by simp [TimeEvent.run, hmode])]
    simp only [TimeEvent.run, heq]
    exact ⟨hutime, hsum⟩

/-! ## Runs -/

theorem Reached.exact (h : Reached TimeEvent.Charges s) : s.Ordered ∧ s.Exact := by
  induction h with
  | new tid t => exact ⟨⟨Nat.zero_le t, le_rfl, le_rfl⟩, (exact_iff_of_off rfl).mpr ⟨rfl, rfl⟩⟩
  | step _ he hok ih => exact ⟨ih.1.run he hok, (exact_run_iff ih.1 ih.2 he).mpr hok⟩

/-- **The times of a task are exact** in every run whose events charge the right intervals, and the
next event keeps them exact if and only if it charges the right one. -/
theorem times_exact (h : Reached TimeEvent.Charges s) :
    (s.stat.utimeUs = s.user ∧
      ∀ T, s.now ≤ T → s.stat.utimeUs + s.stat.stimeUs + s.inProgress T = s.onCpu T) ∧
    ∀ e : TimeEvent, e.Enabled s → ((e.run s).Exact ↔ e.Charges s) :=
  ⟨h.exact.2, fun _ he ↦ exact_run_iff h.exact.1 h.exact.2 he⟩

/-! ## Runs of given events -/

instance (s : TaskClock) : (e : TimeEvent) → Decidable (e.Enabled s)
  | .switchInto _ => inferInstanceAs (Decidable (_ ∧ _))
  | .enterUser _ | .trap _ _ | .returnUser _ | .switchOut _ | .exec _ _ | .settimer .. =>
    inferInstanceAs (Decidable (_ ∧ _ ∧ _))

/-- Each event can happen after the ones before it. -/
def proceeds : List TimeEvent → TaskClock → Bool
  | [], _ => true
  | e :: es, s => decide (e.Enabled s) && proceeds es (e.run s)

theorem Reached.of_events {es : List TimeEvent} (h : Reached (fun _ _ ↦ True) s)
    (hes : proceeds es s = true) : Reached (fun _ _ ↦ True) (es.foldl (fun s e ↦ e.run s) s) := by
  induction es generalizing s with
  | nil => exact h
  | cons e es ih =>
    rw [proceeds, Bool.and_eq_true, decide_eq_true_eq] at hes
    exact ih (h.step hes.1 trivial) hes.2

/-- A task runs for two microseconds in user mode, traps, and is switched out. -/
theorem times_exact_switchOut : ∃ s : TaskClock, s.mode = .off ∧ s.stat.utimeUs = 2 ∧
    s.stat.utimeUs = s.user ∧
      ∀ T, s.now ≤ T → s.stat.utimeUs + s.stat.stimeUs + s.inProgress T = s.onCpu T := by
  have hin : Reached TimeEvent.Charges _ :=
    (Reached.new 1 0).step (e := .switchInto 10) ⟨rfl, by decide⟩ trivial
  have huser := hin.step (e := .enterUser 10) ⟨rfl, rfl, le_rfl⟩ rfl
  have htrap := huser.step (e := .trap 12 12) ⟨rfl, by decide, le_rfl⟩ ⟨rfl, rfl⟩
  have hout := htrap.step (e := .switchOut 15) ⟨rfl, rfl, by decide⟩ rfl
  exact ⟨_, rfl, rfl, (times_exact hout).1⟩

/-- A task is in the kernel from 12 to 15. When it traps again at 20 the time since 12 is charged as
user time, though the kernel time is charged already. -/
theorem times_charged_twice :
    let s := [.switchInto 10, .enterUser 10, .trap 12 12, .returnUser 15, .trap 20 20].foldl
      (fun s (e : TimeEvent) ↦ e.run s) (new 1 0)
    Reached (fun _ _ ↦ True) s ∧ s.stat.utimeUs = 10 ∧ s.user = 7 ∧
      s.stat.utimeUs + s.stat.stimeUs + s.inProgress 20 = 13 ∧ s.onCpu 20 = 10 :=
  ⟨.of_events (.new 1 0) (by decide), by decide, by decide, by decide, by decide⟩

end TaskClock

end Maturin
