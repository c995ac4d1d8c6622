import Maturin.Task.CpuTime

/-!
# Whether a timer runs out early

The timer of a task runs down by what the functions of `TimeStat` measure from `kernel_tick`. While
nothing is measured that lies before the last time at which the timer was set or run down, the sum
of it is at most the time that has passed, so that the timer does not run out before it is due. The
invariant is `Armed`: the next alarm is due no later than the time to which the timer has been run
down and what remains of it.
-/

namespace Maturin

/-- The events that leave the timer to run down. -/
def TimeEvent.KeepsTimer : TimeEvent → Prop
  | settimer .. => False
  | _ => True

/-- What a running timer is run down by begins when it was last set or run down, or later. -/
def TimeEvent.ChargesOnce : TimeEvent → TaskClock → Prop
  | trap .., s | returnUser .., s | switchOut .., s =>
    0 < s.stat.timerRemainedUs → s.charged ≤ s.stat.kernelTick
  | _, _ => True

/-- The times at which `SIGALRM` is sent, the last one first. -/
def alarms (sent : List (ℕ × SignalNo)) : List ℕ :=
  (sent.filterMap fun p ↦ if p.2 = SignalNo.SIGALRM then some p.1 else none).reverse

theorem alarms_append (sent sent' : List (ℕ × SignalNo)) :
    alarms (sent ++ sent') = alarms sent' ++ alarms sent := by
  rw [alarms, alarms, alarms, List.filterMap_append, List.reverse_append]

namespace TaskClock

/-- A run that does not set the timer and whose events satisfy `ok`, with the times of the alarms,
the last one first. -/
inductive TimerRun (ok : TimeEvent → TaskClock → Prop) (s : TaskClock) :
    List ℕ → TaskClock → Prop
  | refl : TimerRun ok s [] s
  | step {t : TaskClock} {fired : List ℕ} {e : TimeEvent} (h : TimerRun ok s fired t)
      (he : e.Enabled t) (hkeeps : e.KeepsTimer) (hok : ok e t) :
      TimerRun ok s (alarms (e.sent t) ++ fired) (e.run t)

/-- When the next alarm is due: the first one `v` after `t₀`, another one `i` after the one
before. -/
def nextAlarm (t₀ v i : ℕ) : List ℕ → ℕ
  | [] => t₀ + v
  | τ :: _ => τ + i

/-- A timer of type `REAL` that was set to `v` and `i` at `t₀`, and run down until `charged`. -/
structure Armed (t₀ v i : ℕ) (stat : TimeStat) (charged : ℕ) (fired : List ℕ) : Prop where
  timerType : stat.timerType = .REAL
  interval : stat.timerIntervalUs = i
  due : 0 < stat.timerRemainedUs → nextAlarm t₀ v i fired ≤ charged + stat.timerRemainedUs
  le_fired : ∀ τ ∈ fired, t₀ + v ≤ τ
  spaced : fired.IsChain fun later earlier ↦ earlier + i ≤ later
  once : i = 0 → fired ≠ [] → stat.timerRemainedUs = 0
  length_le : i = 0 → fired.length ≤ 1

variable {s t : TaskClock} {e : TimeEvent} {t₀ v i τ charged delta : ℕ} {stat : TimeStat}
  {fired : List ℕ}

/-! ## Running the timer down -/

/-- Only the fields of the timer matter. -/
theorem Armed.congr {stat' : TimeStat} (h : Armed t₀ v i stat charged fired)
    (htype : stat'.timerType = stat.timerType)
    (hinterval : stat'.timerIntervalUs = stat.timerIntervalUs)
    (hremained : stat'.timerRemainedUs = stat.timerRemainedUs) :
    Armed t₀ v i stat' charged fired where
  timerType := htype.trans h.timerType
  interval := hinterval.trans h.interval
  due := by
    rw [hremained]
    exact h.due
  le_fired := h.le_fired
  spaced := h.spaced
  once hi hne := hremained.trans (h.once hi hne)
  length_le := h.length_le

/-- An alarm at `τ` that is not early. -/
theorem Armed.fire (h : Armed t₀ v i stat charged fired) (hpos : 0 < stat.timerRemainedUs)
    (hτ : charged + stat.timerRemainedUs ≤ τ) :
    Armed t₀ v i { stat with timerRemainedUs := stat.timerIntervalUs } τ (τ :: fired) := by
  have hdue : nextAlarm t₀ v i fired ≤ τ := (h.due hpos).trans hτ
  -- without an interval the timer does not run again
  have hnil : i = 0 → fired = [] := by
    intro hi
    by_contra hne
    exact hpos.ne' (h.once hi hne)
  constructor
  · exact h.timerType
  · exact h.interval
  · intro _
    exact (congrArg (τ + ·) h.interval.symm).le
  · intro σ hσ
    rcases List.mem_cons.mp hσ with rfl | hmem
    · cases fired with
      | nil => exact hdue
      | cons last rest =>
        exact (h.le_fired last List.mem_cons_self).trans ((Nat.le_add_right _ i).trans hdue)
    · exact h.le_fired σ hmem
  · cases fired with
    | nil => exact .singleton τ
    | cons last rest => exact List.isChain_cons_cons.mpr ⟨hdue, h.spaced⟩
  · intro hi _
    exact h.interval.trans hi
  · intro hi
    rw [hnil hi]
    rfl

/-- The timer is run down by at most the time since it was last set or run down. -/
theorem Armed.update (h : Armed t₀ v i stat charged fired) {keeps : TimerType → Bool}
    (hkeeps : keeps .REAL = true)
    (hdelta : 0 < stat.timerRemainedUs → charged + delta ≤ τ) :
    Armed t₀ v i (stat.updateTimerIf keeps delta).1 τ
      (alarms ((stat.updateTimerIf keeps delta).2.map (τ, ·)).toList ++ fired) := by
  have hkeeps' : keeps stat.timerType = true := by rw [h.timerType, hkeeps]
  rw [TimeStat.updateTimerIf_eq, hkeeps']
  simp only [Bool.true_eq_false, false_or]
  split_ifs with hzero hlt
  · exact { h with due := fun hpos ↦ absurd hzero hpos.ne' }
  · have hpos := Nat.pos_of_ne_zero hzero
    refine { h with
      due := fun _ ↦ (h.due hpos).trans ?_
      once := fun hi hne ↦ absurd (h.once hi hne) hzero }
    have := hdelta hpos
    change charged + stat.timerRemainedUs ≤ τ + (stat.timerRemainedUs - delta)
    omega
  · have hpos := Nat.pos_of_ne_zero hzero
    have hsignal : stat.timerType.signal = some SignalNo.SIGALRM := by
      rw [h.timerType]
      rfl
    dsimp only
    rw [hsignal]
    refine h.fire hpos ?_
    have := hdelta hpos
    omega

/-- What is measured from a mark that does not lie before `charged`. -/
theorem add_delta_le (hτ : charged ≤ τ)
    (hcharged : 0 < stat.timerRemainedUs → charged ≤ stat.kernelTick) :
    0 < stat.timerRemainedUs → charged + (τ - stat.kernelTick) ≤ τ := by
  intro hpos
  have := hcharged hpos
  omega

theorem Armed.userToKernel (h : Armed t₀ v i stat charged fired) (hτ : charged ≤ τ)
    (hcharged : 0 < stat.timerRemainedUs → charged ≤ stat.kernelTick) :
    Armed t₀ v i (stat.timerUserToKernel τ).1 τ
      (alarms ((stat.timerUserToKernel τ).2.map (τ, ·)).toList ++ fired) :=
  (h.update rfl (add_delta_le hτ hcharged)).congr rfl rfl rfl

theorem Armed.kernelToUser (h : Armed t₀ v i stat charged fired) (hτ : charged ≤ τ)
    (hcharged : 0 < stat.timerRemainedUs → charged ≤ stat.kernelTick) :
    Armed t₀ v i (stat.timerKernelToUser τ).1 τ
      (alarms ((stat.timerKernelToUser τ).2.map (τ, ·)).toList ++ fired) :=
  (h.update rfl (add_delta_le hτ hcharged)).congr rfl rfl rfl

theorem Armed.switchOut (h : Armed t₀ v i stat charged fired) (hτ : charged ≤ τ)
    (hcharged : 0 < stat.timerRemainedUs → charged ≤ stat.kernelTick) :
    Armed t₀ v i (stat.switchOutTask τ).1 τ
      (alarms ((stat.switchOutTask τ).2.map (τ, ·)).toList ++ fired) := by
  have hsame : Armed t₀ v i { stat with stimeUs := stat.stimeUs + (τ - stat.kernelTick) } charged
      fired := h.congr rfl rfl rfl
  exact hsame.update rfl (add_delta_le hτ hcharged)

/-! ## Runs -/

/-- An event runs the timer down by at most the time that has passed. -/
theorem Armed.run (h : Armed t₀ v i s.stat s.charged fired) (hnow : s.charged ≤ s.now)
    (he : e.Enabled s) (hkeeps : e.KeepsTimer) (hok : e.ChargesOnce s) :
    Armed t₀ v i (e.run s).stat (e.run s).charged (alarms (e.sent s) ++ fired) ∧
      (e.run s).charged ≤ (e.run s).now := by
  cases e with
  | switchInto t => exact ⟨h.congr rfl rfl rfl, hnow.trans he.2⟩
  | enterUser t => exact ⟨h, hnow.trans he.2.2⟩
  | trap t t' =>
    obtain ⟨-, ht, ht'⟩ := he
    -- The second call of a trap measures from the mark that the first one set.
    have hfirst := h.userToKernel (hnow.trans ht) hok
    have hsecond := hfirst.userToKernel ht' fun _ ↦ le_rfl
    refine ⟨?_, le_rfl⟩
    rw [TimeEvent.sent, alarms_append, List.append_assoc]
    exact hsecond
  | returnUser t => exact ⟨h.kernelToUser (hnow.trans he.2.2) hok, le_rfl⟩
  | switchOut t => exact ⟨h.switchOut (hnow.trans he.2.2) hok, le_rfl⟩
  | exec t loaded => exact ⟨h.congr rfl rfl rfl, hnow.trans he.2.2⟩
  | settimer t which newValue oldValue => exact hkeeps.elim

theorem TimerRun.armed (h : TimerRun TimeEvent.ChargesOnce s fired t)
    (hs : Armed t₀ v i s.stat s.charged []) (hnow : s.charged ≤ s.now) :
    Armed t₀ v i t.stat t.charged fired ∧ t.charged ≤ t.now := by
  induction h with
  | refl => exact ⟨hs, hnow⟩
  | step _ he hkeeps hok ih => exact ih.1.run ih.2 he hkeeps hok

/-- A timer that was just set. -/
theorem armed_settimer {newValue : ITimerVal} {oldValue : Option Bool} {o : Option ITimerVal}
    (hset : (stat.sysSettimer 0 (some newValue) oldValue).2 = .ok o) :
    Armed t₀ newValue.itValue.toUsize newValue.itInterval.toUsize
      (stat.sysSettimer 0 (some newValue) oldValue).1 t₀ [] := by
  have hfst : (stat.sysSettimer 0 (some newValue) oldValue).1 = { stat with
      timerType := .REAL
      timerIntervalUs := newValue.itInterval.toUsize
      timerRemainedUs := newValue.itValue.toUsize } := by
    rw [TimeStat.sysSettimer] at hset ⊢
    split_ifs at hset ⊢
    rfl
  rw [hfst]
  constructor
  · rfl
  · rfl
  · intro _
    exact le_rfl
  · intro τ hτ
    exact absurd hτ List.not_mem_nil
  · exact .nil
  · intro _ hne
    exact absurd rfl hne
  · intro _
    exact Nat.zero_le 1

/-- **A timer does not fire early** in a run whose events run it down once by what has passed: if
`sys_settimer` sets a timer of type `REAL` at `t₀` to a value and an interval that fit in 64 bits,
it fires no earlier than the value after `t₀`, and again no earlier than the interval later; without
an interval it fires once at most. -/
theorem alarms_not_early {newValue : ITimerVal} {oldValue : Option Bool} {o : Option ITimerVal}
    (hvalue : newValue.itValue.sec * USEC_PER_SEC + newValue.itValue.usec < 2 ^ 64)
    (hinterval : newValue.itInterval.sec * USEC_PER_SEC + newValue.itInterval.usec < 2 ^ 64)
    (hset : (s.stat.sysSettimer 0 (some newValue) oldValue).2 = .ok o)
    (hrun : TimerRun TimeEvent.ChargesOnce
      ((TimeEvent.settimer t₀ 0 (some newValue) oldValue).run s) fired t) :
    (∀ τ ∈ fired, t₀ + (newValue.itValue.sec * USEC_PER_SEC + newValue.itValue.usec) ≤ τ) ∧
    (fired.IsChain fun later earlier ↦
      earlier + (newValue.itInterval.sec * USEC_PER_SEC + newValue.itInterval.usec) ≤ later) ∧
    (newValue.itInterval = ⟨0, 0⟩ → fired.length ≤ 1) := by
  obtain ⟨harmed, -⟩ := hrun.armed (armed_settimer hset) le_rfl
  rw [← TimeVal.toUsize_of_lt hvalue, ← TimeVal.toUsize_of_lt hinterval]
  refine ⟨harmed.le_fired, harmed.spaced, fun hzero ↦ harmed.length_le ?_⟩
  rw [hzero]
  rfl

/-- A task in the kernel since `t`. -/
def trapped (t : ℕ) : TaskClock :=
  [.switchInto t, .enterUser t, .trap t t].foldl (fun s (e : TimeEvent) ↦ e.run s) (.new 1 0)

/-- A timer set to five microseconds at 10 fires at the trap at 20. -/
theorem alarms_not_early_trap : ∃ fired : List ℕ, fired = [20] ∧
    ∀ τ ∈ fired, 10 + (0 * USEC_PER_SEC + 5) ≤ τ := by
  have hreturn : TimerRun TimeEvent.ChargesOnce
      ((TimeEvent.settimer 10 0 (some ⟨⟨0, 0⟩, ⟨0, 5⟩⟩) none).run (trapped 10)) _ _ :=
    TimerRun.refl.step (e := .returnUser 10) ⟨rfl, rfl, le_rfl⟩ trivial fun _ ↦ by decide
  have htrap := hreturn.step (e := .trap 20 20) ⟨rfl, by decide, le_rfl⟩ trivial
    fun _ ↦ by decide
  exact ⟨_, by decide, (alarms_not_early (by norm_num) (by norm_num) rfl htrap).1⟩

/-- A timer is set to ten microseconds at 12, in a system call that began at 10. The return at 15
and the trap at 17 both run it down by the time since 10, and it fires at 17. -/
theorem alarm_early :
    Reached (fun _ _ ↦ True) (trapped 10) ∧
    ((trapped 10).stat.sysSettimer 0 (some ⟨⟨0, 0⟩, ⟨0, 10⟩⟩) none).2 = .ok none ∧
    ∃ t, TimerRun (fun _ _ ↦ True)
      ((TimeEvent.settimer 12 0 (some ⟨⟨0, 0⟩, ⟨0, 10⟩⟩) none).run (trapped 10)) [17] t ∧
      17 < 12 + 10 := by
  have hreturn : TimerRun (fun _ _ ↦ True)
      ((TimeEvent.settimer 12 0 (some ⟨⟨0, 0⟩, ⟨0, 10⟩⟩) none).run (trapped 10)) [] _ :=
    TimerRun.refl.step (e := .returnUser 15) ⟨rfl, rfl, by decide⟩ trivial trivial
  have htrap := hreturn.step (e := .trap 17 17) ⟨rfl, by decide, le_rfl⟩ trivial trivial
  exact ⟨.of_events (.new 1 0) (by decide), rfl, _, htrap, by decide⟩

end TaskClock

end Maturin
