import Maturin.Task.Wait

/-!
# Whether a futex wait lasts

A task that waits is not switched in while its waiter is on the board, and only a check of
`run_tasks` takes it off. Nothing wakes a waiter: `FUTEX_WAKE` gives up the CPU and selects nobody.
So a wait ends when the machine's clock reaches the time in the waiter, and it lasts as long as it
should only if that is not too soon. The time is the timeout itself, which `sys_futex` does not add
to the clock, with thousandths of a microsecond taken for nanoseconds; and it is 0 where no timeout
is given.
-/

namespace Maturin

namespace FutexWait

/-- The timeout was given, and has passed. -/
def Over (wait : FutexWait) (clock : ℕ) : Prop :=
  ∃ timeout, wait.timeout = some timeout ∧
    wait.since * NSEC_PER_SEC + (timeout.tvSec * NSEC_PER_SEC + timeout.tvNsec) * CLOCK_FREQ ≤
      clock * NSEC_PER_SEC

/-- The waiter that `sys_futex` puts on the board. -/
def waiter (wait : FutexWait) : FutexWaiter := .new (timedOut wait.timeout)

theorem Over.mono {wait : FutexWait} {clock clock' : ℕ} (h : wait.Over clock)
    (hle : clock ≤ clock') : wait.Over clock' := by
  obtain ⟨timeout, htimeout, hover⟩ := h
  exact ⟨timeout, htimeout, hover.trans (Nat.mul_le_mul_right _ hle)⟩

theorem isWoken_waiter {wait : FutexWait} {clock : ℕ} :
    wait.waiter.isWoken clock = decide (wait.waiter.timedOutUs ≤ getTimeUs clock) := rfl

end FutexWait

/-- The wait that a task is in by the log. -/
def waitOf (task : ℕ) : List Note → Option FutexWait
  | [] => none
  | .waits task' wait :: log => if task' = task then some wait else waitOf task log
  | .resumed task' :: log => if task' = task then none else waitOf task log
  | .exited .. :: log | .waited .. :: log => waitOf task log

/-- The note of a step neither begins nor ends a wait of the task. -/
def Note.Ignores (task : ℕ) : Note → Prop
  | .waits task' _ | .resumed task' => task' ≠ task
  | .exited .. | .waited .. => True

theorem waitOf_append {task : ℕ} {note : Option Note} {log : List Note}
    (h : ∀ n ∈ note, n.Ignores task) : waitOf task (note.toList ++ log) = waitOf task log := by
  cases note with
  | none => rfl
  | some n =>
    have hn := h n rfl
    cases n with
    | exited | waited => rfl
    | waits task' wait => exact if_neg hn
    | resumed task' => exact if_neg hn

namespace Kernel

/-- The scheduler does not take a task from its wait before the wait is over. -/
def ChecksInTime : KernelEvent → Kernel → List Note → Prop
  | .check cpu, k, log => ∀ task wait, (k.cpus cpu).pc = .fetched task →
    waitOf task log = some wait → wait.waiter.timedOutUs ≤ getTimeUs k.clock → wait.Over k.clock
  | _, _, _ => True

variable {k k' : Kernel} {cpu task tid t u : ℕ} {e : KernelEvent} {note : Option Note}
  {log : List Note} {wait : FutexWait} {ok : KernelEvent → Kernel → List Note → Prop}
  {s : CpuLocal}

/-! ## The `tid`s -/

/-- A task that is gone stays so. -/
theorem Dropped.trans (h : k.Dropped t) (hlt : t < k.next) (hp : k.Placed)
    (ht : Trans k e note k') : k'.Dropped t := by
  obtain ⟨hzombie, hnot⟩ := h
  refine ⟨?_, ht.unlisted hp hlt hnot⟩
  rcases (Exited.trans (.inr hzombie) hlt hp ht).2.2 with hsame | hz
  · rw [hsame]
    exact hzombie
  · exact hz

theorem Trans.tid_new (ht : Trans k e note k') (hp : k.Placed) (hlt : ¬ t < k.next)
    (hlt' : t < k'.next) : k.Free (k'.tcb t).tid := by
  obtain ⟨rfl, -, -⟩ := ht.not_exited_new hp hlt hlt'
  cases ht with
  | load hpc hqueue hfree =>
    rw [setCpu_tcb, create_tcb_self]
    exact hfree
  | clone hcpu hstack hfree =>
    rw [setCpu_tcb, fromClone_tcb_next (hp.current_lt hcpu)]
    exact hfree
  | zombie hpc hstatus =>
    rw [handleZombieTask_eq] at hlt'
    exact absurd hlt' hlt
  | _ => exact absurd hlt' hlt

/-- Two tasks that are not gone have different `tid`s. -/
theorem Reached.tid_inj (h : Reached ok k log) (ht : t < k.next) (hu : u < k.next)
    (hdt : ¬ k.Dropped t) (hdu : ¬ k.Dropped u) (heq : (k.tcb t).tid = (k.tcb u).tid) : t = u := by
  refine Reached.inv (I := fun k _ ↦ ∀ t < k.next, ∀ u < k.next, ¬ k.Dropped t → ¬ k.Dropped u →
    (k.tcb t).tid = (k.tcb u).tid → t = u) ?_ ?_ h t ht u hu hdt hdu heq
  · intro tid clock _ _ t ht u hu _ _ _
    exact (Nat.lt_one_iff.mp ht).trans (Nat.lt_one_iff.mp hu).symm
  · intro e k log note k' hreached ih _ htrans t ht u hu hdt hdu heq
    have hp := hreached.isPlaced
    have hold {t : ℕ} (ht : t < k.next) (hdt : ¬ k'.Dropped t) : ¬ k.Dropped t :=
      fun hd ↦ hdt (Dropped.trans hd ht hp htrans)
    -- The `tid` of a new task is that of no task that is left.
    have hnew {t u : ℕ} (ht : ¬ t < k.next) (ht' : t < k'.next) (hu : u < k.next)
        (hdu : ¬ k'.Dropped u) (heq : (k'.tcb t).tid = (k'.tcb u).tid) : False := by
      have hfree := htrans.tid_new hp ht ht'
      rw [heq, (htrans.sameKin hp hu).tid] at hfree
      exact hold hu hdu (hfree.2.2 u hu rfl)
    by_cases htlt : t < k.next
    · by_cases hult : u < k.next
      · refine ih t htlt u hult (hold htlt hdt) (hold hult hdu) ?_
        rw [← (htrans.sameKin hp htlt).tid, ← (htrans.sameKin hp hult).tid]
        exact heq
      · exact (hnew hult hu htlt hdt heq.symm).elim
    · by_cases hult : u < k.next
      · exact (hnew htlt ht hult hdu heq).elim
      · rw [(htrans.not_exited_new hp htlt ht).1, (htrans.not_exited_new hp hult hu).1]

/-- Tasks that have not exited have different `tid`s. -/
theorem Reached.tid_ne (h : Reached ok k log) (ht : t < k.next) (hu : u < k.next)
    (hst : (k.tcb t).taskStatus ≠ .zombie) (hsu : (k.tcb u).taskStatus ≠ .zombie) (hne : t ≠ u) :
    (k.tcb t).tid ≠ (k.tcb u).tid :=
  fun heq ↦ hne (h.tid_inj ht hu (fun hd ↦ hst hd.1) (fun hd ↦ hsu hd.1) heq)

/-! ## A task that waits -/

/-- A check has taken the task from its wait. -/
def Unblocked (k : Kernel) (task : ℕ) : Prop := ∃ cpu, (k.cpus cpu).pc = .unblocked task

/-- A task in a wait is ready, and its waiter is on the board until a check takes it off. -/
structure Waiting (k : Kernel) (task : ℕ) (wait : FutexWait) : Prop where
  lt_next : task < k.next
  ready : (k.tcb task).taskStatus = .ready
  waiter : ¬ k.Unblocked task → k.waitingBoard.waiterOf (k.tcb task).tid = some wait.waiter

theorem unblocked_update (hcpus : k'.cpus = Function.update k.cpus cpu s)
    (h : (k.cpus cpu).pc ≠ .unblocked task) (h' : s.pc ≠ .unblocked task) :
    k'.Unblocked task ↔ k.Unblocked task := by
  have hiff (c : ℕ) : (k'.cpus c).pc = .unblocked task ↔ (k.cpus c).pc = .unblocked task := by
    by_cases hc : c = cpu
    · subst hc
      rw [hcpus, Function.update_self]
      exact iff_of_false h' h
    · rw [hcpus, Function.update_of_ne hc]
  exact exists_congr hiff

/-- Only the task itself, its waiter and the CPUs matter. -/
theorem Waiting.congr (h : k.Waiting t wait) (hnext : k.next ≤ k'.next)
    (hstatus : (k'.tcb t).taskStatus = (k.tcb t).taskStatus)
    (htid : (k'.tcb t).tid = (k.tcb t).tid) (hun : k'.Unblocked t ↔ k.Unblocked t)
    (hboard : k'.waitingBoard.waiterOf (k.tcb t).tid = k.waitingBoard.waiterOf (k.tcb t).tid) :
    k'.Waiting t wait := by
  refine ⟨h.lt_next.trans_le hnext, hstatus.trans h.ready, ?_⟩
  intro hnot
  rw [htid, hboard]
  exact h.waiter (hun.not.mp hnot)

/-- A CPU goes from one position to another, at neither of which the task is unblocked. -/
theorem Waiting.setCpu {current : Option ℕ} {pc : Pc} (h : k.Waiting t wait)
    (hpc : (k.cpus cpu).pc ≠ .unblocked t) (hpc' : pc ≠ .unblocked t) :
    (k.setCpu cpu current pc).Waiting t wait :=
  h.congr le_rfl rfl rfl (unblocked_update rfl hpc hpc') rfl

/-- Another task changes. -/
theorem Waiting.modify {f : TaskControlBlock → TaskControlBlock} (h : k.Waiting t wait)
    (hne : t ≠ task) : (k.modify task f).Waiting t wait :=
  h.congr le_rfl (congrArg _ (modify_tcb_of_ne hne)) (congrArg _ (modify_tcb_of_ne hne)) Iff.rfl rfl

theorem Waiting.create {b : TaskControlBlock} (h : k.Waiting t wait) :
    (k.create b).Waiting t wait :=
  h.congr (Nat.le_succ _) (congrArg _ (create_tcb_of_ne h.lt_next.ne))
    (congrArg _ (create_tcb_of_ne h.lt_next.ne)) Iff.rfl rfl

/-- A check of the task itself or of another one. -/
theorem Waiting.check (h : k.Waiting t wait) (hpc : (k.cpus cpu).pc = .fetched task)
    (htid : t ≠ task → (k.tcb t).tid ≠ (k.tcb task).tid) :
    (k.checkThreadBlocked cpu task).Waiting t wait := by
  have hfetched : (k.cpus cpu).pc ≠ .unblocked t := by simp [hpc]
  by_cases htask : t = task
  · subst htask
    cases hblocked : (k.waitingBoard.checkThreadBlocked (k.tcb t).tid k.clock).1 with
    | true =>
      refine h.congr le_rfl rfl rfl (unblocked_update checkThreadBlocked_cpus hfetched ?_) ?_
      · rw [hblocked]
        simp
      · exact WaitingBoard.waiterOf_checkThreadBlocked_self hblocked
    | false =>
      refine ⟨h.lt_next, h.ready, fun hnot ↦ (hnot ⟨cpu, ?_⟩).elim⟩
      rw [checkThreadBlocked_cpus, hblocked, Function.update_self]
      rfl
  · refine h.congr le_rfl rfl rfl (unblocked_update checkThreadBlocked_cpus hfetched ?_) ?_
    · dsimp only
      split_ifs
      · simp
      · simpa using fun heq ↦ htask heq.symm
    · exact WaitingBoard.waiterOf_checkThreadBlocked_of_ne (htid htask)

/-- A wait goes on in every step that neither begins nor ends one of the task. -/
theorem Waiting.trans (h : k.Waiting t wait) (hp : k.Placed)
    (htid : ∀ u < k.next, (k.tcb u).taskStatus ≠ .zombie → t ≠ u → (k.tcb t).tid ≠ (k.tcb u).tid)
    (ht : Trans k e note k') (hnote : ∀ n ∈ note, n.Ignores t) : k'.Waiting t wait := by
  -- the task waits, and so it is not the one that runs
  have hrunning {cpu task : ℕ} {cx : Resume} (hcpu : k.cpus cpu = ⟨some task, .running cx⟩) :
      t ≠ task := by
    rintro rfl
    have hready := h.ready
    rw [hp.running hcpu] at hready
    exact absurd hready (by simp)
  cases ht with
  | fetch hpc hqueue =>
    exact h.congr le_rfl rfl rfl (unblocked_update rfl (by simp [hpc]) (by simp)) rfl
  | @load cpu tid hpc hqueue hfree =>
    have hcreate : (k.create (.fromAppName NO_PARENT tid)).Waiting t wait := h.create
    exact hcreate.setCpu (by simp [hpc]) (by simp)
  | halt hpc => exact h.setCpu (by simp [hpc]) (by simp)
  | @check cpu task hpc =>
    refine h.check hpc fun hne ↦ htid task (hp.held_lt hpc rfl) ?_ hne
    have hheld : (k.cpus cpu).pc.held = some task := by simp [hpc]
    exact hp.held_ne_zombie hheld
  | @switchInto cpu task hpc =>
    have hne : t ≠ task := fun heq ↦ hnote _ rfl heq.symm
    refine (h.modify hne).setCpu ?_ (by simp)
    simpa [hpc] using hne.symm
  | repush hpc =>
    exact h.congr le_rfl rfl rfl (unblocked_update rfl (by simp [hpc]) (by simp)) rfl
  | pushNew hpc =>
    exact h.congr le_rfl rfl rfl (unblocked_update rfl (by simp [hpc]) (by simp)) rfl
  | @clone cpu task tid flags userStack hcpu hstack hfree =>
    have htcb := fromClone_tcb_of_lt flags tid (hp.current_lt hcpu) h.lt_next
    have hclone : (k.fromClone task flags tid).Waiting t wait := by
      refine h.congr ?_ (by rw [htcb]) (by rw [htcb]) ?_ (by simp)
      · simp
      · rw [Unblocked, Unblocked, fromClone_cpus]
    exact hclone.setCpu (by simp [hcpu]) (by simp)
  | suspend cx' hcpu hno => exact (h.modify (hrunning hcpu)).setCpu (by simp [hcpu]) (by simp)
  | @futexWait cpu task _ _ _ _ _ hcpu =>
    have hne := hrunning hcpu
    have hstatus : (k.tcb task).taskStatus ≠ .zombie := by simp [hp.running hcpu]
    -- the entry of another `tid` is set
    have hboard (waiter : FutexWaiter) : Waiting { k with
        waitingBoard := k.waitingBoard.setWaiterForThread (k.tcb task).tid waiter } t wait :=
      h.congr le_rfl rfl rfl Iff.rfl (WaitingBoard.waiterOf_setWaiterForThread_of_ne
        (htid task (hp.current_lt hcpu) hstatus hne))
    exact ((hboard _).modify hne).setCpu (by simp [hcpu]) (by simp)
  | exit exitCode hcpu => exact (h.modify (hrunning hcpu)).setCpu (by simp [hcpu]) (by simp)
  | exec hcpu => exact h.modify (hrunning hcpu)
  | fail => exact h
  | goOn cx' hcpu hno => exact h.setCpu (by simp [hcpu]) (by simp)
  | reap hcpu hfound => exact (h.modify (hrunning hcpu)).setCpu (by simp [hcpu]) (by simp)
  | take hcpu => exact h.setCpu (by simp [hcpu]) (by simp)
  | requeue hpc hstatus =>
    exact h.congr le_rfl rfl rfl (unblocked_update rfl (by simp [hpc]) (by simp)) rfl
  | @zombie cpu task hpc hstatus =>
    have hne : t ≠ task := by
      rintro rfl
      have hready := h.ready
      rw [hstatus] at hready
      exact absurd hready (by simp)
    rw [handleZombieTask_eq]
    refine h.congr le_rfl ?_ rfl (unblocked_update rfl (by simp [hpc]) (by simp)) rfl
    simp [hne]
  | tick hle => exact h.congr le_rfl rfl rfl Iff.rfl rfl

/-- A task that begins to wait. -/
theorem waiting_futexWait {uaddr : ℕ} {timeout : Option TimeSpec} (hp : k.Placed)
    (hcpu : k.cpus cpu = ⟨some t, .running .user⟩) :
    Waiting ({ k with
      waitingBoard := k.waitingBoard.setWaiterForThread (k.tcb t).tid
        (.new (timedOut timeout)) }.suspendCurrentTask cpu t .user) t
      ⟨uaddr, timeout, k.clock⟩ := by
  refine ⟨hp.current_lt hcpu, ?_, fun _ ↦ ?_⟩
  · rw [suspendCurrentTask_tcb_self]
  · rw [suspendCurrentTask_tcb_self]
    exact WaitingBoard.waiterOf_setWaiterForThread_self

theorem Reached.waiting (h : Reached ok k log) (hwait : waitOf t log = some wait) :
    k.Waiting t wait := by
  refine Reached.inv (I := fun k log ↦ ∀ wait, waitOf t log = some wait → k.Waiting t wait)
    ?_ ?_ h wait hwait
  · intro tid clock _ _ wait hnil
    exact absurd hnil (by simp [waitOf])
  · intro e k log note k' hreached ih _ ht wait hwait
    have hp := hreached.isPlaced
    by_cases hnote : ∀ n ∈ note, n.Ignores t
    · rw [waitOf_append hnote] at hwait
      have hw := ih wait hwait
      refine hw.trans hp ?_ ht hnote
      intro u hu hstatus hne
      exact hreached.tid_ne hw.lt_next hu (by simp [hw.ready]) hstatus hne
    · push Not at hnote
      obtain ⟨n, rfl, hn⟩ := hnote
      cases n with
      | exited | waited => exact absurd trivial hn
      | resumed task =>
        obtain rfl : task = t := not_not.mp hn
        exact absurd hwait (by simp [waitOf])
      | waits task wait' =>
        obtain rfl : task = t := not_not.mp hn
        -- the task begins to wait now
        obtain rfl : wait' = wait := by simpa [waitOf] using hwait
        cases ht with
        | futexWait hcpu => exact waiting_futexWait hp hcpu
        | suspend cx' hcpu hno =>
          obtain ⟨_, habs, _⟩ := hno _ rfl
          exact absurd habs (by simp)
        | goOn cx' hcpu hno =>
          obtain ⟨_, habs, _⟩ := hno _ rfl
          exact absurd habs (by simp)

/-! ## Whether the wait is over -/

/-- A check takes a task from its wait exactly if the machine's clock has reached the time in the
waiter. -/
theorem Reached.check_unblocks_iff (h : Reached ok k log) (hpc : (k.cpus cpu).pc = .fetched t)
    (hwait : waitOf t log = some wait) :
    ((k.checkThreadBlocked cpu t).cpus cpu).pc = .unblocked t ↔
      wait.waiter.timedOutUs ≤ getTimeUs k.clock := by
  have hnot : ¬ k.Unblocked t := by
    rintro ⟨c, hc⟩
    have hplace := h.isPlaced.unique (t := t) (p := .held cpu) (q := .held c) (by simp [At, hpc])
      (by simp [At, hc])
    obtain rfl := Place.held.inj hplace
    rw [hpc] at hc
    exact absurd hc (by simp)
  have hblocked := WaitingBoard.checkThreadBlocked_of_waiterOf k.clock
    ((h.waiting hwait).waiter hnot)
  rw [checkThreadBlocked_cpus, hblocked, Function.update_self, FutexWait.isWoken_waiter]
  by_cases hle : wait.waiter.timedOutUs ≤ getTimeUs k.clock
  · simp [hle]
  · simp [hle]

/-- A step other than a check unblocks nobody. -/
theorem Trans.unblocked (ht : Trans k e note k') (h : k'.Unblocked t) :
    k.Unblocked t ∨ ∃ cpu, e = .check cpu ∧ note = none ∧ (k.cpus cpu).pc = .fetched t ∧
      ((k.checkThreadBlocked cpu t).cpus cpu).pc = .unblocked t ∧ k'.clock = k.clock := by
  -- another step lets no task go
  have hset {c : ℕ} {s : CpuLocal} (hcpus : k'.cpus = Function.update k.cpus c s)
      (hpc : s.pc ≠ .unblocked t) : k.Unblocked t := by
    obtain ⟨c', hc'⟩ := h
    rw [hcpus] at hc'
    by_cases hc : c' = c
    · subst hc
      rw [Function.update_self] at hc'
      exact absurd hc' hpc
    · rw [Function.update_of_ne hc] at hc'
      exact ⟨c', hc'⟩
  cases ht with
  | @check cpu task hpc =>
    obtain ⟨c, hc⟩ := h
    by_cases hcpu : c = cpu
    · subst hcpu
      have htask : task = t := by
        rw [checkThreadBlocked_cpus, Function.update_self] at hc
        dsimp only at hc
        split_ifs at hc
        exact Pc.unblocked.inj hc
      subst htask
      exact .inr ⟨c, rfl, rfl, hpc, hc, rfl⟩
    · rw [checkThreadBlocked_cpus, Function.update_of_ne hcpu] at hc
      exact .inl ⟨c, hc⟩
  | @clone cpu task tid flags userStack hcpu hstack hfree =>
    refine .inl (hset (c := cpu) (s := ⟨some task, .cloned k.next⟩) ?_ (by simp))
    simp [setCpu, hcpu]
  | zombie hpc hstatus =>
    rw [handleZombieTask_eq] at h hset
    exact .inl (hset rfl (by simp))
  | exec hcpu => exact .inl h
  | fail => exact .inl h
  | tick hle => exact .inl h
  | _ => exact .inl (hset rfl (by simp))

/-- The clock does not go back. -/
theorem Trans.clock_le (ht : Trans k e note k') : k.clock ≤ k'.clock := by
  cases ht with
  | tick hle => exact hle
  | clone hcpu hstack hfree => simp
  | zombie hpc hstatus =>
    rw [handleZombieTask_eq]
    exact le_rfl
  | _ => exact le_rfl

/-- **A futex wait lasts until its timeout has passed**, in a run in which no check finds the
machine's clock at the time in the waiter before that: a task that is about to be switched in, and
waits since it found the value that it expected, gave a timeout, and so much time has passed. -/
theorem wait_until_over (h : Reached ChecksInTime k log) (hpc : (k.cpus cpu).pc = .unblocked t)
    (hwait : waitOf t log = some wait) : wait.Over k.clock := by
  refine Reached.inv (I := fun k log ↦ ∀ wait, k.Unblocked t → waitOf t log = some wait →
    wait.Over k.clock) ?_ ?_ h wait ⟨cpu, hpc⟩ hwait
  · intro tid clock _ _ wait _ hnil
    exact absurd hnil (by simp [waitOf])
  · intro e k log note k' hreached ih hok ht wait hunblocked hwait
    have hp := hreached.isPlaced
    rcases ht.unblocked hunblocked with hold | ⟨cpu, rfl, rfl, hpc, hpc', hclock⟩
    · by_cases hnote : ∀ n ∈ note, n.Ignores t
      · rw [waitOf_append hnote] at hwait
        exact (ih wait hold hwait).mono ht.clock_le
      · -- A task that a check has let through does not begin another wait.
        push Not at hnote
        obtain ⟨n, rfl, hn⟩ := hnote
        obtain ⟨c, hc⟩ := hold
        cases ht with
        | @switchInto cpu task _ =>
          obtain rfl : task = t := not_not.mp hn
          exact absurd hwait (by simp [waitOf])
        | @futexWait cpu task _ _ _ _ _ hcpu =>
          obtain rfl : task = t := not_not.mp hn
          have hplace := hp.unique (t := task) (p := .held c) (q := .current cpu)
            (by simp [At, hc]) (by simp [At, hcpu])
          exact absurd hplace (by simp)
        | suspend cx' hcpu hno =>
          obtain ⟨_, rfl, _⟩ := hno _ rfl
          exact absurd trivial hn
        | goOn cx' hcpu hno =>
          obtain ⟨_, rfl, _⟩ := hno _ rfl
          exact absurd trivial hn
        | exit exitCode hcpu => exact absurd trivial hn
        | reap hcpu hfound => exact absurd trivial hn
    · rw [hclock]
      exact hok t wait hpc hwait ((hreached.check_unblocks_iff hpc hwait).mp hpc')

/-- The events by which the current task of a CPU finds 5 at an address and waits there, and the CPU
takes it from the queue again. -/
def waitOn (cpu : ℕ) (timeout : Option TimeSpec) : List KernelEvent :=
  [.futex cpu 4096 0 5 (some 5) timeout, .take cpu, .switchedOut cpu, .fetch cpu none]

/-- A check of the CPU 0 does not come between the time in the waiter and the end of a wait that
began at 0 with a timeout of a second. -/
def checkLate : KernelEvent → Kernel → List Note → Bool
  | .check cpu, k, log =>
    match (k.cpus cpu).pc with
    | .fetched task =>
      match waitOf task log with
      | some wait => wait.timeout == some ⟨1, 0⟩ &&
        decide (wait.since * NSEC_PER_SEC + NSEC_PER_SEC * CLOCK_FREQ ≤ k.clock * NSEC_PER_SEC)
      | none => true
    | _ => true
  | _, _, _ => true

theorem checksInTime_of_checkLate (e : KernelEvent) (k : Kernel) (log : List Note)
    (h : checkLate e k log = true) : ChecksInTime e k log := by
  cases e with
  | check cpu =>
    intro task wait hpc hwait _
    rw [checkLate, hpc] at h
    dsimp only at h
    rw [hwait] at h
    obtain ⟨htimeout, hle⟩ := (Bool.and_eq_true _ _).mp h
    refine ⟨⟨1, 0⟩, beq_iff_eq.mp htimeout, ?_⟩
    simpa using of_decide_eq_true hle
  | _ => trivial

/-- A task that waits with a timeout of a second is let through after two. -/
theorem wait_until_over_second : ∃ (k : Kernel) (wait : FutexWait),
    wait.timeout = some ⟨1, 0⟩ ∧ (k.cpus 0).pc = .unblocked 0 ∧ wait.Over k.clock := by
  obtain ⟨k, log, hreached, hP⟩ := reached_of_replay ChecksInTime checkLate
    (switchIn 0 ++ waitOn 0 (some ⟨1, 0⟩) ++ [.tick 25000000, .check 0])
    (fun s ↦ decide ((s.1.cpus 0).pc = .unblocked 0 ∧
      waitOf 0 s.2 = some ⟨4096, some ⟨1, 0⟩, 0⟩))
    checksInTime_of_checkLate (by decide +kernel)
  obtain ⟨hpc, hwait⟩ : (k.cpus 0).pc = .unblocked 0 ∧ _ := of_decide_eq_true hP
  exact ⟨k, _, rfl, hpc, wait_until_over hreached hpc hwait⟩

/-- A task that waits without a timeout is let through by the first check. -/
theorem wait_not_over : ∃ (k : Kernel) (log : List Note) (wait : FutexWait),
    Reached anyEvent k log ∧ (k.cpus 0).pc = .unblocked 0 ∧ waitOf 0 log = some wait ∧
      wait.timeout = none ∧ ¬ wait.Over k.clock := by
  obtain ⟨k, log, hreached, hP⟩ := reached_of_replay anyEvent (fun _ _ _ ↦ true)
    (switchIn 0 ++ waitOn 0 none ++ [.check 0])
    (fun s ↦ decide ((s.1.cpus 0).pc = .unblocked 0 ∧
      waitOf 0 s.2 = some ⟨4096, none, 0⟩))
    (fun _ _ _ _ ↦ trivial) (by decide +kernel)
  obtain ⟨hpc, hwait⟩ : (k.cpus 0).pc = .unblocked 0 ∧ _ := of_decide_eq_true hP
  refine ⟨k, log, _, hreached, hpc, hwait, rfl, ?_⟩
  rintro ⟨timeout, htimeout, -⟩
  exact absurd htimeout (by simp)

end Kernel

end Maturin
