import Maturin.Signal.Calls
import Maturin.Signal.Kill
import Maturin.Task.Places

/-!
# Signals of a process

A process is the threads with its `pid`, and each thread has receivers of its own, which
`TID2SIGNALS` has under its `tid` as long as it is no zombie. `sys_kill` takes the `pid` of the
process for the `tid` of a thread. So a signal of the process goes to its first thread, whether that
blocks it or not, and to no thread when the first has exited.
-/

open Exec

namespace Maturin

namespace KernelEvent

/-- `TID2SIGNALS` after an event: new tasks are registered, and a task that becomes a zombie is
logged off. -/
def tid2signalsAfter (k : Kernel) (tid2signals : ℕ → Option ℕ) : KernelEvent → ℕ → Option ℕ
  | clone _ _ userStack tid =>
    if userStack < 0 then tid2signals else Function.update tid2signals tid (some k.next)
  | fetch _ (some tid) =>
    if k.readyQueue = [] then Function.update tid2signals tid (some k.next) else tid2signals
  | switchedOut cpu =>
    match (k.cpus cpu).pc with
    | .taken task =>
      if (k.tcb task).taskStatus = .dying then
        Function.update tid2signals (k.tcb task).tid none
      else tid2signals
    | _ => tid2signals
  | _ => tid2signals

end KernelEvent

namespace Kernel

/-- A run of any events from the boot, with the table of the receivers. -/
inductive Registered : Kernel → (ℕ → Option ℕ) → Prop
  | boot {tid : ℕ} (clock : ℕ) (hle : 2 ≤ tid) (hlt : tid < TID_LIMIT) :
      Registered (boot tid clock) (Function.update (fun _ ↦ none) tid (some 0))
  | step {k k' : Kernel} {tid2signals : ℕ → Option ℕ} {e : KernelEvent}
      (h : Registered k tid2signals) (hstep : e.step k = some k') :
      Registered k' (e.tid2signalsAfter k tid2signals)

/-- The thread can run. -/
def Live (k : Kernel) (task : ℕ) : Prop :=
  task < k.next ∧ ((k.tcb task).taskStatus = .ready ∨ (k.tcb task).taskStatus = .running)

/-- A live thread of the process that does not block the signal. -/
def Willing (k : Kernel) (receivers : ℕ → SignalReceivers) (pid : ℤ) (signum task : ℕ) : Prop :=
  k.Live task ∧ ((k.tcb task).pid : ℤ) = pid ∧ ¬ (receivers task).Masked signum

/-- If a thread of the process is willing, the signal is pending on one after the call. -/
def KillReaches (k : Kernel) (s : TidSignals) (pid : ℤ) (signum : ℕ) : Prop :=
  (∃ task, k.Willing s.receivers pid signum task) →
    ∃ r t, (TidSignals.sysKill pid signum).run s = .ok r t ∧
      ∃ task, k.Willing t.receivers pid signum task ∧ (t.receivers task).Pending signum

variable {k k' : Kernel} {cpu task tid u : ℕ} {e : KernelEvent} {note : Option Note}
  {tid2signals : ℕ → Option ℕ}

/-! ## Who is registered -/

/-- The table has the tasks that are no zombies, each under its `tid`. -/
structure TableOk (k : Kernel) (tid2signals : ℕ → Option ℕ) : Prop where
  registered : ∀ task < k.next, (k.tcb task).taskStatus ≠ .zombie →
    tid2signals (k.tcb task).tid = some task
  sound : ∀ tid task, tid2signals tid = some task →
    task < k.next ∧ (k.tcb task).tid = tid ∧ (k.tcb task).taskStatus ≠ .zombie
  range : ∀ task < k.next, (2 ≤ (k.tcb task).tid ∧ (k.tcb task).tid < TID_LIMIT) ∧
    2 ≤ (k.tcb task).pid ∧ (k.tcb task).pid < TID_LIMIT

/-- The tasks up to the first `n` have kept their numbers, and are zombies if they were. -/
def KeepsTasks (k k' : Kernel) (n : ℕ) : Prop :=
  ∀ u < n, (k'.tcb u).tid = (k.tcb u).tid ∧ (k'.tcb u).pid = (k.tcb u).pid ∧
    ((k'.tcb u).taskStatus = .zombie ↔ (k.tcb u).taskStatus = .zombie)

theorem TableOk.keep (h : k.TableOk tid2signals) (hnext : k'.next = k.next)
    (hkeep : k.KeepsTasks k' k.next) : k'.TableOk tid2signals := by
  constructor
  · intro task hlt hstatus
    rw [hnext] at hlt
    obtain ⟨htid, -, hzombie⟩ := hkeep task hlt
    rw [htid]
    exact h.registered task hlt (mt hzombie.mpr hstatus)
  · intro tid task htable
    obtain ⟨hlt, rfl, hstatus⟩ := h.sound tid task htable
    obtain ⟨htid, -, hzombie⟩ := hkeep task hlt
    exact ⟨hnext ▸ hlt, htid, mt hzombie.mp hstatus⟩
  · intro task hlt
    rw [hnext] at hlt
    obtain ⟨htid, hpid, -⟩ := hkeep task hlt
    rw [htid, hpid]
    exact h.range task hlt

/-- A new task is registered under a `tid` that no other task has. -/
theorem TableOk.create (h : k.TableOk tid2signals) (hfree : k.Free tid)
    (hnext : k'.next = k.next + 1) (hkeep : k.KeepsTasks k' k.next)
    (htid : (k'.tcb k.next).tid = tid) (hstatus : (k'.tcb k.next).taskStatus ≠ .zombie)
    (hpid : 2 ≤ (k'.tcb k.next).pid ∧ (k'.tcb k.next).pid < TID_LIMIT) :
    k'.TableOk (Function.update tid2signals tid (some k.next)) := by
  -- no live task has the `tid` yet
  have hne : ∀ task < k.next, (k.tcb task).taskStatus ≠ .zombie → (k.tcb task).tid ≠ tid :=
    fun task hlt hstatus heq ↦ hstatus (hfree.2.2 task hlt heq).1
  constructor
  · intro task hlt hlive
    rcases Nat.lt_succ_iff_lt_or_eq.mp (hnext ▸ hlt) with hold | rfl
    · obtain ⟨htid', -, hzombie⟩ := hkeep task hold
      have hlive' := mt hzombie.mpr hlive
      rw [htid', Function.update_of_ne (hne task hold hlive')]
      exact h.registered task hold hlive'
    · rw [htid, Function.update_self]
  · intro tid' task htable
    rcases eq_or_ne tid' tid with rfl | hother
    · rw [Function.update_self] at htable
      obtain rfl := Option.some.inj htable
      exact ⟨by omega, htid, hstatus⟩
    · rw [Function.update_of_ne hother] at htable
      obtain ⟨hlt, rfl, hlive⟩ := h.sound tid' task htable
      obtain ⟨htid', -, hzombie⟩ := hkeep task hlt
      exact ⟨by omega, htid', mt hzombie.mp hlive⟩
  · intro task hlt
    rcases Nat.lt_succ_iff_lt_or_eq.mp (hnext ▸ hlt) with hold | rfl
    · obtain ⟨htid', hpid', -⟩ := hkeep task hold
      rw [htid', hpid']
      exact h.range task hold
    · rw [htid]
      exact ⟨⟨hfree.1, hfree.2.1⟩, hpid⟩

/-- A task that becomes a zombie is logged off. -/
theorem TableOk.zombie (h : k.TableOk tid2signals) (hlt : task < k.next)
    (hlive : (k.tcb task).taskStatus ≠ .zombie) :
    (k.handleZombieTask task).TableOk (Function.update tid2signals (k.tcb task).tid none) := by
  rw [handleZombieTask_eq]
  constructor
  · intro u hu hstatus
    dsimp only at hu hstatus ⊢
    split_ifs at hstatus with heq
    · exact absurd rfl hstatus
    · -- two live tasks would be registered under one `tid`
      have hself := h.registered u hu hstatus
      rcases eq_or_ne (k.tcb u).tid (k.tcb task).tid with htid | htid
      · rw [htid, h.registered task hlt hlive] at hself
        exact absurd (Option.some.inj hself).symm heq
      · rw [Function.update_of_ne htid]
        exact hself
  · intro tid u htable
    rcases eq_or_ne tid (k.tcb task).tid with rfl | htid
    · rw [Function.update_self] at htable
      cases htable
    · rw [Function.update_of_ne htid] at htable
      obtain ⟨hu, rfl, hstatus⟩ := h.sound tid u htable
      have hne : u ≠ task := by
        rintro rfl
        exact htid rfl
      refine ⟨hu, rfl, ?_⟩
      dsimp only
      rw [if_neg hne]
      exact hstatus
  · exact h.range

/-- One task changes, and has kept its numbers. -/
theorem KeepsTasks.of_tcb {n : ℕ} (htid : (k'.tcb task).tid = (k.tcb task).tid)
    (hpid : (k'.tcb task).pid = (k.tcb task).pid)
    (hzombie : (k'.tcb task).taskStatus = .zombie ↔ (k.tcb task).taskStatus = .zombie)
    (hother : ∀ u, u ≠ task → k'.tcb u = k.tcb u) : k.KeepsTasks k' n := by
  intro u _
  by_cases hu : u = task
  · subst hu
    exact ⟨htid, hpid, hzombie⟩
  · rw [hother u hu]
    exact ⟨rfl, rfl, Iff.rfl⟩

theorem KeepsTasks.refl (n : ℕ) : k.KeepsTasks k n := fun _ _ ↦ ⟨rfl, rfl, Iff.rfl⟩

/-- Steps that make no task and end none keep the tasks as they are. -/
theorem keepsTasks_of_trans (hp : k.Placed) (ht : Trans k e note k')
    (hfetch : ∀ cpu testcase, e ≠ .fetch cpu testcase)
    (hclone : ∀ cpu flags userStack tid, e ≠ .clone cpu flags userStack tid)
    (hout : ∀ cpu, e ≠ .switchedOut cpu) : k'.next = k.next ∧ k.KeepsTasks k' k.next := by
  cases ht with
  | fetch | load | halt => exact absurd rfl (hfetch _ _)
  | clone => exact absurd rfl (hclone _ _ _ _)
  | requeue | zombie => exact absurd rfl (hout _)
  | check | repush | pushNew | fail | goOn | take | tick => exact ⟨rfl, .refl _⟩
  | switchInto hpc =>
    refine ⟨rfl, .of_tcb (by simp) (by simp) ?_ fun u hu ↦ switchInto_tcb_of_ne hu⟩
    simp [(hp.valid_pc hpc).2]
  | suspend _ hcpu =>
    refine ⟨rfl, .of_tcb (by simp) (by simp) ?_ fun u hu ↦ suspendCurrentTask_tcb_of_ne hu⟩
    simp [hp.running hcpu]
  | futexWait hcpu =>
    refine ⟨rfl, .of_tcb (by simp) (by simp) ?_ fun u hu ↦ suspendCurrentTask_tcb_of_ne hu⟩
    simp [hp.running hcpu]
  | exit _ hcpu =>
    refine ⟨rfl, .of_tcb (by simp) (by simp) ?_ fun u hu ↦ exitCurrentTask_tcb_of_ne hu⟩
    simp [hp.running hcpu]
  | exec => exact ⟨rfl, .of_tcb (by simp) (by simp) (by simp) fun u hu ↦ modify_tcb_of_ne hu⟩
  | @reap cpu task =>
    refine ⟨rfl, .of_tcb ?_ ?_ ?_ fun u (hu : u ≠ task) ↦ ?_⟩
    · simp
    · simp
    · simp
    · rw [setCpu_tcb, modify_tcb_of_ne hu]

theorem Registered.placed (h : Registered k tid2signals) : k.Placed := by
  induction h with
  | boot clock => exact placed_boot _ clock
  | step _ hstep ih => exact ih.trans (trans_of_step hstep)

theorem TableOk.clone {flags : CloneFlags} {userStack : ℤ} (h : k.TableOk tid2signals)
    (hp : k.Placed) (hstep : (KernelEvent.clone cpu flags userStack tid).step k = some k') :
    k'.TableOk ((KernelEvent.clone cpu flags userStack tid).tid2signalsAfter k tid2signals) := by
  obtain ⟨task, hcpu, hclone⟩ := of_inUser hstep
  have hlt := hp.current_lt hcpu
  rw [sysClone] at hclone
  rw [KernelEvent.tid2signalsAfter]
  split_ifs at hclone ⊢ with hstack hfree
  · obtain rfl := Option.some.inj hclone
    exact h
  · obtain rfl := Option.some.inj hclone
    have hnew : (k.fromClone task flags tid).tcb k.next = k.clonedTask task flags tid :=
      fromClone_tcb_next hlt
    apply h.create hfree
    · exact fromClone_next
    · intro u hu
      rw [setCpu_tcb, fromClone_tcb_of_lt flags tid hlt hu]
      exact ⟨rfl, rfl, Iff.rfl⟩
    · rw [setCpu_tcb, hnew]
      rfl
    · rw [setCpu_tcb, hnew]
      exact TaskStatus.noConfusion
    · rw [setCpu_tcb, hnew, clonedTask]
      dsimp only
      split_ifs
      · exact (h.range task hlt).2
      · exact ⟨hfree.1, hfree.2.1⟩

theorem TableOk.fetch {testcase : Option ℕ} (h : k.TableOk tid2signals)
    (hstep : (KernelEvent.fetch cpu testcase).step k = some k') :
    k'.TableOk ((KernelEvent.fetch cpu testcase).tid2signalsAfter k tid2signals) := by
  rw [KernelEvent.step] at hstep
  split at hstep
  · rw [fetchTaskFromScheduler.eq_def] at hstep
    cases hqueue : k.readyQueue with
    | cons task rest =>
      rw [hqueue] at hstep
      obtain rfl := Option.some.inj hstep
      have hkept : ({ k with readyQueue := rest }.setPc cpu (.fetched task)).TableOk tid2signals :=
        h.keep rfl (.refl _)
      cases testcase with
      | none => exact hkept
      | some tid =>
        rw [KernelEvent.tid2signalsAfter, hqueue, if_neg (List.cons_ne_nil _ _)]
        exact hkept
    | nil =>
      rw [hqueue] at hstep
      cases testcase with
      | none =>
        obtain rfl := Option.some.inj hstep
        exact h.keep rfl (.refl _)
      | some tid =>
        dsimp only at hstep
        rw [if_pos rfl] at hstep
        split_ifs at hstep with hfree
        obtain rfl := Option.some.inj hstep
        rw [KernelEvent.tid2signalsAfter, if_pos hqueue]
        -- the loader's task is registered under the `tid` that was free
        have hnew : ((k.create (.fromAppName NO_PARENT tid)).setPc cpu (.fetched k.next)).tcb
          k.next = .fromAppName NO_PARENT tid := create_tcb_self
        apply h.create hfree
        · rfl
        · intro u hu
          rw [setCpu_tcb, create_tcb_of_ne hu.ne]
          exact ⟨rfl, rfl, Iff.rfl⟩
        · rw [hnew]
          rfl
        · rw [hnew]
          exact TaskStatus.noConfusion
        · rw [hnew]
          exact ⟨hfree.1, hfree.2.1⟩
  · cases hstep

theorem TableOk.switchedOut (h : k.TableOk tid2signals) (hp : k.Placed)
    (hstep : (KernelEvent.switchedOut cpu).step k = some k') :
    k'.TableOk ((KernelEvent.switchedOut cpu).tid2signalsAfter k tid2signals) := by
  rw [KernelEvent.step] at hstep
  split at hstep
  · rename_i task hpc
    rw [KernelEvent.tid2signalsAfter, hpc]
    dsimp only
    have hlt := hp.held_lt hpc rfl
    rw [Kernel.switchedOut] at hstep
    split at hstep
    · rename_i hstatus
      obtain rfl := Option.some.inj hstep
      rw [if_neg (by rw [hstatus]; exact TaskStatus.noConfusion)]
      exact h.keep rfl (.refl _)
    · rename_i hstatus
      rw [if_neg (by simp)] at hstep
      obtain rfl := Option.some.inj hstep
      rw [if_pos hstatus]
      refine (h.zombie hlt ?_).keep rfl (.refl _)
      rw [hstatus]
      exact TaskStatus.noConfusion
    · cases hstep
  · cases hstep

theorem Registered.tableOk (h : Registered k tid2signals) : k.TableOk tid2signals := by
  induction h with
  | @boot tid clock hle hlt =>
    constructor
    · intro task hzero _
      obtain rfl : task = 0 := Nat.lt_one_iff.mp hzero
      exact Function.update_self ..
    · intro tid' task htable
      rcases eq_or_ne tid' tid with rfl | hne
      · rw [Function.update_self] at htable
        obtain rfl := Option.some.inj htable
        exact ⟨Nat.one_pos, rfl, TaskStatus.noConfusion⟩
      · rw [Function.update_of_ne hne] at htable
        cases htable
    · exact fun _ _ ↦ ⟨⟨hle, hlt⟩, hle, hlt⟩
  | @step k k' tid2signals e h hstep ih =>
    have ht := trans_of_step hstep
    cases e with
    | clone => exact ih.clone h.placed hstep
    | fetch => exact ih.fetch hstep
    | switchedOut => exact ih.switchedOut h.placed hstep
    | _ =>
      obtain ⟨hnext, hkeep⟩ := keepsTasks_of_trans h.placed ht (fun _ _ ↦ KernelEvent.noConfusion)
        (fun _ _ _ _ ↦ KernelEvent.noConfusion) (fun _ ↦ KernelEvent.noConfusion)
      exact ih.keep hnext hkeep

/-! ## Who gets the signal -/

variable {receivers : ℕ → SignalReceivers} {pid : ℤ} {signum : ℕ}

theorem asUsize_natCast {n : ℕ} (h : n < 2 ^ 64) : asUsize n = n := by
  rw [asUsize, BitVec.ofInt_natCast, BitVec.toNat_ofNat, Nat.mod_eq_of_lt h]

/-- The call marks the signal at the thread that is registered under the `pid`. -/
theorem run_sysKill {p : ℕ} {s : TidSignals} (hs : SignalTask.IsSignal signum)
    (hp : 2 ≤ p ∧ p < TID_LIMIT) :
    (TidSignals.sysKill p signum).run s = .ok (.ok 0) (match s.tid2signals p with
      | some task => { s with
        receivers := Function.update s.receivers task ((s.receivers task).tryAddBit signum) }
      | none => s) := by
  have hsignum := hs.2
  have hsend : 0 < (p : ℤ) ∧ 0 < (signum : ℤ) := by
    rw [SignalTask.IsSignal] at hs
    omega
  have hlimit : TID_LIMIT = 4096 := rfl
  rw [TidSignals.sysKill, if_pos hsend, asUsize_natCast (by omega), asUsize_natCast (by omega)]
  rfl

/-- A signal that is marked at a thread changes no mask, and is pending there. -/
theorem willing_update_iff {target : ℕ} :
    k.Willing (Function.update receivers target ((receivers target).tryAddBit signum)) pid signum
      task ↔ k.Willing receivers pid signum task := by
  have hmask : (Function.update receivers target ((receivers target).tryAddBit signum) task).mask =
      (receivers task).mask := by
    rcases eq_or_ne task target with rfl | hne
    · rw [Function.update_self, SignalReceivers.tryAddBit]
    · rw [Function.update_of_ne hne]
  rw [Willing, Willing, SignalReceivers.Masked, SignalReceivers.Masked, hmask]

theorem pending_update_iff {target : ℕ} (hs : SignalTask.IsSignal signum) :
    (Function.update receivers target ((receivers target).tryAddBit signum) task).Pending signum ↔
      (receivers task).Pending signum ∨ task = target := by
  rcases eq_or_ne task target with rfl | hne
  · rw [Function.update_self]
    exact iff_of_true (SignalTask.pending_tryAddBit hs (Or.inr rfl)) (Or.inr rfl)
  · rw [Function.update_of_ne hne, or_iff_left hne]

/-- **When a signal reaches a willing thread.** After any run, and whatever is masked and pending:
no thread of the process is willing, or the signal is pending on one already, or the thread that has
the `pid` for its `tid` is one. -/
theorem kill_reaches_iff (h : Registered k tid2signals) (hs : SignalTask.IsSignal signum) :
    k.KillReaches ⟨tid2signals, receivers⟩ pid signum ↔
      (∀ task, ¬ k.Willing receivers pid signum task) ∨
      (∃ task, k.Willing receivers pid signum task ∧ (receivers task).Pending signum) ∨
      ∃ task, k.Willing receivers pid signum task ∧ ((k.tcb task).tid : ℤ) = pid := by
  have htable := h.tableOk
  by_cases hsome : ∃ task, k.Willing receivers pid signum task
  · obtain ⟨u, hu⟩ := id hsome
    obtain ⟨⟨hlt, -⟩, hpid, -⟩ := id hu
    have hrun := run_sysKill (s := ⟨tid2signals, receivers⟩) hs (htable.range u hlt).2
    rw [hpid] at hrun
    rw [or_iff_right fun hnone ↦ hnone u hu]
    -- a willing thread is live, so that it is registered
    have hregistered : ∀ w, k.Willing receivers pid signum w → ((k.tcb w).tid : ℤ) = pid →
        tid2signals (k.tcb u).pid = some w := by
      rintro w ⟨⟨hw, hstatus⟩, -⟩ htid
      rw [← Int.ofNat_inj.mp (htid.trans hpid.symm)]
      apply htable.registered w hw
      rcases hstatus with hready | hrunning
      · rw [hready]
        exact TaskStatus.noConfusion
      · rw [hrunning]
        exact TaskStatus.noConfusion
    constructor
    · intro hreaches
      obtain ⟨r, t, hrun', w, hw, hpending⟩ := hreaches hsome
      obtain ⟨-, rfl⟩ := EStateM.Result.ok.inj (hrun.symm.trans hrun')
      dsimp only at hw hpending
      cases hget : tid2signals (k.tcb u).pid with
      | none =>
        rw [hget] at hw hpending
        exact Or.inl ⟨w, hw, hpending⟩
      | some target =>
        rw [hget] at hw hpending
        have hwilling := willing_update_iff.mp hw
        rcases (pending_update_iff hs).mp hpending with hold | rfl
        · exact Or.inl ⟨w, hwilling, hold⟩
        · refine Or.inr ⟨w, hwilling, ?_⟩
          rw [(htable.sound _ _ hget).2.1, hpid]
    · intro hcond _
      refine ⟨_, _, hrun, ?_⟩
      dsimp only
      cases hget : tid2signals (k.tcb u).pid with
      | none =>
        rcases hcond with ⟨w, hw, hpending⟩ | ⟨w, hw, htid⟩
        · exact ⟨w, hw, hpending⟩
        · rw [hregistered w hw htid] at hget
          cases hget
      | some target =>
        rcases hcond with ⟨w, hw, hpending⟩ | ⟨w, hw, htid⟩
        · exact ⟨w, willing_update_iff.mpr hw, (pending_update_iff hs).mpr (Or.inl hpending)⟩
        · refine ⟨w, willing_update_iff.mpr hw, (pending_update_iff hs).mpr (Or.inr ?_)⟩
          exact Option.some.inj ((hregistered w hw htid).symm.trans hget)
  · exact iff_of_true (fun hsome' ↦ absurd hsome' hsome) (Or.inl fun u hu ↦ hsome ⟨u, hu⟩)

/-- A signal for the first task -/
theorem kill_reaches_boot :
    (∃ task, (boot 2 0).Willing (fun _ ↦ .new) 2 10 task) ∧
    (boot 2 0).KillReaches ⟨Function.update (fun _ ↦ none) 2 (some 0), fun _ ↦ .new⟩ 2 10 := by
  have hwilling : (boot 2 0).Willing (fun _ ↦ .new) 2 10 0 :=
    ⟨⟨Nat.one_pos, Or.inl rfl⟩, rfl, by decide⟩
  exact ⟨⟨0, hwilling⟩, (kill_reaches_iff (.boot 0 le_rfl (by decide)) ⟨by decide, by decide⟩).mpr
    (Or.inr (Or.inr ⟨0, hwilling, rfl⟩))⟩

/-! ## Runs of given events -/

/-- Executes events, with the table. -/
def replayTable : List KernelEvent → Kernel × (ℕ → Option ℕ) → Option (Kernel × (ℕ → Option ℕ))
  | [], s => some s
  | e :: es, (k, tid2signals) =>
    match e.step k with
    | some k' => replayTable es (k', e.tid2signalsAfter k tid2signals)
    | none => none

theorem Registered.replay {es : List KernelEvent} {s : Kernel × (ℕ → Option ℕ)}
    (h : Registered k tid2signals) (hs : replayTable es (k, tid2signals) = some s) :
    Registered s.1 s.2 := by
  induction es generalizing k tid2signals with
  | nil =>
    obtain rfl := Option.some.inj hs
    exact h
  | cons e es ih =>
    rw [replayTable] at hs
    split at hs
    · rename_i hstep
      exact ih (h.step hstep) hs
    · cases hs

/-- The first thread of a process blocks the signal and the second does not. The signal becomes
pending on the first. -/
theorem kill_misses_thread : ∃ k tid2signals, Registered k tid2signals ∧
    let receivers : ℕ → SignalReceivers := fun task ↦ if task = 0 then ⟨0x200, 0⟩ else .new
    k.Willing receivers 2 10 1 ∧ ¬ k.KillReaches ⟨tid2signals, receivers⟩ 2 10 := by
  obtain ⟨⟨k, tid2signals⟩, hreplay, hP⟩ := (Option.any_eq_true _ _).mp
    (show (replayTable (switchIn 0 ++ [.clone 0 .CLONE_THREAD 0 3, .push 0])
      (boot 2 0, Function.update (fun _ ↦ none) 2 (some 0))).any (fun s ↦ decide (1 < s.1.next ∧
        (s.1.tcb 1).taskStatus = .ready ∧ (s.1.tcb 1).pid = 2 ∧ s.2 2 = some 0)) = true
    by decide +kernel)
  obtain ⟨hlt, hready, hpid, htable⟩ : 1 < k.next ∧ _ := of_decide_eq_true hP
  have hs : SignalTask.IsSignal 10 := ⟨by decide, by decide⟩
  have hwilling : k.Willing (fun task ↦ if task = 0 then ⟨0x200, 0⟩ else .new) 2 10 1 :=
    ⟨⟨hlt, Or.inl hready⟩, congrArg _ hpid, by decide⟩
  refine ⟨k, tid2signals, Registered.replay (.boot 0 le_rfl (by decide)) hreplay, hwilling, ?_⟩
  intro hreaches
  obtain ⟨r, t, hrun, w, hw, hpending⟩ := hreaches ⟨1, hwilling⟩
  obtain ⟨-, rfl⟩ := EStateM.Result.ok.inj ((run_sysKill (p := 2) hs (by decide)).symm.trans hrun)
  dsimp only at htable hw hpending
  rw [htable] at hw hpending
  -- the signal went to the first thread, which does not take it
  rcases (pending_update_iff hs).mp hpending with hold | rfl
  · split_ifs at hold
    · exact absurd hold (by decide)
    · exact absurd hold (by decide)
  · exact (willing_update_iff.mp hw).2.2 (by decide)

end Kernel

end Maturin
