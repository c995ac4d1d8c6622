import Maturin.Task.Fork
import Maturin.Task.Futex

/-!
# Threads on the list of children

`clone_flags.rs` says of `CLONE_THREAD` that the new task cannot be waited for. But `from_clone`
puts a thread on the list of its creator as it does with a process, and `waitpid` looks at nothing
but the `pid`, which a thread has from its creator. The scan ends at the first child that has
exited, when it waits for any, or else at the first child with the `pid`. What it returns is right
unless a thread is the first at which it ends.
-/

namespace Maturin

namespace KernelEvent

/-- The flags of the clone that made each task, after an event; a test case has none. -/
def flagsAfter (k : Kernel) (flags : ℕ → CloneFlags) : KernelEvent → ℕ → CloneFlags
  | clone _ newFlags userStack _ =>
    if userStack < 0 then flags else Function.update flags k.next newFlags
  | fetch _ _ => Function.update flags k.next 0
  | _ => flags

end KernelEvent

namespace Kernel

/-- A run of any events from the boot, with the flags of the clone that made each task. -/
inductive Made : Kernel → (ℕ → CloneFlags) → Prop
  | boot {tid : ℕ} (clock : ℕ) (hle : 2 ≤ tid) (hlt : tid < TID_LIMIT) :
      Made (boot tid clock) fun _ ↦ 0
  | step {k k' : Kernel} {flags : ℕ → CloneFlags} {e : KernelEvent} (h : Made k flags)
      (hstep : e.step k = some k') : Made k' (e.flagsAfter k flags)

/-- The child is one that the caller of `waitpid` asks for. -/
def Matches (k : Kernel) (pid : ℤ) (child : ℕ) : Prop :=
  pid = -1 ∨ ((k.tcb child).pid : ℤ) = pid % 2 ^ 64

/-- The scan of the children ends at this one. -/
def Stops (k : Kernel) (pid : ℤ) (child : ℕ) : Prop :=
  if pid = -1 then (k.tcb child).taskStatus = .zombie
  else ((k.tcb child).pid : ℤ) = pid % 2 ^ 64

/-- The first child at which the scan ends. -/
structure FirstStop (k : Kernel) (pid : ℤ) (l : List ℕ) (i child : ℕ) : Prop where
  get : l[i]? = some child
  stops : k.Stops pid child
  before : ∀ j < i, ∀ c, l[j]? = some c → ¬k.Stops pid c

/-- No thread is waited for, and a process that has exited is. -/
structure WaitsForProcesses (k : Kernel) (thread : ℕ → Prop) (task : ℕ) (pid : ℤ) : Prop where
  never : ∀ idx code pidFound, k.waitpid task pid = .found idx code pidFound →
    ∀ c, (k.tcb task).children[idx]? = some c → ¬thread c
  keeps : ∀ cpu option, ∀ c ∈ (k.tcb task).children, thread c →
    c ∈ ((k.sysWait4 cpu task pid option).tcb task).children
  returns : ∀ c ∈ (k.tcb task).children, ¬thread c → (k.tcb c).taskStatus = .zombie →
    k.Matches pid c → ∃ idx code pidFound c', k.waitpid task pid = .found idx code pidFound ∧
      (k.tcb task).children[idx]? = some c' ∧ ¬thread c' ∧ (k.tcb c').taskStatus = .zombie ∧
      k.Matches pid c' ∧ pidFound % 2 ^ 64 = ((k.tcb c').pid : ℤ) % 2 ^ 64

/-- A thread at which the scan ends has not exited, nor has a process that the caller asks for. -/
def NoThreadFirst (k : Kernel) (thread : ℕ → Prop) (task : ℕ) (pid : ℤ) : Prop :=
  ∀ i t, k.FirstStop pid (k.tcb task).children i t → thread t →
    (k.tcb t).taskStatus ≠ .zombie ∧
    ∀ c ∈ (k.tcb task).children, ¬thread c → k.Matches pid c → (k.tcb c).taskStatus ≠ .zombie

variable {k k' : Kernel} {task t c u i idx : ℕ} {e : KernelEvent} {note : Option Note}
  {pid pidFound : ℤ} {l : List ℕ} {flag : WaitFlag} {flags : ℕ → CloneFlags} {code : BitVec 32}
  {thread : ℕ → Prop}

/-! ## The scan -/

theorem Stops.matches (h : k.Stops pid c) : k.Matches pid c := by
  by_cases hany : pid = -1
  · exact .inl hany
  · exact .inr ((if_neg hany).mp h)

theorem Matches.stops (h : k.Matches pid c) (hzombie : (k.tcb c).taskStatus = .zombie) :
    k.Stops pid c := by
  rw [Stops]
  split_ifs with hany
  · exact hzombie
  · exact h.resolve_left hany

/-- The scan goes past a child at which it does not end. -/
theorem waitLoop_cons_of_not (l : List ℕ) (i : ℕ) (flag : WaitFlag) (h : ¬k.Stops pid c) :
    ∃ flag', k.waitLoop pid (c :: l) i flag = k.waitLoop pid l (i + 1) flag' ∧
      (flag' = flag ∨ flag' = .notExited) := by
  rw [waitLoop]
  rw [Stops] at h
  split_ifs at h ⊢ with hany
  · refine ⟨.notExited, ?_, .inr rfl⟩
    cases hcode : k.getCodeIfExit c with
    | none => rfl
    | some code => exact absurd (getCodeIfExit_eq_some.mp hcode).1 h
  · exact ⟨flag, rfl, .inl rfl⟩

/-- Where it ends, the child is found if it has exited. -/
theorem waitLoop_cons_of_stops (h : k.Stops pid c) :
    k.waitLoop pid (c :: l) i flag = match k.getCodeIfExit c with
      | some code => .found i code (if pid = -1 then (k.tcb c).pid else pid)
      | none => .notExited := by
  rw [waitLoop]
  rw [Stops] at h
  split_ifs at h ⊢ with hany
  · rw [getCodeIfExit, h]
  · rfl

theorem waitLoop_of_firstStop (h : k.FirstStop pid l idx c) :
    k.waitLoop pid l i flag = match k.getCodeIfExit c with
      | some code => .found (i + idx) code (if pid = -1 then (k.tcb c).pid else pid)
      | none => .notExited := by
  induction l generalizing i idx flag with
  | nil => exact absurd h.get (by simp)
  | cons child rest ih =>
    cases idx with
    | zero =>
      obtain rfl : child = c := by simpa using h.get
      exact waitLoop_cons_of_stops h.stops
    | succ idx =>
      obtain ⟨flag', heq, -⟩ := waitLoop_cons_of_not rest i flag
        (h.before 0 (Nat.succ_pos idx) child rfl)
      have hrest : k.FirstStop pid rest idx c :=
        ⟨h.get, h.stops, fun j hj c' hc' ↦ h.before (j + 1) (Nat.succ_lt_succ hj) c' hc'⟩
      rw [heq, ih hrest, Nat.add_right_comm, Nat.add_assoc]

/-- Where the scan ends nowhere, nothing is found. -/
theorem waitLoop_of_not (i : ℕ) (flag : WaitFlag) (h : ∀ c ∈ l, ¬k.Stops pid c) :
    k.waitLoop pid l i flag = flag ∨ k.waitLoop pid l i flag = .notExited := by
  induction l generalizing i flag with
  | nil => exact .inl rfl
  | cons child rest ih =>
    obtain ⟨flag', heq, hflag⟩ := waitLoop_cons_of_not rest i flag (h child List.mem_cons_self)
    rw [heq]
    have htail : ∀ c ∈ rest, ¬k.Stops pid c := fun c hc ↦ h c (List.mem_cons_of_mem child hc)
    rcases ih (i + 1) flag' htail with hrest | hrest
    · rcases hflag with rfl | rfl
      · exact .inl hrest
      · exact .inr hrest
    · exact .inr hrest

/-- There is one such child at most. -/
theorem FirstStop.unique {j : ℕ} (h : k.FirstStop pid l i t) (h' : k.FirstStop pid l j u) :
    i = j ∧ t = u := by
  obtain rfl : i = j := by
    refine Nat.le_antisymm (not_lt.mp fun hlt ↦ ?_) (not_lt.mp fun hlt ↦ ?_)
    · exact h.before j hlt u h'.get h'.stops
    · exact h'.before i hlt t h.get h.stops
  exact ⟨rfl, Option.some.inj (h.get.symm.trans h'.get)⟩

theorem exists_firstStop (hmem : c ∈ l) (h : k.Stops pid c) :
    ∃ i child, k.FirstStop pid l i child := by
  induction l with
  | nil => exact absurd hmem List.not_mem_nil
  | cons child rest ih =>
    by_cases hchild : k.Stops pid child
    · exact ⟨0, child, rfl, hchild, fun j hj ↦ absurd hj (Nat.not_lt_zero j)⟩
    · rcases List.mem_cons.mp hmem with rfl | hmem
      · exact absurd h hchild
      · obtain ⟨i, b, hget, hstops, hbefore⟩ := ih hmem
        refine ⟨i + 1, b, hget, hstops, fun j hj c' hc' ↦ ?_⟩
        cases j with
        | zero =>
          obtain rfl : child = c' := by simpa using hc'
          exact hchild
        | succ j => exact hbefore j (Nat.lt_of_succ_lt_succ hj) c' hc'

/-- A child found is the first at which the scan ends. -/
theorem firstStop_of_waitpid (h : k.waitpid task pid = .found idx code pidFound) :
    ∃ c, k.FirstStop pid (k.tcb task).children idx c ∧ (k.tcb c).taskStatus = .zombie := by
  by_cases hstop : ∃ c ∈ (k.tcb task).children, k.Stops pid c
  · obtain ⟨c, hmem, hstops⟩ := hstop
    obtain ⟨i, child, hfirst⟩ := exists_firstStop hmem hstops
    rw [waitpid, waitLoop_of_firstStop hfirst] at h
    cases hcode : k.getCodeIfExit child with
    | none =>
      rw [hcode] at h
      exact absurd h (by simp)
    | some code' =>
      rw [hcode] at h
      obtain ⟨hidx, -, -⟩ := WaitFlag.found.inj h
      rw [Nat.zero_add] at hidx
      subst hidx
      exact ⟨child, hfirst, (getCodeIfExit_eq_some.mp hcode).1⟩
  · push Not at hstop
    rw [waitpid] at h
    rcases waitLoop_of_not 0 .noChild hstop with heq | heq
    · exact absurd (heq.symm.trans h) (by simp)
    · exact absurd (heq.symm.trans h) (by simp)

/-- The first child at which the scan ends is found if it has exited. -/
theorem FirstStop.waitpid_found (h : k.FirstStop pid (k.tcb task).children idx c)
    (hzombie : (k.tcb c).taskStatus = .zombie) :
    k.waitpid task pid =
      .found idx (k.tcb c).exitCode (if pid = -1 then (k.tcb c).pid else pid) := by
  rw [waitpid, waitLoop_of_firstStop h, getCodeIfExit_eq_some.mpr ⟨hzombie, rfl⟩]
  dsimp only
  rw [Nat.zero_add]

/-! ## The flags of a run -/

theorem Made.reached (h : Made k flags) : ∃ log, Reached anyEvent k log := by
  induction h with
  | @boot tid clock hle hlt => exact ⟨[], tid, clock, hle, hlt, .refl⟩
  | step _ hstep ih =>
    obtain ⟨log, tid, clock, hle, hlt, hrun⟩ := ih
    exact ⟨_, tid, clock, hle, hlt, hrun.step trivial hstep⟩

/-- Executes events. -/
def replayMade : List KernelEvent → Kernel × (ℕ → CloneFlags) →
    Option (Kernel × (ℕ → CloneFlags))
  | [], s => some s
  | e :: es, (k, flags) => (e.step k).bind fun k' ↦ replayMade es (k', e.flagsAfter k flags)

/-- What concrete events reach. -/
theorem made_of_replay (es : List KernelEvent) (P : Kernel × (ℕ → CloneFlags) → Bool)
    (h : (replayMade es (boot 2 0, fun _ ↦ 0)).any P = true) :
    ∃ k flags, Made k flags ∧ P (k, flags) = true := by
  have hreplay : ∀ (es : List KernelEvent) {s s' : Kernel × (ℕ → CloneFlags)}, Made s.1 s.2 →
      replayMade es s = some s' → Made s'.1 s'.2 := by
    intro es
    induction es with
    | nil =>
      rintro s s' hmade ⟨⟩
      exact hmade
    | cons e es ih =>
      intro s s' hmade hrun
      obtain ⟨k₁, hstep, hrest⟩ := Option.bind_eq_some_iff.mp hrun
      exact ih (hmade.step hstep) hrest
  obtain ⟨⟨k, flags⟩, hs, hP⟩ := (Option.any_eq_true _ _).mp h
  exact ⟨k, flags, hreplay es (.boot 0 le_rfl (by decide)) hs, hP⟩

/-- No step changes the `pid` of a task. -/
theorem Trans.same_pid (ht : Trans k e note k') (hp : k.Placed) (hlt : u < k.next) :
    (k'.tcb u).pid = (k.tcb u).pid := by
  have hmodify (task : ℕ) (f : TaskControlBlock → TaskControlBlock)
      (hf : (f (k.tcb task)).pid = (k.tcb task).pid) :
      ((k.modify task f).tcb u).pid = (k.tcb u).pid := by
    by_cases hu : u = task
    · subst hu
      rw [modify_tcb_self]
      exact hf
    · rw [modify_tcb_of_ne hu]
  cases ht with
  | load hpc hqueue hfree => rw [setCpu_tcb, create_tcb_of_ne hlt.ne]
  | @switchInto cpu task hpc => exact hmodify task ({ · with taskStatus := .running }) rfl
  | @clone cpu task tid flags userStack hcpu hstack hfree =>
    rw [setCpu_tcb, fromClone_tcb_of_lt flags tid (hp.current_lt hcpu) hlt]
  | @suspend _ _ cpu task cx cx' hcpu hnote =>
    exact hmodify task ({ · with taskStatus := .ready, taskCx := cx' }) rfl
  | @futexWait cpu task uaddr futexOp val word timeout hcpu =>
    exact hmodify task ({ · with taskStatus := .ready, taskCx := .user }) rfl
  | @exit _ cpu task exitCode hcpu =>
    exact hmodify task ({ · with taskStatus := .dying, exitCode }) rfl
  | @exec cpu task hcpu => exact hmodify task ({ · with taskCx := .user }) rfl
  | @reap cpu task idx pid pidFound option exitCode hcpu hfound =>
    exact hmodify task (fun t ↦ { t with children := t.children.eraseIdx idx }) rfl
  | zombie hpc hstatus => rw [setCpu_tcb, handleZombieTask_eq]
  | _ => rfl

theorem flagsAfter_of_ne (e : KernelEvent) (h : t ≠ k.next) :
    e.flagsAfter k flags t = flags t := by
  cases e with
  | clone cpu newFlags userStack tid =>
    rw [KernelEvent.flagsAfter]
    split_ifs
    · rfl
    · exact Function.update_of_ne h _ _
  | fetch cpu testcase => exact Function.update_of_ne h _ _
  | _ => rfl

/-- The `pid` of a task that is no thread is its own `tid`. -/
theorem Made.pid_eq_tid (h : Made k flags) (hlt : t < k.next)
    (hprocess : ¬(flags t).contains .CLONE_THREAD = true) : (k.tcb t).pid = (k.tcb t).tid := by
  induction h with
  | boot clock hle hlt' => rfl
  | @step k k' flags e hmade hstep ih =>
    obtain ⟨log, hreached⟩ := hmade.reached
    have hp := hreached.isPlaced
    obtain ⟨note, ht⟩ : ∃ note, Trans k e note k' := ⟨_, trans_of_step hstep⟩
    by_cases hold : t < k.next
    · rw [flagsAfter_of_ne e hold.ne] at hprocess
      rw [ht.same_pid hp hold, (ht.sameKin hp hold).tid]
      exact ih hold hprocess
    · obtain ⟨rfl, -, -⟩ := ht.not_exited_new hp hold hlt
      cases ht with
      | load hpc hqueue hfree =>
        rw [setCpu_tcb, create_tcb_self]
        rfl
      | @clone cpu task tid newFlags userStack hcpu hstack hfree =>
        rw [KernelEvent.flagsAfter, if_neg (Int.not_lt.mpr hstack), Function.update_self]
          at hprocess
        rw [setCpu_tcb, fromClone_tcb_next (hp.current_lt hcpu), clonedTask]
        exact if_neg hprocess
      | zombie hpc hstatus =>
        rw [handleZombieTask_eq] at hlt
        exact absurd hlt hold
      | _ => exact absurd hlt hold

/-- Two processes on a list of children have different `pid`s. -/
theorem Made.pid_inj (h : Made k flags) (htask : task < k.next)
    (ht : t ∈ (k.tcb task).children) (hu : u ∈ (k.tcb task).children)
    (hpt : ¬(flags t).contains .CLONE_THREAD = true)
    (hpu : ¬(flags u).contains .CLONE_THREAD = true) (heq : (k.tcb t).pid = (k.tcb u).pid) :
    t = u := by
  obtain ⟨log, hreached⟩ := h.reached
  have hlt := hreached.family.lt_next htask ht
  have hlt' := hreached.family.lt_next htask hu
  rw [h.pid_eq_tid hlt hpt, h.pid_eq_tid hlt' hpu] at heq
  exact hreached.tid_inj hlt hlt' (fun hd ↦ hd.2 task htask ht) (fun hd ↦ hd.2 task htask hu) heq

/-! ## Threads -/

/-- What `sys_wait4` leaves on the list of its caller. -/
theorem mem_children_sysWait4 {cpu : ℕ} {option : BitVec 32} (hc : c ∈ (k.tcb task).children)
    (hnot : ∀ idx code pidFound, k.waitpid task pid = .found idx code pidFound →
      (k.tcb task).children[idx]? ≠ some c) :
    c ∈ ((k.sysWait4 cpu task pid option).tcb task).children := by
  rw [sysWait4]
  cases hwait : k.waitpid task pid with
  | noChild => exact hc
  | notExited =>
    dsimp only
    split_ifs
    · exact hc
    · rw [suspendCurrentTask_tcb_self]
      exact hc
  | found idx code pidFound =>
    dsimp only
    rw [setCpu_tcb, modify_tcb_self]
    obtain ⟨i, hi⟩ := List.mem_iff_getElem?.mp hc
    refine List.mem_eraseIdx_iff_getElem?.mpr ⟨i, ?_, hi⟩
    rintro rfl
    exact hnot i code pidFound hwait hi

/-- **A wait leaves threads alone and returns a process that has exited if and only if no thread is
the first child at which the scan ends**, but for one that runs while no such process has exited. -/
theorem waitsForProcesses_iff (h : Made k flags) (htask : task < k.next) (pid : ℤ) :
    k.WaitsForProcesses (fun c ↦ (flags c).contains .CLONE_THREAD = true) task pid ↔
      k.NoThreadFirst (fun c ↦ (flags c).contains .CLONE_THREAD = true) task pid := by
  constructor
  · intro hwaits i t hfirst hthread
    have hrunning : (k.tcb t).taskStatus ≠ .zombie := fun hzombie ↦
      hwaits.never i _ _ (hfirst.waitpid_found hzombie) t hfirst.get hthread
    refine ⟨hrunning, fun c hc hprocess hmatches hzombie ↦ ?_⟩
    obtain ⟨idx, code, pidFound, -, hfound, -⟩ := hwaits.returns c hc hprocess hzombie hmatches
    -- Only the thread can be found, and that has not exited.
    obtain ⟨c', hfirst', hzombie'⟩ := firstStop_of_waitpid hfound
    obtain ⟨-, rfl⟩ := hfirst.unique hfirst'
    exact hrunning hzombie'
  · intro hfirst
    have hnever : ∀ idx code pidFound, k.waitpid task pid = .found idx code pidFound →
        ∀ c, (k.tcb task).children[idx]? = some c →
          ¬(flags c).contains .CLONE_THREAD = true := by
      intro idx code pidFound hfound c hc hthread
      obtain ⟨c', hstop, hzombie⟩ := firstStop_of_waitpid hfound
      obtain rfl : c' = c := Option.some.inj (hstop.get.symm.trans hc)
      exact (hfirst idx c' hstop hthread).1 hzombie
    refine ⟨hnever, fun cpu option c hc hthread ↦ ?_, fun c hc hprocess hzombie hmatches ↦ ?_⟩
    · exact mem_children_sysWait4 hc fun idx code pidFound hfound hget ↦
        hnever idx code pidFound hfound c hget hthread
    · obtain ⟨i, t, hstop⟩ := exists_firstStop hc (hmatches.stops hzombie)
      have hthread : ¬(flags t).contains .CLONE_THREAD = true := fun hthread ↦
        (hfirst i t hstop hthread).2 c hc hprocess hmatches hzombie
      have hmem : t ∈ (k.tcb task).children := List.mem_of_getElem? hstop.get
      have hexited : (k.tcb t).taskStatus = .zombie := by
        have hstops := hstop.stops
        rw [Stops] at hstops
        split_ifs at hstops with hany
        · exact hstops
        · -- The two are one process.
          have hpid : ((k.tcb t).pid : ℤ) = (k.tcb c).pid :=
            hstops.trans (hmatches.resolve_left hany).symm
          rw [h.pid_inj htask hmem hc hthread hprocess (Int.ofNat_inj.mp hpid)]
          exact hzombie
      refine ⟨i, _, _, t, hstop.waitpid_found hexited, hstop.get, hthread, hexited,
        hstop.stops.matches, ?_⟩
      split_ifs with hany
      · rfl
      · rw [hstop.stops.matches.resolve_left hany, Int.emod_emod_of_dvd _ dvd_rfl]

/-- The first task makes a process and then a thread, which both exit. -/
theorem waitsForProcesses_two : ∃ (k : Kernel) (flags : ℕ → CloneFlags),
    (k.tcb 0).children = [1, 2] ∧ (k.tcb 2).taskStatus = .zombie ∧
    flags 2 = CloneFlags.CLONE_THREAD ∧
    k.WaitsForProcesses (fun c ↦ (flags c).contains .CLONE_THREAD = true) 0 (-1) := by
  obtain ⟨k, flags, hmade, hP⟩ := made_of_replay
    (switchIn 0 ++ [.clone 0 0 0 3, .push 0] ++ switchIn 1 ++ exitOn 1 7 ++
      [.clone 0 CloneFlags.CLONE_THREAD 0 4, .push 0] ++ switchIn 1 ++ exitOn 1 9)
    (fun s ↦ decide (0 < s.1.next ∧ (s.1.tcb 0).children = [1, 2] ∧
      (s.1.tcb 1).taskStatus = .zombie ∧ (s.1.tcb 2).taskStatus = .zombie ∧
      s.2 1 = 0 ∧ s.2 2 = CloneFlags.CLONE_THREAD)) (by decide +kernel)
  obtain ⟨hnext, hchildren, hfirst, hsecond, hflags, hthread⟩ : 0 < k.next ∧ _ :=
    of_decide_eq_true hP
  refine ⟨k, flags, hchildren, hsecond, hthread, (waitsForProcesses_iff hmade hnext _).mpr ?_⟩
  intro i t hstop ht
  have hone : k.FirstStop (-1) (k.tcb 0).children 0 1 :=
    ⟨by rw [hchildren]; rfl, (if_pos rfl).mpr hfirst, fun j hj ↦ absurd hj (Nat.not_lt_zero j)⟩
  obtain ⟨-, rfl⟩ := hone.unique hstop
  have hprocess : flags 1 = 0 := hflags
  rw [hprocess] at ht
  exact absurd ht (by decide)

/-- The first task makes a thread, as a library of threads does, and that exits. -/
theorem thread_waited : ∃ (k : Kernel) (flags : ℕ → CloneFlags), Made k flags ∧ 0 < k.next ∧
    (k.tcb 0).children = [1] ∧ (flags 1).contains .CLONE_THREAD = true ∧
    k.waitpid 0 (-1) = .found 0 7 2 ∧
    ((k.sysWait4 0 0 (-1) 0).tcb 0).children = [] ∧
    ¬k.WaitsForProcesses (fun c ↦ (flags c).contains .CLONE_THREAD = true) 0 (-1) := by
  obtain ⟨k, flags, hmade, hP⟩ := made_of_replay
    (switchIn 0 ++ [.clone 0 (CloneFlags.CLONE_VM ||| CloneFlags.CLONE_SIGHAND |||
      CloneFlags.CLONE_THREAD) 0 3, .push 0] ++ switchIn 1 ++ exitOn 1 7)
    (fun s ↦ decide (0 < s.1.next ∧ (s.1.tcb 0).children = [1] ∧
      (s.2 1).contains .CLONE_THREAD = true ∧ s.1.waitpid 0 (-1) = .found 0 7 2 ∧
      ((s.1.sysWait4 0 0 (-1) 0).tcb 0).children = [])) (by decide +kernel)
  obtain ⟨hnext, hchildren, hthread, hwait, hgone⟩ : 0 < k.next ∧ _ := of_decide_eq_true hP
  refine ⟨k, flags, hmade, hnext, hchildren, hthread, hwait, hgone, fun hwaits ↦ ?_⟩
  exact hwaits.never 0 7 2 hwait 1 (by rw [hchildren]; rfl) hthread

end Kernel

end Maturin
