import Maturin.Task.Tree

/-!
# Waiting for children

`waitpid` takes the first child that fits off the list of its caller. A child that has exited stays
on the list until it is returned, and every call that takes any child at all brings it one place
forward.
-/

namespace Maturin

namespace Kernel

variable {k k' : Kernel} {cpu task tid c p t u i idx : ℕ} {e : KernelEvent} {note : Option Note}
  {log log' : List Note} {code : BitVec 32} {pid pidFound : ℤ} {l : List ℕ} {flag : WaitFlag}

/-! ## What `waitpid` finds -/

theorem getCodeIfExit_eq_some : k.getCodeIfExit task = some code ↔
    (k.tcb task).taskStatus = .zombie ∧ (k.tcb task).exitCode = code := by
  rw [getCodeIfExit]
  cases (k.tcb task).taskStatus <;> simp

/-- What is found is a child that has exited. -/
theorem waitLoop_found (h : k.waitLoop pid l i flag = .found idx code pidFound)
    (hflag : flag ≠ .found idx code pidFound) :
    ∃ j child, idx = i + j ∧ l[j]? = some child ∧ k.getCodeIfExit child = some code := by
  induction l generalizing i flag with
  | nil => exact absurd h hflag
  | cons child rest ih =>
    -- A child that is not returned changes the flag, but never to a child found.
    have hrest {flag' : WaitFlag} (h : k.waitLoop pid rest (i + 1) flag' = .found idx code pidFound)
        (hflag' : flag' ≠ .found idx code pidFound) :
        ∃ j b, idx = i + j ∧ (child :: rest)[j]? = some b ∧ k.getCodeIfExit b = some code := by
      obtain ⟨j, b, hidx, hb, hcode⟩ := ih h hflag'
      exact ⟨j + 1, b, by omega, by simpa using hb, hcode⟩
    rw [waitLoop] at h
    split_ifs at h
    · split at h
      · rename_i code' hcode
        obtain ⟨rfl, rfl, -⟩ := WaitFlag.found.inj h
        exact ⟨0, child, rfl, rfl, hcode⟩
      · exact hrest h (by simp)
    · split at h
      · rename_i code' hcode
        obtain ⟨rfl, rfl, -⟩ := WaitFlag.found.inj h
        exact ⟨0, child, rfl, rfl, hcode⟩
      · exact absurd h (by simp)
    · exact hrest h hflag

/-- A wait for any child finds one that has exited, or one before it. -/
theorem waitLoop_any {j : ℕ} (i : ℕ) (flag : WaitFlag) (hj : l[j]? = some c)
    (hcode : k.getCodeIfExit c = some code) :
    ∃ j' ≤ j, ∃ code' pidFound, k.waitLoop (-1) l i flag = .found (i + j') code' pidFound := by
  induction l generalizing i j flag with
  | nil => exact absurd hj (by simp)
  | cons child rest ih =>
    rw [waitLoop, if_pos rfl]
    split
    · rename_i code' _
      exact ⟨0, Nat.zero_le j, code', _, rfl⟩
    · rename_i hnone
      cases j with
      | zero =>
        obtain rfl : child = c := by simpa using hj
        rw [hcode] at hnone
        exact absurd hnone (by simp)
      | succ j =>
        obtain ⟨j', hle, code', pidFound, h⟩ := ih (i + 1) .notExited (by simpa using hj)
        refine ⟨j' + 1, Nat.succ_le_succ hle, code', pidFound, ?_⟩
        rw [h]
        congr 1
        omega

theorem waitpid_found (h : k.waitpid task pid = .found idx code pidFound) :
    ∃ child, (k.tcb task).children[idx]? = some child ∧ (k.tcb child).taskStatus = .zombie ∧
      (k.tcb child).exitCode = code := by
  obtain ⟨j, child, hidx, hchild, hcode⟩ := waitLoop_found h (by simp)
  rw [Nat.zero_add] at hidx
  subst hidx
  obtain ⟨hstatus, hexit⟩ := getCodeIfExit_eq_some.mp hcode
  exact ⟨child, hchild, hstatus, hexit⟩

/-- The exit status that the user reads from the word is the low byte of the exit code. -/
theorem extractLsb'_waitStatus (code : BitVec 32) :
    (waitStatus code).extractLsb' 8 8 = code.extractLsb' 0 8 := by
  ext i hi
  rw [BitVec.getElem_extractLsb', BitVec.getElem_extractLsb', waitStatus,
    BitVec.getLsbD_shiftLeft, Nat.add_sub_cancel_left, Nat.zero_add]
  have hlt : 8 + i < 32 := by omega
  simp [hlt]

/-! ## What happens to a list of children -/

/-- What a step does to the children of `u`. -/
inductive ChildrenStep (k k' : Kernel) (note : Option Note) (u : ℕ) : Prop
  | same (hchildren : (k'.tcb u).children = (k.tcb u).children)
      (hnote : ∀ pid child, note = some (.waited u pid child) → child = none ∧
        (k.waitpid u pid = .notExited ∨ k.waitpid u pid = .noChild))
  | pushed (hchildren : (k'.tcb u).children = (k.tcb u).children ++ [k.next])
      (hnote : note = none)
  | reaped {idx : ℕ} {pid pidFound : ℤ} {code : BitVec 32}
      (hfound : k.waitpid u pid = .found idx code pidFound)
      (hnote : note = some (.waited u pid ((k.tcb u).children[idx]?.map (·, code))))
      (hchildren : (k'.tcb u).children = (k.tcb u).children.eraseIdx idx)
  | cleared (hstatus : (k'.tcb u).taskStatus = .zombie) (hchildren : (k'.tcb u).children = [])
      (hppid : ∀ c ∈ (k.tcb u).children, (k'.tcb c).ppid = NO_PARENT) (hnote : note = none)

/-- What a step keeps of a task. -/
structure SameKin (k k' : Kernel) (note : Option Note) (u : ℕ) : Prop where
  lt_next : u < k'.next
  tid : (k'.tcb u).tid = (k.tcb u).tid
  parent : (k'.tcb u).parent = (k.tcb u).parent
  /-- Only a parent that exits takes the `ppid`. -/
  ppid : (∀ q < k.next, u ∉ (k.tcb q).children) → (k'.tcb u).ppid = (k.tcb u).ppid
  children : ChildrenStep k k' note u

theorem SameKin.of_eq (hlt : u < k'.next) (htid : (k'.tcb u).tid = (k.tcb u).tid)
    (hparent : (k'.tcb u).parent = (k.tcb u).parent) (hppid : (k'.tcb u).ppid = (k.tcb u).ppid)
    (hchildren : (k'.tcb u).children = (k.tcb u).children)
    (hnote : ∀ pid child, note = some (.waited u pid child) → child = none ∧
      (k.waitpid u pid = .notExited ∨ k.waitpid u pid = .noChild)) : SameKin k k' note u :=
  ⟨hlt, htid, hparent, fun _ ↦ hppid, .same hchildren hnote⟩

theorem SameKin.of_tcb_eq (hlt : u < k'.next) (htcb : k'.tcb u = k.tcb u)
    (hnote : ∀ pid child, note = some (.waited u pid child) → child = none ∧
      (k.waitpid u pid = .notExited ∨ k.waitpid u pid = .noChild)) : SameKin k k' note u :=
  .of_eq hlt (congrArg _ htcb) (congrArg _ htcb) (congrArg _ htcb) (congrArg _ htcb) hnote

/-- The task that acts changes nothing of its kin. -/
theorem SameKin.of_modify {f : TaskControlBlock → TaskControlBlock} (hlt : u < k.next)
    (htcb : k'.tcb = (k.modify task f).tcb) (hnext : k'.next = k.next)
    (htid : (f (k.tcb task)).tid = (k.tcb task).tid)
    (hparent : (f (k.tcb task)).parent = (k.tcb task).parent)
    (hppid : (f (k.tcb task)).ppid = (k.tcb task).ppid)
    (hchildren : (f (k.tcb task)).children = (k.tcb task).children)
    (hnote : ∀ pid child, note = some (.waited u pid child) → child = none ∧
      (k.waitpid u pid = .notExited ∨ k.waitpid u pid = .noChild)) : SameKin k k' note u := by
  by_cases hu : u = task
  · subst hu
    refine .of_eq (hnext ▸ hlt) ?_ ?_ ?_ ?_ hnote
    all_goals
      rw [htcb, modify_tcb_self]
      assumption
  · refine .of_tcb_eq (hnext ▸ hlt) ?_ hnote
    rw [htcb, modify_tcb_of_ne hu]

theorem Trans.sameKin (ht : Trans k e note k') (hp : k.Placed) (hlt : u < k.next) :
    SameKin k k' note u := by
  cases ht with
  | load hpc hqueue hfree =>
    refine .of_tcb_eq (Nat.lt_succ_of_lt hlt) ?_ (by simp)
    rw [setCpu_tcb, create_tcb_of_ne hlt.ne]
  | switchInto hpc =>
    exact .of_modify (f := ({ · with taskStatus := .running }))
      hlt rfl rfl rfl rfl rfl rfl (by simp)
  | @clone cpu task tid flags userStack hcpu hstack hfree =>
    have htcb := fromClone_tcb_of_lt flags tid (hp.current_lt hcpu) hlt
    refine ⟨?_, ?_, ?_, fun _ ↦ ?_, ?_⟩
    · rw [setCpu_next, fromClone_next]
      exact Nat.lt_succ_of_lt hlt
    · rw [setCpu_tcb, htcb]
    · rw [setCpu_tcb, htcb]
    · rw [setCpu_tcb, htcb]
    · by_cases hu : u = task
      · subst hu
        by_cases hflag : flags.contains .CLONE_PARENT = true
        · refine .same ?_ (by simp)
          rw [setCpu_tcb, fromClone_tcb_self hlt, if_pos hflag, List.append_nil]
        · refine .pushed ?_ rfl
          rw [setCpu_tcb, fromClone_tcb_self hlt, if_neg hflag]
      · refine .same ?_ (by simp)
        rw [setCpu_tcb, fromClone_tcb_of_ne hlt.ne hu]
  | suspend cx' hcpu hnote =>
    refine .of_modify (f := ({ · with taskStatus := .ready, taskCx := cx' }))
      hlt rfl rfl rfl rfl rfl rfl ?_
    intro pid child hchild
    obtain ⟨pid', heq, hwait⟩ := hnote _ hchild
    obtain ⟨rfl, rfl, rfl⟩ := Note.waited.inj heq
    exact ⟨rfl, .inl hwait⟩
  | futexWait hcpu =>
    exact .of_modify (f := ({ · with taskStatus := .ready, taskCx := .user }))
      hlt rfl rfl rfl rfl rfl rfl (by simp)
  | exit exitCode hcpu =>
    exact .of_modify (f := ({ · with taskStatus := .dying, exitCode })) hlt rfl rfl rfl rfl rfl rfl
      (by simp)
  | exec hcpu =>
    exact .of_modify (f := ({ · with taskCx := .user })) hlt rfl rfl rfl rfl rfl rfl (by simp)
  | goOn cx' hcpu hnote =>
    refine .of_tcb_eq hlt rfl ?_
    intro pid child hchild
    obtain ⟨pid', heq, hwait⟩ := hnote _ hchild
    obtain ⟨rfl, rfl, rfl⟩ := Note.waited.inj heq
    exact ⟨rfl, hwait⟩
  | @reap cpu task idx pid pidFound option code hcpu hfound =>
    by_cases hu : u = task
    · subst hu
      refine ⟨hlt, ?_, ?_, fun _ ↦ ?_, .reaped hfound rfl ?_⟩
      all_goals rw [setCpu_tcb, modify_tcb_self]
    · -- another task waits, and so the note does not name `u`
      refine .of_tcb_eq hlt ?_ ?_
      · rw [setCpu_tcb, modify_tcb_of_ne hu]
      · intro pid child hchild
        obtain ⟨rfl, -, -⟩ := Note.waited.inj (Option.some.inj hchild)
        exact absurd rfl hu
  | @zombie cpu task hpc hstatus =>
    rw [handleZombieTask_eq]
    refine ⟨hlt, rfl, rfl, fun hnot ↦ ?_, ?_⟩
    · exact if_neg (hnot task (hp.held_lt hpc rfl))
    · by_cases hu : u = task
      · subst hu
        refine .cleared (by simp) (by simp) ?_ rfl
        intro c hc
        exact if_pos hc
      · exact .same (by simp [hu]) (by simp)
  | _ => exact .of_tcb_eq hlt rfl (by simp)

/-! ## What the log says -/

/-- A task exits in a step of its own, which the log keeps. -/
theorem Trans.exited (ht : Trans k e note k') (hp : k.Placed) (hlt : u < k.next)
    (h : k'.Exited u) : k.Exited u ∨ note = some (.exited u (k'.tcb u).exitCode) := by
  -- a step that keeps the status lets no task exit
  have hsame (hstatus : (k'.tcb u).taskStatus = (k.tcb u).taskStatus) :
      k.Exited u ∨ note = some (.exited u (k'.tcb u).exitCode) := by
    rw [Exited, hstatus] at h
    exact .inl h
  cases ht with
  | load hpc hqueue hfree =>
    refine hsame ?_
    rw [setCpu_tcb, create_tcb_of_ne hlt.ne]
  | @switchInto cpu task hpc =>
    by_cases hu : u = task
    · subst hu
      rw [Exited, switchInto_tcb_self] at h
      simp at h
    · exact hsame (congrArg _ (switchInto_tcb_of_ne hu))
  | clone hcpu hstack hfree =>
    refine hsame ?_
    rw [setCpu_tcb, fromClone_tcb_of_lt _ _ (hp.current_lt hcpu) hlt]
  | @suspend _ _ cpu task cx cx' hcpu hnote =>
    by_cases hu : u = task
    · subst hu
      rw [Exited, suspendCurrentTask_tcb_self] at h
      simp at h
    · exact hsame (congrArg _ (suspendCurrentTask_tcb_of_ne hu))
  | @futexWait cpu task _ _ _ _ _ hcpu =>
    by_cases hu : u = task
    · subst hu
      rw [Exited, suspendCurrentTask_tcb_self] at h
      simp at h
    · refine hsame ?_
      rw [suspendCurrentTask_tcb_of_ne hu]
  | @exit _ cpu task code hcpu =>
    by_cases hu : u = task
    · subst hu
      exact .inr (by rw [exitCurrentTask_tcb_self])
    · exact hsame (congrArg _ (exitCurrentTask_tcb_of_ne hu))
  | @exec cpu task hcpu =>
    refine hsame ?_
    by_cases hu : u = task
    · subst hu
      rw [modify_tcb_self]
    · rw [modify_tcb_of_ne hu]
  | @reap cpu task _ _ _ _ _ hcpu hfound =>
    refine hsame ?_
    by_cases hu : u = task
    · subst hu
      rw [setCpu_tcb, modify_tcb_self]
    · rw [setCpu_tcb, modify_tcb_of_ne hu]
  | @zombie cpu task hpc hstatus =>
    by_cases hu : u = task
    · subst hu
      exact .inl (.inl hstatus)
    · refine hsame ?_
      rw [handleZombieTask_eq]
      simp [hu]
  | _ => exact hsame rfl

/-- A new task has not exited. -/
theorem Trans.not_exited_new (ht : Trans k e note k') (hp : k.Placed) (hlt : ¬ u < k.next)
    (hlt' : u < k'.next) : u = k.next ∧ ¬ k'.Exited u ∧ (k'.tcb u).children = [] := by
  cases ht with
  | load hpc hqueue hfree =>
    obtain rfl : u = k.next := by
      rw [setCpu_next, create_next] at hlt'
      omega
    rw [Exited, setCpu_tcb, create_tcb_self]
    simp [TaskControlBlock.fromAppName]
  | clone hcpu hstack hfree =>
    obtain rfl : u = k.next := by
      rw [setCpu_next, fromClone_next] at hlt'
      omega
    rw [Exited, setCpu_tcb, fromClone_tcb_next (hp.current_lt hcpu)]
    simp [clonedTask]
  | zombie hpc hstatus =>
    rw [handleZombieTask_eq] at hlt'
    exact absurd hlt' hlt
  | _ => exact absurd hlt' hlt

variable {ok : KernelEvent → Kernel → List Note → Prop}

/-- A task that has exited is in the log, with the exit code that it keeps. -/
theorem Reached.logged (h : Reached ok k log) (hlt : t < k.next) (hexited : k.Exited t) :
    .exited t (k.tcb t).exitCode ∈ log := by
  refine Reached.inv (I := fun k log ↦ t < k.next → k.Exited t →
    .exited t (k.tcb t).exitCode ∈ log) ?_ ?_ h hlt hexited
  · intro tid clock _ _ _ hexited
    rcases hexited with hd | hd <;> exact absurd hd (by simp [boot, TaskControlBlock.fromAppName])
  · intro e k log note k' hreached ih _ ht hlt' hexited'
    by_cases hlt : t < k.next
    · rcases ht.exited hreached.isPlaced hlt hexited' with hexited | hnote
      · obtain ⟨-, hcode, -⟩ := hexited.trans hlt hreached.isPlaced ht
        rw [hcode]
        exact List.mem_append_right _ (ih hlt hexited)
      · rw [hnote]
        exact List.mem_append_left _ (by simp)
    · exact absurd hexited' (ht.not_exited_new hreached.isPlaced hlt hlt').2.1

/-- What is true of a child that was returned. -/
structure Reaped (k : Kernel) (p t : ℕ) (code : BitVec 32) : Prop where
  lt_next : t < k.next
  parent_lt : p < k.next
  unlisted : ∀ q < k.next, t ∉ (k.tcb q).children
  exited : k.Exited t
  exitCode : (k.tcb t).exitCode = code
  ppid : (k.tcb t).ppid = (k.tcb p).tid

/-- What is on no list does not get on one again. -/
theorem Trans.unlisted (ht : Trans k e note k') (hp : k.Placed) (hlt : t < k.next)
    (h : ∀ q < k.next, t ∉ (k.tcb q).children) : ∀ q < k'.next, t ∉ (k'.tcb q).children := by
  intro q hq hmem
  by_cases hqlt : q < k.next
  · rcases (ht.sameKin hp hqlt).children with ⟨hsame, -⟩ | ⟨hpushed, -⟩ | ⟨-, -, herased⟩ |
      ⟨-, hcleared, -, -⟩
    · exact h q hqlt (hsame ▸ hmem)
    · rw [hpushed, List.mem_append, List.mem_singleton] at hmem
      rcases hmem with hmem | hmem
      · exact h q hqlt hmem
      · exact hlt.ne hmem
    · rw [herased] at hmem
      exact h q hqlt ((List.eraseIdx_sublist _ _).subset hmem)
    · rw [hcleared] at hmem
      exact List.not_mem_nil hmem
  · rw [(ht.not_exited_new hp hqlt hq).2.2] at hmem
    exact List.not_mem_nil hmem

theorem Reaped.trans (h : k.Reaped p t code) (hp : k.Placed) (ht : Trans k e note k') :
    k'.Reaped p t code := by
  obtain ⟨hlt', hcode, hstatus⟩ := h.exited.trans h.lt_next hp ht
  constructor
  · exact hlt'
  · exact (ht.sameKin hp h.parent_lt).lt_next
  · exact ht.unlisted hp h.lt_next h.unlisted
  · rcases hstatus with hstatus | hstatus
    · rw [Exited, hstatus]
      exact h.exited
    · exact .inr hstatus
  · exact hcode.trans h.exitCode
  · rw [(ht.sameKin hp h.lt_next).ppid h.unlisted, (ht.sameKin hp h.parent_lt).tid]
    exact h.ppid

/-- A child that is taken off a list is on no list any more. -/
theorem Family.unlisted_eraseIdx (h : k.Family) (hp : p < k.next)
    (hc : (k.tcb p).children[idx]? = some c) : c ∉ (k.tcb p).children.eraseIdx idx := by
  rw [List.mem_eraseIdx_iff_getElem?]
  rintro ⟨i, hne, hi⟩
  obtain ⟨hlt, hget⟩ := List.getElem?_eq_some_iff.mp hi
  obtain ⟨hlt', hget'⟩ := List.getElem?_eq_some_iff.mp hc
  exact hne ((h.nodup p hp).getElem_inj_iff.mp (hget.trans hget'.symm))

/-- The step that returns a child. -/
theorem Trans.reaped (ht : Trans k e note k') (hnote : note = some (.waited p pid (some (t, code))))
    (hp : k.Placed) (hf : k.Family) :
    p < k.next ∧ t ∈ (k.tcb p).children ∧ (k.tcb t).taskStatus = .zombie ∧
      (k.tcb t).exitCode = code ∧ k'.Reaped p t code := by
  cases ht with
  | suspend cx' hcpu hno =>
    obtain ⟨_, habs, _⟩ := hno _ hnote
    exact absurd habs (by simp)
  | goOn cx' hcpu hno =>
    obtain ⟨_, habs, _⟩ := hno _ hnote
    exact absurd habs (by simp)
  | @reap cpu task idx _ _ _ code' hcpu hfound =>
    obtain ⟨child, hchild, hstatus, hcode⟩ := waitpid_found hfound
    rw [hchild] at hnote
    obtain ⟨rfl, -, hpair⟩ := Note.waited.inj (Option.some.inj hnote)
    obtain ⟨rfl, rfl⟩ := Prod.mk.inj (Option.some.inj hpair)
    have hlt := hp.current_lt hcpu
    have hmem := List.mem_of_getElem? hchild
    have htcb := k.eraseChild_tcb task idx
    refine ⟨hlt, hmem, hstatus, hcode, hf.lt_next hlt hmem, hlt, ?_, .inr ?_, ?_, ?_⟩
    · -- the child was on this list alone, and once
      intro q hq hmem'
      rw [setCpu_tcb, htcb] at hmem'
      dsimp only at hmem'
      split_ifs at hmem' with hqt
      · subst hqt
        exact hf.unlisted_eraseIdx hlt hchild hmem'
      · exact hqt (hf.unique hq hlt hmem' hmem)
    · rw [setCpu_tcb, htcb]
      exact hstatus
    · rw [setCpu_tcb, htcb]
      exact hcode
    · rw [setCpu_tcb, htcb, htcb]
      exact hf.ppid hlt hmem
  | _ => exact absurd hnote (by simp)

/-- A child that was returned had exited with that code, and named the task that it was returned
to. -/
theorem Reached.reaped (h : Reached ok k log) (hmem : .waited p pid (some (t, code)) ∈ log) :
    k.Reaped p t code := by
  refine Reached.inv (I := fun k log ↦ .waited p pid (some (t, code)) ∈ log → k.Reaped p t code)
    ?_ ?_ h hmem
  · intro tid clock _ _ hnil
    exact absurd hnil List.not_mem_nil
  · intro e k log note k' hreached ih _ ht hmem
    rcases List.mem_append.mp hmem with hnew | hold
    · exact (ht.reaped (Option.mem_toList.mp hnew) hreached.isPlaced hreached.family).2.2.2.2
    · exact (ih hold).trans hreached.isPlaced ht

end Kernel

/-- The note that returns a task from `sys_wait4`. -/
def Note.returns (task : ℕ) : Note → Bool
  | waited _ _ (some (child, _)) => child == task
  | _ => false

/-- The note of a wait of the task for any child. -/
def Note.anyWait (task : ℕ) : Note → Bool
  | waited parent pid _ => parent == task && pid == -1
  | _ => false

theorem Note.returns_eq_true {n : Note} {task : ℕ} :
    n.returns task = true ↔ ∃ p pid code, n = .waited p pid (some (task, code)) := by
  constructor
  · intro h
    cases n with
    | waited p pid child =>
      cases child with
      | none => exact absurd h (by simp [returns])
      | some pair =>
        obtain ⟨c, code⟩ := pair
        obtain rfl : c = task := by simpa [returns] using h
        exact ⟨p, pid, code, rfl⟩
    | _ => exact absurd h (by simp [returns])
  · rintro ⟨p, pid, code, rfl⟩
    simp [returns]

namespace Kernel

/-- **A child is returned once at most.** -/
theorem Reached.once (h : Reached ok k log) : log.countP (Note.returns t) ≤ 1 := by
  refine Reached.inv (I := fun _ log ↦ log.countP (Note.returns t) ≤ 1) ?_ ?_ h
  · intro tid clock _ _
    exact Nat.zero_le 1
  · intro e k log note k' hreached ih _ ht
    rw [List.countP_append]
    cases note with
    | none => simpa using ih
    | some n =>
      cases hn : n.returns t with
      | false => simpa [hn] using ih
      | true =>
        -- The child is still on a list, and so it was not returned before.
        obtain ⟨p, pid, code, rfl⟩ := Note.returns_eq_true.mp hn
        obtain ⟨hlt, hmem, -⟩ := ht.reaped rfl hreached.isPlaced hreached.family
        have hzero : log.countP (Note.returns t) = 0 := by
          rw [List.countP_eq_zero]
          intro m hm hreturns
          obtain ⟨q, pid', code', rfl⟩ := Note.returns_eq_true.mp hreturns
          exact (hreached.reaped hm).unlisted p hlt hmem
        simp [hn, hzero]

/-! ## Orphans -/

/-- A task that is on no list, and was not returned, has no parent. -/
theorem Reached.orphan (h : Reached CloneInTree k log) (hlt : t < k.next)
    (hparent : (k.tcb t).parent ≠ none) (hnot : ∀ q < k.next, t ∉ (k.tcb q).children)
    (hreturned : log.countP (Note.returns t) = 0) : (k.tcb t).ppid = NO_PARENT := by
  refine Reached.inv (I := fun k log ↦ t < k.next → (k.tcb t).parent ≠ none →
    (∀ q < k.next, t ∉ (k.tcb q).children) → log.countP (Note.returns t) = 0 →
      (k.tcb t).ppid = NO_PARENT) ?_ ?_ h hlt hparent hnot hreturned
  · intro tid clock _ _ _ hparent
    exact absurd rfl hparent
  · intro e k log note k' hreached ih hok ht hlt' hparent hnot hreturned
    have hplaced := hreached.isPlaced
    rw [List.countP_append, Nat.add_eq_zero_iff] at hreturned
    obtain ⟨hnote, hlog⟩ := hreturned
    by_cases hlt : t < k.next
    · have hkin := ht.sameKin hplaced hlt
      by_cases hold : ∀ q < k.next, t ∉ (k.tcb q).children
      · rw [hkin.ppid hold]
        exact ih hlt (hkin.parent ▸ hparent) hold hlog
      · push Not at hold
        obtain ⟨q, hq, hmem⟩ := hold
        have hqkin := ht.sameKin hplaced hq
        have hgone := hnot q hqkin.lt_next
        cases hqkin.children with
        | same hsame _ => exact absurd (hsame ▸ hmem) hgone
        | pushed hpushed _ =>
          rw [hpushed] at hgone
          exact absurd (List.mem_append_left _ hmem) hgone
        | @reaped idx _ _ _ _ hchild herased =>
          -- The child that leaves the list is the one that is returned.
          obtain ⟨i, hi⟩ := List.mem_iff_getElem?.mp hmem
          rw [herased, List.mem_eraseIdx_iff_getElem?] at hgone
          push Not at hgone
          by_cases hidx : i = idx
          · rw [hchild, ← hidx, hi] at hnote
            simp [Note.returns] at hnote
          · exact absurd hi (hgone i hidx)
        | cleared _ _ hppid _ => exact hppid t hmem
    · obtain ⟨rfl, -, -⟩ := ht.not_exited_new hplaced hlt hlt'
      cases ht with
      | load hpc hqueue hfree =>
        rw [setCpu_tcb, create_tcb_self] at hparent
        exact absurd rfl hparent
      | @clone cpu task tid flags userStack hcpu hstack hfree =>
        have htask := hplaced.current_lt hcpu
        by_cases hflag : flags.contains .CLONE_PARENT = true
        · rw [setCpu_tcb, fromClone_tcb_next htask, clonedTask]
          exact (if_pos hflag).trans (hok hstack hflag task (by rw [hcpu]))
        · refine absurd ?_ (hnot task ?_)
          · rw [setCpu_tcb, fromClone_tcb_self htask, if_neg hflag]
            exact List.mem_append_right _ (List.mem_singleton_self _)
          · rw [setCpu_next, fromClone_next]
            exact Nat.lt_succ_of_lt htask
      | zombie hpc hstatus =>
        rw [handleZombieTask_eq] at hlt'
        exact absurd hlt' hlt
      | _ => exact absurd hlt' hlt

/-! ## Progress -/

/-- An exited child stays in its place on the list of a parent that lives, until it is returned;
each wait for any child brings it forward. -/
theorem Trans.forward {n : ℕ} (ht : Trans k e note k') (hp : k.Placed) (hlt : p < k.next)
    (ht' : (k.tcb p).children[i]? = some t) (hstatus : (k.tcb t).taskStatus = .zombie)
    (hi : i + n ≤ idx) :
    (∃ pid code, note = some (.waited p pid (some (t, code)))) ∨
      (k'.tcb p).taskStatus = .zombie ∨ ∃ j, (k'.tcb p).children[j]? = some t ∧
        j + (note.toList.countP (Note.anyWait p) + n) ≤ idx := by
  have hfirst : ∃ i' ≤ i, ∃ code pidFound, k.waitpid p (-1) = .found i' code pidFound := by
    obtain ⟨i', hle, code, pidFound, h⟩ := waitLoop_any 0 .noChild ht'
      (getCodeIfExit_eq_some.mpr ⟨hstatus, rfl⟩)
    rw [Nat.zero_add] at h
    exact ⟨i', hle, code, pidFound, h⟩
  obtain ⟨i', hle, code', pidFound', hany⟩ := hfirst
  cases (ht.sameKin hp hlt).children with
  | same hsame hnote =>
    -- A wait for any child would have found one.
    have hzero : note.toList.countP (Note.anyWait p) = 0 := by
      cases note with
      | none => rfl
      | some n =>
        cases n with
        | waited q pid child =>
          by_cases hq : q = p ∧ pid = -1
          · obtain ⟨rfl, rfl⟩ := hq
            obtain ⟨-, hwait | hwait⟩ := hnote _ _ rfl
            · exact absurd (hany.symm.trans hwait) (by simp)
            · exact absurd (hany.symm.trans hwait) (by simp)
          · simpa [Note.anyWait] using hq
        | _ => simp [Note.anyWait]
    refine .inr (.inr ⟨i, hsame ▸ ht', ?_⟩)
    omega
  | pushed hpushed hnote =>
    refine .inr (.inr ⟨i, ?_, ?_⟩)
    · rw [hpushed, List.getElem?_append_left (List.getElem?_eq_some_iff.mp ht').1]
      exact ht'
    · simpa [hnote] using hi
  | @reaped j pid pidFound code hfound hnote herased =>
    by_cases hij : j = i
    · subst hij
      refine .inl ⟨pid, code, ?_⟩
      rw [hnote, ht']
      rfl
    · rcases Nat.lt_or_gt_of_ne hij with hlt' | hlt'
      · -- A child before it is returned.
        refine .inr (.inr ⟨i - 1, ?_, ?_⟩)
        · rw [herased, List.getElem?_eraseIdx_of_ge (by omega), Nat.sub_add_cancel (by omega)]
          exact ht'
        · have hcount : note.toList.countP (Note.anyWait p) ≤ 1 := by
            rw [hnote]
            exact List.countP_le_length
          omega
      · -- A child behind it is returned, and then the wait was for that one.
        refine .inr (.inr ⟨i, ?_, ?_⟩)
        · rw [herased, List.getElem?_eraseIdx_of_lt hlt']
          exact ht'
        · have hpid : pid ≠ -1 := by
            rintro rfl
            rw [hany] at hfound
            obtain ⟨rfl, -, -⟩ := WaitFlag.found.inj hfound
            omega
          have hzero : note.toList.countP (Note.anyWait p) = 0 := by
            rw [hnote]
            simp [Note.anyWait, hpid]
          omega
  | cleared hzombie _ _ _ => exact .inr (.inl hzombie)

/-- While the parent lives, each of its waits for any child brings an exited child forward. -/
theorem Run.forward (h : Run ok k log k' log') (hreached : Reached ok k log) (hlt : p < k.next)
    (ht : (k.tcb p).children[i]? = some t) (hstatus : (k.tcb t).taskStatus = .zombie) :
    Reached ok k' log' ∧ p < k'.next ∧ t < k'.next ∧ (k'.tcb t).taskStatus = .zombie ∧
      ∃ new, log' = new ++ log ∧ ((∃ pid code, .waited p pid (some (t, code)) ∈ new) ∨
        (k'.tcb p).taskStatus = .zombie ∨
          ∃ j, (k'.tcb p).children[j]? = some t ∧ j + new.countP (Note.anyWait p) ≤ i) := by
  induction h with
  | refl =>
    have htlt := hreached.family.lt_next hlt (List.mem_of_getElem? ht)
    exact ⟨hreached, hlt, htlt, hstatus, [], rfl, .inr (.inr ⟨i, ht, le_rfl⟩)⟩
  | @step e k₁ k₂ log₁ hrun hok hstep ih =>
    obtain ⟨hreached₁, hp, htlt, hz, new, rfl, hcase⟩ := ih
    have hplaced := hreached₁.isPlaced
    have htrans := trans_of_step hstep
    -- who has exited stays so
    have hstays {u : ℕ} (hu : u < k₁.next) (hzu : (k₁.tcb u).taskStatus = .zombie) :
        (k₂.tcb u).taskStatus = .zombie := by
      rcases (Exited.trans (.inr hzu) hu hplaced htrans).2.2 with hsame | hzombie
      · rw [hsame]
        exact hzu
      · exact hzombie
    refine ⟨?_, (htrans.sameKin hplaced hp).lt_next, (htrans.sameKin hplaced htlt).lt_next,
      hstays htlt hz, (e.note k₁).toList ++ new, (List.append_assoc _ _ _).symm, ?_⟩
    · obtain ⟨tid, clock, hle, hlt', hrun₁⟩ := hreached₁
      exact ⟨tid, clock, hle, hlt', hrun₁.step hok hstep⟩
    · rcases hcase with ⟨pid, code, hmem⟩ | hzombie | ⟨j, hj, hle⟩
      · exact .inl ⟨pid, code, List.mem_append_right _ hmem⟩
      · exact .inr (.inl (hstays hp hzombie))
      · rcases htrans.forward hplaced hp hj hz hle with ⟨pid, code, hnote⟩ | hzombie | hforward
        · refine .inl ⟨pid, code, List.mem_append_left _ ?_⟩
          rw [hnote]
          exact List.mem_singleton_self _
        · exact .inr (.inl hzombie)
        · refine .inr (.inr ?_)
          rw [List.countP_append]
          exact hforward

/-- **The tree of tasks is right** in a run whose clones put each new task on the list of the task
that it names, or let it name none: every task but the first of its tree, as long as it was not
returned, is on the list of the one task that it names, or on none and names none. A task is
returned once at most, with the exit code that it passed to exit, to the task that it names; and
that returns it as soon as it has waited for any child once for each child up to it on the list, if
it lives so long. -/
theorem tree_right (h : Reached CloneInTree k log) :
    (∀ t < k.next, (k.tcb t).parent ≠ none → log.countP (Note.returns t) = 0 → k.InTree t) ∧
    (∀ t, log.countP (Note.returns t) ≤ 1) ∧
    (∀ p pid t code, .waited p pid (some (t, code)) ∈ log →
      .exited t code ∈ log ∧ (k.tcb t).ppid = (k.tcb p).tid) ∧
    ∀ p t, k.IsParent p t → (k.tcb t).taskStatus = .zombie →
      ∀ k' new, Run CloneInTree k log k' (new ++ log) → (k'.tcb p).taskStatus ≠ .zombie →
        (k.tcb p).children.idxOf t < new.countP (Note.anyWait p) →
          ∃ pid code, .waited p pid (some (t, code)) ∈ new := by
  have hfamily := h.family
  refine ⟨?_, ?_, ?_, ?_⟩
  · intro t hlt hparent hreturned
    -- a task that is on no list has lost its parent
    by_cases hlisted : ∀ q < k.next, t ∉ (k.tcb q).children
    · refine .inr ⟨?_, h.orphan hlt hparent hlisted hreturned⟩
      rintro p ⟨hp, -, hmem⟩
      exact hlisted p hp hmem
    · push Not at hlisted
      obtain ⟨p, hp, hmem⟩ := hlisted
      refine .inl ⟨p, ⟨hp, ?_, hmem⟩, ?_, List.count_eq_one_of_mem (hfamily.nodup p hp) hmem,
        hfamily.ppid hp hmem⟩
      · intro hzombie
        rw [hfamily.childless p hp hzombie] at hmem
        exact List.not_mem_nil hmem
      · rintro q ⟨hq, -, hmem'⟩
        exact hfamily.unique hq hp hmem' hmem
  · intro t
    exact h.once
  · intro p pid t code hmem
    have hreaped := h.reaped hmem
    refine ⟨?_, hreaped.ppid⟩
    rw [← hreaped.exitCode]
    exact h.logged hreaped.lt_next hreaped.exited
  · rintro p t ⟨hp, -, hmem⟩ hstatus k' new hrun halive hwaits
    have hget : (k.tcb p).children[(k.tcb p).children.idxOf t]? = some t :=
      List.getElem?_idxOf hmem
    obtain ⟨-, -, -, -, new', hnew, hcase⟩ := hrun.forward h hp hget hstatus
    obtain rfl := List.append_cancel_right hnew
    rcases hcase with hdone | hzombie | ⟨j, -, hle⟩
    · exact hdone
    · exact absurd hzombie halive
    · omega

/-- The condition is exact: a clone that does not meet it makes a task that is not in the tree. -/
theorem not_inTree_of_clone {flags : CloneFlags} {userStack : ℤ} (h : Reached ok k log)
    (hstep : (KernelEvent.clone cpu flags userStack tid).step k = some k') (hstack : 0 ≤ userStack)
    (hflag : flags.contains .CLONE_PARENT = true) (hcurrent : (k.cpus cpu).current = some task)
    (hppid : (k.tcb task).ppid ≠ NO_PARENT) : ¬ k'.InTree k.next := by
  obtain ⟨task', hcpu, hclone⟩ := of_inUser hstep
  obtain rfl : task' = task := by simpa [hcpu] using hcurrent
  rw [sysClone, if_neg (Int.not_lt.mpr hstack)] at hclone
  split_ifs at hclone
  obtain rfl := Option.some.inj hclone
  have htask := h.isPlaced.current_lt hcpu
  rintro (⟨p, ⟨hp, -, hmem⟩, -⟩ | ⟨-, hnone⟩)
  · rw [fromClone, if_pos hflag, setCpu_tcb] at hmem
    by_cases hpn : p = k.next
    · rw [hpn, create_tcb_self] at hmem
      exact List.not_mem_nil hmem
    · rw [create_tcb_of_ne hpn] at hmem
      rw [setCpu_next, fromClone_next] at hp
      exact (h.family.lt_next (by omega) hmem).false
  · rw [setCpu_tcb, fromClone_tcb_next htask, clonedTask] at hnone
    exact hppid ((if_pos hflag).symm.trans hnone)

/-- The events by which the current task of a CPU exits. -/
def exitOn (cpu : ℕ) (exitCode : BitVec 32) : List KernelEvent :=
  [.exit cpu exitCode, .take cpu, .switchedOut cpu]

/-- No new task is a sibling. -/
def noSibling : KernelEvent → Kernel → List Note → Bool
  | .clone _ flags _ _, _, _ => !flags.contains .CLONE_PARENT
  | _, _, _ => true

theorem cloneInTree_of_noSibling (e : KernelEvent) (k : Kernel) (log : List Note)
    (h : noSibling e k log = true) : CloneInTree e k log := by
  cases e with
  | clone cpu flags userStack tid =>
    intro _ hflag
    rw [noSibling, hflag] at h
    exact absurd h (by simp)
  | _ => trivial

/-- The first task makes a child, which exits with 7; the child is in the tree until it is waited
for. -/
theorem tree_right_child : ∃ k : Kernel, (k.tcb 1).taskStatus = .zombie ∧ k.InTree 1 := by
  obtain ⟨k, log, hreached, hP⟩ := reached_of_replay CloneInTree noSibling
    (switchIn 0 ++ [.clone 0 0 0 3, .push 0] ++ switchIn 1 ++ exitOn 1 7)
    (fun s ↦ decide (s.1.next = 2 ∧ (s.1.tcb 1).taskStatus = .zombie ∧
      (s.1.tcb 1).parent ≠ none ∧ s.2.countP (Note.returns 1) = 0))
    cloneInTree_of_noSibling (by decide +kernel)
  obtain ⟨hnext, hstatus, hparent, hreturned⟩ : k.next = 2 ∧ _ := of_decide_eq_true hP
  exact ⟨k, hstatus, (tree_right hreached).1 1 (by omega) hparent hreturned⟩

/-- The first task makes a child, and that makes a sibling, which names the first task and exits. It
is on no list, and the first task, when it has no other child left, waits for nobody. -/
theorem sibling_not_inTree : ∃ (k : Kernel) (log : List Note), Reached anyEvent k log ∧
    2 < k.next ∧ (k.tcb 2).parent ≠ none ∧ log.countP (Note.returns 2) = 0 ∧
    (k.tcb 2).taskStatus = .zombie ∧ (k.tcb 2).ppid = (k.tcb 0).tid ∧
    k.waitpid 0 (-1) = .noChild ∧ ¬ k.InTree 2 := by
  obtain ⟨k, log, hreached, hP⟩ := reached_of_replay anyEvent (fun _ _ _ ↦ true)
    (switchIn 0 ++ [.clone 0 0 0 3, .push 0] ++ switchIn 1 ++
      [.clone 1 CloneFlags.CLONE_PARENT 0 4, .push 1] ++ exitOn 1 0 ++ switchIn 1 ++ exitOn 1 7 ++
      [.wait4 0 (-1) 0, .waitpid 0])
    (fun s ↦ decide ((2 < s.1.next ∧ (s.1.tcb 2).parent ≠ none ∧
      s.2.countP (Note.returns 2) = 0 ∧ (s.1.tcb 2).taskStatus = .zombie ∧
      (s.1.tcb 2).ppid = (s.1.tcb 0).tid ∧ s.1.waitpid 0 (-1) = .noChild) ∧
      (∀ p < s.1.next, 2 ∉ (s.1.tcb p).children) ∧ (s.1.tcb 2).ppid ≠ NO_PARENT))
    (fun _ _ _ _ ↦ trivial) (by decide +kernel)
  obtain ⟨⟨hlt, hparent, hreturned, hstatus, hppid, hwait⟩, hlisted, hnone⟩ :
    (2 < k.next ∧ _) ∧ _ := of_decide_eq_true hP
  refine ⟨k, log, hreached, hlt, hparent, hreturned, hstatus, hppid, hwait, ?_⟩
  rintro (⟨p, ⟨hp, -, hmem⟩, -⟩ | ⟨-, h⟩)
  · exact hlisted p hp hmem
  · exact hnone h

end Kernel

end Maturin
