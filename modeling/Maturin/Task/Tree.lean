import Maturin.Task.Places

/-!
# The tree of tasks

That a task is the child of another one is said twice: the parent lists its children, and the child
has the `tid` of the parent as its `ppid`. `Family` says that the lists are a forest and that each
child listed names its parent; every step keeps it. That a task on no list has no `ppid` left is
another matter: `from_clone` with `CLONE_PARENT` makes a task that names the caller's parent, and
puts it on no list.
-/

namespace Maturin

namespace Kernel

/-- The task is alive and lists the child. -/
def IsParent (k : Kernel) (parent child : ℕ) : Prop :=
  parent < k.next ∧ (k.tcb parent).taskStatus ≠ .zombie ∧ child ∈ (k.tcb parent).children

/-- The lists of children are a forest, in which each child names its parent. -/
structure Family (k : Kernel) : Prop where
  lt_next : ∀ {p c}, p < k.next → c ∈ (k.tcb p).children → c < k.next
  nodup : ∀ p < k.next, (k.tcb p).children.Nodup
  unique : ∀ {p q c}, p < k.next → q < k.next → c ∈ (k.tcb p).children → c ∈ (k.tcb q).children →
    p = q
  ppid : ∀ {p c}, p < k.next → c ∈ (k.tcb p).children → (k.tcb c).ppid = (k.tcb p).tid
  childless : ∀ p < k.next, (k.tcb p).taskStatus = .zombie → (k.tcb p).children = []

/-- The task has the parent that it names, or none. -/
def InTree (k : Kernel) (task : ℕ) : Prop :=
  (∃ p, k.IsParent p task ∧ (∀ q, k.IsParent q task → q = p) ∧ (k.tcb p).children.count task = 1 ∧
    (k.tcb task).ppid = (k.tcb p).tid) ∨
  ((∀ p, ¬ k.IsParent p task) ∧ (k.tcb task).ppid = NO_PARENT)

/-- The new task of a clone gets a parent that lists it, or none. -/
def CloneInTree : KernelEvent → Kernel → List Note → Prop
  | .clone cpu flags userStack _, k, _ => 0 ≤ userStack → flags.contains .CLONE_PARENT = true →
    ∀ task, (k.cpus cpu).current = some task → (k.tcb task).ppid = NO_PARENT
  | _, _, _ => True

variable {k k' : Kernel} {cpu task tid c p u : ℕ} {e : KernelEvent} {note : Option Note}
  {log log' : List Note} {exitCode : BitVec 32} {pid : ℤ}

/-! ## The forest -/

/-- Only the lists, the `tid`s and the `ppid`s matter. -/
theorem Family.congr (h : k.Family) (hnext : k'.next = k.next)
    (hchildren : ∀ u, (k'.tcb u).children = (k.tcb u).children)
    (htid : ∀ u, (k'.tcb u).tid = (k.tcb u).tid) (hppid : ∀ u, (k'.tcb u).ppid = (k.tcb u).ppid)
    (hzombie : ∀ u, (k'.tcb u).taskStatus = .zombie → (k.tcb u).taskStatus = .zombie) :
    k'.Family := by
  constructor
  · intro p c hp hc
    rw [hnext] at hp ⊢
    exact h.lt_next hp (hchildren p ▸ hc)
  · intro p hp
    rw [hchildren]
    exact h.nodup p (hnext ▸ hp)
  · intro p q c hp hq hpc hqc
    exact h.unique (hnext ▸ hp) (hnext ▸ hq) (hchildren p ▸ hpc) (hchildren q ▸ hqc)
  · intro p c hp hc
    rw [hppid, htid]
    exact h.ppid (hnext ▸ hp) (hchildren p ▸ hc)
  · intro p hp hz
    rw [hchildren]
    exact h.childless p (hnext ▸ hp) (hzombie p hz)

/-- A task changes, but not its family. -/
theorem Family.modify {f : TaskControlBlock → TaskControlBlock} (h : k.Family)
    (hchildren : (f (k.tcb task)).children = (k.tcb task).children)
    (htid : (f (k.tcb task)).tid = (k.tcb task).tid)
    (hppid : (f (k.tcb task)).ppid = (k.tcb task).ppid)
    (hzombie : (f (k.tcb task)).taskStatus = .zombie → (k.tcb task).taskStatus = .zombie) :
    (k.modify task f).Family := by
  have hcase (P : TaskControlBlock → ℕ → Prop) (hself : P (f (k.tcb task)) task)
      (hother : ∀ u, P (k.tcb u) u) (u : ℕ) : P ((k.modify task f).tcb u) u := by
    by_cases hu : u = task
    · subst hu
      rw [modify_tcb_self]
      exact hself
    · rw [modify_tcb_of_ne hu]
      exact hother u
  exact h.congr rfl
    (hcase (fun t u ↦ t.children = (k.tcb u).children) hchildren fun _ ↦ rfl)
    (hcase (fun t u ↦ t.tid = (k.tcb u).tid) htid fun _ ↦ rfl)
    (hcase (fun t u ↦ t.ppid = (k.tcb u).ppid) hppid fun _ ↦ rfl)
    (hcase (fun t u ↦ t.taskStatus = .zombie → (k.tcb u).taskStatus = .zombie) hzombie
      fun _ hz ↦ hz)

/-- Nothing but the control blocks has a part in it. -/
theorem Family.of_tcb_eq (h : k.Family) (hnext : k'.next = k.next) (htcb : k'.tcb = k.tcb) :
    k'.Family := by
  refine h.congr hnext ?_ ?_ ?_ ?_
  all_goals
    intro u
    rw [htcb]
  exact id

theorem Family.setCpu {current : Option ℕ} {pc : Pc} (h : k.Family) :
    (k.setCpu cpu current pc).Family := h.of_tcb_eq rfl rfl

/-- A new task without children, on no list. -/
theorem Family.create {t : TaskControlBlock} (h : k.Family) (ht : t.children = []) :
    (k.create t).Family := by
  -- the new task is nobody's child, and has none
  have hold {p c : ℕ} (hp : p < k.next + 1) (hc : c ∈ ((k.create t).tcb p).children) :
      p < k.next ∧ c ∈ (k.tcb p).children := by
    by_cases hpn : p = k.next
    · subst hpn
      rw [create_tcb_self, ht] at hc
      exact absurd hc List.not_mem_nil
    · rw [create_tcb_of_ne hpn] at hc
      exact ⟨by omega, hc⟩
  constructor
  · intro p c hp hc
    obtain ⟨hlt, hc⟩ := hold hp hc
    exact Nat.lt_succ_of_lt (h.lt_next hlt hc)
  · intro p hp
    by_cases hpn : p = k.next
    · subst hpn
      rw [create_tcb_self, ht]
      exact List.nodup_nil
    · rw [create_tcb_of_ne hpn]
      exact h.nodup p (by simp at hp; omega)
  · intro p q c hp hq hpc hqc
    obtain ⟨hlt, hpc⟩ := hold hp hpc
    obtain ⟨hlt', hqc⟩ := hold hq hqc
    exact h.unique hlt hlt' hpc hqc
  · intro p c hp hc
    obtain ⟨hlt, hc⟩ := hold hp hc
    rw [create_tcb_of_ne hlt.ne, create_tcb_of_ne (h.lt_next hlt hc).ne]
    exact h.ppid hlt hc
  · intro p hp hz
    by_cases hpn : p = k.next
    · subst hpn
      rw [create_tcb_self, ht]
    · rw [create_tcb_of_ne hpn] at hz ⊢
      exact h.childless p (by simp at hp; omega) hz

/-- A task that no list has goes on the list of the task that it names. -/
theorem Family.pushChild (h : k.Family) (htask : task < k.next) (hc : c < k.next)
    (hnot : ∀ q < k.next, c ∉ (k.tcb q).children) (hppid : (k.tcb c).ppid = (k.tcb task).tid)
    (hstatus : (k.tcb task).taskStatus ≠ .zombie) :
    (k.modify task fun t ↦ { t with children := t.children ++ [c] }).Family := by
  have hchildren (q : ℕ) : ((k.modify task fun t ↦ { t with
      children := t.children ++ [c] }).tcb q) = { k.tcb q with
        children := (k.tcb q).children ++ if q = task then [c] else [] } := by
    by_cases hq : q = task
    · subst hq
      rw [modify_tcb_self, if_pos rfl]
    · rw [modify_tcb_of_ne hq, if_neg hq, List.append_nil]
  -- only `c` is new, and only on the list of `task`
  have hmem {q b : ℕ} (hb : b ∈ (k.tcb q).children ++ if q = task then [c] else []) :
      b ∈ (k.tcb q).children ∨ (b = c ∧ q = task) := by
    rcases List.mem_append.mp hb with hb | hb
    · exact .inl hb
    · split_ifs at hb with hq
      · exact .inr ⟨List.mem_singleton.mp hb, hq⟩
      · exact absurd hb List.not_mem_nil
  constructor
  · intro p b hp hb
    rw [hchildren] at hb
    rcases hmem hb with hb | ⟨rfl, -⟩
    · exact h.lt_next hp hb
    · exact hc
  · intro p hp
    rw [hchildren]
    dsimp only
    split_ifs with hq
    · refine (h.nodup p hp).append (List.nodup_singleton c) ?_
      rw [List.disjoint_singleton]
      exact hnot p hp
    · rw [List.append_nil]
      exact h.nodup p hp
  · intro p q b hp hq hpb hqb
    rw [hchildren] at hpb hqb
    rcases hmem hpb with hpold | ⟨hbc, hptask⟩
    · rcases hmem hqb with hqold | ⟨hbc, -⟩
      · exact h.unique hp hq hpold hqold
      · exact absurd hpold (hbc ▸ hnot p hp)
    · rcases hmem hqb with hqold | ⟨-, hqtask⟩
      · exact absurd hqold (hbc ▸ hnot q hq)
      · exact hptask.trans hqtask.symm
  · intro p b hp hb
    rw [hchildren] at hb
    rw [hchildren, hchildren]
    rcases hmem hb with hb | ⟨rfl, rfl⟩
    · exact h.ppid hp hb
    · exact hppid
  · intro p hp hz
    rw [hchildren] at hz ⊢
    have hne : p ≠ task := by
      rintro rfl
      exact hstatus hz
    simpa [hne] using h.childless p hp hz

/-- The tasks when a child of `task` has left the list. -/
theorem eraseChild_tcb (k : Kernel) (task idx q : ℕ) :
    (k.modify task fun t ↦ { t with children := t.children.eraseIdx idx }).tcb q = { k.tcb q with
      children := if q = task then (k.tcb q).children.eraseIdx idx else (k.tcb q).children } := by
  by_cases hq : q = task
  · subst hq
    rw [modify_tcb_self, if_pos rfl]
  · rw [modify_tcb_of_ne hq, if_neg hq]

/-- A child leaves the list. -/
theorem Family.eraseChild {idx : ℕ} (h : k.Family) :
    (k.modify task fun t ↦ { t with children := t.children.eraseIdx idx }).Family := by
  have htcb := k.eraseChild_tcb task idx
  -- no list gets longer
  have hsub (q : ℕ) : (if q = task then (k.tcb q).children.eraseIdx idx
      else (k.tcb q).children).Sublist (k.tcb q).children := by
    split_ifs
    · exact List.eraseIdx_sublist _ _
    · exact List.Sublist.refl _
  constructor
  · intro p c hp hc
    rw [htcb] at hc
    exact h.lt_next hp ((hsub p).subset hc)
  · intro p hp
    rw [htcb]
    exact (h.nodup p hp).sublist (hsub p)
  · intro p q c hp hq hpc hqc
    rw [htcb] at hpc hqc
    exact h.unique hp hq ((hsub p).subset hpc) ((hsub q).subset hqc)
  · intro p c hp hc
    rw [htcb] at hc
    rw [htcb, htcb]
    exact h.ppid hp ((hsub p).subset hc)
  · intro p hp hz
    rw [htcb] at hz ⊢
    exact List.eq_nil_of_subset_nil (h.childless p hp hz ▸ (hsub p).subset)

/-- A task that becomes a zombie leaves its children without a parent. -/
theorem Family.handleZombieTask (h : k.Family) (htask : task < k.next) :
    (k.handleZombieTask task).Family := by
  rw [handleZombieTask_eq]
  have hmem {p c : ℕ} (hc : c ∈ if p = task then [] else (k.tcb p).children) :
      p ≠ task ∧ c ∈ (k.tcb p).children := by
    split_ifs at hc with hp
    · exact absurd hc List.not_mem_nil
    · exact ⟨hp, hc⟩
  constructor
  · intro p c hp hc
    exact h.lt_next hp (hmem hc).2
  · intro p hp
    dsimp only
    split_ifs
    · exact List.nodup_nil
    · exact h.nodup p hp
  · intro p q c hp hq hpc hqc
    exact h.unique hp hq (hmem hpc).2 (hmem hqc).2
  · intro p c hp hc
    obtain ⟨hne, hc⟩ := hmem hc
    -- a child is on one list
    have hnot : c ∉ (k.tcb task).children := fun hc' ↦ hne (h.unique hp htask hc hc')
    dsimp only
    rw [if_neg hnot]
    exact h.ppid hp hc
  · intro p hp hz
    dsimp only at hz ⊢
    split_ifs at hz ⊢
    · rfl
    · exact h.childless p hp hz

theorem Family.fromClone {flags : CloneFlags} (h : k.Family) (htask : task < k.next)
    (hstatus : (k.tcb task).taskStatus ≠ .zombie) : (k.fromClone task flags tid).Family := by
  have hcreate : (k.create (k.clonedTask task flags tid)).Family := h.create rfl
  rw [Kernel.fromClone]
  split_ifs with hparent
  · exact hcreate
  · refine hcreate.pushChild ?_ ?_ ?_ ?_ ?_
    · exact Nat.lt_succ_of_lt htask
    · exact Nat.lt_succ_self _
    · intro q hq hmem
      by_cases hqn : q = k.next
      · subst hqn
        rw [create_tcb_self] at hmem
        exact absurd hmem List.not_mem_nil
      · rw [create_tcb_of_ne hqn] at hmem
        rw [create_next] at hq
        exact (h.lt_next (by omega) hmem).false
    · rw [create_tcb_self, create_tcb_of_ne htask.ne, clonedTask]
      exact if_neg hparent
    · rw [create_tcb_of_ne htask.ne]
      exact hstatus

/-- Every step keeps the forest. -/
theorem Family.trans (h : k.Family) (hp : k.Placed) (ht : Trans k e note k') : k'.Family := by
  cases ht with
  | fetch hpc hqueue => exact h.of_tcb_eq rfl rfl
  | @load cpu tid hpc hqueue hfree =>
    exact (h.create (t := .fromAppName NO_PARENT tid) rfl).setCpu
  | halt hpc => exact h.setCpu
  | check hpc => exact h.of_tcb_eq rfl rfl
  | switchInto hpc =>
    exact (h.modify (f := ({ · with taskStatus := .running })) rfl rfl rfl (by simp)).setCpu
  | repush hpc => exact h.of_tcb_eq rfl rfl
  | pushNew hpc => exact h.of_tcb_eq rfl rfl
  | clone hcpu hstack hfree =>
    refine (h.fromClone (hp.current_lt hcpu) ?_).setCpu
    rw [hp.running hcpu]
    simp
  | suspend cx' hcpu hnote =>
    exact (h.modify (f := ({ · with taskStatus := .ready, taskCx := cx' })) rfl rfl rfl
      (by simp)).setCpu
  | futexWait hcpu =>
    exact (h.modify (f := ({ · with taskStatus := .ready, taskCx := .user })) rfl rfl rfl
      (by simp)).of_tcb_eq rfl rfl
  | exit exitCode hcpu =>
    exact (h.modify (f := ({ · with taskStatus := .dying, exitCode })) rfl rfl rfl
      (by simp)).setCpu
  | exec hcpu => exact h.modify rfl rfl rfl fun hz ↦ hz
  | fail => exact h
  | goOn cx' hcpu hnote => exact h.setCpu
  | reap hcpu hfound => exact h.eraseChild.setCpu
  | take hcpu => exact h.setCpu
  | requeue hpc hstatus =>
    exact h.of_tcb_eq rfl rfl
  | zombie hpc hstatus => exact (h.handleZombieTask (hp.held_lt hpc rfl)).setCpu
  | tick hle => exact h.of_tcb_eq rfl rfl

theorem Reached.family {ok : KernelEvent → Kernel → List Note → Prop} (h : Reached ok k log) :
    k.Family := by
  refine Reached.inv (I := fun k _ ↦ k.Family) ?_ ?_ h
  · intro tid clock _ _
    have hnone {p c : ℕ} (hc : c ∈ ((boot tid clock).tcb p).children) : False :=
      List.not_mem_nil hc
    constructor
    · intro p c _ hc
      exact (hnone hc).elim
    · intro p _
      exact List.nodup_nil
    · intro p q c _ _ hc _
      exact (hnone hc).elim
    · intro p c _ hc
      exact (hnone hc).elim
    · intro p _ _
      rfl
  · intro e k log note k' hreached hfamily _ ht
    exact hfamily.trans hreached.isPlaced ht

end Kernel

end Maturin
