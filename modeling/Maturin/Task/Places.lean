import Maturin.Task.Steps

/-!
# Where a task is

A task is in the ready queue, or the current task of a CPU, or in a local variable of `run_tasks` on
one. Each step of a CPU moves at most one task, so that a task is in one place all the time from
when it is created to when it is a zombie. The status of a task follows its place, and that is why
the loop never finds a status that it does not expect.
-/

namespace Maturin

/-- A place for tasks. -/
inductive Place
  | queue
  | current (cpu : ℕ)
  | held (cpu : ℕ)
  deriving DecidableEq

namespace Kernel

/-- The task is in a place. -/
def At (k : Kernel) (task : ℕ) : Place → Prop
  | .queue => task ∈ k.readyQueue
  | .current cpu => (k.cpus cpu).current = some task
  | .held cpu => (k.cpus cpu).pc.held = some task

/-- What the tasks of a CPU are by its position, if `status` is what they are. -/
def CpuValid (status : ℕ → TaskStatus) : CpuLocal → Prop
  | ⟨current, .idle⟩ | ⟨current, .halted⟩ => current = none
  | ⟨current, .fetched task⟩ | ⟨current, .blocked task⟩ | ⟨current, .unblocked task⟩ =>
    current = none ∧ status task = .ready
  | ⟨current, .running _⟩ => ∃ task, current = some task ∧ status task = .running
  | ⟨current, .cloned newTask⟩ =>
    status newTask = .ready ∧ ∃ task, current = some task ∧ status task = .running
  | ⟨current, .left⟩ =>
    ∃ task, current = some task ∧ (status task = .ready ∨ status task = .dying)
  | ⟨current, .taken task⟩ => current = none ∧ (status task = .ready ∨ status task = .dying)

/-- Every task that is not a zombie is in exactly one place, and is there as its status says. -/
structure Placed (k : Kernel) : Prop where
  nodup : k.readyQueue.Nodup
  unique : ∀ {t p q}, k.At t p → k.At t q → p = q
  lt_next : ∀ {task p}, k.At task p → task < k.next
  placed : ∀ task < k.next, (k.tcb task).taskStatus ≠ .zombie → ∃ p, k.At task p
  ready : ∀ task ∈ k.readyQueue, (k.tcb task).taskStatus = .ready
  valid : ∀ cpu, CpuValid (fun task ↦ (k.tcb task).taskStatus) (k.cpus cpu)

variable {k k' : Kernel} {cpu cpu' task newTask tid : ℕ} {p q : Place} {src dst : Option Place}
  {current : Option ℕ} {pc : Pc} {status status' : ℕ → TaskStatus} {s : CpuLocal}

/-! ## One CPU -/

/-- Only the status of the tasks of the CPU matters. -/
theorem CpuValid.congr (h : CpuValid status s)
    (heq : ∀ task, s.current = some task ∨ s.pc.held = some task → status' task = status task) :
    CpuValid status' s := by
  obtain ⟨current, pc⟩ := s
  cases pc with
  | idle | halted => exact h
  | fetched task | blocked task | unblocked task | taken task =>
    refine ⟨h.1, ?_⟩
    rw [heq task (.inr rfl)]
    exact h.2
  | running cx | left =>
    obtain ⟨task, hcurrent, hstatus⟩ := h
    refine ⟨task, hcurrent, ?_⟩
    rw [heq task (.inl hcurrent)]
    exact hstatus
  | cloned newTask =>
    obtain ⟨hnew, task, hcurrent, hstatus⟩ := h
    refine ⟨?_, task, hcurrent, ?_⟩
    · rw [heq newTask (.inr rfl)]
      exact hnew
    · rw [heq task (.inl hcurrent)]
      exact hstatus

/-- The current task and the one held. -/
theorem Placed.current_ne_zombie (h : k.Placed) (hcurrent : (k.cpus cpu).current = some task) :
    (k.tcb task).taskStatus ≠ .zombie := by
  have hvalid := h.valid cpu
  cases hcpu : k.cpus cpu with
  | mk current pc =>
    rw [hcpu] at hvalid hcurrent
    cases pc <;> simp_all [CpuValid]
    rcases hvalid with hvalid | hvalid <;> simp [hvalid]

theorem Placed.held_ne_zombie (h : k.Placed) (hheld : (k.cpus cpu).pc.held = some task) :
    (k.tcb task).taskStatus ≠ .zombie := by
  have hvalid := h.valid cpu
  cases hcpu : k.cpus cpu with
  | mk current pc =>
    rw [hcpu] at hvalid hheld
    cases pc <;> simp_all [CpuValid, Pc.held]
    rcases hvalid.2 with hvalid | hvalid <;> simp [hvalid]

theorem Placed.ne_zombie (h : k.Placed) (hat : k.At task p) :
    (k.tcb task).taskStatus ≠ .zombie := by
  cases p with
  | queue => simp [h.ready task hat]
  | current cpu => exact h.current_ne_zombie hat
  | held cpu => exact h.held_ne_zombie hat

/-! ## One step -/

/-- A step of a CPU moves `task` from its place to another, and lets every other task and CPU be. -/
structure Moves (k k' : Kernel) (cpu task : ℕ) (src dst : Option Place) : Prop where
  at_iff : ∀ u p, k'.At u p ↔
    (u = task ∧ dst = some p) ∨ (k.At u p ∧ ¬ (u = task ∧ src = some p))
  cpus : ∀ c ≠ cpu, k'.cpus c = k.cpus c
  status : ∀ u ≠ task, (k'.tcb u).taskStatus = (k.tcb u).taskStatus
  lt_next : ∀ u, u < k'.next ↔ u < k.next ∨ u = task

theorem Placed.moves (h : k.Placed) (hm : Moves k k' cpu task src dst)
    (hsrc : ∀ p, k.At task p → src = some p)
    (hzombie : dst = none → (k'.tcb task).taskStatus = .zombie)
    (hready : dst = some .queue → (k'.tcb task).taskStatus = .ready)
    (hnodup : k'.readyQueue.Nodup)
    (hvalid : CpuValid (fun u ↦ (k'.tcb u).taskStatus) (k'.cpus cpu))
    (hother : ∀ c, cpu ≠ c → ∀ q, q = .current c ∨ q = .held c → src ≠ some q) : k'.Placed := by
  have hat (p : Place) : k'.At task p ↔ dst = some p := by
    rw [hm.at_iff]
    constructor
    · rintro (⟨-, hdst⟩ | ⟨hp, hne⟩)
      · exact hdst
      · exact absurd ⟨rfl, hsrc p hp⟩ hne
    · intro hdst
      exact .inl ⟨rfl, hdst⟩
  have hne {u : ℕ} (hu : u ≠ task) (p : Place) : k'.At u p ↔ k.At u p := by
    rw [hm.at_iff]
    simp [hu]
  constructor
  · exact hnodup
  · intro u p q hp hq
    by_cases hu : u = task
    · subst hu
      rw [hat] at hp hq
      exact Option.some.inj (hp.symm.trans hq)
    · rw [hne hu] at hp hq
      exact h.unique hp hq
  · intro u p hp
    rw [hm.lt_next]
    by_cases hu : u = task
    · exact .inr hu
    · exact .inl (h.lt_next ((hne hu p).mp hp))
  · intro u hu hstatus
    by_cases hut : u = task
    · subst hut
      cases dst with
      | none => exact absurd (hzombie rfl) hstatus
      | some p => exact ⟨p, (hat p).mpr rfl⟩
    · rw [hm.status u hut] at hstatus
      obtain ⟨p, hp⟩ := h.placed u (((hm.lt_next u).mp hu).resolve_right hut) hstatus
      exact ⟨p, (hne hut p).mpr hp⟩
  · intro u hu
    by_cases hut : u = task
    · subst hut
      exact hready ((hat .queue).mp hu)
    · rw [hm.status u hut]
      exact h.ready u ((hne hut .queue).mp hu)
  · intro c
    by_cases hc : c = cpu
    · subst hc
      exact hvalid
    · -- The task that moves is on no other CPU.
      rw [hm.cpus c hc]
      refine (h.valid c).congr fun u hu ↦ hm.status u ?_
      rintro rfl
      rcases hu with hu | hu
      · exact hother c (Ne.symm hc) (.current c) (.inl rfl) (hsrc (.current c) hu)
      · exact hother c (Ne.symm hc) (.held c) (.inr rfl) (hsrc (.held c) hu)

/-- The places of the tasks, where of the CPUs only one has changed. -/
theorem at_iff_of_update (hcpus : k'.cpus = Function.update k.cpus cpu s) :
    k'.At task p ↔ (p = .queue ∧ task ∈ k'.readyQueue) ∨
      (p = .current cpu ∧ s.current = some task) ∨ (p = .held cpu ∧ s.pc.held = some task) ∨
      (p ≠ .queue ∧ p ≠ .current cpu ∧ p ≠ .held cpu ∧ k.At task p) := by
  cases p with
  | queue => simp [At]
  | current c =>
    by_cases hc : c = cpu
    · subst hc
      simp [At, hcpus]
    · simp [At, hc, hcpus]
  | held c =>
    by_cases hc : c = cpu
    · subst hc
      simp [At, hcpus]
    · simp [At, hc, hcpus]

/-- The tasks keep their places if the CPU keeps its tasks. -/
theorem at_iff_of_same (hqueue : k'.readyQueue = k.readyQueue)
    (hcpus : k'.cpus = Function.update k.cpus cpu s)
    (hcurrent : s.current = (k.cpus cpu).current) (hheld : s.pc.held = (k.cpus cpu).pc.held) :
    k'.At task p ↔ k.At task p := by
  rw [at_iff_of_update hcpus, hcurrent, hheld, hqueue]
  cases p with
  | queue => simp [At]
  | current c =>
    by_cases hc : c = cpu
    · subst hc
      simp [At]
    · simp [hc]
  | held c =>
    by_cases hc : c = cpu
    · subst hc
      simp [At]
    · simp [hc]

/-- The task stays in its place on the CPU. -/
theorem Placed.stay (h : k.Placed) (cpu task : ℕ) (p : Place)
    (hqueue : k'.readyQueue = k.readyQueue)
    (hnext : k'.next = k.next) (hcpus : k'.cpus = Function.update k.cpus cpu s)
    (hcurrent : s.current = (k.cpus cpu).current) (hheld : s.pc.held = (k.cpus cpu).pc.held)
    (hat : k.At task p) (hp : p = .current cpu ∨ p = .held cpu)
    (hstatus : ∀ u ≠ task, (k'.tcb u).taskStatus = (k.tcb u).taskStatus)
    (hvalid : CpuValid (fun u ↦ (k'.tcb u).taskStatus) s) : k'.Placed := by
  have hsame {u : ℕ} {q : Place} : k'.At u q ↔ k.At u q :=
    at_iff_of_same hqueue hcpus hcurrent hheld
  -- the task moves from its place to the same place
  have hm : Moves k k' cpu task (some p) (some p) := by
    refine ⟨fun u q ↦ ?_, fun c hc ↦ ?_, hstatus, fun u ↦ ?_⟩
    · rw [hsame]
      constructor
      · intro hq
        by_cases hu : u = task ∧ some p = some q
        · exact .inl hu
        · exact .inr ⟨hq, hu⟩
      · rintro (⟨rfl, hq⟩ | ⟨hq, -⟩)
        · exact Option.some.inj hq ▸ hat
        · exact hq
    · rw [hcpus, Function.update_of_ne hc]
    · rw [hnext]
      exact ⟨.inl, fun hu ↦ hu.elim id fun hu ↦ hu ▸ h.lt_next hat⟩
  refine h.moves hm (fun q hq ↦ congrArg some (h.unique hat hq)) (fun hnone ↦ ?_)
    (fun hqueue' ↦ ?_) (hqueue ▸ h.nodup) ?_ fun c hc q hq hsrc ↦ ?_
  · exact absurd hnone (by simp)
  · obtain rfl := Option.some.inj hqueue'
    exact absurd hp (by simp)
  · rw [hcpus, Function.update_self]
    exact hvalid
  · obtain rfl := Option.some.inj hsrc
    rcases hp with rfl | rfl <;> rcases hq with hq | hq <;> simp_all

/-- A move to or from the queue and one CPU. -/
theorem moves_of_update (hcpus : k'.cpus = Function.update k.cpus cpu s)
    (hqueue : ∀ u, u ∈ k'.readyQueue ↔
      (u = task ∧ dst = some .queue) ∨ (u ∈ k.readyQueue ∧ ¬ (u = task ∧ src = some .queue)))
    (hcurrent : ∀ u, s.current = some u ↔ (u = task ∧ dst = some (.current cpu)) ∨
      ((k.cpus cpu).current = some u ∧ ¬ (u = task ∧ src = some (.current cpu))))
    (hheld : ∀ u, s.pc.held = some u ↔ (u = task ∧ dst = some (.held cpu)) ∨
      ((k.cpus cpu).pc.held = some u ∧ ¬ (u = task ∧ src = some (.held cpu))))
    (hother : ∀ c, cpu ≠ c → ∀ q, q = .current c ∨ q = .held c → src ≠ some q ∧ dst ≠ some q)
    (hstatus : ∀ u ≠ task, (k'.tcb u).taskStatus = (k.tcb u).taskStatus)
    (hnext : ∀ u, u < k'.next ↔ u < k.next ∨ u = task) : Moves k k' cpu task src dst := by
  constructor
  · intro u p
    cases p with
    | queue => exact hqueue u
    | current c =>
      by_cases hc : c = cpu
      · subst hc
        change (k'.cpus c).current = some u ↔ _
        rw [hcpus, Function.update_self]
        exact hcurrent u
      · obtain ⟨hsrc, hdst⟩ := hother c (Ne.symm hc) (.current c) (.inl rfl)
        simp [At, hcpus, hc, hsrc, hdst]
    | held c =>
      by_cases hc : c = cpu
      · subst hc
        change (k'.cpus c).pc.held = some u ↔ _
        rw [hcpus, Function.update_self]
        exact hheld u
      · obtain ⟨hsrc, hdst⟩ := hother c (Ne.symm hc) (.held c) (.inr rfl)
        simp [At, hcpus, hc, hsrc, hdst]
  · intro c hc
    rw [hcpus, Function.update_of_ne hc]
  · exact hstatus
  · exact hnext

/-! ## The steps -/

/-- The tasks of a CPU at a known position. -/
theorem Placed.valid_pc (h : k.Placed) (hpc : (k.cpus cpu).pc = pc) :
    CpuValid (fun u ↦ (k.tcb u).taskStatus) ⟨(k.cpus cpu).current, pc⟩ := hpc ▸ h.valid cpu

theorem Placed.valid_cpu (h : k.Placed) (hcpu : k.cpus cpu = s) :
    CpuValid (fun u ↦ (k.tcb u).taskStatus) s := hcpu ▸ h.valid cpu

theorem Placed.fetch {rest : List ℕ} (h : k.Placed) (hpc : (k.cpus cpu).pc = .idle)
    (hqueue : k.readyQueue = task :: rest) :
    ({ k with readyQueue := rest }.setPc cpu (.fetched task)).Placed := by
  have hnodup := h.nodup
  rw [hqueue, List.nodup_cons] at hnodup
  have hat : k.At task .queue := by simp [At, hqueue]
  have hnone : (k.cpus cpu).current = none := h.valid_pc hpc
  have hm : Moves k ({ k with readyQueue := rest }.setPc cpu (.fetched task)) cpu task
      (some .queue) (some (.held cpu)) := by
    refine moves_of_update rfl ?_ ?_ ?_ (by simp) (fun u _ ↦ rfl) ?_
    · intro u
      rw [hqueue]
      simp
      grind
    · simp [hnone]
    · simp [hpc, eq_comm]
    · intro u
      have := h.lt_next hat
      change u < k.next ↔ _
      grind
  refine h.moves hm (fun p hp ↦ congrArg some (h.unique hat hp)) (by simp) (by simp) hnodup.2 ?_
    (by simp)
  rw [setPc, setCpu_cpus_self]
  exact ⟨hnone, h.ready task hat⟩

theorem Placed.load (h : k.Placed) (hpc : (k.cpus cpu).pc = .idle) :
    ((k.create (.fromAppName NO_PARENT tid)).setPc cpu (.fetched k.next)).Placed := by
  have hnone : (k.cpus cpu).current = none := h.valid_pc hpc
  have hnew {p : Place} (hp : k.At k.next p) : False := (h.lt_next hp).false
  have hm : Moves k ((k.create (.fromAppName NO_PARENT tid)).setPc cpu (.fetched k.next)) cpu
      k.next none (some (.held cpu)) := by
    refine moves_of_update rfl ?_ ?_ ?_ (by simp) ?_ ?_
    · intro u
      simp [setPc]
    · simp [hnone]
    · simp [hpc, eq_comm]
    · intro u hu
      exact congrArg _ (create_tcb_of_ne hu)
    · intro u
      exact Nat.lt_succ_iff_lt_or_eq
  refine h.moves hm (fun p hp ↦ (hnew hp).elim) (by simp) (by simp) h.nodup ?_ (by simp)
  rw [setPc, setCpu_cpus_self]
  refine ⟨hnone, ?_⟩
  simp [TaskControlBlock.fromAppName]

theorem Placed.check (h : k.Placed) (hpc : (k.cpus cpu).pc = .fetched task) :
    (k.checkThreadBlocked cpu task).Placed := by
  have hvalid := h.valid_pc hpc
  refine h.stay cpu task (.held cpu) rfl rfl rfl rfl ?_ ?_ (.inr rfl)
    (fun u _ ↦ rfl) ?_
  · rw [hpc]
    dsimp only
    split_ifs <;> rfl
  · simp [At, hpc]
  · dsimp only
    split_ifs <;> exact hvalid

theorem Placed.switchInto (h : k.Placed) (hpc : (k.cpus cpu).pc = .unblocked task) :
    (k.switchInto cpu task).Placed := by
  have hvalid := h.valid_pc hpc
  have hat : k.At task (.held cpu) := by simp [At, hpc]
  have hm : Moves k (k.switchInto cpu task) cpu task (some (.held cpu)) (some (.current cpu)) := by
    refine moves_of_update rfl ?_ ?_ ?_ (by simp) ?_ ?_
    · intro u
      simp [Kernel.switchInto]
    · simp [hvalid.1, eq_comm]
    · simp [hpc, eq_comm]
    · intro u hu
      rw [Kernel.switchInto, setCpu_tcb, modify_tcb_of_ne hu]
    · intro u
      have := h.lt_next hat
      change u < k.next ↔ _
      grind
  refine h.moves hm (fun p hp ↦ congrArg some (h.unique hat hp)) (by simp) (by simp) h.nodup ?_
    (by simp)
  rw [Kernel.switchInto, setCpu_cpus_self]
  exact ⟨task, rfl, by simp⟩

/-- A task on a CPU goes to the end of the queue. -/
theorem Placed.push (h : k.Placed) {pc : Pc} (hheld : (k.cpus cpu).pc.held = some task)
    (hready : (k.tcb task).taskStatus = .ready) (hpc : pc.held = none)
    (hvalid : CpuValid (fun u ↦ (k.tcb u).taskStatus) ⟨(k.cpus cpu).current, pc⟩) :
    ((k.pushTaskToScheduler task).setPc cpu pc).Placed := by
  have hat : k.At task (.held cpu) := hheld
  -- the task is in one place, which is not the queue
  have hnot : task ∉ k.readyQueue := by
    intro hmem
    exact absurd (h.unique (p := .queue) hmem hat) (by simp)
  have hne : (k.cpus cpu).current ≠ some task := by
    intro hcurrent
    exact absurd (h.unique (p := .current cpu) hcurrent hat) (by simp)
  have hm : Moves k ((k.pushTaskToScheduler task).setPc cpu pc) cpu task (some (.held cpu))
      (some .queue) := by
    refine moves_of_update rfl ?_ ?_ ?_ (by simp) (fun u _ ↦ rfl) ?_
    · intro u
      simp [pushTaskToScheduler, or_comm]
    · intro u
      simp [pushTaskToScheduler]
    · simp [hpc, hheld, eq_comm]
    · intro u
      have := h.lt_next hat
      change u < k.next ↔ _
      grind
  refine h.moves hm (fun p hp ↦ congrArg some (h.unique hat hp)) (by simp) (fun _ ↦ hready) ?_ ?_
    ?_
  · simpa [pushTaskToScheduler, List.nodup_append] using ⟨h.nodup, fun a ha hat ↦ hnot (hat ▸ ha)⟩
  · rw [setPc, setCpu_cpus_self]
    exact hvalid
  · simp

theorem Placed.clone {flags : CloneFlags} (h : k.Placed)
    (hcpu : k.cpus cpu = ⟨some task, .running .user⟩) :
    ((k.fromClone task flags tid).setPc cpu (.cloned k.next)).Placed := by
  obtain ⟨task', htask, hrunning⟩ := h.valid_cpu hcpu
  obtain rfl := Option.some.inj htask
  have hlt : task < k.next := h.lt_next (p := .current cpu) (by simp [At, hcpu])
  -- the new task is in no place yet
  have hnew {p : Place} (hp : k.At k.next p) : False := (h.lt_next hp).false
  have hm : Moves k ((k.fromClone task flags tid).setPc cpu (.cloned k.next)) cpu k.next none
      (some (.held cpu)) := by
    refine moves_of_update (s := ⟨some task, .cloned k.next⟩) ?_ ?_ ?_ ?_ (by simp) ?_ ?_
    · simp [setCpu, hcpu]
    · simp
    · simp [hcpu]
    · simp [hcpu, eq_comm]
    · intro u hu
      rw [setCpu_tcb]
      by_cases hut : u = task
      · subst hut
        rw [fromClone_tcb_self hlt]
      · rw [fromClone_tcb_of_ne hu hut]
    · intro u
      rw [setCpu_next, fromClone_next]
      exact Nat.lt_succ_iff_lt_or_eq
  refine h.moves hm (fun p hp ↦ (hnew hp).elim) (by simp) (by simp) ?_ ?_ (by simp)
  · simpa using h.nodup
  · rw [setPc, setCpu_cpus_self, fromClone_cpus, hcpu, setCpu_tcb]
    refine ⟨?_, task, rfl, ?_⟩
    · dsimp only
      rw [fromClone_tcb_next hlt]
      rfl
    · dsimp only
      rw [fromClone_tcb_self hlt]
      exact hrunning

theorem Placed.take (h : k.Placed) (hcpu : k.cpus cpu = ⟨some task, .left⟩) :
    (k.setCpu cpu none (.taken task)).Placed := by
  obtain ⟨task', htask, hstatus⟩ := h.valid_cpu hcpu
  obtain rfl := Option.some.inj htask
  have hat : k.At task (.current cpu) := by simp [At, hcpu]
  have hm : Moves k (k.setCpu cpu none (.taken task)) cpu task (some (.current cpu))
      (some (.held cpu)) := by
    refine moves_of_update rfl ?_ ?_ ?_ (by simp) (fun u _ ↦ rfl) ?_
    · simp
    · simp [hcpu, eq_comm]
    · simp [hcpu, eq_comm]
    · intro u
      have := h.lt_next hat
      change u < k.next ↔ _
      grind
  refine h.moves hm (fun p hp ↦ congrArg some (h.unique hat hp)) (by simp) (by simp) h.nodup ?_
    (by simp)
  rw [setCpu_cpus_self]
  exact ⟨rfl, hstatus⟩

theorem Placed.zombie (h : k.Placed) (hpc : (k.cpus cpu).pc = .taken task) :
    ((k.handleZombieTask task).setPc cpu .idle).Placed := by
  have hvalid := h.valid_pc hpc
  have hat : k.At task (.held cpu) := by simp [At, hpc]
  have hm : Moves k ((k.handleZombieTask task).setPc cpu .idle) cpu task
      (some (.held cpu)) none := by
    rw [handleZombieTask_eq]
    refine moves_of_update rfl ?_ ?_ ?_ (by simp) ?_ ?_
    · simp
    · simp
    · simp [hpc, eq_comm]
    · intro u hu
      simp [hu]
    · intro u
      have := h.lt_next hat
      change u < k.next ↔ _
      grind
  rw [handleZombieTask_eq] at hm ⊢
  refine h.moves hm (fun p hp ↦ congrArg some (h.unique hat hp)) (by simp) (by simp) h.nodup ?_
    (by simp)
  rw [setPc, setCpu_cpus_self]
  exact hvalid.1

theorem Placed.halt (h : k.Placed) (hpc : (k.cpus cpu).pc = .idle) :
    (k.setPc cpu .halted).Placed := by
  have hsame {u : ℕ} {p : Place} : (k.setPc cpu .halted).At u p ↔ k.At u p :=
    at_iff_of_same rfl rfl rfl (by simp [hpc])
  constructor
  · exact h.nodup
  · intro u p q hp hq
    exact h.unique (hsame.mp hp) (hsame.mp hq)
  · intro u p hp
    exact h.lt_next (hsame.mp hp)
  · intro u hu hne
    obtain ⟨p, hp⟩ := h.placed u hu hne
    exact ⟨p, hsame.mpr hp⟩
  · exact h.ready
  · intro c
    by_cases hc : c = cpu
    · subst hc
      rw [setPc, setCpu_cpus_self]
      have hvalid := h.valid_pc hpc
      exact hvalid
    · rw [setPc, setCpu_cpus_of_ne hc]
      exact h.valid c

/-- The current task of a CPU changes itself, and the CPU goes on. -/
theorem Placed.modifyCurrent {f : TaskControlBlock → TaskControlBlock} {pc' : Pc} (h : k.Placed)
    (hcpu : k.cpus cpu = ⟨some task, pc⟩) (hheld : pc.held = none) (hheld' : pc'.held = none)
    (hvalid : ∀ status, status task = (f (k.tcb task)).taskStatus →
      CpuValid status ⟨some task, pc'⟩) : ((k.modify task f).setPc cpu pc').Placed := by
  refine h.stay cpu task (.current cpu) rfl rfl rfl rfl ?_ ?_ (.inl rfl)
    ?_ ?_
  · rw [hcpu]
    exact hheld'.trans hheld.symm
  · simp [At, hcpu]
  · intro u hu
    rw [setCpu_tcb, modify_tcb_of_ne hu]
  · rw [modify_cpus, hcpu]
    refine hvalid _ ?_
    simp

/-- The waiting board has no part in it. -/
theorem Placed.setBoard (h : k.Placed) (board : WaitingBoard) :
    Placed { k with waitingBoard := board } :=
  ⟨h.nodup, h.unique, h.lt_next, h.placed, h.ready, h.valid⟩

/-- Every step keeps the tasks in their places. -/
theorem Placed.trans {e : KernelEvent} {note : Option Note} (h : k.Placed)
    (ht : Trans k e note k') : k'.Placed := by
  cases ht with
  | fetch hpc hqueue => exact h.fetch hpc hqueue
  | load hpc hqueue hfree => exact h.load hpc
  | halt hpc => exact h.halt hpc
  | check hpc => exact h.check hpc
  | switchInto hpc => exact h.switchInto hpc
  | repush hpc =>
    have hvalid := h.valid_pc hpc
    exact h.push (by simp [hpc]) hvalid.2 rfl hvalid.1
  | pushNew hpc =>
    have hvalid := h.valid_pc hpc
    exact h.push (by simp [hpc]) hvalid.1 rfl hvalid.2
  | clone hcpu hstack hfree => exact h.clone hcpu
  | suspend cx' hcpu hnote =>
    exact h.modifyCurrent hcpu rfl rfl fun status hs ↦ ⟨_, rfl, .inl hs⟩
  | futexWait hcpu =>
    exact (h.setBoard _).modifyCurrent hcpu rfl rfl fun status hs ↦ ⟨_, rfl, .inl hs⟩
  | exit exitCode hcpu =>
    exact h.modifyCurrent hcpu rfl rfl fun status hs ↦ ⟨_, rfl, .inr hs⟩
  | @exec cpu task hcpu =>
    obtain ⟨task', htask, hrunning⟩ := h.valid_cpu hcpu
    obtain rfl := Option.some.inj htask
    -- nothing but the saved context changes
    have hself : (k.modify task ({ · with taskCx := .user })).setPc cpu (.running .user) =
        k.modify task ({ · with taskCx := .user }) := setPc_eq_self (by simp [hcpu])
    rw [← hself]
    exact h.modifyCurrent hcpu rfl rfl fun status hs ↦ ⟨_, rfl, hs.trans hrunning⟩
  | fail => exact h
  | @goOn _ _ cpu task cx cx' hcpu hnote =>
    obtain ⟨task', htask, hrunning⟩ := h.valid_cpu hcpu
    obtain rfl := Option.some.inj htask
    have hself : k.modify task id = k := modify_eq_self rfl
    rw [← hself]
    exact h.modifyCurrent hcpu rfl rfl fun status hs ↦ ⟨_, rfl, hs.trans hrunning⟩
  | reap hcpu hfound =>
    obtain ⟨task', htask, hrunning⟩ := h.valid_cpu hcpu
    obtain rfl := Option.some.inj htask
    exact h.modifyCurrent hcpu rfl rfl fun status hs ↦ ⟨_, rfl, hs.trans hrunning⟩
  | take hcpu => exact h.take hcpu
  | requeue hpc hstatus =>
    have hvalid := h.valid_pc hpc
    exact h.push (by simp [hpc]) hstatus rfl hvalid.1
  | zombie hpc hstatus => exact h.zombie hpc
  | tick hle => exact ⟨h.nodup, h.unique, h.lt_next, h.placed, h.ready, h.valid⟩

/-! ## Runs -/

theorem placed_boot (tid clock : ℕ) : (boot tid clock).Placed := by
  constructor
  · exact List.nodup_singleton 0
  · intro task p q hp hq
    cases p <;> cases q <;> simp_all [At, boot]
  · intro task p hp
    cases p <;> simp_all [At, boot]
  · intro task hlt _
    exact ⟨.queue, by simp_all [At, boot]⟩
  · intro task _
    rfl
  · intro cpu
    rfl

theorem Reached.isPlaced {ok : KernelEvent → Kernel → List Note → Prop} {log : List Note}
    (h : Reached ok k log) : k.Placed := by
  refine Reached.inv (I := fun k _ ↦ k.Placed) ?_ ?_ h
  · intro tid clock _ _
    exact placed_boot tid clock
  · intro e k log note k' _ hplaced _ ht
    exact hplaced.trans ht

/-- The current task of a CPU that executes one is running. -/
theorem Placed.running {cx : Resume} (h : k.Placed) (hcpu : k.cpus cpu = ⟨some task, .running cx⟩) :
    (k.tcb task).taskStatus = .running := by
  obtain ⟨task', htask, hrunning⟩ := h.valid_cpu hcpu
  obtain rfl := Option.some.inj htask
  exact hrunning

theorem Placed.current_lt (h : k.Placed) (hcpu : k.cpus cpu = ⟨some task, pc⟩) : task < k.next :=
  h.lt_next (p := .current cpu) (by simp [At, hcpu])

theorem Placed.held_lt (h : k.Placed) (hpc : (k.cpus cpu).pc = pc) (hheld : pc.held = some task) :
    task < k.next := h.lt_next (p := .held cpu) (by simp [At, hpc, hheld])

/-- A task that has called exit. -/
def Exited (k : Kernel) (task : ℕ) : Prop :=
  (k.tcb task).taskStatus = .dying ∨ (k.tcb task).taskStatus = .zombie

/-- A task that has not exited is another one. -/
theorem Exited.ne_of_status {u : ℕ} (h : k.Exited u)
    (hstatus : (k.tcb task).taskStatus = .ready ∨ (k.tcb task).taskStatus = .running) :
    u ≠ task := by
  rintro rfl
  rcases h with hd | hd <;> rw [hd] at hstatus <;> simp at hstatus

/-- A task that has exited does not change any more, but for becoming a zombie and what its parent
does to it. -/
theorem Exited.trans {e : KernelEvent} {note : Option Note} {u : ℕ} (h : k.Exited u)
    (hlt : u < k.next) (hp : k.Placed) (ht : Trans k e note k') :
    u < k'.next ∧ (k'.tcb u).exitCode = (k.tcb u).exitCode ∧
      ((k'.tcb u).taskStatus = (k.tcb u).taskStatus ∨ (k'.tcb u).taskStatus = .zombie) := by
  have hsame {k₁ : Kernel} (hnext : k.next ≤ k₁.next)
      (hcode : (k₁.tcb u).exitCode = (k.tcb u).exitCode)
      (hstatus : (k₁.tcb u).taskStatus = (k.tcb u).taskStatus) :
      u < k₁.next ∧ (k₁.tcb u).exitCode = (k.tcb u).exitCode ∧
        ((k₁.tcb u).taskStatus = (k.tcb u).taskStatus ∨ (k₁.tcb u).taskStatus = .zombie) :=
    ⟨hlt.trans_le hnext, hcode, .inl hstatus⟩
  -- the task has exited, so the step is about another one
  have hother {k₁ : Kernel} (hnext : k₁.next = k.next) (htcb : k₁.tcb u = k.tcb u) :=
    hsame hnext.ge (congrArg _ htcb) (congrArg _ htcb)
  cases ht with
  | load hpc hqueue hfree =>
    refine hsame (Nat.le_succ _) ?_ ?_
    · rw [setCpu_tcb, create_tcb_of_ne hlt.ne]
    · rw [setCpu_tcb, create_tcb_of_ne hlt.ne]
  | switchInto hpc =>
    have hvalid := hp.valid_pc hpc
    exact hother rfl (switchInto_tcb_of_ne (h.ne_of_status (.inl hvalid.2)))
  | clone hcpu hstack hfree =>
    refine hsame ?_ ?_ ?_
    · simp
    · rw [setCpu_tcb, fromClone_tcb_of_lt _ _ (hp.current_lt hcpu) hlt]
    · rw [setCpu_tcb, fromClone_tcb_of_lt _ _ (hp.current_lt hcpu) hlt]
  | suspend cx' hcpu hnote =>
    exact hother rfl (suspendCurrentTask_tcb_of_ne (h.ne_of_status (.inr (hp.running hcpu))))
  | futexWait hcpu =>
    refine hother rfl ?_
    rw [suspendCurrentTask_tcb_of_ne (h.ne_of_status (.inr (hp.running hcpu)))]
  | exit exitCode' hcpu =>
    exact hother rfl (exitCurrentTask_tcb_of_ne (h.ne_of_status (.inr (hp.running hcpu))))
  | exec hcpu => exact hother rfl (modify_tcb_of_ne (h.ne_of_status (.inr (hp.running hcpu))))
  | reap hcpu hfound =>
    refine hother rfl ?_
    rw [setCpu_tcb, modify_tcb_of_ne (h.ne_of_status (.inr (hp.running hcpu)))]
  | @zombie cpu task hpc hstatus =>
    rw [handleZombieTask_eq]
    refine ⟨hlt, rfl, ?_⟩
    by_cases hu : u = task
    · exact .inr (by simp [hu])
    · exact .inl (by simp [hu])
  | _ => exact hsame le_rfl rfl rfl

/-- The log of the exits is right. -/
theorem Reached.exited {ok : KernelEvent → Kernel → List Note → Prop} {log : List Note}
    {exitCode : BitVec 32} (h : Reached ok k log) (hmem : .exited task exitCode ∈ log) :
    task < k.next ∧ k.Exited task ∧ (k.tcb task).exitCode = exitCode := by
  refine Reached.inv (I := fun k log ↦ .exited task exitCode ∈ log →
    task < k.next ∧ k.Exited task ∧ (k.tcb task).exitCode = exitCode) ?_ ?_ h hmem
  · intro tid clock _ _ hnil
    exact absurd hnil List.not_mem_nil
  · intro e k log note k' hreached ih _ ht hmem
    rcases List.mem_append.mp hmem with hnew | hold
    · obtain rfl := Option.mem_toList.mp hnew
      cases ht with
      | exit exitCode hcpu =>
        exact ⟨hreached.isPlaced.current_lt hcpu, .inl (by simp), by simp⟩
      | suspend cx' hcpu hnote =>
        obtain ⟨_, habs, _⟩ := hnote _ rfl
        exact absurd habs (by simp)
      | goOn cx' hcpu hnote =>
        obtain ⟨_, habs, _⟩ := hnote _ rfl
        exact absurd habs (by simp)
    · obtain ⟨hlt, hexited, hcode⟩ := ih hold
      obtain ⟨hlt', hcode', hstatus⟩ := hexited.trans hlt hreached.isPlaced ht
      refine ⟨hlt', ?_, hcode'.trans hcode⟩
      rcases hstatus with hstatus | hstatus
      · rw [Exited, hstatus]
        exact hexited
      · exact .inr hstatus

/-- **The scheduler conserves the tasks**: in every state that the CPUs can reach together, a task
that is not yet a zombie is in exactly one place, the queue holds no task twice, and what is in a
place is such a task; a task that has exited is not in the queue again; and a CPU that takes a task
from its slot, or is done with it, finds one that it can treat. -/
theorem scheduler_conserves {log : List Note} (h : Reached anyEvent k log) :
    (∀ task < k.next, (k.tcb task).taskStatus ≠ .zombie → ∃! p, k.At task p) ∧
    k.readyQueue.Nodup ∧
    (∀ task p, k.At task p → task < k.next ∧ (k.tcb task).taskStatus ≠ .zombie) ∧
    (∀ task exitCode, .exited task exitCode ∈ log → task ∉ k.readyQueue) ∧
    (∀ cpu, (k.cpus cpu).pc = .left → ((KernelEvent.take cpu).step k).isSome) ∧
    ∀ cpu task, (k.cpus cpu).pc = .taken task → ((KernelEvent.switchedOut cpu).step k).isSome := by
  have hplaced := h.isPlaced
  refine ⟨?_, hplaced.nodup, ?_, ?_, ?_, ?_⟩
  · intro task hlt hstatus
    obtain ⟨p, hp⟩ := hplaced.placed task hlt hstatus
    exact ⟨p, hp, fun q hq ↦ hplaced.unique hq hp⟩
  · intro task p hp
    exact ⟨hplaced.lt_next hp, hplaced.ne_zombie hp⟩
  · intro task exitCode hmem hqueue
    exact (h.exited hmem).2.1.ne_of_status (.inl (hplaced.ready task hqueue)) rfl
  · intro cpu hpc
    obtain ⟨task, hcurrent, -⟩ := hplaced.valid_pc hpc
    have hcpu : k.cpus cpu = ⟨some task, .left⟩ := by rw [← hcurrent, ← hpc]
    simp [KernelEvent.step, hcpu]
  · intro cpu task hpc
    obtain ⟨-, hstatus⟩ := hplaced.valid_pc hpc
    rcases hstatus with hstatus | hstatus
    · simp [KernelEvent.step, hpc, Kernel.switchedOut, hstatus]
    · simp [KernelEvent.step, hpc, Kernel.switchedOut, hstatus]

/-- The events that fetch a task and switch it in on a CPU. -/
def switchIn (cpu : ℕ) : List KernelEvent := [.fetch cpu none, .check cpu, .switchInto cpu]

/-- The first task makes another one and exits, and the new one is switched in on the CPU 1. -/
theorem scheduler_conserves_two : ∃ k : Kernel, k.next = 2 ∧ k.At 1 (.current 1) ∧
    ∃! p, k.At 1 p := by
  have hreplay := reached_of_replay anyEvent (fun _ _ _ ↦ true)
    (switchIn 0 ++ [.clone 0 0 0 3, .push 0, .exit 0 0, .take 0, .switchedOut 0] ++ switchIn 1)
    (fun s ↦ decide (s.1.next = 2 ∧ (s.1.cpus 1).current = some 1 ∧
      (s.1.tcb 1).taskStatus ≠ .zombie))
    (fun _ _ _ _ ↦ trivial) (by decide +kernel)
  obtain ⟨k, log, hreached, hP⟩ := hreplay
  obtain ⟨hnext, hcurrent, hstatus⟩ : k.next = 2 ∧ _ := of_decide_eq_true hP
  exact ⟨k, hnext, hcurrent, (scheduler_conserves hreached).1 1 (by omega) hstatus⟩

end Kernel

end Maturin
