import Maturin.Sync.Sharing

/-!
# Interrupts and the readers-writer lock

As with the ticket lock, the interrupts of a CPU are off while it has a guard, and come back as they
were, if no guard is downgraded. A `downgrade` gives back its `push_off` and returns a guard that
will give it back again.
-/

namespace Maturin.KernelSync

variable {κ ι α : Type} [DecidableEq ι]

/-- The pairs of `push_off` and `pop_off` that are open besides those of guards. -/
def RwPc.depth : RwPc ι → ℕ
  | .out | .release _ => 0
  | .undo _ | .leaving => 1

/-- A CPU that has given back `k` pairs too many -/
def RwCore.Owes (core : RwCore ι) (k : ℕ) : Prop :=
  ∃ m, core.hart.Nested m ∧ m + k = core.guards.length + core.pc.depth

theorem RwCoreStep.owes {e : RwEvent κ ι α} {core core' : RwCore ι} {k i : ℕ}
    (hstep : RwCoreStep e core i core') (hreleasing : core.Releasing) (h : core.Owes k) :
    core'.Owes (k + i) := by
  obtain ⟨m, hnested, hm⟩ := h
  have herase : ∀ g ∈ core.guards, (core.guards.erase g).length + 1 = core.guards.length :=
    fun g hg ↦ by
      rw [List.length_erase_of_mem hg]
      exact Nat.sub_add_cancel (List.length_pos_of_mem hg)
  cases hstep with
  | same => exact ⟨m, hnested, hm⟩
  | call pc hout hpc =>
    refine ⟨m + 1, hnested.pushOff, ?_⟩
    rw [hout] at hm
    obtain rfl | ⟨l, rfl⟩ := hpc
    all_goals
      simp only [RwPc.depth] at hm ⊢
      omega
  | give g hout =>
    refine ⟨m + 1, hnested.pushOff, ?_⟩
    simp only [List.length_cons]
    omega
  | exchange g g' hout hg =>
    refine ⟨m, hnested, ?_⟩
    rw [List.length_cons, herase g hg]
    exact hm
  | downgrade g he hout hg hkind =>
    rw [hout] at hm
    exact ⟨m, hnested, hm⟩
  | release g hpc =>
    refine ⟨m, hnested, ?_⟩
    rw [hpc] at hm
    rw [List.length_cons, herase g (hreleasing g hpc).1, ← Nat.add_assoc, hm]
    rfl
  | drop g hout hg =>
    refine ⟨m, hnested, ?_⟩
    have hlen := herase g hg
    rw [hout] at hm
    simp only [RwPc.depth] at hm ⊢
    omega
  | undo l hpc =>
    rw [hpc] at hm
    exact ⟨m, hnested, hm⟩
  | popOff hart hpc hpop =>
    rw [hpc] at hm
    cases m with
    | zero => exact absurd (hpop.symm.trans hnested.popOff_eq_none) nofun
    | succ m =>
      obtain ⟨hart', hpop', hnested', -⟩ := hnested.exists_popOff
      obtain rfl := Option.some.inj (hpop.symm.trans hpop')
      refine ⟨m, hnested', ?_⟩
      simp only [RwPc.depth] at hm ⊢
      omega
  | setSie sie he hout hguards =>
    refine ⟨m, ⟨hnested.noff_eq, fun hpos ↦ ?_⟩, hm⟩
    rw [hout, hguards] at hm
    simp only [RwPc.depth, List.length_nil] at hm
    omega

namespace RwSys

variable [DecidableEq κ] {s s' : RwSys κ ι α} {c : κ} {k : ℕ} {core : RwCore ι}
  {e : RwEvent κ ι α} {events : List (RwEvent κ ι α)}

/-- The downgrades of a CPU that come to an end in a run -/
def downgrades (c : κ) (s : RwSys κ ι α) : List (RwEvent κ ι α) → ℕ
  | [] => 0
  | e :: events =>
    (if e.cpu = c then s.gives e else 0) +
      ((s.step e).map fun s' ↦ downgrades c s' events).getD 0

theorem owes_run (hreleasing : ∀ c, (s.core c).Releasing) (h : (s.core c).Owes k)
    (hrun : s.run events = some s') : (s'.core c).Owes (k + s.downgrades c events) := by
  induction events generalizing s k with
  | nil => exact Option.some.inj hrun ▸ h
  | cons e events ih =>
    rw [RwSys.run, List.foldlM_cons] at hrun
    obtain ⟨s₁, hstep, hrest⟩ := Option.bind_eq_some_iff.mp hrun
    have hnow : (s₁.core c).Owes (k + if e.cpu = c then s.gives e else 0) := by
      obtain ⟨core, hcore, hcs⟩ := step_core hstep
      rw [hcore]
      split_ifs with hc
      · rw [← hc, Function.update_self]
        exact hcs.owes (hreleasing e.cpu) (hc ▸ h)
      · rw [Function.update_of_ne (Ne.symm hc)]
        exact h
    have hthen := ih (releasing_step hreleasing hstep) hnow hrest
    rw [Nat.add_assoc] at hthen
    rw [downgrades, hstep]
    exact hthen

omit [DecidableEq ι] [DecidableEq κ] in
theorem releasing_new (data : ι → α) (sie : κ → Bool) (c : κ) :
    ((new data sie : RwSys κ ι α).core c).Releasing := fun _ hg ↦ absurd hg nofun

omit [DecidableEq ι] [DecidableEq κ] in
theorem owes_new (data : ι → α) (sie : κ → Bool) (c : κ) :
    ((new data sie : RwSys κ ι α).core c).Owes 0 := ⟨0, Hart.nested_fresh (sie c), rfl⟩

/-- No CPU has downgraded a guard. -/
structure Balanced (s : RwSys κ ι α) : Prop where
  owes : ∀ c, (s.core c).Owes 0
  pc_ne : ∀ c g, (s.core c).pc ≠ .release g

theorem Balanced.exists_step (h : s.Balanced) (e : RwEvent κ ι α) : ∃ s', s.step e = some s' := by
  cases e with
  | access c =>
    rw [RwSys.step, RwSys.access]
    cases hpc : (s.core c).pc
    case release g => exact absurd hpc (h.pc_ne c g)
    case leaving =>
      obtain ⟨m, hnested, hm⟩ := h.owes c
      rw [hpc] at hm
      simp only [RwPc.depth] at hm
      subst hm
      obtain ⟨hart, hpop, -⟩ := hnested.exists_popOff
      exact ⟨_, congrArg (Option.map _) hpop⟩
    all_goals exact ⟨_, rfl⟩
  | update | tryRead | tryWrite | tryUpgradeableRead | tryUpgrade | downgrade
  | downgradeToUpgradeable | drop | setSie => exact ⟨_, rfl⟩

omit [DecidableEq ι] [DecidableEq κ] in
theorem Balanced.gives_eq_zero (h : s.Balanced) : s.gives e = 0 := by
  cases e with
  | access c =>
    rw [gives]
    split
    · next g hpc => exact absurd hpc (h.pc_ne c g)
    all_goals rfl
  | update | tryRead | tryWrite | tryUpgradeableRead | tryUpgrade | downgrade
  | downgradeToUpgradeable | drop | setSie => rfl

omit [DecidableEq κ] in
/-- Only `setSie` changes whether interrupts are on outside of all pairs. -/
theorem coreStep_outside {core' : RwCore ι}
    (hstep : RwCoreStep e core k core') (howes : core.Owes 0)
    (hsie : ∀ sie, e ≠ .setSie e.cpu sie) : core'.hart.outside = core.hart.outside := by
  obtain ⟨m, hnested, hm⟩ := howes
  cases hstep with
  | call | give => exact Hart.outside_pushOff hnested
  | popOff hart hpc hpop =>
    rw [hpc] at hm
    simp only [RwPc.depth] at hm
    subst hm
    obtain ⟨hart', hpop', -, houtside⟩ := hnested.exists_popOff
    rwa [Option.some.inj (hpop.symm.trans hpop')]
  | setSie sie he => exact absurd he (hsie sie)
  | same | exchange | downgrade | release | drop | undo => rfl

theorem Balanced.step (h : s.Balanced) (he : ∀ g, e ≠ .downgrade e.cpu g) :
    ∃ s', s.step e = some s' ∧ s'.Balanced ∧
      ∀ c, (∀ sie, e ≠ .setSie c sie) → (s'.core c).hart.outside = (s.core c).hart.outside := by
  obtain ⟨s', hstep⟩ := h.exists_step e
  obtain ⟨core, hcore, hcs⟩ := step_core hstep
  rw [h.gives_eq_zero] at hcs
  have hreleasing : (s.core e.cpu).Releasing := fun g hg ↦ absurd hg (h.pc_ne e.cpu g)
  have hpc : ∀ g, core.pc ≠ .release g := by
    intro g hg
    cases hcs with
    | same => exact h.pc_ne e.cpu g hg
    | call pc hout hpc =>
      obtain rfl | ⟨l, rfl⟩ := hpc
      all_goals exact absurd hg nofun
    | downgrade g' he' => exact he g' he'
    | give | exchange | setSie => exact absurd (‹(s.core e.cpu).pc = .out›.symm.trans hg) nofun
    | drop | undo | popOff => exact absurd hg nofun
  refine ⟨s', hstep, ⟨?_, ?_⟩, fun c hsie ↦ ?_⟩
  · rw [hcore]
    exact (Function.forall_update_iff s.core fun _ core ↦ core.Owes 0).mpr
      ⟨hcs.owes hreleasing (h.owes e.cpu), fun c _ ↦ h.owes c⟩
  · rw [hcore]
    exact (Function.forall_update_iff s.core fun _ core ↦ ∀ g, core.pc ≠ .release g).mpr
      ⟨hpc, fun c _ ↦ h.pc_ne c⟩
  · rw [hcore]
    by_cases hc : c = e.cpu
    · subst hc
      rw [Function.update_self]
      exact coreStep_outside hcs (h.owes e.cpu) hsie
    · rw [Function.update_of_ne hc]

theorem Balanced.run (h : s.Balanced) (hno : ∀ c g, RwEvent.downgrade c g ∉ events) :
    ∃ s', s.run events = some s' ∧ s'.Balanced ∧
      ∀ c, (∀ sie, RwEvent.setSie c sie ∉ events) →
        (s'.core c).hart.outside = (s.core c).hart.outside := by
  induction events generalizing s with
  | nil => exact ⟨s, rfl, h, fun _ _ ↦ rfl⟩
  | cons e events ih =>
    obtain ⟨s₁, hstep, hbalanced, houtside⟩ :=
      h.step fun g he ↦ hno e.cpu g (he ▸ List.mem_cons_self)
    obtain ⟨s', hrun, hbalanced', houtside'⟩ :=
      ih hbalanced fun c g hmem ↦ hno c g (List.mem_cons_of_mem e hmem)
    refine ⟨s', ?_, hbalanced', fun c hsie ↦ ?_⟩
    · rw [RwSys.run, List.foldlM_cons, hstep]
      exact hrun
    · rw [houtside' c fun sie hmem ↦ hsie sie (List.mem_cons_of_mem e hmem),
        houtside c fun sie he ↦ hsie sie (he ▸ List.mem_cons_self)]

end RwSys

end Maturin.KernelSync
