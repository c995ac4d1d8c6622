import Maturin.Sync.RwLock
import Mathlib.Algebra.Order.BigOperators.Group.Finset

/-!
# What the readers-writer lock gives

A writer is alone, and what a reader sees does not change while it has its guard. The word counts
the guards and the readers that go back, so that it is zero when nobody is at the lock. One of the
functions is not up to this: `downgrade_to_upgradeable` forgets the readers that go back.
-/

namespace Maturin.KernelSync

variable {κ ι α : Type} [DecidableEq ι]

/-! ## What an event does to a CPU -/

/-- What an event may do to its CPU, and the pairs that it gives back too many -/
inductive RwCoreStep (e : RwEvent κ ι α) (core : RwCore ι) : ℕ → RwCore ι → Prop
  | same : RwCoreStep e core 0 core
  | call (pc : RwPc ι) (hout : core.pc = .out) (hpc : pc = .leaving ∨ ∃ l, pc = .undo l) :
    RwCoreStep e core 0 { core with hart := core.hart.pushOff, pc }
  | give (g : RwGuard ι) (hout : core.pc = .out) :
    RwCoreStep e core 0 { core with hart := core.hart.pushOff, guards := g :: core.guards }
  | exchange (g g' : RwGuard ι) (hout : core.pc = .out) (hg : g ∈ core.guards) :
    RwCoreStep e core 0 { core with guards := g' :: core.guards.erase g }
  | downgrade (g : RwGuard ι) (he : e = .downgrade e.cpu g) (hout : core.pc = .out)
      (hg : g ∈ core.guards) (hkind : g.kind ≠ .read) :
    RwCoreStep e core 0 { core with pc := .release g }
  | release (g : RwGuard ι) (hpc : core.pc = .release g) :
    RwCoreStep e core 1
      { core with guards := ⟨g.lock, .read⟩ :: core.guards.erase g, pc := .leaving }
  | drop (g : RwGuard ι) (hout : core.pc = .out) (hg : g ∈ core.guards) :
    RwCoreStep e core 0 { core with guards := core.guards.erase g, pc := .leaving }
  | undo (l : ι) (hpc : core.pc = .undo l) : RwCoreStep e core 0 { core with pc := .leaving }
  | popOff (hart : Hart) (hpc : core.pc = .leaving) (hpop : core.hart.popOff = some hart) :
    RwCoreStep e core 0 { core with hart, pc := .out }
  | setSie (sie : Bool) (he : e = .setSie e.cpu sie) (hout : core.pc = .out)
      (hguards : core.guards = []) :
    RwCoreStep e core 0 { core with hart := { core.hart with sie } }

/-- A guard that is downgraded is there until it is dropped. -/
def RwCore.Releasing (core : RwCore ι) : Prop :=
  ∀ g, core.pc = .release g → g ∈ core.guards ∧ g.kind ≠ .read

theorem RwCoreStep.releasing {e : RwEvent κ ι α} {core core' : RwCore ι} {k : ℕ}
    (h : RwCoreStep e core k core')
    (hcore : core.Releasing) : core'.Releasing := by
  intro g hg
  cases h with
  | same => exact hcore g hg
  | call pc hout hpc =>
    obtain rfl | ⟨l, rfl⟩ := hpc
    all_goals exact absurd hg nofun
  | downgrade g' he hout hg' hkind => exact RwPc.release.inj hg ▸ ⟨hg', hkind⟩
  | give | exchange | setSie => exact absurd (‹core.pc = .out›.symm.trans hg) nofun
  | release | drop | undo | popOff => exact absurd hg nofun

namespace RwSys

variable [DecidableEq κ] {s s' : RwSys κ ι α} {e : RwEvent κ ι α}

omit [DecidableEq ι] [DecidableEq κ] in
/-- The pairs that an event gives back too many: the `drop` in `downgrade` makes a `pop_off`, and so
does that of the guard that it returns. -/
def gives (s : RwSys κ ι α) : RwEvent κ ι α → ℕ
  | .access c =>
    match (s.core c).pc with
    | .release _ => 1
    | .out | .undo _ | .leaving => 0
  | _ => 0

/-- An event changes its CPU only. -/
theorem step_core (hstep : s.step e = some s') : ∃ core,
    s'.core = Function.update s.core e.cpu core ∧
      RwCoreStep e (s.core e.cpu) (s.gives e) core := by
  have hsame : s.gives e = 0 → ∃ core, s.core = Function.update s.core e.cpu core ∧
      RwCoreStep e (s.core e.cpu) (s.gives e) core := fun hzero ↦
    ⟨_, (Function.update_eq_self ..).symm, hzero ▸ .same⟩
  cases e with
  | access c =>
    rw [RwSys.step, RwSys.access] at hstep
    rw [gives] at hsame ⊢
    cases hpc : (s.core c).pc <;> rw [hpc] at hstep hsame
    case out => exact Option.some.inj hstep ▸ hsame rfl
    case undo l => exact Option.some.inj hstep ▸ ⟨_, rfl, .undo l hpc⟩
    case release g => exact Option.some.inj hstep ▸ ⟨_, rfl, .release g hpc⟩
    case leaving =>
      obtain ⟨hart, hpop, rfl⟩ := Option.map_eq_some_iff.mp hstep
      exact ⟨_, rfl, .popOff hart hpc hpop⟩
  | tryRead c l =>
    obtain rfl := Option.some.inj hstep
    split_ifs with hout
    · exact ⟨_, rfl, .call _ hout (.inr ⟨l, rfl⟩)⟩
    · exact ⟨_, rfl, .give _ hout⟩
    · exact hsame rfl
  | tryWrite c l strong weak | tryUpgradeableRead c l =>
    obtain rfl := Option.some.inj hstep
    split_ifs with hout
    all_goals first
      | exact hsame rfl
      | exact ⟨_, rfl, .call _ hout (.inl rfl)⟩
      | exact ⟨_, rfl, .give _ hout⟩
  | tryUpgrade c l strong weak =>
    obtain rfl := Option.some.inj hstep
    split_ifs with hat
    · exact ⟨_, rfl, .exchange _ _ hat.1 hat.2.1⟩
    · exact hsame rfl
  | downgrade c g =>
    obtain rfl := Option.some.inj hstep
    split_ifs with hat
    · exact ⟨_, rfl, .downgrade g rfl hat.1 hat.2.1 hat.2.2⟩
    · exact hsame rfl
  | downgradeToUpgradeable c l =>
    obtain rfl := Option.some.inj hstep
    split_ifs with hat
    · exact ⟨_, rfl, .exchange _ _ hat.1 hat.2⟩
    · exact hsame rfl
  | update c l f =>
    obtain rfl := Option.some.inj hstep
    split_ifs <;> exact hsame rfl
  | drop c g =>
    obtain rfl := Option.some.inj hstep
    split_ifs with hat
    · exact ⟨_, rfl, .drop g hat.1 hat.2⟩
    · exact hsame rfl
  | setSie c sie =>
    obtain rfl := Option.some.inj hstep
    split_ifs with hat
    · exact ⟨_, rfl, .setSie sie rfl hat.1 hat.2⟩
    · exact hsame rfl

theorem releasing_step (h : ∀ c, (s.core c).Releasing) (hstep : s.step e = some s') :
    ∀ c, (s'.core c).Releasing := by
  obtain ⟨core, hcore, hcs⟩ := step_core hstep
  rw [hcore]
  exact (Function.forall_update_iff s.core fun _ core ↦ core.Releasing).mpr
    ⟨hcs.releasing (h e.cpu), fun c _ ↦ h c⟩

end RwSys

/-! ## What the word counts -/

/-- What a CPU adds to the word of a lock: its guards of each kind, and (`none`) a reader that goes
back or that is to be a guard. -/
def RwCore.share (core : RwCore ι) (l : ι) : Option RwKind → ℕ
  | some kind => core.guards.count ⟨l, kind⟩
  | none =>
    match core.pc with
    | .undo l' => if l' = l then 1 else 0
    | .release g => if g.lock = l then 1 else 0
    | .out | .leaving => 0

/-- An event that leaves these as they are does nothing to the lock. -/
def RwCore.SameAt (core core' : RwCore ι) (l : ι) : Prop := ∀ x, core'.share l x = core.share l x

namespace RwSys

variable [Fintype κ] {s s' : RwSys κ ι α} {c c' : κ} {l l' : ι} {n word : ℕ} {core core' : RwCore ι}
  {g : RwGuard ι} {kind : RwKind} {x : Option RwKind} {e : RwEvent κ ι α}
  {events : List (RwEvent κ ι α)}

/-- What all CPUs add. -/
def share (s : RwSys κ ι α) (l : ι) (x : Option RwKind) : ℕ := ∑ c, (s.core c).share l x

/-- The word of a lock is right after at most `n` events. -/
def Shared (s : RwSys κ ι α) (l : ι) (n : ℕ) : Prop :=
  Holds (s.rwlock l).lock (s.share l (some .read)) (s.share l none) (s.share l (some .upgradable))
    (s.share l (some .write)) n

theorem shared_new (data : ι → α) (sie : κ → Bool) (l : ι) : (new data sie).Shared l 0 := by
  have hzero : ∀ x, (new data sie : RwSys κ ι α).share l x = 0 := fun x ↦
    Finset.sum_eq_zero fun c _ ↦ by cases x <;> rfl
  rw [Shared, hzero, hzero, hzero, hzero]
  exact ⟨⟨0, Nat.zero_le 1, rfl, fun _ ↦ rfl⟩, Nat.zero_le 1, fun _ ↦ rfl, Nat.le_refl 0⟩

theorem le_share (s : RwSys κ ι α) (c : κ) (l : ι) (x : Option RwKind) :
    (s.core c).share l x ≤ s.share l x :=
  Finset.single_le_sum (f := fun c ↦ (s.core c).share l x) (fun _ _ ↦ Nat.zero_le _)
    (Finset.mem_univ c)

/-- A guard is counted. -/
theorem share_pos (hg : g ∈ (s.core c).guards) : 0 < s.share g.lock (some g.kind) :=
  (List.count_pos_iff.mpr hg).trans_le (le_share s c g.lock (some g.kind))

theorem exists_share (hg : ⟨l, kind⟩ ∈ (s.core c).guards) :
    ∃ k, s.share l (some kind) = k + 1 :=
  Nat.exists_eq_add_one.mpr (share_pos hg)

/-- A failed `try_read` that is still to be undone is counted. -/
theorem exists_share_none (hghost : (s.core c).share l none = 1) :
    ∃ k, s.share l none = k + 1 :=
  Nat.exists_eq_add_one.mpr (hghost.symm.le.trans (le_share s c l none))

/-- A lock at which nothing happens. -/
theorem Shared.frame (h : s.Shared l n) (hlock : (s'.rwlock l).lock = (s.rwlock l).lock)
    (hshare : ∀ x, s'.share l x = s.share l x) : s'.Shared l (n + 1) := by
  rw [Shared, hlock, hshare, hshare, hshare, hshare]
  exact Holds.mono h

variable [DecidableEq κ]

theorem share_setCore (s : RwSys κ ι α) (c : κ) (core : RwCore ι) (l : ι) (x : Option RwKind) :
    (s.setCore c core).share l x + (s.core c).share l x = s.share l x + core.share l x := by
  have hself : (s.setCore c core).core c = core := Function.update_self ..
  have hrest : ∑ c' ∈ Finset.univ.erase c, ((s.setCore c core).core c').share l x =
      ∑ c' ∈ Finset.univ.erase c, (s.core c').share l x := by
    refine Finset.sum_congr rfl fun c' hc' ↦ congrArg (RwCore.share · l x) ?_
    exact Function.update_of_ne (Finset.ne_of_mem_erase hc') ..
  rw [share, share, ← Finset.add_sum_erase _ _ (Finset.mem_univ c), hrest, hself,
    ← Finset.add_sum_erase Finset.univ (fun c ↦ (s.core c).share l x) (Finset.mem_univ c)]
  omega

/-- The lock after an event at it, from what the event does to the share of its CPU. -/
theorem shared_setCore {reads ghosts ups writes : ℕ}
    (hholds : Holds word reads ghosts ups writes n)
    (hreads : reads + (s.core c).share l (some .read) =
      s.share l (some .read) + core.share l (some .read))
    (hghosts : ghosts + (s.core c).share l none = s.share l none + core.share l none)
    (hups : ups + (s.core c).share l (some .upgradable) =
      s.share l (some .upgradable) + core.share l (some .upgradable))
    (hwrites : writes + (s.core c).share l (some .write) =
      s.share l (some .write) + core.share l (some .write)) :
    ((s.setWord l word).setCore c core).Shared l n := by
  have hshare : ∀ {k : ℕ} {x : Option RwKind},
      k + (s.core c).share l x = s.share l x + core.share l x →
        ((s.setWord l word).setCore c core).share l x = k := fun hk ↦
    Nat.add_right_cancel ((share_setCore (s.setWord l word) c core l _).trans hk.symm)
  have hword : (((s.setWord l word).setCore c core).rwlock l).lock = word :=
    congrArg RwLock.lock (Function.update_self l _ s.rwlock)
  rw [Shared, hword, hshare hreads, hshare hghosts, hshare hups, hshare hwrites]
  exact hholds

theorem share_setCore_of_same (hsame : (s.core c).SameAt core l) (x : Option RwKind) :
    (s.setCore c core).share l x = s.share l x := by
  have hshare := share_setCore s c core l x
  rw [hsame x] at hshare
  exact Nat.add_right_cancel hshare

/-- Nothing happens at any lock. -/
theorem shared_still (h : ∀ l, s.Shared l n) (hsame : ∀ l, (s.core c).SameAt core l) :
    ∀ l, (s.setCore c core).Shared l (n + 1) := fun l ↦
  (h l).frame rfl (share_setCore_of_same (hsame l))

/-- Something happens at one lock. -/
theorem shared_at (h : ∀ l, s.Shared l n) (hsame : ∀ l' ≠ l, (s.core c).SameAt core l')
    (hl : ((s.setWord l word).setCore c core).Shared l (n + 1)) :
    ∀ l', ((s.setWord l word).setCore c core).Shared l' (n + 1) := by
  intro l'
  by_cases hl' : l' = l
  · exact hl' ▸ hl
  · refine (h l').frame (congrArg RwLock.lock (Function.update_of_ne hl' ..)) ?_
    exact share_setCore_of_same (s := s.setWord l word) (hsame l' hl')

/-! ## The events -/

/-- No reader goes back when `downgrade_to_upgradeable` stores the word. -/
def Clean (s : RwSys κ ι α) : RwEvent κ ι α → Prop
  | .downgradeToUpgradeable _ l => s.share l none = 0
  | _ => True

omit [Fintype κ] [DecidableEq κ] in
/-- The guards of a lock after one of them is gone -/
theorem count_erase_add (hg : ⟨l, kind⟩ ∈ core.guards) (kind' : RwKind) :
    (core.guards.erase ⟨l, kind⟩).count ⟨l, kind'⟩ + (if kind = kind' then 1 else 0) =
      core.guards.count ⟨l, kind'⟩ := by
  have hpos := List.count_pos_iff.mpr hg
  rw [List.count_erase]
  by_cases heq : kind = kind'
  · subst heq
    simp only [BEq.rfl, if_true]
    omega
  · simp [heq]

theorem shared_drop (h : s.Shared l n) (hn : n + 1 < 2 ^ 62) (hg : ⟨l, kind⟩ ∈ (s.core c).guards)
    (hguards : core.guards = (s.core c).guards.erase ⟨l, kind⟩)
    (hnone : core.share l none = (s.core c).share l none) :
    ((s.setWord l (kind.released (s.word l))).setCore c core).Shared l (n + 1) := by
  obtain ⟨k, hk⟩ := exists_share hg
  have hcount : ∀ kind', core.share l (some kind') + (if kind = kind' then 1 else 0) =
      (s.core c).share l (some kind') := fun kind' ↦ by
    rw [RwCore.share, hguards]
    exact count_erase_add hg kind'
  have hread := hcount .read
  have hups := hcount .upgradable
  have hwrite := hcount .write
  rw [Shared] at h
  cases kind <;> rw [hk] at h <;> simp only [reduceCtorEq, if_true, if_false] at hread hups hwrite
  case read => exact shared_setCore (h.dropRead hn) (by omega) (by omega) (by omega) (by omega)
  case upgradable =>
    exact shared_setCore (h.dropUpgradable hn) (by omega) (by omega) (by omega) (by omega)
  case write => exact shared_setCore (h.dropWrite hn) (by omega) (by omega) (by omega) (by omega)

/-- The guard of a reader is counted before the one that is downgraded is gone. -/
theorem shared_release (h : s.Shared l n) (hn : n + 1 < 2 ^ 62) (hkind : kind ≠ .read)
    (hpc : (s.core c).pc = .release ⟨l, kind⟩) (hg : ⟨l, kind⟩ ∈ (s.core c).guards)
    (hguards : core.guards = ⟨l, .read⟩ :: (s.core c).guards.erase ⟨l, kind⟩)
    (hnone : core.share l none = 0) :
    ((s.setWord l (kind.released (s.word l))).setCore c core).Shared l (n + 1) := by
  have hghost : (s.core c).share l none = 1 := by
    rw [RwCore.share, hpc]
    exact if_pos rfl
  obtain ⟨k, hk⟩ := exists_share hg
  obtain ⟨m, hm⟩ := exists_share_none hghost
  have hone : s.share l (some .write) + s.share l (some .upgradable) ≤ 1 := h.one_le
  have hcount : ∀ kind', core.share l (some kind') + (if kind = kind' then 1 else 0) =
      (s.core c).share l (some kind') + (if kind' = .read then 1 else 0) := fun kind' ↦ by
    have herase := count_erase_add hg kind'
    rw [RwCore.share, hguards, List.count_cons]
    rw [RwCore.share, ← herase]
    cases kind' <;> simp
    all_goals omega
  have hread := hcount .read
  have hups := hcount .upgradable
  have hwrite := hcount .write
  rw [Shared, hm] at h
  cases kind <;> simp only [reduceCtorEq, if_true, if_false] at hread hups hwrite
  case read => exact absurd rfl hkind
  case upgradable =>
    rw [hk] at h
    have hzero : s.share l (some .write) = 0 := by omega
    have hafter := h.dropUpgradable hn
    rw [hzero] at hafter
    exact shared_setCore hafter.settle (by omega) (by omega) (by omega) (by omega)
  case write =>
    obtain rfl : k = 0 := by omega
    rw [hk] at h
    exact shared_setCore (h.dropWrite hn).settle (by omega) (by omega) (by omega) (by omega)

theorem shared_access (h : ∀ l, s.Shared l n) (hreleasing : ∀ c, (s.core c).Releasing)
    (hn : n + 1 < 2 ^ 62) (hstep : s.access c = some s') : ∀ l, s'.Shared l (n + 1) := by
  rw [RwSys.access] at hstep
  cases hpc : (s.core c).pc <;> rw [hpc] at hstep
  case out => exact Option.some.inj hstep ▸ fun l ↦ (h l).frame rfl fun _ ↦ rfl
  case leaving =>
    obtain ⟨hart, -, rfl⟩ := Option.map_eq_some_iff.mp hstep
    refine shared_still h fun l x ↦ ?_
    cases x <;> simp [RwCore.share, hpc]
  case undo l =>
    obtain rfl := Option.some.inj hstep
    refine shared_at h (fun l' hl' x ↦ ?_) ?_
    · cases x <;> simp [RwCore.share, hpc, hl'.symm]
    · have hghost : (s.core c).share l none = 1 := by
        rw [RwCore.share, hpc]
        exact if_pos rfl
      obtain ⟨m, hm⟩ := exists_share_none hghost
      have hl := h l
      rw [Shared, hm] at hl
      refine shared_setCore (hl.undo hn) ?_ ?_ ?_ ?_ <;> simp [RwCore.share, hpc, hm]
  case release g =>
    obtain rfl := Option.some.inj hstep
    obtain ⟨hg, hkind⟩ := hreleasing c g hpc
    refine shared_at h (fun l' hl' x ↦ ?_) ?_
    · obtain ⟨l, kind⟩ := g
      cases x <;> simp [RwCore.share, hpc, List.count_erase, Ne.symm hl']
    · exact shared_release (h g.lock) hn hkind hpc hg rfl rfl

theorem shared_step (h : ∀ l, s.Shared l n) (hreleasing : ∀ c, (s.core c).Releasing)
    (hn : n + 1 < 2 ^ 62) (hclean : s.Clean e) (hstep : s.step e = some s') :
    ∀ l, s'.Shared l (n + 1) := by
  have hstay : ∀ l, s.Shared l (n + 1) := fun l ↦ (h l).frame rfl fun _ ↦ rfl
  cases e with
  | access c => exact shared_access h hreleasing hn hstep
  | tryRead c l =>
    obtain rfl := Option.some.inj hstep
    split_ifs with hpc htaken
    · refine shared_at h (fun l' hl' x ↦ ?_) (shared_setCore ((h l).count hn) ?_ ?_ ?_ ?_)
      · cases x <;> simp [RwCore.share, hpc, hl'.symm]
      all_goals simp [RwCore.share, hpc]
    · refine shared_at h (fun l' hl' x ↦ ?_)
        (shared_setCore ((h l).read hn (Bool.eq_false_iff.mpr htaken)) ?_ ?_ ?_ ?_)
      · cases x <;> simp [RwCore.share, hpc, hl'.symm]
      all_goals simp [RwCore.share, hpc] <;> omega
    · exact hstay
  | tryWrite c l strong weak =>
    obtain rfl := Option.some.inj hstep
    split_ifs with hpc hzero
    · have hl := h l
      rw [Shared, show (s.rwlock l).lock = 0 from hzero.1] at hl
      refine shared_at h (fun l' hl' x ↦ ?_) (shared_setCore hl.write ?_ ?_ ?_ ?_)
      · cases x <;> simp [RwCore.share, hpc, hl'.symm]
      all_goals simp [RwCore.share, hpc] <;> omega
    · refine shared_still h fun l x ↦ ?_
      cases x <;> simp [RwCore.share, hpc]
    · exact hstay
  | tryUpgradeableRead c l =>
    obtain rfl := Option.some.inj hstep
    split_ifs with hpc htaken
    · refine shared_at h (fun l' hl' x ↦ ?_)
        (shared_setCore ((h l).setUpgraded htaken) ?_ ?_ ?_ ?_)
      · cases x <;> simp [RwCore.share, hpc]
      all_goals simp [RwCore.share, hpc]
    · refine shared_at h (fun l' hl' x ↦ ?_)
        (shared_setCore ((h l).upgradeable (Bool.eq_false_iff.mpr htaken)) ?_ ?_ ?_ ?_)
      · cases x <;> simp [RwCore.share, hpc, hl'.symm]
      all_goals simp [RwCore.share, hpc] <;> omega
    · exact hstay
  | tryUpgrade c l strong weak =>
    obtain rfl := Option.some.inj hstep
    split_ifs with hat
    · obtain ⟨hpc, hg, hword, -⟩ := hat
      have herase := count_erase_add hg
      have hread := herase .read
      have hups := herase .upgradable
      have hwrite := herase .write
      obtain ⟨k, hk⟩ := exists_share hg
      have hl := h l
      rw [Shared, hk, show (s.rwlock l).lock = UPGRADED from hword] at hl
      refine shared_at h (fun l' hl' x ↦ ?_) (shared_setCore hl.upgrade ?_ ?_ ?_ ?_)
      · cases x <;> simp [RwCore.share, hpc, List.count_erase, hl'.symm]
      all_goals simp [RwCore.share, hpc] at hread hups hwrite ⊢ <;> omega
    · exact hstay
  | downgrade c g =>
    obtain rfl := Option.some.inj hstep
    split_ifs with hat
    · obtain ⟨hpc, hg, hkind⟩ := hat
      refine shared_at h (fun l' hl' x ↦ ?_)
        (shared_setCore ((h g.lock).count hn) ?_ ?_ ?_ ?_)
      · cases x <;> simp [RwCore.share, hpc, hl'.symm]
      all_goals simp [RwCore.share, hpc]
    · exact hstay
  | downgradeToUpgradeable c l =>
    obtain rfl := Option.some.inj hstep
    split_ifs with hat
    · obtain ⟨hpc, hg⟩ := hat
      have herase := count_erase_add hg
      have hread := herase .read
      have hups := herase .upgradable
      have hwrite := herase .write
      obtain ⟨k, hk⟩ := exists_share hg
      have hnone : s.share l none = 0 := hclean
      have hl := h l
      rw [Shared, hk, hnone] at hl
      refine shared_at h (fun l' hl' x ↦ ?_) (shared_setCore hl.downgrade ?_ ?_ ?_ ?_)
      · cases x <;> simp [RwCore.share, hpc, List.count_erase, hl'.symm]
      all_goals simp [RwCore.share, hpc] at hread hups hwrite ⊢ <;> omega
    · exact hstay
  | update c l f =>
    obtain rfl := Option.some.inj hstep
    split_ifs
    · refine fun l' ↦ (h l').frame ?_ fun _ ↦ rfl
      dsimp only
      by_cases hl' : l' = l
      · rw [hl', Function.update_self]
      · rw [Function.update_of_ne hl']
    · exact hstay
  | drop c g =>
    obtain rfl := Option.some.inj hstep
    split_ifs with hat
    · obtain ⟨hpc, hg⟩ := hat
      refine shared_at h (fun l' hl' x ↦ ?_) (shared_drop (h g.lock) hn hg rfl ?_)
      · obtain ⟨l, kind⟩ := g
        cases x <;> simp [RwCore.share, hpc, List.count_erase, Ne.symm hl']
      · simp [RwCore.share, hpc]
    · exact hstay
  | setSie c sie =>
    obtain rfl := Option.some.inj hstep
    split_ifs with hat
    · refine shared_still h fun l x ↦ ?_
      cases x <;> simp [RwCore.share]
    · exact hstay

/-- What holds after at most `n` events. -/
structure Inv (s : RwSys κ ι α) (n : ℕ) : Prop where
  shared : ∀ l, s.Shared l n
  releasing : ∀ c, (s.core c).Releasing

theorem Inv.step (h : s.Inv n) (hn : n + 1 < 2 ^ 62) (hclean : s.Clean e)
    (hstep : s.step e = some s') : s'.Inv (n + 1) :=
  ⟨shared_step h.shared h.releasing hn hclean hstep, releasing_step h.releasing hstep⟩

/-- Every event of a run is clean. -/
def CleanRun (s : RwSys κ ι α) : List (RwEvent κ ι α) → Prop
  | [] => True
  | e :: events => s.Clean e ∧ ∀ s', s.step e = some s' → CleanRun s' events

/-- A run without `downgrade_to_upgradeable` -/
theorem cleanRun_of_forall (h : ∀ c l, RwEvent.downgradeToUpgradeable c l ∉ events) :
    s.CleanRun events := by
  induction events generalizing s with
  | nil => trivial
  | cons e events ih =>
    refine ⟨?_, fun s₁ _ ↦ ih fun c l hmem ↦ h c l (List.mem_cons_of_mem e hmem)⟩
    cases e with
    | downgradeToUpgradeable c l => exact absurd List.mem_cons_self (h c l)
    | access | update | tryRead | tryWrite | tryUpgradeableRead | tryUpgrade | downgrade | drop
    | setSie => trivial

/-- A reader, one that may be upgraded and is, and a reader that goes back -/
def sharing : List (RwEvent Bool Unit ℕ) :=
  [.tryRead false (), .tryUpgradeableRead true (), .drop false ⟨(), .read⟩, .access false,
    .tryUpgrade true () true false, .update true () (· + 5), .tryRead false (), .access false,
    .access false, .drop true ⟨(), .write⟩, .access true]

theorem Inv.run (h : s.Inv n) (hlen : n + events.length < 2 ^ 62) (hclean : s.CleanRun events)
    (hrun : s.run events = some s') : s'.Inv (n + events.length) := by
  induction events generalizing s n with
  | nil => exact Option.some.inj hrun ▸ h
  | cons e events ih =>
    rw [List.length_cons] at hlen ⊢
    rw [RwSys.run, List.foldlM_cons] at hrun
    obtain ⟨s₁, hstep, hrest⟩ := Option.bind_eq_some_iff.mp hrun
    rw [Nat.add_comm events.length, ← Nat.add_assoc] at hlen ⊢
    exact ih (h.step (by omega) hclean.1 hstep) hlen (hclean.2 s₁ hstep) hrest

theorem inv_of_run {data : ι → α} {sie : κ → Bool} (hlen : events.length < 2 ^ 62)
    (hclean : (new data sie).CleanRun events) (hrun : (new data sie).run events = some s) :
    s.Inv events.length := by
  have hnew : (new data sie : RwSys κ ι α).Inv 0 :=
    ⟨shared_new data sie, fun _ _ hg ↦ absurd hg nofun⟩
  have h := hnew.run (by omega) hclean hrun
  rwa [Nat.zero_add] at h

/-! ## Who is at a lock -/

variable {g' : RwGuard ι}

omit [DecidableEq κ] in
/-- Two CPUs count twice. -/
theorem share_add_le (hc : c ≠ c') (l : ι) (x : Option RwKind) :
    (s.core c).share l x + (s.core c').share l x ≤ s.share l x := by
  classical
  rw [share, ← Finset.add_sum_erase _ _ (Finset.mem_univ c)]
  exact Nat.add_le_add_left (Finset.single_le_sum (f := fun c ↦ (s.core c).share l x)
    (fun _ _ ↦ Nat.zero_le _) (Finset.mem_erase.mpr ⟨hc.symm, Finset.mem_univ c'⟩)) _

omit [DecidableEq κ] in
theorem eq_of_share_le_one (h : s.share l (some kind) ≤ 1) (hg : ⟨l, kind⟩ ∈ (s.core c).guards)
    (hg' : ⟨l, kind⟩ ∈ (s.core c').guards) : c = c' := by
  by_contra hc
  have hadd := share_add_le (s := s) hc l (some kind)
  have hpos : 0 < (s.core c).share l (some kind) := List.count_pos_iff.mpr hg
  have hpos' : 0 < (s.core c').share l (some kind) := List.count_pos_iff.mpr hg'
  omega

/-- **A writer is alone.** In every run in which `downgrade_to_upgradeable` never meets a reader
that goes back, nobody has a guard of a lock beside a write guard, and there is one guard at most
that may be upgraded. -/
theorem writer_alone (data : ι → α) (sie : κ → Bool) (events : List (RwEvent κ ι α))
    (hlen : events.length < 2 ^ 62) (hclean : (new data sie).CleanRun events)
    (hrun : (new data sie).run events = some s) :
    (∀ c c' g g', g ∈ (s.core c).guards → g' ∈ (s.core c').guards → g.lock = g'.lock →
      g.kind = .write ∨ (g.kind = .upgradable ∧ g'.kind ≠ .read) → c = c' ∧ g = g') ∧
    ∀ c g, g.kind ≠ .read → (s.core c).guards.count g ≤ 1 := by
  have hinv := inv_of_run hlen hclean hrun
  constructor
  · rintro c c' ⟨l, kind⟩ ⟨l', kind'⟩ hg hg' hl hkind
    obtain rfl : l = l' := hl
    have hone := (hinv.shared l).one_le
    have halone := (hinv.shared l).alone
    have hpos : 0 < s.share l (some kind) := share_pos hg
    have hpos' : 0 < s.share l (some kind') := share_pos hg'
    have hsame : kind = kind' := by
      cases kind <;> cases kind' <;> simp at hkind ⊢ <;> omega
    subst hsame
    refine ⟨eq_of_share_le_one (l := l) ?_ hg hg', rfl⟩
    cases kind <;> simp at hkind <;> omega
  · rintro c ⟨l, kind⟩ hkind
    have hone := (hinv.shared l).one_le
    have hle : (s.core c).guards.count ⟨l, kind⟩ ≤ s.share l (some kind) :=
      le_share s c l (some kind)
    cases kind
    case read => exact absurd rfl hkind
    case upgradable | write => omega

theorem writer_alone_sharing : ∃ s,
    (new (fun _ ↦ 0) fun _ ↦ true).run (sharing.take 6) = some s ∧
      (∀ c c' g g', g ∈ (s.core c).guards → g' ∈ (s.core c').guards → g.lock = g'.lock →
        g.kind = .write ∨ (g.kind = .upgradable ∧ g'.kind ≠ .read) → c = c' ∧ g = g') ∧
      ∀ c g, g.kind ≠ .read → (s.core c).guards.count g ≤ 1 :=
  ⟨_, rfl, writer_alone (fun _ ↦ 0) (fun _ ↦ true) (sharing.take 6) (by decide)
    (cleanRun_of_forall (by simp [sharing])) rfl⟩

/-! ## What the word is good for -/

/-- **The assertions hold.** Whatever the others do, what the `drop` of a guard asserts of the word
in a debug build holds as long as there is the guard. -/
theorem drop_asserts (data : ι → α) (sie : κ → Bool) (events : List (RwEvent κ ι α))
    (hlen : events.length < 2 ^ 62) (hclean : (new data sie).CleanRun events)
    (hrun : (new data sie).run events = some s) :
    ∀ c, ∀ g ∈ (s.core c).guards, g.kind.Asserted (s.word g.lock) := by
  rintro c ⟨l, kind⟩ hg
  have hshared := (inv_of_run hlen hclean hrun).shared l
  have hpos : 0 < s.share l (some kind) := share_pos hg
  cases kind with
  | read => exact hshared.asserted_read hlen hpos
  | upgradable => exact hshared.asserted_upgradable hpos
  | write => exact hshared.asserted_write hpos

theorem drop_asserts_sharing : ∃ s,
    (new (fun _ ↦ 0) fun _ ↦ true).run (sharing.take 7) = some s ∧
      ∀ c, ∀ g ∈ (s.core c).guards, g.kind.Asserted (s.word g.lock) :=
  ⟨_, rfl, drop_asserts (fun _ ↦ 0) (fun _ ↦ true) (sharing.take 7) (by decide)
    (cleanRun_of_forall (by simp [sharing])) rfl⟩

/-- **Nothing is left behind.** A lock of which there is no guard and at which no reader goes back
is as new: each kind of guard is given at the first try. -/
theorem quiet_lock (data : ι → α) (sie : κ → Bool) (events : List (RwEvent κ ι α))
    (hlen : events.length < 2 ^ 62) (hclean : (new data sie).CleanRun events)
    (hrun : (new data sie).run events = some s) (l : ι) (hquiet : ∀ c x, (s.core c).share l x = 0)
    (c : κ) (hout : (s.core c).pc = .out) :
    s.word l = 0 ∧ ∀ kind, ∃ s', s.step (match kind with
        | .read => .tryRead c l
        | .upgradable => .tryUpgradeableRead c l
        | .write => .tryWrite c l true true) = some s' ∧
      (s'.core c).guards = ⟨l, kind⟩ :: (s.core c).guards ∧ (s'.core c).pc = .out := by
  have hzero : s.word l = 0 := by
    have hshared := (inv_of_run hlen hclean hrun).shared l
    have hshare : ∀ x, s.share l x = 0 := fun x ↦ Finset.sum_eq_zero fun c _ ↦ hquiet c x
    rw [Shared, hshare, hshare, hshare, hshare] at hshared
    exact hshared.eq_zero
  refine ⟨hzero, fun kind ↦ ?_⟩
  cases kind <;> refine ⟨_, rfl, ?_⟩ <;> simp [RwSys.setCore, hout, hzero, taken]

theorem quiet_lock_sharing : ∃ s, (new (fun _ ↦ 0) fun _ ↦ true).run sharing = some s ∧
    s.word () = 0 ∧ ∀ kind, ∃ s', s.step (match kind with
        | .read => .tryRead false ()
        | .upgradable => .tryUpgradeableRead false ()
        | .write => .tryWrite false () true true) = some s' ∧
      (s'.core false).guards = ⟨(), kind⟩ :: (s.core false).guards ∧ (s'.core false).pc = .out := by
  refine ⟨_, rfl, quiet_lock (fun _ ↦ 0) (fun _ ↦ true) sharing (by decide)
    (cleanRun_of_forall (by simp [sharing])) rfl () ?_ false rfl⟩
  rintro (_ | _) (_ | _ | _ | _) <;> rfl

/-! ## What a reader sees -/

theorem cleanRun_left {before : List (RwEvent κ ι α)} (h : s.CleanRun (before ++ events)) :
    s.CleanRun before := by
  induction before generalizing s with
  | nil => trivial
  | cons e before ih => exact ⟨h.1, fun s₁ hstep ↦ ih (h.2 s₁ hstep)⟩

theorem cleanRun_right {before : List (RwEvent κ ι α)} (h : s.CleanRun (before ++ events))
    (hrun : s.run before = some s') : s'.CleanRun events := by
  induction before generalizing s with
  | nil => exact Option.some.inj hrun ▸ h
  | cons e before ih =>
    rw [RwSys.run, List.foldlM_cons] at hrun
    obtain ⟨s₁, hstep, hrest⟩ := Option.bind_eq_some_iff.mp hrun
    exact ih (h.2 s₁ hstep) hrest

omit [Fintype κ] in
/-- Only a writer changes what a lock protects. -/
theorem step_data (hstep : s.step e = some s') :
    (s'.rwlock l).data = (s.rwlock l).data ∨ ⟨l, .write⟩ ∈ (s.core e.cpu).guards := by
  have hword : ∀ (l' : ι) (word : ℕ), ((s.setWord l' word).rwlock l).data = (s.rwlock l).data :=
    fun l' word ↦ by
      rw [setWord]
      dsimp only
      by_cases hl : l = l'
      · rw [hl, Function.update_self]
      · rw [Function.update_of_ne hl]
  cases e with
  | update c l' f =>
    obtain rfl := Option.some.inj hstep
    split_ifs with hat
    · by_cases hl : l = l'
      · exact .inr (hl ▸ hat.2)
      · exact .inl (congrArg RwLock.data (Function.update_of_ne hl ..))
    · exact .inl rfl
  | access c =>
    refine .inl ?_
    rw [RwSys.step, RwSys.access] at hstep
    cases hpc : (s.core c).pc <;> rw [hpc] at hstep
    case out => rw [Option.some.inj hstep]
    case undo | release =>
      obtain rfl := Option.some.inj hstep
      exact hword _ _
    case leaving =>
      obtain ⟨hart, -, rfl⟩ := Option.map_eq_some_iff.mp hstep
      rfl
  | tryRead | tryWrite | tryUpgradeableRead | tryUpgrade | downgrade | downgradeToUpgradeable
  | drop | setSie =>
    obtain rfl := Option.some.inj hstep
    refine .inl ?_
    split_ifs <;> first | rfl | exact hword _ _

theorem Inv.stable (h : s.Inv n) (hlen : n + events.length < 2 ^ 62) (hclean : s.CleanRun events)
    (hguard : ∀ front s₁, front <+: events → s.run front = some s₁ →
      ∃ g ∈ (s₁.core c).guards, g.lock = l ∧ g.kind ≠ .write)
    (hrun : s.run events = some s') : (s'.rwlock l).data = (s.rwlock l).data := by
  induction events generalizing s n with
  | nil => rw [Option.some.inj hrun]
  | cons e events ih =>
    rw [List.length_cons] at hlen
    rw [RwSys.run, List.foldlM_cons] at hrun
    obtain ⟨s₁, hstep, hrest⟩ := Option.bind_eq_some_iff.mp hrun
    refine (ih (h.step (by omega) hclean.1 hstep) (by omega) (hclean.2 s₁ hstep)
      (fun front s₂ hfront hrun₂ ↦ ?_) hrest).trans ?_
    · refine hguard (e :: front) s₂ (List.cons_prefix_cons.mpr ⟨rfl, hfront⟩) ?_
      rw [RwSys.run, List.foldlM_cons, hstep]
      exact hrun₂
    · refine (step_data hstep).resolve_right fun hwrite ↦ ?_
      obtain ⟨⟨l', kind⟩, hg, rfl, hkind⟩ := hguard [] s List.nil_prefix rfl
      have hone := (h.shared l').one_le
      have halone := (h.shared l').alone
      have hpos : 0 < s.share l' (some .write) := share_pos hwrite
      have hpos' : 0 < s.share l' (some kind) := share_pos hg
      cases kind
      case write => exact hkind rfl
      all_goals omega

/-- One CPU downgrades its write guard while a reader goes back, another one becomes a reader while
the count is off by one, and the next one a writer. -/
example : ((new (fun _ ↦ 0) fun _ ↦ true : RwSys (Option Bool) Unit ℕ).run
    [.tryWrite none () true false, .tryRead (some false) (), .downgradeToUpgradeable none (),
      .access (some false), .access (some false), .drop none ⟨(), .upgradable⟩,
      .tryRead (some false) (), .tryWrite (some true) () true false]).map
        (fun s ↦ ((s.core (some false)).guards, (s.core (some true)).guards)) =
    some ([⟨(), .read⟩], [⟨(), .write⟩]) := by
  decide

end RwSys

end Maturin.KernelSync
