import Maturin.Signal.Slot

/-!
# `SIGKILL`

`sys_sigaction` refuses to install an action for `SIGKILL`, so what this signal does is always to
end the task. But it is masked and taken like every other signal: a trap does not see it while it
is masked, and drops it while the slot of the interrupted context is full.

A `SIGKILL` that was sent stays pending up to the first trap that has no signal of a lower number to
take. What that trap does is decided by the mask and the slot at that moment.
-/

open Exec

namespace Maturin

attribute [local irreducible] wsub

/-! ## What a trap takes -/

namespace Bitset

variable {s mask : Bitset} {k : ℕ}

/-- The bit that is found is not above any bit that the mask does not have. -/
theorem exists_findFirstOne_le (hk : k < 64) (hbit : s.containBit k = true)
    (hmask : mask.containBit k = false) : ∃ pos ≤ k, s.findFirstOne mask = some pos := by
  have hget : (s &&& ~~~mask).getLsbD k = true := by
    rw [containBit, Nat.mod_eq_of_lt hk] at hbit hmask
    rw [BitVec.getLsbD_and, BitVec.getLsbD_not, hbit, hmask, decide_eq_true hk]
    rfl
  have hsome : (s.findFirstOne mask).isSome := by
    rw [findFirstOne, List.find?_isSome]
    exact ⟨k, List.mem_range.mpr hk, hget⟩
  obtain ⟨pos, hpos⟩ := Option.isSome_iff_exists.mp hsome
  refine ⟨pos, not_lt.mp fun hlt ↦ ?_, hpos⟩
  have hfirst := (List.find?_range_eq_some.mp hpos).2.2 k hlt
  rw [hget] at hfirst
  exact absurd hfirst (by decide)

end Bitset

namespace SignalReceivers

/-- Does the mask have the signal? -/
def Masked (self : SignalReceivers) (signum : ℕ) : Prop :=
  self.mask.containBit (signum - 1) = true

/-- A signal with a lower number is pending and not masked. -/
def LowerPending (self : SignalReceivers) (signum : ℕ) : Prop :=
  ∃ k < signum, 1 ≤ k ∧ self.Pending k ∧ ¬ self.Masked k

instance {self : SignalReceivers} {signum : ℕ} : Decidable (self.Masked signum) :=
  inferInstanceAs (Decidable (_ = true))

instance {self : SignalReceivers} {signum : ℕ} : Decidable (self.LowerPending signum) :=
  inferInstanceAs (Decidable (∃ k < signum, 1 ≤ k ∧ self.Pending k ∧ ¬ self.Masked k))

variable {self receivers : SignalReceivers} {signum k : ℕ}

theorem not_masked_of_getOneSignal (h : self.getOneSignal = some (signum, receivers)) :
    ¬ self.Masked signum := by
  obtain ⟨pos, hpos, heq⟩ := Option.map_eq_some_iff.mp h
  obtain ⟨-, -, hmask⟩ := Bitset.findFirstOne_eq_some hpos
  rw [← (Prod.mk.inj heq).1, Masked, Nat.add_sub_cancel, hmask]
  decide

/-- A trap takes no signal above one that is pending and not masked. -/
theorem exists_getOneSignal_le (hk : SignalTask.IsSignal k) (hpending : self.Pending k)
    (hmask : ¬ self.Masked k) :
    ∃ signum ≤ k, ∃ receivers, self.getOneSignal = some (signum, receivers) := by
  have hpos := hk.1
  have hlt := hk.2
  rw [Masked, Bool.not_eq_true] at hmask
  obtain ⟨pos, hle, hfirst⟩ := Bitset.exists_findFirstOne_le (by omega) hpending hmask
  refine ⟨pos + 1, by omega, { self with sigReceived := self.sigReceived.removeBit pos }, ?_⟩
  rw [getOneSignal, hfirst, Option.map_some]

/-- Where no lower signal is to be taken, a signal that is not masked is the one that is taken. -/
theorem exists_getOneSignal_eq (hk : SignalTask.IsSignal k) (hpending : self.Pending k)
    (hmask : ¬ self.Masked k) (hlower : ¬ self.LowerPending k) :
    ∃ receivers, self.getOneSignal = some (k, receivers) := by
  obtain ⟨signum, hle, receivers, hget⟩ := exists_getOneSignal_le hk hpending hmask
  rcases hle.lt_or_eq with hlt | rfl
  · obtain ⟨hs, hpending', -⟩ := SignalTask.getOneSignal_eq_some hget
    exact absurd ⟨signum, hlt, hs.1, hpending', not_masked_of_getOneSignal hget⟩ hlower
  · exact ⟨receivers, hget⟩

/-- While a lower signal is to be taken, a trap leaves the signal pending. -/
theorem pending_of_lowerPending (hk : SignalTask.IsSignal k) (hpending : self.Pending k)
    (hlower : self.LowerPending k) (hget : self.getOneSignal = some (signum, receivers)) :
    receivers.Pending k := by
  obtain ⟨j, hjk, hj, hjpending, hjmask⟩ := hlower
  have hklt := hk.2
  obtain ⟨signum', hle, receivers', hget'⟩ :=
    exists_getOneSignal_le ⟨hj, by omega⟩ hjpending hjmask
  obtain ⟨rfl, rfl⟩ := Prod.mk.inj (Option.some.inj (hget.symm.trans hget'))
  obtain ⟨-, -, -, hothers⟩ := SignalTask.getOneSignal_eq_some hget
  exact (hothers k hk hpending).resolve_left (by omega)

end SignalReceivers

namespace SignalTask

variable {s s' t : SignalTask} {signum : ℕ}

/-! ## Which signals end a task -/

/-- The task ends if a trap takes the signal. -/
def Ends (s : SignalTask) (signum : ℕ) : Prop :=
  if s.trapCxBeforeSignal = none then s.handlers.disposition signum = .terminate
  else SignalNo.ofUsize signum = SignalNo.SIGSEGV ∨ SignalNo.ofUsize signum = SignalNo.SIGBUS

/-- Acting on a signal ends the task exactly if that is its disposition. -/
theorem Acts.exited_iff {d : Disposition} (h : Acts signum s s' d) :
    s'.exited.isSome ↔ d = .terminate := by
  match d, h with
  | .handler action, h => exact iff_of_false (by rw [h.2.2.2]; simp) (by simp)
  | .ignore, h => exact iff_of_false (by rw [h.2.2]; simp) (by simp)
  | .terminate, h => exact iff_of_true h rfl

theorem wp_handleSignal_exited (hs : IsSignal signum) (hexit : s.exited = none) :
    wp (handleSignal signum) (fun _ s' ↦ s'.exited.isSome ↔ s.Ends signum) noPanic s := by
  rw [Ends]
  split_ifs with hslot
  · refine wp_imp (wp_handleSignal_of_none hslot hs hexit) fun _ s' hs' ↦ ?_
    exact hs'.2.exited_iff
  · obtain ⟨cx, hcx⟩ := Option.ne_none_iff_exists'.mp hslot
    rw [wp_iff_of_run (run_handleSignal_of_some hcx)]
    split_ifs with hfault
    · rw [exitCurrentTask, wp_modify]
      exact iff_of_true rfl hfault
    · rw [wp_pure, hexit]
      exact iff_of_false (by simp) hfault

/-- A trap ends the task exactly if it takes a signal that ends it. -/
theorem wp_handleSignals_exited (hexit : s.exited = none) :
    wp handleSignals (fun _ s' ↦ s'.exited.isSome ↔ ∃ signum receivers,
      s.receivers.getOneSignal = some (signum, receivers) ∧ s.Ends signum) noPanic s := by
  cases hget : s.receivers.getOneSignal with
  | none =>
    rw [wp, run_handleSignals_of_none hget]
    dsimp only
    rw [hexit]
    refine iff_of_false (by simp) ?_
    rintro ⟨signum, receivers, hsome, -⟩
    exact absurd hsome (by simp)
  | some taken =>
    obtain ⟨signum, receivers⟩ := taken
    obtain ⟨hs, -⟩ := getOneSignal_eq_some hget
    rw [wp_iff_of_run (run_handleSignals_of_some hget)]
    refine wp_imp (wp_handleSignal_exited (s := { s with receivers }) hs hexit) fun _ s' hs' ↦ ?_
    rw [hs']
    constructor
    · exact fun hends ↦ ⟨signum, receivers, rfl, hends⟩
    · rintro ⟨signum', receivers', hsome, hends⟩
      obtain ⟨rfl, -⟩ := Prod.mk.inj (Option.some.inj hsome)
      exact hends

/-! ## The action of `SIGKILL` -/

theorem isSignal_SIGKILL : IsSignal SignalNo.SIGKILL.val := ⟨by decide, by decide⟩

/-- No action is installed for `SIGKILL`. -/
def KillUnhandled (s : SignalTask) : Prop := s.handlers.actions[8] = none

theorem KillUnhandled.disposition (h : s.KillUnhandled) :
    s.handlers.disposition SignalNo.SIGKILL.val = .terminate := by
  have hget : s.handlers.actions[wsub SignalNo.SIGKILL.val 1]? = some none := by
    rw [isSignal_SIGKILL.wsub_eq, ← h]
    exact Vector.getElem?_eq_getElem (by decide)
  rw [SignalHandlers.disposition, SignalHandlers.getActionRef, hget]
  decide

/-- `SIGKILL` ends the task exactly if the slot is empty. -/
theorem KillUnhandled.ends_iff (h : s.KillUnhandled) :
    s.Ends SignalNo.SIGKILL.val ↔ s.trapCxBeforeSignal = none := by
  rw [Ends]
  split_ifs with hslot
  · exact iff_of_true h.disposition hslot
  · exact iff_of_false (by decide) hslot

theorem maintains_enterHandler (action : SigAction) :
    Maintains KillUnhandled (enterHandler signum action) := by
  refine .bind .get fun s₀ ↦ ?_
  dsimp only
  split_ifs
  · exact .bind (.modify fun _ h ↦ h) fun _ ↦ .modify fun _ h ↦ h
  · exact .modify fun _ h ↦ h

theorem maintains_loadTrapCxIfHandlingSignals :
    Maintains KillUnhandled loadTrapCxIfHandlingSignals := by
  intro s hs
  rw [loadTrapCxIfHandlingSignals, wp_bind, wp_get]
  split
  · exact hs
  · exact hs

theorem maintains_handleByAction (action : Option SigAction) :
    Maintains KillUnhandled (handleByAction signum action) := by
  match action with
  | some action =>
    rw [handleByAction]
    split_ifs
    · exact .pure ()
    · exact maintains_enterHandler action
  | none =>
    rw [handleByAction, handleByDefault]
    split
    · exact .modify fun _ h ↦ h
    · exact .bind maintains_loadTrapCxIfHandlingSignals fun _ ↦ .pure ()

theorem maintains_handleSignals : Maintains KillUnhandled handleSignals := by
  intro s hs
  rw [handleSignals, wp_bind, wp_get]
  split
  · rename_i signum receivers _
    have hhandle : Maintains KillUnhandled (handleSignal signum) := by
      refine .bind (fun u hu ↦ ?_) fun saved ↦ ?_
      · rw [saveTrapCxIfNotHandlingSignals, wp_bind, wp_get]
        split_ifs
        · exact hu
        · exact hu
      · split_ifs
        · refine .bind (fun u hu ↦ ?_) fun action ↦ maintains_handleByAction action
          rw [getActionRef, wp_bind, wp_get]
          split
          · exact hu
          · exact hu
        · exact .modify fun _ h ↦ h
        · exact .pure ()
    rw [wp_bind, wp_set]
    exact hhandle _ hs
  · exact hs

end SignalTask

/-- The signal that `sys_sigaction` is called for is a `usize`. -/
def SignalEvent.Usize : SignalEvent → Prop
  | setAction signum _ => signum < 2 ^ 64
  | _ => True

def TaskEvent.Usize : TaskEvent → Prop
  | signal e => e.Usize
  | exec .. => True

namespace SignalTask

variable {s s' t : SignalTask} {signum : ℕ}

theorem maintains_sigaction (action : SigAction) (h : signum < 2 ^ 64) :
    Maintains KillUnhandled (sigaction signum action) := by
  intro s hs
  rw [sigaction]
  split_ifs with hspecial
  · exact hs
  · rw [wp_bind, wp_get]
    split
    · rename_i handlers hset
      rw [wp_set, KillUnhandled]
      rw [SignalHandlers.setAction] at hset
      split_ifs at hset with hlt
      -- the number is not that of `SIGKILL`, nor does it wrap to it
      have hne : wsub signum 1 ≠ 8 := by
        rw [not_or, show SignalNo.SIGKILL.val = 9 from rfl] at hspecial
        rcases Nat.eq_zero_or_pos signum with rfl | hpos
        · rw [wsub] at hlt
          exact absurd hlt (by decide)
        · rw [wsub_of_le hpos h]
          omega
      rw [← Option.some.inj hset, Vector.getElem_set_ne _ _ hne]
      exact hs
    · exact hs

/-- Nothing that happens to a task installs an action for `SIGKILL`. -/
theorem maintains_signalEvent {e : SignalEvent} (h : e.Usize) :
    Maintains KillUnhandled e.run := by
  match e, h with
  | .send _, _ => exact .modify fun _ h ↦ h
  | .setMask _ _, _ => exact .modify fun _ h ↦ h
  | .setAction _ action, h => exact maintains_sigaction action h
  | .user _ _, _ => exact .modify fun _ h ↦ h
  | .trap, _ => exact maintains_handleSignals
  | .sigreturn, _ =>
    refine .bind (.bind maintains_loadTrapCxIfHandlingSignals fun found ↦ ?_) fun _ ↦
      .modify fun _ h ↦ h
    split_ifs
    · exact .bind .get fun _ ↦ .pure _
    · exact .pure _

theorem maintains_taskEvent {e : TaskEvent} (h : e.Usize) : Maintains KillUnhandled e.run := by
  cases e with
  | signal e => exact (maintains_signalEvent h).map _
  | exec found entry mem =>
    rw [TaskEvent.run, exec.eq_def]
    split_ifs
    · exact .pure _
    · refine .bind (.modify fun s _ ↦ Vector.getElem_replicate _) fun _ ↦ ?_
      cases entry with
      | some trapCx => exact .bind (.modify fun _ h ↦ h) fun _ ↦ .pure _
      | none => exact .pure _

/-! ## Runs -/

/-- The states that tasks come to. `from_app_name` starts with new handlers, `from_clone` with those
of the caller or with a copy of them. -/
inductive Reachable : SignalTask → Prop
  | new {s : SignalTask} (h : s.handlers = .new) : Reachable s
  | clone {s t : SignalTask} (hs : Reachable s) (h : t.handlers = s.handlers) : Reachable t
  | step {s t : SignalTask} {e : TaskEvent} {b : Bool} (hs : Reachable s) (hexit : s.exited = none)
      (he : e.Usize) (hrun : e.run.run s = .ok b t) : Reachable t

theorem Reachable.killUnhandled (h : Reachable s) : s.KillUnhandled := by
  induction h with
  | new h =>
    rw [KillUnhandled, h]
    exact Vector.getElem_replicate _
  | clone _ h ih =>
    rw [KillUnhandled, h]
    exact ih
  | step _ _ he hrun ih => exact (maintains_taskEvent he).of_ok ih hrun

/-- No trap up to now was one that has no signal below `SIGKILL` to take. -/
def Waits (e : SignalEvent) (s : SignalTask) : Prop :=
  e.Usize ∧ (e = .trap → s.receivers.LowerPending SignalNo.SIGKILL.val)

theorem pending_of_waits {e : SignalEvent} (he : Waits e s) (hexit : s.exited = none)
    (hpending : s.receivers.Pending SignalNo.SIGKILL.val) (hrun : e.run.run s = .ok () t) :
    t.receivers.Pending SignalNo.SIGKILL.val := by
  have hkill := isSignal_SIGKILL
  by_cases htrap : e = .trap
  · subst htrap
    obtain ⟨k, hlt, hk, hkpending, hkmask⟩ := he.2 rfl
    obtain ⟨signum, -, receivers, hget⟩ := SignalReceivers.exists_getOneSignal_le
      ⟨hk, hlt.le.trans hkill.2⟩ hkpending hkmask
    obtain ⟨hs, -⟩ := getOneSignal_eq_some hget
    have hkept := SignalReceivers.pending_of_lowerPending hkill hpending (he.2 rfl) hget
    have hwp : wp handleSignals (fun _ t ↦ t.receivers = receivers) noPanic s := by
      rw [wp_iff_of_run (run_handleSignals_of_some hget)]
      exact wp_imp (wp_handleSignal (s := { s with receivers }) hs hexit) fun _ _ h ↦ h.1
    have hreceivers := wp_ok hwp hrun
    rwa [hreceivers]
  · exact wp_ok (wp_run_of_ne_trap htrap) hrun _ hkill hpending

theorem Run.killPending {hist : List (SignalTask × SignalTask)} (h : Run Waits s hist t)
    (hpending : s.receivers.Pending SignalNo.SIGKILL.val) (hs : s.KillUnhandled) :
    t.receivers.Pending SignalNo.SIGKILL.val ∧ t.KillUnhandled := by
  induction h with
  | refl s => exact ⟨hpending, hs⟩
  | step hexit hok hrun _ ih =>
    exact ih (pending_of_waits hok hexit hpending hrun)
      ((maintains_signalEvent hok.1).of_ok hs hrun)

/-- **What becomes of a `SIGKILL`.** After it was sent to a task, in any state of its life, it is
pending at the first trap that has no signal of a lower number to take. That trap ends the task if
and only if `SIGKILL` is not masked and the slot is empty, or it is masked and another signal ends
the task. -/
theorem sigkill_ends_iff {hist : List (SignalTask × SignalTask)} (hs : Reachable s)
    (hsend : (SignalEvent.send SignalNo.SIGKILL.val).run.run s = .ok () s')
    (hwait : Run Waits s' hist t) (hexit : t.exited = none)
    (hnext : ¬ t.receivers.LowerPending SignalNo.SIGKILL.val) :
    t.receivers.Pending SignalNo.SIGKILL.val ∧
    wp handleSignals (fun _ t' ↦ t'.exited.isSome ↔
      ¬ t.receivers.Masked SignalNo.SIGKILL.val ∧ t.trapCxBeforeSignal = none ∨
      t.receivers.Masked SignalNo.SIGKILL.val ∧ ∃ signum receivers,
        t.receivers.getOneSignal = some (signum, receivers) ∧ t.Ends signum) noPanic t := by
  have hkill := isSignal_SIGKILL
  have hsent : s'.receivers.Pending SignalNo.SIGKILL.val := by
    obtain ⟨-, rfl⟩ := EStateM.Result.ok.inj hsend
    exact pending_tryAddBit hkill (Or.inr rfl)
  -- nothing can give `SIGKILL` a handler
  have hs' : s'.KillUnhandled :=
    (maintains_signalEvent (e := .send _) trivial).of_ok hs.killUnhandled hsend
  obtain ⟨hpending, ht⟩ := hwait.killPending hsent hs'
  refine ⟨hpending, wp_imp (wp_handleSignals_exited hexit) fun _ t' ht' ↦ ?_⟩
  rw [ht']
  by_cases hmask : t.receivers.Masked SignalNo.SIGKILL.val
  · simp only [hmask, not_true, false_and, false_or, true_and]
  · obtain ⟨receivers, hget⟩ :=
      SignalReceivers.exists_getOneSignal_eq hkill hpending hmask hnext
    simp only [hmask, not_false_iff, true_and, false_and, or_false]
    rw [← ht.ends_iff]
    constructor
    · rintro ⟨signum, receivers', hget', hends⟩
      obtain ⟨rfl, -⟩ := Prod.mk.inj (Option.some.inj (hget.symm.trans hget'))
      exact hends
    · exact fun hends ↦ ⟨_, receivers, hget, hends⟩

/-- A new task that is sent `SIGKILL` ends at its next trap. -/
theorem sigkill_ends_new : wp handleSignals (fun _ t' ↦ t'.exited.isSome = true) noPanic
    (new.next (.send SignalNo.SIGKILL.val)) := by
  obtain ⟨-, hends⟩ := sigkill_ends_iff (.new rfl) rfl (.refl _) (by decide +kernel)
    (by decide +kernel) (s := new) (t := new.next (.send SignalNo.SIGKILL.val))
  refine wp_imp hends fun _ t' ht' ↦ ?_
  exact ht'.mpr (Or.inl ⟨by decide +kernel, by decide +kernel⟩)

/-- A task masks `SIGKILL` and is sent it; its next trap takes nothing. Another one is sent it in a
handler; its next trap takes it and drops it. -/
theorem sigkill_survived :
    (let before := [.setMask 2 0x100, .send 9]
      let s := before.foldl next new
      Run (fun _ _ ↦ True) new (trace before new) s ∧ s.receivers.Pending 9 ∧
        ¬ s.receivers.LowerPending 9 ∧ s.exited = none ∧ (s.next .trap).exited = none) ∧
    let before := [.setAction 10 ⟨0x1000, 0, 0, 0⟩, .send 10, .trap, .send 9]
    let s := before.foldl next new
    Run (fun _ _ ↦ True) new (trace before new) s ∧ s.receivers.Pending 9 ∧
      ¬ s.receivers.LowerPending 9 ∧ s.exited = none ∧ (s.next .trap).exited = none ∧
      ¬ (s.next .trap).receivers.Pending 9 :=
  ⟨⟨.of_events (by decide +kernel), by decide +kernel, by decide +kernel, by decide +kernel,
      by decide +kernel⟩,
    .of_events (by decide +kernel), by decide +kernel, by decide +kernel, by decide +kernel,
    by decide +kernel, by decide +kernel⟩

end SignalTask

end Maturin
