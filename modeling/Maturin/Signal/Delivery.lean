import Maturin.Signal.Handle

/-!
# No signal is lost while none is handled

A run of a task is made of signals sent to it, changes of the mask and of the handlers, stretches
of user code, traps and returns from handlers. A trap takes the lowest unmasked signal out of the
pending ones before it looks at the slot of the interrupted context. When the slot is taken the
signal is dropped, which is right only for a signal that is ignored anyway; `SIGSEGV` and `SIGBUS`
end the task instead.
-/

open Exec

namespace Maturin

-- A number of a signal is a variable here, and `wsub` of it must not be computed.
attribute [local irreducible] wsub

/-! ## What a signal does -/

/-- What is to be done about a signal. -/
inductive Disposition
  | handler (action : SigAction)
  | ignore
  | terminate
  deriving DecidableEq

/-- What a signal without an action does. -/
def SigActionDefault.disposition : SigActionDefault → Disposition
  | .terminate => .terminate
  | .ignore => .ignore

/-- The disposition that an action asks for. -/
def SigAction.disposition (action : SigAction) : Disposition :=
  if action.handler = SIG_IGN then .ignore else .handler action

/-- The disposition of a signal with its action, if it has one. -/
def SigAction.dispositionOf (signum : ℕ) : Option SigAction → Disposition
  | some action => action.disposition
  | none => (SigActionDefault.ofSignal (SignalNo.ofUsize signum)).disposition

/-- The disposition of a signal: its action, or what it does by default. -/
def SignalHandlers.disposition (self : SignalHandlers) (signum : ℕ) : Disposition :=
  SigAction.dispositionOf signum (self.getActionRef signum).join

namespace SignalTask

/-- The step from `s` to `s'` does what is to be done about the signal: it enters the handler with
the number of the signal, leaves the task alone, or ends it. -/
def Acts (signum : ℕ) (s s' : SignalTask) : Disposition → Prop
  | .handler action => s'.entered = signum :: s.entered ∧ s'.trapCx.sepc = action.handler ∧
      s'.trapCx.getA0 = signum ∧ s'.exited = none
  | .ignore => s'.entered = s.entered ∧ s'.trapCx = s.trapCx ∧ s'.exited = none
  | .terminate => s'.exited.isSome = true

/-- The step from `s` to `s'` acts on the signal by its disposition. -/
def ActedOn (s s' : SignalTask) (signum : ℕ) : Prop :=
  Acts signum s s' (s.handlers.disposition signum)

/-- The signal numbers. -/
def IsSignal (signum : ℕ) : Prop := 1 ≤ signum ∧ signum ≤ 64

variable {s s' : SignalTask} {signum : ℕ} {receivers receivers' : SignalReceivers}

theorem IsSignal.wsub_eq (h : IsSignal signum) : wsub signum 1 = signum - 1 :=
  wsub_of_le h.1 (by have := h.2; omega)

/-- A signal of the table has an action or a default. -/
theorem exists_getActionRef (handlers : SignalHandlers) (h : IsSignal signum) :
    ∃ action, handlers.getActionRef signum = some action := by
  have hlt : signum - 1 < 64 := by
    have := h.2
    omega
  have hget : handlers.actions[wsub signum 1]? = some handlers.actions[signum - 1] := by
    rw [h.wsub_eq]
    exact Vector.getElem?_eq_getElem hlt
  -- an action with the default handler counts as none
  refine ⟨handlers.actions[signum - 1].filter fun a ↦ a.handler ≠ SIG_DFL, ?_⟩
  rw [SignalHandlers.getActionRef, hget, Option.map_some]

/-- Taking a signal leaves the others pending. -/
theorem getOneSignal_eq_some (h : receivers.getOneSignal = some (signum, receivers')) :
    IsSignal signum ∧ receivers.Pending signum ∧ ¬ receivers'.Pending signum ∧
      ∀ k, IsSignal k → receivers.Pending k → k = signum ∨ receivers'.Pending k := by
  obtain ⟨pos, hpos, heq⟩ := Option.map_eq_some_iff.mp h
  obtain ⟨rfl, rfl⟩ := Prod.mk.inj heq
  obtain ⟨hlt, hbit, -⟩ := Bitset.findFirstOne_eq_some hpos
  refine ⟨⟨by omega, by omega⟩, hbit, ?_, fun k hk hpending ↦ ?_⟩
  · rw [SignalReceivers.Pending, Nat.add_sub_cancel, Bitset.containBit_removeBit hlt hlt]
    simp
  have hk' := hk.2
  rcases eq_or_ne k (pos + 1) with rfl | hne
  · exact Or.inl rfl
  · refine Or.inr ?_
    have hk'' := hk.1
    rw [SignalReceivers.Pending, Bitset.containBit_removeBit (by omega) hlt, Bool.and_eq_true,
      bne_iff_ne]
    exact ⟨by omega, hpending⟩

/-- The trap acts on the signal that it takes: the slot is empty, or ending the task or doing
nothing is the right thing to do. -/
def CanAct (s : SignalTask) (signum : ℕ) : Prop :=
  s.trapCxBeforeSignal = none ∨
    if SignalNo.ofUsize signum = SignalNo.SIGSEGV ∨ SignalNo.ofUsize signum = SignalNo.SIGBUS then
      s.handlers.disposition signum = .terminate
    else s.handlers.disposition signum = .ignore

/-- The task when its context has been saved. -/
def saved (s : SignalTask) : SignalTask :=
  { s with trapCxBeforeSignal := some s.trapCx, signalSetSiginfo := false }

theorem exists_run_load (s : SignalTask) :
    ∃ b t, loadTrapCxIfHandlingSignals.run s = .ok b t := by
  rw [loadTrapCxIfHandlingSignals, run_get_bind]
  cases s.trapCxBeforeSignal with
  | none => exact ⟨_, _, rfl⟩
  | some cx => exact ⟨_, _, rfl⟩

theorem run_save_of_none (hslot : s.trapCxBeforeSignal = none) :
    saveTrapCxIfNotHandlingSignals.run s = .ok true s.saved := by
  rw [saveTrapCxIfNotHandlingSignals, run_get_bind, hslot]
  rfl

theorem run_save_of_some {cx : TrapContext} (hslot : s.trapCxBeforeSignal = some cx) :
    saveTrapCxIfNotHandlingSignals.run s = .ok false s := by
  rw [saveTrapCxIfNotHandlingSignals, run_get_bind, hslot]
  rfl

theorem run_getActionRef {action : Option SigAction}
    (h : s.handlers.getActionRef signum = some action) :
    (getActionRef signum).run s = .ok action s := by
  rw [getActionRef, run_get_bind, h]
  rfl

/-- With an empty slot the context is saved, and the action says what is done. -/
theorem run_handleSignal_of_none {action : Option SigAction} (hslot : s.trapCxBeforeSignal = none)
    (h : s.handlers.getActionRef signum = some action) :
    (handleSignal signum).run s = (handleByAction signum action).run s.saved := by
  have hget : (getActionRef signum).run s.saved = .ok action s.saved := run_getActionRef h
  rw [handleSignal, run_bind_of_ok (run_save_of_none hslot), if_pos rfl, run_bind_of_ok hget]

/-- With a full slot a fault ends the task, and any other signal does nothing. -/
theorem run_handleSignal_of_some {cx : TrapContext} (hslot : s.trapCxBeforeSignal = some cx) :
    (handleSignal signum).run s =
      (if SignalNo.ofUsize signum = SignalNo.SIGSEGV ∨ SignalNo.ofUsize signum = SignalNo.SIGBUS
        then exitCurrentTask (-1) else pure ()).run s := by
  rw [handleSignal, run_bind_of_ok (run_save_of_some hslot), if_neg (by simp)]

theorem run_handleSignals_of_none (hget : s.receivers.getOneSignal = none) :
    handleSignals.run s = .ok () s := by
  rw [handleSignals, run_get_bind, hget]
  rfl

theorem run_handleSignals_of_some (hget : s.receivers.getOneSignal = some (signum, receivers)) :
    handleSignals.run s = (handleSignal signum).run { s with receivers } := by
  rw [handleSignals, run_get_bind, hget]
  rfl

/-- Entering a handler. -/
theorem wp_enterHandler {action : SigAction} :
    wp (enterHandler signum action) (fun _ s' ↦ s'.receivers = s.receivers ∧
      s'.entered = signum :: s.entered ∧ s'.trapCx.sepc = action.handler ∧
      s'.trapCx.getA0 = signum ∧ s'.exited = s.exited) noPanic s := by
  rw [enterHandler, wp_bind, wp_get]
  dsimp only
  split_ifs
  · rw [wp_bind, saveIfSetSiginfo, wp_modify, wp_modify]
    exact ⟨rfl, rfl, rfl, rfl, rfl⟩
  · rw [wp_modify]
    exact ⟨rfl, rfl, rfl, rfl, rfl⟩

theorem wp_handleByDefault {signal : SignalNo} (hslot : s.trapCxBeforeSignal = some s.trapCx)
    (hinfo : s.signalSetSiginfo = false) (hexit : s.exited = none) :
    wp (handleByDefault signal) (fun _ s' ↦ s'.receivers = s.receivers ∧
      Acts signum s s' (SigActionDefault.ofSignal signal).disposition) noPanic s := by
  rw [handleByDefault]
  cases SigActionDefault.ofSignal signal with
  | terminate =>
    dsimp only
    rw [exitCurrentTask, wp_modify]
    exact ⟨rfl, rfl⟩
  | ignore =>
    dsimp only
    rw [loadTrapCxIfHandlingSignals, wp_bind, wp_bind, wp_get, hslot]
    dsimp only
    rw [wp_bind, wp_set, wp_pure, wp_pure, hinfo]
    exact ⟨rfl, rfl, rfl, hexit⟩

theorem wp_handleByAction {action : Option SigAction}
    (hslot : s.trapCxBeforeSignal = some s.trapCx) (hinfo : s.signalSetSiginfo = false)
    (hexit : s.exited = none) :
    wp (handleByAction signum action) (fun _ s' ↦ s'.receivers = s.receivers ∧
      Acts signum s s' (SigAction.dispositionOf signum action)) noPanic s := by
  cases action with
  | none => exact wp_handleByDefault hslot hinfo hexit
  | some action =>
    rw [handleByAction, SigAction.dispositionOf, SigAction.disposition]
    split_ifs with hign
    · rw [wp_pure]
      exact ⟨rfl, rfl, rfl, hexit⟩
    · refine wp_imp wp_enterHandler fun _ s' hs' ↦ ?_
      obtain ⟨hrec, hent, hpc, ha0, hex⟩ := hs'
      exact ⟨hrec, hent, hpc, ha0, hex.trans hexit⟩

/-- With an empty slot every signal is acted on. -/
theorem wp_handleSignal_of_none (hslot : s.trapCxBeforeSignal = none) (hs : IsSignal signum)
    (hexit : s.exited = none) :
    wp (handleSignal signum) (fun _ s' ↦ s'.receivers = s.receivers ∧ s.ActedOn s' signum)
      noPanic s := by
  obtain ⟨action, ha⟩ := exists_getActionRef s.handlers hs
  have hdisp : s.handlers.disposition signum = SigAction.dispositionOf signum action := by
    rw [SignalHandlers.disposition, ha, Option.join_some]
  have hact : wp (handleByAction signum action) (fun _ s' ↦ s'.receivers = s.receivers ∧
      Acts signum s.saved s' (SigAction.dispositionOf signum action)) noPanic s.saved :=
    wp_handleByAction rfl rfl hexit
  rw [wp_iff_of_run (run_handleSignal_of_none hslot ha)]
  refine wp_imp hact fun _ s' hs' ↦ ?_
  rw [ActedOn, hdisp]
  exact hs'

/-- With a taken slot the task ends or nothing happens. -/
theorem wp_handleSignal_of_some {cx : TrapContext} (hslot : s.trapCxBeforeSignal = some cx)
    (hexit : s.exited = none) :
    wp (handleSignal signum) (fun _ s' ↦ s'.receivers = s.receivers ∧
      (s.ActedOn s' signum ↔ s.CanAct signum)) noPanic s := by
  rw [wp_iff_of_run (run_handleSignal_of_some hslot)]
  have hcan : s.CanAct signum ↔ if SignalNo.ofUsize signum = SignalNo.SIGSEGV ∨
      SignalNo.ofUsize signum = SignalNo.SIGBUS then s.handlers.disposition signum = .terminate
      else s.handlers.disposition signum = .ignore := by
    rw [CanAct, hslot]
    exact or_iff_right (by simp)
  simp only [hcan, ActedOn]
  generalize s.handlers.disposition signum = disposition
  split_ifs with hfault
  · -- only a task that should end may end
    rw [exitCurrentTask, wp_modify]
    refine ⟨rfl, ?_⟩
    cases disposition with
    | handler action => exact iff_of_false (fun h ↦ by simpa using h.2.2.2) (by simp)
    | ignore => exact iff_of_false (fun h ↦ by simpa using h.2.2) (by simp)
    | terminate => exact iff_of_true rfl rfl
  · -- nothing happens, which is right only for a signal to be ignored
    rw [wp_pure]
    refine ⟨rfl, ?_⟩
    cases disposition with
    | handler action =>
      refine iff_of_false (fun h ↦ ?_) (by simp)
      exact absurd (congrArg List.length h.1) (by simp)
    | ignore => exact iff_of_true ⟨rfl, rfl, hexit⟩ rfl
    | terminate =>
      refine iff_of_false (fun h ↦ ?_) (by simp)
      rw [Acts, hexit] at h
      exact absurd h (by simp)

theorem wp_handleSignal (hs : IsSignal signum) (hexit : s.exited = none) :
    wp (handleSignal signum) (fun _ s' ↦ s'.receivers = s.receivers ∧
      (s.ActedOn s' signum ↔ s.CanAct signum)) noPanic s := by
  cases hslot : s.trapCxBeforeSignal with
  | none =>
    refine wp_imp (wp_handleSignal_of_none hslot hs hexit) fun _ s' hs' ↦ ?_
    obtain ⟨hrec, hact⟩ := hs'
    exact ⟨hrec, iff_of_true hact (Or.inl hslot)⟩
  | some cx => exact wp_handleSignal_of_some hslot hexit

end SignalTask

/-! ## Runs -/

/-- What happens to a task, as far as its signals are concerned. -/
inductive SignalEvent
  /-- Some task sends the signal. -/
  | send (signum : ℕ)
  | setMask (how : ℤ) (set : Bitset)
  | setAction (signum : ℕ) (action : SigAction)
  /-- User code and the other system calls change the registers and the memory. -/
  | user (trapCx : TrapContext) (mem : ByteMem)
  /-- A trap is about to return to user mode. -/
  | trap
  /-- The handler returns. -/
  | sigreturn

namespace SignalEvent

/-- The event as a program on the task. -/
def run : SignalEvent → EStateM Panic SignalTask Unit
  | send signum => SignalTask.sendSignal signum
  | setMask how set => SignalTask.setMask how set
  | setAction signum action => SignalTask.sigaction signum action
  | user trapCx mem => modify ({ · with trapCx, mem })
  | trap => SignalTask.handleSignals
  | sigreturn => do
    let a0 ← SignalTask.signalReturn
    modify fun s ↦ { s with trapCx := s.trapCx.setA0 (BitVec.ofInt 64 a0).toNat }

/-- A trap that takes a signal can act on it. -/
def Timely : SignalEvent → SignalTask → Prop
  | trap, s => ∀ signum receivers, s.receivers.getOneSignal = some (signum, receivers) →
      s.CanAct signum
  | _, _ => True

end SignalEvent

namespace SignalTask

variable {s s' t : SignalTask} {e : SignalEvent} {signum : ℕ}

/-- The signal is still pending, or the step acted on it. -/
def KeptOrActed (s s' : SignalTask) (signum : ℕ) : Prop :=
  s'.receivers.Pending signum ∨ s.ActedOn s' signum

/-- A run of a task that has not ended, with the states before and after each step. -/
inductive Run (ok : SignalEvent → SignalTask → Prop) :
    SignalTask → List (SignalTask × SignalTask) → SignalTask → Prop
  | refl (s : SignalTask) : Run ok s [] s
  | step {s t s' : SignalTask} {e : SignalEvent} {hist : List (SignalTask × SignalTask)}
      (hexit : s.exited = none) (hok : ok e s) (hrun : e.run.run s = .ok () t)
      (h : Run ok t hist s') : Run ok s ((s, t) :: hist) s'

/-- Sending a signal makes it pending and leaves the other signals alone. -/
theorem pending_tryAddBit {k : ℕ} {receivers : SignalReceivers} (hk : IsSignal k)
    (h : receivers.Pending k ∨ k = signum) : (receivers.tryAddBit signum).Pending k := by
  have hlt := hk.2
  have hpos := hk.1
  rw [SignalReceivers.Pending, SignalReceivers.tryAddBit, Bitset.addBit, Bitset.containBit,
    BitVec.getLsbD_or, Bool.or_eq_true]
  refine h.imp (fun h ↦ h) fun h ↦ ?_
  subst h
  rw [hk.wsub_eq, BitVec.getLsbD_twoPow, Bool.and_eq_true, decide_eq_true_eq, decide_eq_true_eq]
  exact ⟨by omega, rfl⟩

/-- Only a trap takes a signal. -/
theorem wp_run_of_ne_trap (he : e ≠ .trap) :
    wp e.run (fun _ s' ↦ ∀ k, IsSignal k → s.receivers.Pending k → s'.receivers.Pending k)
      anyPanic s := by
  cases e with
  | trap => exact absurd rfl he
  | send signum => exact fun k hk hpending ↦ pending_tryAddBit hk (Or.inl hpending)
  | setMask how set => exact fun k _ hpending ↦ hpending
  | user trapCx mem => exact fun k _ hpending ↦ hpending
  | setAction signum action =>
    rw [SignalEvent.run, sigaction]
    split_ifs
    · exact fun k _ hpending ↦ hpending
    · rw [wp_bind, wp_get]
      cases s.handlers.setAction signum action with
      | none => trivial
      | some handlers => exact fun k _ hpending ↦ hpending
  | sigreturn =>
    rw [SignalEvent.run, signalReturn, wp_bind, wp_bind, loadTrapCxIfHandlingSignals, wp_bind,
      wp_get]
    cases s.trapCxBeforeSignal with
    | none => exact fun k _ hpending ↦ hpending
    | some cx => exact fun k _ hpending ↦ hpending

theorem canAct_receivers {r : SignalReceivers} :
    ({ s with receivers := r } : SignalTask).CanAct signum ↔ s.CanAct signum := by
  rw [CanAct, CanAct]

theorem actedOn_receivers {r : SignalReceivers} :
    ({ s with receivers := r } : SignalTask).ActedOn s' signum ↔ s.ActedOn s' signum := by
  rw [ActedOn, ActedOn]
  cases s.handlers.disposition signum <;> rfl

/-- A trap that takes no signal leaves the task alone; one that takes a signal acts on it or drops
it. -/
theorem wp_run_trap (hexit : s.exited = none) :
    wp SignalEvent.trap.run (fun _ s' ↦
      (∀ signum, IsSignal signum → s.receivers.Pending signum → s.KeptOrActed s' signum) ↔
        SignalEvent.trap.Timely s) noPanic s := by
  rw [SignalEvent.run]
  cases hget : s.receivers.getOneSignal with
  | none =>
    rw [wp, run_handleSignals_of_none hget]
    refine iff_of_true (fun signum _ hpending ↦ Or.inl hpending) fun signum receivers h ↦ ?_
    exact absurd (hget.symm.trans h) (by simp)
  | some taken =>
    obtain ⟨signum, receivers⟩ := taken
    obtain ⟨hs, hpending, htaken, hothers⟩ := getOneSignal_eq_some hget
    have hstep := wp_handleSignal (s := { s with receivers }) hs hexit
    rw [wp_iff_of_run (run_handleSignals_of_some hget)]
    refine wp_imp hstep fun _ s' hs' ↦ ?_
    obtain ⟨hrec, hact⟩ := hs'
    rw [canAct_receivers, actedOn_receivers] at hact
    constructor
    · intro hkept signum' receivers' h
      obtain ⟨rfl, rfl⟩ := Prod.mk.inj (Option.some.inj (hget.symm.trans h))
      -- the signal is not pending any more, and so it was acted on
      refine hact.mp ((hkept signum hs hpending).resolve_left fun hpending' ↦ htaken ?_)
      rwa [hrec] at hpending'
    · intro htimely k hk hk'
      rcases hothers k hk hk' with rfl | hother
      · exact Or.inr (hact.mpr (htimely k receivers hget))
      · refine Or.inl ?_
        rwa [hrec]

/-- What one step does to the pending signals. -/
theorem keptOrActed_iff (hexit : s.exited = none) (hrun : e.run.run s = .ok () s') :
    (∀ signum, IsSignal signum → s.receivers.Pending signum → s.KeptOrActed s' signum) ↔
      e.Timely s := by
  by_cases he : e = .trap
  · subst he
    have hiff := wp_ok (wp_run_trap hexit) hrun
    exact hiff
  · have hkept := wp_ok (wp_run_of_ne_trap (s := s) he) hrun
    refine iff_of_true (fun signum hs hpending ↦ Or.inl (hkept signum hs hpending)) ?_
    cases e <;> trivial

/-- A run whose traps can act on what they take loses no signal. -/
theorem Run.pending {hist : List (SignalTask × SignalTask)}
    (h : Run SignalEvent.Timely s hist s') (hs : IsSignal signum)
    (hpending : s.receivers.Pending signum) :
    s'.receivers.Pending signum ∨ ∃ p ∈ hist, p.1.ActedOn p.2 signum := by
  induction h with
  | refl s => exact Or.inl hpending
  | step hexit hok hrun _ ih =>
    rcases (keptOrActed_iff hexit hrun).mpr hok signum hs hpending with hkept | hact
    · rcases ih hkept with hlater | ⟨p, hp, hacts⟩
      · exact Or.inl hlater
      · exact Or.inr ⟨p, List.mem_cons_of_mem _ hp, hacts⟩
    · exact Or.inr ⟨_, List.mem_cons_self, hact⟩

/-- In a run whose traps can act on what they take every pending signal stays pending or is acted
on, and the next step keeps it so exactly when it is timely. -/
theorem signals_kept {hist : List (SignalTask × SignalTask)}
    (h : Run SignalEvent.Timely s hist s') :
    (∀ signum, IsSignal signum → s.receivers.Pending signum →
      s'.receivers.Pending signum ∨ ∃ p ∈ hist, p.1.ActedOn p.2 signum) ∧
    ∀ (e : SignalEvent) (t : SignalTask), s'.exited = none → e.run.run s' = .ok () t →
      ((∀ signum, IsSignal signum → s'.receivers.Pending signum → s'.KeptOrActed t signum) ↔
        e.Timely s') :=
  ⟨fun _ hs hpending ↦ h.pending hs hpending, fun _ _ hexit hrun ↦ keptOrActed_iff hexit hrun⟩

/-! ## Runs of given events -/

/-- The state after an event. -/
def next (s : SignalTask) (e : SignalEvent) : SignalTask :=
  match e.run.run s with
  | .ok _ t => t
  | .error _ t => t

/-- The states before and after each event. -/
def trace : List SignalEvent → SignalTask → List (SignalTask × SignalTask)
  | [], _ => []
  | e :: es, s => (s, s.next e) :: trace es (s.next e)

/-- No event panics, and none but the last ends the task. -/
def proceeds : List SignalEvent → SignalTask → Bool
  | [], _ => true
  | e :: es, s => s.exited.isNone && returns e.run s (fun _ _ ↦ true) && proceeds es (s.next e)

theorem Run.of_events {es : List SignalEvent} (h : proceeds es s = true) :
    Run (fun _ _ ↦ True) s (trace es s) (es.foldl next s) := by
  induction es generalizing s with
  | nil => exact .refl s
  | cons e es ih =>
    rw [proceeds, Bool.and_eq_true, Bool.and_eq_true, Option.isNone_iff_eq_none] at h
    obtain ⟨⟨hexit, hret⟩, hrest⟩ := h
    obtain ⟨a, t, hrun, -⟩ := exists_of_returns hret
    have hnext : s.next e = t := by rw [next, hrun]
    exact .step hexit trivial (hrun.trans (by rw [hnext])) (ih hrest)

/-- A new task, with nothing in its registers and its memory. -/
def new : SignalTask where
  handlers := .new
  receivers := .new
  trapCx := { x := fun _ ↦ 0, sstatus := 0, sepc := 0, cpuId := 0, fs := fun _ ↦ 0 }
  trapCxBeforeSignal := none
  signalSetSiginfo := false
  mem := fun _ ↦ 0
  exited := none
  entered := []

instance {receivers : SignalReceivers} {signum : ℕ} : Decidable (receivers.Pending signum) :=
  inferInstanceAs (Decidable (_ = true))

instance {s s' : SignalTask} {signum : ℕ} : (d : Disposition) → Decidable (Acts signum s s' d)
  | .handler _ => inferInstanceAs (Decidable (_ ∧ _))
  | .ignore => inferInstanceAs (Decidable (_ ∧ _))
  | .terminate => inferInstanceAs (Decidable (_ = true))

instance {s s' : SignalTask} {signum : ℕ} : Decidable (s.ActedOn s' signum) :=
  inferInstanceAs (Decidable (Acts _ _ _ _))

/-- A signal with a handler is pending when a trap finds the slot empty. -/
theorem signals_kept_new : ∃ s t : SignalTask, s.receivers.Pending 10 ∧
    (t.receivers.Pending 10 ∨ ∃ p ∈ [(s, t)], p.1.ActedOn p.2 10) := by
  let s := [.setAction 10 ⟨0x1000, 0, 0, 0⟩, .send 10].foldl next new
  have hpending : s.receivers.Pending 10 := by decide +kernel
  have hexit : s.exited = none := by decide +kernel
  obtain ⟨_, t, hrun, -⟩ := exists_of_returns
    (show returns SignalEvent.trap.run s (fun _ _ ↦ true) = true by decide +kernel)
  have hrun' : Run SignalEvent.Timely s [(s, t)] t :=
    .step (e := .trap) hexit (fun _ _ _ ↦ Or.inl (by decide +kernel)) hrun (.refl t)
  exact ⟨s, t, hpending, (signals_kept hrun').1 10 ⟨by decide, by decide⟩ hpending⟩

/-- A second signal comes while the handler of the first one runs. The trap takes it and drops it,
so that when the handler returns it is neither pending nor acted on. -/
theorem signals_lost :
    let before := [.setAction 10 ⟨0x1000, 0, 0, 0⟩, .setAction 12 ⟨0x2000, 0, 0, 0⟩, .send 10,
      .trap, .send 12]
    let after := [.trap, .sigreturn]
    let s := before.foldl next new
    Run (fun _ _ ↦ True) new (trace before new) s ∧
      Run (fun _ _ ↦ True) s (trace after s) (after.foldl next s) ∧
      s.receivers.Pending 12 ∧ ¬ (after.foldl next s).receivers.Pending 12 ∧
      ∀ p ∈ trace after s, ¬ p.1.ActedOn p.2 12 :=
  ⟨.of_events (by decide +kernel), .of_events (by decide +kernel), by decide +kernel,
    by decide +kernel, by decide +kernel⟩

end SignalTask

end Maturin
