import Maturin.Signal.Delivery

/-!
# The slot of the interrupted context

`trap_cx_before_signal` holds the context that a handler interrupts, and tells the kernel that a
handler runs. It is filled before the action of the signal is looked at. A signal that is ignored by
default empties it again, but one that the user asked to ignore leaves it full, and so does `exec`.
-/

open Exec

namespace Maturin

attribute [local irreducible] wsub

/-- `clear` of the receivers: nothing is masked and nothing is pending. -/
def SignalReceivers.clear (_self : SignalReceivers) : SignalReceivers := ⟨0, 0⟩

namespace SignalTask

/-- What `exec` does to the signals of a task and to its first context: nothing if there is no such
file. The new program gets the context `entry`, unless it cannot be loaded; either way the memory is
another. -/
def exec (found : Bool) (entry : Option TrapContext) (mem : ByteMem) :
    EStateM Panic SignalTask Bool :=
  if !found then pure false
  else do
    modify fun s ↦ { s with
      handlers := s.handlers.clear
      receivers := s.receivers.clear
      mem }
    match entry with
    | some trapCx =>
      modify ({ · with trapCx })
      pure true
    | none => pure false

end SignalTask

/-- What happens to a task, with the programs that it executes. -/
inductive TaskEvent
  | signal (e : SignalEvent)
  | exec (found : Bool) (entry : Option TrapContext) (mem : ByteMem)

namespace TaskEvent

/-- The event as a program on the task, and whether it was a successful `exec`. -/
def run : TaskEvent → EStateM Panic SignalTask Bool
  | signal e => (fun _ ↦ false) <$> e.run
  | exec found entry mem => SignalTask.exec found entry mem

/-- The number of handlers that were entered and have not returned, after an event from `s` to `t`.
A return ends the last one, and a new program has none. -/
def running (s t : SignalTask) (n : ℕ) : TaskEvent → Bool → ℕ
  | signal .sigreturn, _ => n - 1
  | signal _, _ => n + (t.entered.length - s.entered.length)
  | exec .., true => 0
  | exec .., false => n

/-- The event keeps the slot in step with the handlers: it does not ignore a signal on request while
the slot is empty, and does not start a new program while it is full. -/
def KeepsSlot : TaskEvent → SignalTask → Prop
  | signal .trap, s => s.trapCxBeforeSignal = none → ∀ signum receivers,
      s.receivers.getOneSignal = some (signum, receivers) →
        ∀ action, s.handlers.getActionRef signum = some (some action) → action.handler ≠ SIG_IGN
  | exec found entry _, s => found = true → entry.isSome → s.trapCxBeforeSignal = none
  | _, _ => True

end TaskEvent

namespace SignalTask

variable {s s' t : SignalTask} {e : TaskEvent} {signum n : ℕ} {b : Bool}

/-- The slot is full exactly if a handler runs. -/
def SlotOk (s : SignalTask) (n : ℕ) : Prop := s.trapCxBeforeSignal.isSome ↔ 0 < n

/-- The states of a task that began with an empty slot, with the number of running handlers, as long
as the events satisfy `ok`. -/
inductive Reached (ok : TaskEvent → SignalTask → Prop) : SignalTask → ℕ → Prop
  | start {s : SignalTask} (h : s.trapCxBeforeSignal = none) : Reached ok s 0
  | step {s t : SignalTask} {n : ℕ} {e : TaskEvent} {b : Bool} (h : Reached ok s n)
      (hexit : s.exited = none) (hok : ok e s) (hrun : e.run.run s = .ok b t) :
      Reached ok t (e.running s t n b)

/-! ## One step -/

/-- With a full slot a signal leaves the slot full and enters no handler. -/
theorem wp_handleSignal_slot_of_some {cx : TrapContext} (hslot : s.trapCxBeforeSignal = some cx) :
    wp (handleSignal signum) (fun _ s' ↦ s'.trapCxBeforeSignal = some cx ∧ s'.entered = s.entered)
      noPanic s := by
  rw [wp_iff_of_run (run_handleSignal_of_some hslot)]
  split_ifs
  · rw [exitCurrentTask, wp_modify]
    exact ⟨hslot, rfl⟩
  · rw [wp_pure]
    exact ⟨hslot, rfl⟩

/-- What a signal with the action does while the slot is empty: with an action the slot is full,
though a handler is entered only if the signal is not to be ignored; without one the slot stays
empty. -/
def FillsSlot (signum : ℕ) (s s' : SignalTask) : Option SigAction → Prop
  | some action => s'.trapCxBeforeSignal.isSome ∧
      s'.entered = if action.handler = SIG_IGN then s.entered else signum :: s.entered
  | none => s'.trapCxBeforeSignal = none ∧ s'.entered = s.entered

theorem wp_handleSignal_slot_of_none (hslot : s.trapCxBeforeSignal = none)
    {action : Option SigAction} (ha : s.handlers.getActionRef signum = some action) :
    wp (handleSignal signum) (fun _ s' ↦ s'.exited.isSome ∨ FillsSlot signum s s' action)
      noPanic s := by
  rw [wp_iff_of_run (run_handleSignal_of_none hslot ha)]
  cases action with
  | none =>
    rw [handleByAction, handleByDefault]
    cases SigActionDefault.ofSignal (SignalNo.ofUsize signum) with
    | terminate => exact Or.inl rfl
    | ignore => exact Or.inr ⟨rfl, rfl⟩
  | some action =>
    rw [handleByAction]
    split_ifs with hign
    · exact Or.inr ⟨rfl, (if_pos hign).symm⟩
    · rw [enterHandler, wp_bind, wp_get]
      dsimp only
      split_ifs
      · rw [wp_bind, saveIfSetSiginfo, wp_modify, wp_modify]
        exact Or.inr ⟨rfl, (if_neg hign).symm⟩
      · rw [wp_modify]
        exact Or.inr ⟨rfl, (if_neg hign).symm⟩

/-- A trap that enters no handler leaves the number of running ones. -/
theorem running_trap (h : t.entered = s.entered) :
    (TaskEvent.signal .trap).running s t n false = n := by
  change n + (t.entered.length - s.entered.length) = n
  rw [h, Nat.sub_self, Nat.add_zero]

/-- A trap that finds the slot empty keeps it in step unless the action of its signal is to ignore
it. -/
theorem keepsSlot_trap_iff {receivers : SignalReceivers} {action : Option SigAction}
    (hslot : s.trapCxBeforeSignal = none)
    (hget : s.receivers.getOneSignal = some (signum, receivers))
    (ha : s.handlers.getActionRef signum = some action) :
    (TaskEvent.signal .trap).KeepsSlot s ↔ ∀ a, action = some a → a.handler ≠ SIG_IGN := by
  constructor
  · exact fun hk a hsome ↦ hk hslot signum receivers hget a (hsome ▸ ha)
  · rintro hk - signum' receivers' hsome a ha'
    obtain ⟨rfl, rfl⟩ := Prod.mk.inj (Option.some.inj (hget.symm.trans hsome))
    exact hk a (Option.some.inj (ha.symm.trans ha'))

/-- A trap keeps the slot in step with the handlers exactly if it does not ignore a signal on
request while the slot is empty. -/
theorem wp_trap_slot (h : s.SlotOk n) (hn : n ≤ 1) :
    wp handleSignals (fun _ t ↦ t.exited = none →
      (t.SlotOk ((TaskEvent.signal .trap).running s t n false) ↔
        (TaskEvent.signal .trap).KeepsSlot s) ∧
      (TaskEvent.signal .trap).running s t n false ≤ 1) noPanic s := by
  cases hget : s.receivers.getOneSignal with
  | none =>
    rw [wp, run_handleSignals_of_none hget]
    refine fun _ ↦ ⟨iff_of_true ?_ fun _ signum receivers hsome ↦ ?_,
      (running_trap rfl).trans_le hn⟩
    · rw [running_trap rfl]
      exact h
    · exact absurd (hget.symm.trans hsome) (by simp)
  | some taken =>
    obtain ⟨signum, receivers⟩ := taken
    obtain ⟨hs, -⟩ := getOneSignal_eq_some hget
    -- apart from the pending signals the task is as before
    obtain ⟨u, hu, huslot, huent, huhandlers⟩ : ∃ u : SignalTask, { s with receivers } = u ∧
        u.trapCxBeforeSignal = s.trapCxBeforeSignal ∧ u.entered = s.entered ∧
        u.handlers = s.handlers := ⟨_, rfl, rfl, rfl, rfl⟩
    rw [wp_iff_of_run (run_handleSignals_of_some hget), hu]
    cases hslot : s.trapCxBeforeSignal with
    | some cx =>
      -- a handler runs already: the signal is dropped, or ends the task
      rw [hslot] at huslot
      refine wp_imp (wp_handleSignal_slot_of_some huslot) fun _ t ht _ ↦ ?_
      rw [huent] at ht
      refine ⟨iff_of_true ?_ fun hnone ↦ ?_, (running_trap ht.2).trans_le hn⟩
      · rw [running_trap ht.2, SlotOk, ht.1, ← hslot]
        exact h
      · exact absurd (hslot.symm.trans hnone) (by simp)
    | none =>
      -- with an empty slot no handler runs
      have hzero : n = 0 := by
        rw [SlotOk, hslot] at h
        exact Nat.eq_zero_of_not_pos fun hpos ↦ absurd (h.mpr hpos) (by simp)
      subst hzero
      obtain ⟨action, ha⟩ := exists_getActionRef s.handlers hs
      have hkeeps := keepsSlot_trap_iff hslot hget ha
      rw [hslot] at huslot
      rw [← huhandlers] at ha
      refine wp_imp (wp_handleSignal_slot_of_none huslot ha) fun _ t ht hexit ↦ ?_
      replace ht := ht.resolve_left (by rw [hexit]; simp)
      rw [hkeeps]
      cases action with
      | none =>
        rw [FillsSlot, huent] at ht
        refine ⟨iff_of_true ?_ fun a hsome ↦ absurd hsome (by simp), ?_⟩
        · rw [SlotOk, running_trap ht.2, ht.1]
          simp
        · exact (running_trap ht.2).trans_le hn
      | some action =>
        have hiff : (∀ a, some action = some a → a.handler ≠ SIG_IGN) ↔ action.handler ≠ SIG_IGN :=
          ⟨fun hk ↦ hk action rfl, fun hk a hsome ↦ Option.some.inj hsome ▸ hk⟩
        rw [FillsSlot, huent] at ht
        rw [hiff, SlotOk, iff_true_left ht.1]
        have hent := ht.2
        split_ifs at hent with hign
        · rw [running_trap hent]
          exact ⟨iff_of_false (lt_irrefl 0) (not_not.mpr hign), hn⟩
        · have hone : (TaskEvent.signal .trap).running s t 0 false = 1 := by
            change 0 + (t.entered.length - s.entered.length) = 1
            rw [hent, List.length_cons, Nat.add_sub_cancel_left]
          rw [hone]
          exact ⟨iff_of_true one_pos hign, le_rfl⟩

/-- The slot after an event other than a trap. -/
def slotAfter (slot : Option TrapContext) : SignalEvent → Option TrapContext
  | .sigreturn => none
  | _ => slot

/-- Another signal event changes the slot only if it is the return from a handler. -/
theorem wp_signal_slot {e : SignalEvent} (he : e ≠ .trap) :
    wp e.run (fun _ t ↦ t.entered = s.entered ∧
      t.trapCxBeforeSignal = slotAfter s.trapCxBeforeSignal e) anyPanic s := by
  cases e with
  | trap => exact absurd rfl he
  | send signum => exact ⟨rfl, rfl⟩
  | setMask how set => exact ⟨rfl, rfl⟩
  | user trapCx mem => exact ⟨rfl, rfl⟩
  | setAction signum action =>
    rw [SignalEvent.run, sigaction]
    split_ifs
    · exact ⟨rfl, rfl⟩
    · rw [wp_bind, wp_get]
      cases s.handlers.setAction signum action with
      | none => trivial
      | some handlers => exact ⟨rfl, rfl⟩
  | sigreturn =>
    rw [SignalEvent.run, signalReturn, wp_bind, wp_bind, loadTrapCxIfHandlingSignals, wp_bind,
      wp_get]
    cases hslot : s.trapCxBeforeSignal with
    | none => exact ⟨rfl, hslot⟩
    | some cx => exact ⟨rfl, rfl⟩

/-- An event keeps the slot in step with the handlers exactly if it satisfies `KeepsSlot`; there is
never more than one handler. -/
theorem slotOk_step (h : s.SlotOk n) (hn : n ≤ 1) (hrun : e.run.run s = .ok b t)
    (hexit : t.exited = none) :
    (t.SlotOk (e.running s t n b) ↔ e.KeepsSlot s) ∧ e.running s t n b ≤ 1 := by
  cases e with
  | signal e =>
    by_cases he : e = .trap
    · subst he
      have hwp : wp (TaskEvent.signal .trap).run (fun b t ↦ t.exited = none →
          (t.SlotOk ((TaskEvent.signal .trap).running s t n b) ↔
            (TaskEvent.signal .trap).KeepsSlot s) ∧
          (TaskEvent.signal .trap).running s t n b ≤ 1) noPanic s := by
        rw [TaskEvent.run, wp_map]
        exact wp_trap_slot h hn
      exact wp_ok hwp hrun hexit
    · have hwp : wp (TaskEvent.signal e).run (fun b t ↦ t.entered = s.entered ∧
          t.trapCxBeforeSignal = slotAfter s.trapCxBeforeSignal e) anyPanic s := by
        rw [TaskEvent.run, wp_map]
        exact wp_signal_slot he
      obtain ⟨hent, hslot⟩ := wp_ok hwp hrun
      have hkeeps : (TaskEvent.signal e).KeepsSlot s := by
        cases e with
        | trap => exact absurd rfl he
        | _ => trivial
      -- only the return from a handler empties the slot
      by_cases hret : e = .sigreturn
      · subst hret
        change (t.SlotOk (n - 1) ↔ _) ∧ n - 1 ≤ 1
        refine ⟨iff_of_true ?_ hkeeps, by omega⟩
        rw [SlotOk, hslot, Nat.sub_eq_zero_of_le hn, slotAfter]
        simp
      · have hrunning : (TaskEvent.signal e).running s t n b = n := by
          cases e with
          | sigreturn => exact absurd rfl hret
          | _ =>
            change n + (t.entered.length - s.entered.length) = n
            rw [hent, Nat.sub_self, Nat.add_zero]
        have hslot' : t.trapCxBeforeSignal = s.trapCxBeforeSignal := by
          cases e with
          | sigreturn => exact absurd rfl hret
          | _ => exact hslot
        rw [hrunning]
        refine ⟨iff_of_true ?_ hkeeps, hn⟩
        rw [SlotOk, hslot']
        exact h
  | exec found entry mem =>
    have hwp : wp (TaskEvent.exec found entry mem).run (fun b t ↦
        t.trapCxBeforeSignal = s.trapCxBeforeSignal ∧ b = (found && entry.isSome)) noPanic s := by
      rw [TaskEvent.run, exec.eq_def]
      cases found with
      | false => exact ⟨rfl, rfl⟩
      | true =>
        cases entry with
        | none => exact ⟨rfl, rfl⟩
        | some trapCx => exact ⟨rfl, rfl⟩
    obtain ⟨hslot, rfl⟩ := wp_ok hwp hrun
    cases hb : found && entry.isSome with
    | false =>
      change (t.SlotOk n ↔ _) ∧ n ≤ 1
      refine ⟨iff_of_true ?_ fun hfound hentry ↦ ?_, hn⟩
      · rw [SlotOk, hslot]
        exact h
      · rw [hfound, hentry] at hb
        exact absurd hb (by decide)
    | true =>
      -- the handlers of the old program are gone, but the slot stays as it was
      rw [Bool.and_eq_true] at hb
      change (t.SlotOk 0 ↔ _) ∧ 0 ≤ 1
      refine ⟨?_, Nat.zero_le 1⟩
      rw [SlotOk, hslot, iff_false_right (lt_irrefl 0), Option.not_isSome_iff_eq_none]
      exact ⟨fun hnone _ _ ↦ hnone, fun hkeeps ↦ hkeeps hb.1 hb.2⟩

/-! ## Runs -/

theorem Reached.slotOk (h : Reached TaskEvent.KeepsSlot s n) (hexit : s.exited = none) :
    s.SlotOk n ∧ n ≤ 1 := by
  induction h with
  | start hslot =>
    refine ⟨?_, Nat.zero_le 1⟩
    rw [SlotOk, hslot]
    simp
  | step _ hexit₀ hok hrun ih =>
    obtain ⟨hslot, hn⟩ := ih hexit₀
    obtain ⟨hiff, hle⟩ := slotOk_step hslot hn hrun hexit
    exact ⟨hiff.mpr hok, hle⟩

/-- **The slot is full exactly while a handler runs**, in every run whose events keep it in step
with the handlers, and then while no handler runs a trap acts on whatever signal it takes. The next
event keeps the slot right exactly if it satisfies `KeepsSlot`. -/
theorem slot_iff_running (h : Reached TaskEvent.KeepsSlot s n) (hexit : s.exited = none) :
    (s.trapCxBeforeSignal.isSome ↔ 0 < n) ∧
    (n = 0 → ∀ signum receivers, s.receivers.getOneSignal = some (signum, receivers) →
      wp handleSignals (fun _ t ↦ s.ActedOn t signum) noPanic s) ∧
    ∀ (e : TaskEvent) (b : Bool) (t : SignalTask), e.run.run s = .ok b t → t.exited = none →
      ((t.trapCxBeforeSignal.isSome ↔ 0 < e.running s t n b) ↔ e.KeepsSlot s) := by
  obtain ⟨hslot, hn⟩ := h.slotOk hexit
  refine ⟨hslot, fun hzero signum receivers hget ↦ ?_, fun e b t hrun hexit' ↦
    (slotOk_step hslot hn hrun hexit').1⟩
  have hnone : s.trapCxBeforeSignal = none := by
    rw [SlotOk, hzero, iff_false_right (lt_irrefl 0), Option.not_isSome_iff_eq_none] at hslot
    exact hslot
  obtain ⟨hs, -⟩ := getOneSignal_eq_some hget
  rw [wp_iff_of_run (run_handleSignals_of_some hget)]
  refine wp_imp (wp_handleSignal (s := { s with receivers }) hs hexit) fun _ t ht ↦ ?_
  exact actedOn_receivers.mp (ht.2.mpr (Or.inl hnone))

/-- The slot is full while the handler of a signal runs. -/
theorem slot_iff_running_handler : ∃ s : SignalTask,
    (s.trapCxBeforeSignal.isSome ↔ 0 < 1) ∧ s.trapCxBeforeSignal.isSome := by
  let s := [.setAction 10 ⟨0x1000, 0, 0, 0⟩, .send 10].foldl next new
  have hexit : s.exited = none := by decide +kernel
  have hstart : Reached TaskEvent.KeepsSlot s 0 := .start (by decide +kernel)
  obtain ⟨b, t, hrun, hret⟩ := exists_of_returns (show returns (TaskEvent.signal .trap).run s
    (fun _ t ↦ t.exited.isNone && t.trapCxBeforeSignal.isSome && t.entered.length == 1) = true by
      decide +kernel)
  rw [Bool.and_eq_true, Bool.and_eq_true, Option.isNone_iff_eq_none, beq_iff_eq] at hret
  have hkeeps : (TaskEvent.signal .trap).KeepsSlot s := by
    intro _ signum receivers hget action ha
    have hsignum : s.receivers.getOneSignal.map Prod.fst = some 10 := by decide +kernel
    have haction : (s.handlers.getActionRef 10).join.map SigAction.handler = some 0x1000 := by
      decide +kernel
    rw [hget] at hsignum
    obtain rfl : signum = 10 := Option.some.inj hsignum
    rw [ha] at haction
    rw [show action.handler = 0x1000 from Option.some.inj haction]
    decide
  have hone : (TaskEvent.signal .trap).running s t 0 b = 1 := by
    change 0 + (t.entered.length - s.entered.length) = 1
    rw [hret.2, show s.entered.length = 0 by decide +kernel]
  have hreached := Reached.step hstart hexit hkeeps hrun
  rw [hone] at hreached
  exact ⟨t, (slot_iff_running hreached hret.1.1).1, hret.1.2⟩

/-- A task asks for a signal to be ignored. After the trap that ignores it the slot is full though
no handler runs, and the next signal, which has a handler, is taken and dropped. -/
theorem slot_full_ignored :
    let before := [.setAction 10 ⟨SIG_IGN, 0, 0, 0⟩, .setAction 12 ⟨0x2000, 0, 0, 0⟩, .send 10,
      .trap, .send 12]
    let s := before.foldl next new
    Run (fun _ _ ↦ True) new (trace before new) s ∧
      s.trapCxBeforeSignal.isSome ∧ s.entered = [] ∧ s.exited = none ∧
      s.receivers.Pending 12 ∧ ¬ (s.next .trap).receivers.Pending 12 ∧
      ¬ s.ActedOn (s.next .trap) 12 :=
  ⟨.of_events (by decide +kernel), by decide +kernel, by decide +kernel, by decide +kernel,
    by decide +kernel, by decide +kernel, by decide +kernel⟩

end SignalTask

end Maturin
