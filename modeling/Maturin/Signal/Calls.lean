import Maturin.Signal.Delivery

/-!
# Signal numbers from user space

`sys_kill`, `sys_tkill` and `sys_sigaction` hand a number of the user to tables and shifts that have
room for the signals 1 to 64. `sys_kill` refuses numbers that are not positive, `sys_tkill` refuses
none, and `sys_sigaction` refuses two signals that have no handlers. What is sent comes out of the
set of pending signals at a trap of the receiver, as one of the 64.
-/

open Exec

namespace Maturin

/-! ## Sending -/

/-- A signed number as a `usize` -/
def asUsize (n : ℤ) : ℕ := (BitVec.ofInt 64 n).toNat

/-- What the calls that send signals work on. -/
structure TidSignals where
  /-- `TID2SIGNALS`; the receivers are named by the task that they belong to. -/
  tid2signals : ℕ → Option ℕ
  receivers : ℕ → SignalReceivers

namespace TidSignals

/-- `send_signal` -/
def sendSignal (tid signum : ℕ) : EStateM Panic TidSignals Unit :=
  modify fun s ↦
    match s.tid2signals tid with
    | some task =>
      { s with receivers := Function.update s.receivers task ((s.receivers task).tryAddBit signum) }
    | none => s

def sysKill (pid signalId : ℤ) : EStateM Panic TidSignals (Except ErrorNo ℕ) := do
  if 0 < pid ∧ 0 < signalId then
    sendSignal (asUsize pid) (asUsize signalId)
    pure (.ok 0)
  else if pid = 0 then pure (.error .ESRCH)
  else pure (.error .EINVAL)

def sysTkill (tid signalId : ℤ) : EStateM Panic TidSignals (Except ErrorNo ℕ) := do
  if 0 < tid then
    sendSignal (asUsize tid) (asUsize signalId)
    pure (.ok 0)
  else pure (.error .EINVAL)

end TidSignals

/-! ## Actions in memory -/

namespace SigAction

/-- `size_of::<SigAction>()` -/
abbrev SIZE : ℕ := 32

/-- The action at an address -/
def read (mem : ByteMem) (addr : ℕ) : SigAction where
  handler := mem.load 8 addr
  flags := BitVec.ofNat 64 (mem.load 8 (addr + 8))
  restorer := mem.load 8 (addr + 16)
  mask := BitVec.ofNat 64 (mem.load 8 (addr + 24))

def write (self : SigAction) (addr : ℕ) (mem : ByteMem) : ByteMem :=
  ByteMem.store 8 (addr + 24) self.mask.toNat (ByteMem.store 8 (addr + 16) self.restorer
    (ByteMem.store 8 (addr + 8) self.flags.toNat (ByteMem.store 8 addr self.handler mem)))

end SigAction

/-- What `sys_sigaction` works on: the handlers of the task, and its memory. -/
structure ActionState where
  handlers : SignalHandlers
  mem : ByteMem

namespace ActionState

/-- `get_action`, which writes nothing if there is no action. -/
def getAction (signum actionPos : ℕ) : EStateM Panic ActionState Unit := do
  let s ← get
  match s.handlers.actions[wsub signum 1]? with
  | some (some action) => set { s with mem := action.write actionPos s.mem }
  | some none => pure ()
  | none => throw .indexOutOfBounds

/-- `set_action` -/
def setAction (signum actionPos : ℕ) : EStateM Panic ActionState Unit := do
  let s ← get
  match s.handlers.setAction signum (SigAction.read s.mem actionPos) with
  | some handlers => set { s with handlers }
  | none => throw .indexOutOfBounds

/-- `manually_alloc_page` succeeds for the first and the last byte of an action at the address. -/
def validAddr (alloc : ℕ → Bool) (addr : ℕ) : Bool :=
  alloc addr && alloc (wsub (wadd addr SigAction.SIZE) 1)

/-- `alloc` says for which addresses `manually_alloc_page` succeeds. -/
def sysSigaction (alloc : ℕ → Bool) (signum action oldAction : ℕ) :
    EStateM Panic ActionState (Except ErrorNo ℕ) := do
  if signum = SignalNo.SIGKILL.val ∨ signum = SignalNo.SIGSTOP.val then pure (.error .EINVAL)
  else if oldAction ≠ 0 ∧ validAddr alloc oldAction = false then pure (.error .EINVAL)
  else
    let _ ← (if oldAction ≠ 0 then getAction signum oldAction else pure ())
    if action ≠ 0 ∧ validAddr alloc action = false then pure (.error .EINVAL)
    else
      let _ ← (if action ≠ 0 then setAction signum action else pure ())
      pure (.ok 0)

end ActionState

/-! ## Safe numbers -/

variable {σ : Type} {num pid tid signalId : ℤ} {alloc : ℕ → Bool} {signum action oldAction : ℕ}

/-- The call never panics, and refuses a number that is no signal: it returns an error and changes
nothing. -/
structure NumberSafe (num : ℤ) (x : EStateM Panic σ (Except ErrorNo ℕ)) : Prop where
  returns : ∀ s, ∃ r t, x.run s = .ok r t
  refuses : ¬ (1 ≤ num ∧ num ≤ 64) → ∀ s, ∃ e, x.run s = .ok (.error e) s

/-- A call that is refused at once is safe with every number. -/
theorem numberSafe_error (e : ErrorNo) :
    NumberSafe num (pure (.error e) : EStateM Panic σ (Except ErrorNo ℕ)) :=
  ⟨fun _ ↦ ⟨_, _, rfl⟩, fun _ _ ↦ ⟨_, rfl⟩⟩

/-- A call that is never refused is safe with the numbers of the signals. -/
theorem numberSafe_iff_of_ok [Nonempty σ] {x : EStateM Panic σ (Except ErrorNo ℕ)}
    (h : ∀ s, ∃ n t, x.run s = .ok (.ok n) t) : NumberSafe num x ↔ 1 ≤ num ∧ num ≤ 64 := by
  constructor
  · intro hsafe
    by_contra hnum
    obtain ⟨s⟩ := ‹Nonempty σ›
    obtain ⟨e, he⟩ := hsafe.refuses hnum s
    obtain ⟨n, t, hrun⟩ := h s
    rw [hrun] at he
    cases he
  · refine fun hnum ↦ ⟨fun s ↦ ?_, fun hnot ↦ absurd hnum hnot⟩
    obtain ⟨n, t, hrun⟩ := h s
    exact ⟨.ok n, t, hrun⟩

namespace TidSignals

instance : Nonempty TidSignals := ⟨⟨fun _ ↦ none, fun _ ↦ .new⟩⟩

theorem sysKill_safe_iff :
    NumberSafe signalId (sysKill pid signalId) ↔
      (1 ≤ signalId ∧ signalId ≤ 64) ∨ pid ≤ 0 ∨ signalId ≤ 0 := by
  rw [sysKill]
  split_ifs with hsend
  · refine (numberSafe_iff_of_ok fun s ↦ ⟨0, _, rfl⟩).trans ?_
    omega
  · exact iff_of_true (numberSafe_error _) (by omega)
  · exact iff_of_true (numberSafe_error _) (by omega)

theorem sysTkill_safe_iff :
    NumberSafe signalId (sysTkill tid signalId) ↔
      (1 ≤ signalId ∧ signalId ≤ 64) ∨ tid ≤ 0 := by
  rw [sysTkill]
  split_ifs with hsend
  · refine (numberSafe_iff_of_ok fun s ↦ ⟨0, _, rfl⟩).trans ?_
    omega
  · exact iff_of_true (numberSafe_error _) (by omega)

end TidSignals

namespace ActionState

/-- The index is one of the table for the numbers of the signals. -/
theorem wsub_one_lt_iff (hlt : signum < 2 ^ 64) :
    wsub signum 1 < 64 ↔ SignalTask.IsSignal signum := by
  rw [SignalTask.IsSignal]
  rcases Nat.eq_zero_or_pos signum with rfl | hpos
  · exact iff_of_false (by decide) (by omega)
  · rw [wsub_of_le hpos hlt]
    omega

/-- The memory after the old action was written, if it is asked for and there is one. -/
def oldWritten (s : ActionState) (signum oldAction : ℕ) : ByteMem :=
  if oldAction = 0 then s.mem
  else match (s.handlers.actions[wsub signum 1]?).join with
    | some action => action.write oldAction s.mem
    | none => s.mem

/-- The handlers after the new action was read and installed, if there is one. -/
def newInstalled (s : ActionState) (signum action : ℕ) : SignalHandlers :=
  if action = 0 then s.handlers
  else (s.handlers.setAction signum (SigAction.read s.mem action)).getD s.handlers

theorem run_getAction (hs : SignalTask.IsSignal signum) (s : ActionState) :
    (if oldAction ≠ 0 then getAction signum oldAction else pure ()).run s =
      .ok () { s with mem := s.oldWritten signum oldAction } := by
  rw [oldWritten]
  by_cases hold : oldAction = 0
  · rw [if_neg (not_not.mpr hold), if_pos hold]
    rfl
  rw [if_pos hold, if_neg hold, getAction, run_get_bind]
  have hlt := (wsub_one_lt_iff (hs.2.trans_lt (by norm_num))).mpr hs
  rw [Vector.getElem?_eq_getElem hlt, Option.join_some]
  cases s.handlers.actions[wsub signum 1] with
  | none => rfl
  | some act => rfl

theorem run_setAction (hs : SignalTask.IsSignal signum) (s : ActionState) :
    (if action ≠ 0 then setAction signum action else pure ()).run s =
      .ok () { s with handlers := s.newInstalled signum action } := by
  rw [newInstalled]
  by_cases haction : action = 0
  · rw [if_neg (not_not.mpr haction), if_pos haction]
    rfl
  have hlt := (wsub_one_lt_iff (hs.2.trans_lt (by norm_num))).mpr hs
  rw [if_pos haction, if_neg haction, setAction, run_get_bind, SignalHandlers.setAction,
    dif_pos hlt]
  rfl

/-- A number that is no signal is an index out of bounds. -/
theorem run_getAction_of_not (hlt : signum < 2 ^ 64) (hs : ¬ SignalTask.IsSignal signum)
    (s : ActionState) : (getAction signum oldAction).run s = .error .indexOutOfBounds s := by
  have hge := Nat.le_of_not_lt (mt (wsub_one_lt_iff hlt).mp hs)
  rw [getAction, run_get_bind, Vector.getElem?_eq_none hge]
  rfl

theorem run_setAction_of_not (hlt : signum < 2 ^ 64) (hs : ¬ SignalTask.IsSignal signum)
    (s : ActionState) : (setAction signum action).run s = .error .indexOutOfBounds s := by
  rw [setAction, run_get_bind, SignalHandlers.setAction,
    dif_neg (mt (wsub_one_lt_iff hlt).mp hs)]
  rfl

/-- The first address that is given is refused. -/
def FirstRefused (alloc : ℕ → Bool) (action oldAction : ℕ) : Prop :=
  (oldAction ≠ 0 ∧ validAddr alloc oldAction = false) ∨
    (oldAction = 0 ∧ action ≠ 0 ∧ validAddr alloc action = false)

/-- What the call does with the number of a signal that can have a handler, if the address for the
old action is not refused. -/
theorem run_sysSigaction (hs : SignalTask.IsSignal signum)
    (hkill : ¬ (signum = SignalNo.SIGKILL.val ∨ signum = SignalNo.SIGSTOP.val))
    (hold : ¬ (oldAction ≠ 0 ∧ validAddr alloc oldAction = false)) (s : ActionState) :
    (sysSigaction alloc signum action oldAction).run s =
      let t := { s with mem := s.oldWritten signum oldAction }
      if action ≠ 0 ∧ validAddr alloc action = false then .ok (.error .EINVAL) t
      else .ok (.ok 0) { t with handlers := t.newInstalled signum action } := by
  rw [sysSigaction, if_neg hkill, if_neg hold, run_bind_of_ok (run_getAction hs s)]
  dsimp only
  by_cases haction : action ≠ 0 ∧ validAddr alloc action = false
  · rw [if_pos haction, if_pos haction]
    rfl
  · rw [if_neg haction, if_neg haction, run_bind_of_ok (run_setAction hs _)]
    rfl

theorem sysSigaction_safe_iff (hlt : signum < 2 ^ 64) :
    NumberSafe signum (sysSigaction alloc signum action oldAction) ↔
      SignalTask.IsSignal signum ∨ FirstRefused alloc action oldAction := by
  by_cases hkill : signum = SignalNo.SIGKILL.val ∨ signum = SignalNo.SIGSTOP.val
  · have hs : SignalTask.IsSignal signum := by
      rcases hkill with rfl | rfl
      · exact ⟨by decide, by decide⟩
      · exact ⟨by decide, by decide⟩
    refine iff_of_true ?_ (Or.inl hs)
    rw [sysSigaction, if_pos hkill]
    exact numberSafe_error _
  by_cases hold : oldAction ≠ 0 ∧ validAddr alloc oldAction = false
  · refine iff_of_true ?_ (Or.inr (Or.inl hold))
    rw [sysSigaction, if_neg hkill, if_pos hold]
    exact numberSafe_error _
  by_cases hs : SignalTask.IsSignal signum
  · refine iff_of_true ⟨fun s ↦ ?_, fun hnum ↦ ?_⟩ (Or.inl hs)
    · rw [run_sysSigaction hs hkill hold]
      dsimp only
      split_ifs
      · exact ⟨_, _, rfl⟩
      · exact ⟨_, _, rfl⟩
    · rw [SignalTask.IsSignal] at hs
      omega
  have hnum : ¬ (1 ≤ (signum : ℤ) ∧ (signum : ℤ) ≤ 64) := by
    rw [SignalTask.IsSignal] at hs
    omega
  obtain ⟨s⟩ : Nonempty ActionState := ⟨⟨.new, fun _ ↦ 0⟩⟩
  rw [or_iff_right hs, FirstRefused, or_iff_right hold, sysSigaction, if_neg hkill, if_neg hold]
  -- what is not refused at once is an index out of bounds, or comes back without an error
  by_cases hnew : oldAction = 0 ∧ action ≠ 0 ∧ validAddr alloc action = false
  · refine iff_of_true ?_ hnew
    rw [if_neg (not_not.mpr hnew.1), if_pos hnew.2, pure_bind]
    exact numberSafe_error _
  · refine iff_of_false (fun h ↦ ?_) hnew
    obtain ⟨e, he⟩ := h.refuses hnum s
    by_cases hzero : oldAction = 0
    · have haction : ¬ (action ≠ 0 ∧ validAddr alloc action = false) := fun h ↦ hnew ⟨hzero, h⟩
      rw [if_neg (not_not.mpr hzero), if_neg haction, pure_bind] at he
      by_cases hset : action = 0
      · rw [if_neg (not_not.mpr hset)] at he
        cases he
      · rw [if_pos hset, run_bind_of_error (run_setAction_of_not hlt hs s)] at he
        cases he
    · rw [if_pos hzero, run_bind_of_error (run_getAction_of_not hlt hs s)] at he
      cases he

end ActionState

/-! ## Later traps -/

namespace SignalTask

attribute [local irreducible] wsub

theorem handleByAction_returns (action : Option SigAction) (s : SignalTask) :
    wp (handleByAction signum action) (fun _ _ ↦ True) noPanic s := by
  cases action with
  | some action =>
    rw [handleByAction]
    split_ifs
    · trivial
    · exact wp_imp wp_enterHandler fun _ _ _ ↦ trivial
  | none =>
    rw [handleByAction, handleByDefault]
    cases SigActionDefault.ofSignal (SignalNo.ofUsize signum) with
    | terminate => trivial
    | ignore =>
      dsimp only
      rw [loadTrapCxIfHandlingSignals, wp_bind, wp_bind, wp_get]
      split
      · trivial
      · trivial

/-- No trap panics, whatever is pending, masked and installed: what it takes is a signal. -/
theorem handleSignals_returns (s : SignalTask) :
    wp handleSignals (fun _ _ ↦ True) noPanic s := by
  cases hget : s.receivers.getOneSignal with
  | none =>
    rw [wp, run_handleSignals_of_none hget]
    trivial
  | some taken =>
    obtain ⟨signum, receivers⟩ := taken
    obtain ⟨hs, -⟩ := getOneSignal_eq_some hget
    rw [wp_iff_of_run (run_handleSignals_of_some hget)]
    obtain ⟨u, hu⟩ : ∃ u : SignalTask, { s with receivers } = u := ⟨_, rfl⟩
    rw [hu]
    cases hslot : u.trapCxBeforeSignal with
    | some cx =>
      rw [wp_iff_of_run (run_handleSignal_of_some hslot)]
      split_ifs
      · trivial
      · trivial
    | none =>
      obtain ⟨action, ha⟩ := exists_getActionRef u.handlers hs
      rw [wp_iff_of_run (run_handleSignal_of_none hslot ha)]
      exact handleByAction_returns action _

end SignalTask

/-- **Which numbers are safe.** -/
theorem signal_numbers_safe_iff (pid tid signalId : ℤ) (alloc : ℕ → Bool) (signum : BitVec 64)
    (action oldAction : ℕ) (s : SignalTask) :
    (NumberSafe signalId (TidSignals.sysKill pid signalId) ↔
      (1 ≤ signalId ∧ signalId ≤ 64) ∨ pid ≤ 0 ∨ signalId ≤ 0) ∧
    (NumberSafe signalId (TidSignals.sysTkill tid signalId) ↔
      (1 ≤ signalId ∧ signalId ≤ 64) ∨ tid ≤ 0) ∧
    (NumberSafe signum.toNat (ActionState.sysSigaction alloc signum.toNat action oldAction) ↔
      (1 ≤ signum.toNat ∧ signum.toNat ≤ 64) ∨
        ActionState.FirstRefused alloc action oldAction) ∧
    wp SignalTask.handleSignals (fun _ _ ↦ True) noPanic s :=
  ⟨TidSignals.sysKill_safe_iff, TidSignals.sysTkill_safe_iff,
    ActionState.sysSigaction_safe_iff signum.isLt, SignalTask.handleSignals_returns s⟩

/-! ## A number that is no signal -/

/-- Signal 65 is sent, and signal 1 becomes pending. The number 0 is an index out of bounds. -/
theorem signal_numbers_unsafe :
    returns (TidSignals.sysKill 7 65) ⟨fun tid ↦ if tid = 7 then some 0 else none, fun _ ↦ .new⟩
      (fun r s ↦ decide (r = .ok 0) && decide ((s.receivers 0).Pending 1)) = true ∧
    panicOf (ActionState.sysSigaction (fun _ ↦ true) 0 0x1000 0) ⟨.new, fun _ ↦ 0⟩ =
      some .indexOutOfBounds ∧
    ¬ NumberSafe 65 (TidSignals.sysKill 7 65) := by
  refine ⟨by decide +kernel, by decide +kernel, fun h ↦ ?_⟩
  obtain ⟨e, he⟩ := h.refuses (by decide) ⟨fun _ ↦ none, fun _ ↦ .new⟩
  cases he

end Maturin
