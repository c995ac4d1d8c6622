import Maturin.Lib.Throughout
import Maturin.Signal.Calls

/-!
# What `sigaction` returns

The tasks of the kernel have tables of actions, which threads share and a fork copies.
`sys_sigaction` first writes the old action to the user's memory and then reads the new one there.
For a signal that has no action nothing is written, so that the user finds what was in the buffer
before. And the buffer that takes the old action may be the one that has the new action.

Beside each table the model keeps the action that was given last for each signal.
-/

open Exec

namespace Maturin

/-! ## Actions in memory -/

namespace SigAction

variable {self act : SigAction} {addr x : ℕ} {mem : ByteMem}

/-- The words of the action have 64 bits. -/
def Fits (self : SigAction) : Prop := self.handler < 2 ^ 64 ∧ self.restorer < 2 ^ 64

theorem fits_read : (read mem addr).Fits := by
  have hword : (2 ^ 64 : ℕ) = 256 ^ 8 := by norm_num
  rw [Fits, hword]
  exact ⟨ByteMem.load_lt 8 mem addr, ByteMem.load_lt 8 mem (addr + 16)⟩

theorem write_of_notMem (h : x < addr ∨ addr + SIZE ≤ x) : self.write addr mem x = mem x := by
  have hsize : SIZE = 32 := rfl
  rw [write, ByteMem.store_of_notMem (by omega), ByteMem.store_of_notMem (by omega),
    ByteMem.store_of_notMem (by omega), ByteMem.store_of_notMem (by omega)]

/-- What is written is read again. -/
theorem read_write (h : self.Fits) : read (self.write addr mem) addr = self := by
  obtain ⟨handler, flags, restorer, mask⟩ := self
  have hword : (2 ^ 64 : ℕ) = 256 ^ 8 := by norm_num
  rw [Fits, hword] at h
  have hflags : flags.toNat < 256 ^ 8 := hword ▸ flags.isLt
  have hmask : mask.toNat < 256 ^ 8 := hword ▸ mask.isLt
  -- a word is what was stored there, under the words that were stored later
  have hhandler : (write ⟨handler, flags, restorer, mask⟩ addr mem).load 8 addr = handler := by
    rw [write, ByteMem.load_store_of_disjoint (by omega), ByteMem.load_store_of_disjoint (by omega),
      ByteMem.load_store_of_disjoint (by omega), ByteMem.load_store h.1]
  have hflags : (write ⟨handler, flags, restorer, mask⟩ addr mem).load 8 (addr + 8) =
      flags.toNat := by
    rw [write, ByteMem.load_store_of_disjoint (by omega), ByteMem.load_store_of_disjoint (by omega),
      ByteMem.load_store hflags]
  have hrestorer : (write ⟨handler, flags, restorer, mask⟩ addr mem).load 8 (addr + 16) =
      restorer := by
    rw [write, ByteMem.load_store_of_disjoint (by omega), ByteMem.load_store h.2]
  have hmask : (write ⟨handler, flags, restorer, mask⟩ addr mem).load 8 (addr + 24) =
      mask.toNat := by
    rw [write, ByteMem.load_store hmask]
  rw [read, hhandler, hflags, hrestorer, hmask, BitVec.ofNat_toNat, BitVec.ofNat_toNat,
    BitVec.setWidth_eq, BitVec.setWidth_eq]

/-- An action in another buffer is not touched. -/
theorem read_write_of_disjoint {old : ℕ} (h : addr + SIZE ≤ old ∨ old + SIZE ≤ addr) :
    read (act.write old mem) addr = read mem addr := by
  have hsize : SIZE = 32 := rfl
  have hkeep : ∀ k b, addr ≤ b → b + k ≤ addr + 32 →
      (act.write old mem).load k b = mem.load k b := fun k b hle hge ↦
    ByteMem.load_congr fun x hl hr ↦ write_of_notMem (by omega)
  rw [read, read, hkeep 8 addr (by omega) (by omega), hkeep 8 (addr + 8) (by omega) (by omega),
    hkeep 8 (addr + 16) (by omega) (by omega), hkeep 8 (addr + 24) (by omega) (by omega)]

end SigAction

namespace ActionState

variable {s : ActionState} {signum k action : ℕ}

/-- The action that is read is installed for its signal, and for no other. -/
theorem actions_newInstalled (hs : SignalTask.IsSignal signum) (hk : SignalTask.IsSignal k)
    (haction : action ≠ 0) :
    (s.newInstalled signum action).actions[k - 1]? =
      if k = signum then some (some (SigAction.read s.mem action))
      else s.handlers.actions[k - 1]? := by
  have hlt := (wsub_one_lt_iff (hs.2.trans_lt (by norm_num))).mpr hs
  rw [newInstalled, if_neg haction, SignalHandlers.setAction, dif_pos hlt, Option.getD_some,
    Vector.getElem?_set, hs.wsub_eq]
  have hkey : signum - 1 = k - 1 ↔ k = signum := by
    have h1 := hs.1
    have h2 := hk.1
    omega
  simp only [hkey]

end ActionState

/-! ## Tables of actions -/

/-- The tables of the tasks. -/
structure ActionTables where
  /-- The tables, of which the first `next` have been made. -/
  tables : ℕ → SignalHandlers
  next : ℕ
  /-- The table of each task; tasks may share one. -/
  tableOf : ℕ → Option ℕ
  /-- The action that was given last for a signal. No function reads it. -/
  given : ℕ → ℕ → Option SigAction

/-- What happens to the tables. -/
inductive TableEvent
  /-- A task calls `sys_sigaction` when its memory is as given. -/
  | sigaction (task : ℕ) (alloc : ℕ → Bool) (mem : ByteMem) (signum action oldAction : ℕ)
  /-- `from_clone`, with `CLONE_SIGHAND` or not -/
  | clone (task child : ℕ) (sighand : Bool)
  /-- `exec`, where the program is found or not -/
  | exec (task : ℕ) (found : Bool)
  /-- `from_app_name` -/
  | create (task : ℕ)

namespace ActionTables

/-- When the kernel begins there is no task. -/
def boot : ActionTables := ⟨fun _ ↦ .new, 0, fun _ ↦ none, fun _ _ ↦ none⟩

/-- The result of a call, and the state after it; `none` if it panics. -/
def call (s : ActionTables) (table : ℕ) (alloc : ℕ → Bool) (mem : ByteMem)
    (signum action oldAction : ℕ) : Option (Except ErrorNo ℕ × ActionState) :=
  match (ActionState.sysSigaction alloc signum action oldAction).run ⟨s.tables table, mem⟩ with
  | .ok r t => some (r, t)
  | .error _ _ => none

/-- A table that no task has yet, for a task -/
def addTable (s : ActionTables) (task : ℕ) (handlers : SignalHandlers)
    (given : ℕ → Option SigAction) : ActionTables where
  tables := Function.update s.tables s.next handlers
  next := s.next + 1
  tableOf := Function.update s.tableOf task (some s.next)
  given := Function.update s.given s.next given

def step (s : ActionTables) : TableEvent → ActionTables
  | .sigaction task alloc mem signum action oldAction =>
    match s.tableOf task with
    | none => s
    | some table =>
      match s.call table alloc mem signum action oldAction with
      | none => s
      | some (r, t) => { s with
          tables := Function.update s.tables table t.handlers
          given := match r with
            | .ok _ => if action = 0 then s.given
              else Function.update s.given table
                (Function.update (s.given table) signum (some (SigAction.read mem action)))
            | .error _ => s.given }
  | .clone task child sighand =>
    match s.tableOf task with
    | none => s
    | some table =>
      if sighand then { s with tableOf := Function.update s.tableOf child (some table) }
      else s.addTable child (s.tables table) (s.given table)
  | .exec task found =>
    match s.tableOf task with
    | none => s
    | some table =>
      if found then { s with
        tables := Function.update s.tables table (s.tables table).clear
        given := Function.update s.given table fun _ ↦ none }
      else s
  | .create task => s.addTable task .new fun _ ↦ none

/-- The number is that of a signal. -/
def Accepts (_s : ActionTables) : TableEvent → Prop
  | .sigaction _ _ _ signum _ _ => SignalTask.IsSignal signum
  | _ => True

/-- The action read in the buffer is the one that was given, or asks for the default. -/
def Reports (given : Option SigAction) (old : SigAction) : Prop :=
  match given with
  | some action => old = action
  | none => old.handler = SIG_DFL

/-- A call comes back. One that does not fail returns what was given last for the signal, and
installs what it is given itself; one that fails leaves the table alone. -/
def ReturnsGiven (s : ActionTables) : TableEvent → Prop
  | .sigaction task alloc mem signum action oldAction => ∀ table, s.tableOf task = some table →
      ∃ r t, s.call table alloc mem signum action oldAction = some (r, t) ∧
        match r with
        | .ok _ =>
          (oldAction ≠ 0 → Reports (s.given table signum) (SigAction.read t.mem oldAction)) ∧
          (action ≠ 0 → t.handlers.actions[signum - 1]? = some (some (SigAction.read mem action)))
        | .error _ => t.handlers = s.tables table
  | _ => True

/-- The call is not refused. -/
def Succeeds (alloc : ℕ → Bool) (signum action oldAction : ℕ) : Prop :=
  ¬ (signum = SignalNo.SIGKILL.val ∨ signum = SignalNo.SIGSTOP.val) ∧
    ¬ (oldAction ≠ 0 ∧ ActionState.validAddr alloc oldAction = false) ∧
    ¬ (action ≠ 0 ∧ ActionState.validAddr alloc action = false)

/-- Where the old action is asked for, one was given or the buffer asks for the default already; and
the new action is not lost where the old one is written. -/
def BuffersFit (s : ActionTables) : TableEvent → Prop
  | .sigaction task alloc mem signum action oldAction => ∀ table, s.tableOf task = some table →
      Succeeds alloc signum action oldAction → oldAction ≠ 0 →
        match s.given table signum with
        | none => (SigAction.read mem oldAction).handler = SIG_DFL
        | some act => action ≠ 0 →
          SigAction.read (act.write oldAction mem) action = SigAction.read mem action
  | _ => True

variable {s : ActionTables} {e : TableEvent} {task table signum action oldAction : ℕ}
  {alloc : ℕ → Bool} {mem : ByteMem}

/-! ## One call -/

theorem call_of_succeeds (hs : SignalTask.IsSignal signum)
    (h : Succeeds alloc signum action oldAction) :
    s.call table alloc mem signum action oldAction =
      let t : ActionState :=
        ⟨s.tables table, ActionState.oldWritten ⟨s.tables table, mem⟩ signum oldAction⟩
      some (.ok 0, { t with handlers := t.newInstalled signum action }) := by
  obtain ⟨hkill, hold, hnew⟩ := h
  rw [call, ActionState.run_sysSigaction hs hkill hold]
  dsimp only
  rw [if_neg hnew]

/-- What is refused is refused before the table is written. -/
theorem call_of_not_succeeds (hs : SignalTask.IsSignal signum)
    (h : ¬ Succeeds alloc signum action oldAction) :
    ∃ t, s.call table alloc mem signum action oldAction = some (.error .EINVAL, t) ∧
      t.handlers = s.tables table := by
  by_cases hkill : signum = SignalNo.SIGKILL.val ∨ signum = SignalNo.SIGSTOP.val
  · refine ⟨⟨s.tables table, mem⟩, ?_, rfl⟩
    rw [call, ActionState.sysSigaction, if_pos hkill]
    rfl
  by_cases hold : oldAction ≠ 0 ∧ ActionState.validAddr alloc oldAction = false
  · refine ⟨⟨s.tables table, mem⟩, ?_, rfl⟩
    rw [call, ActionState.sysSigaction, if_neg hkill, if_pos hold]
    rfl
  have hnew : action ≠ 0 ∧ ActionState.validAddr alloc action = false := by
    by_contra hnew
    exact h ⟨hkill, hold, hnew⟩
  rw [call, ActionState.run_sysSigaction hs hkill hold]
  dsimp only
  rw [if_pos hnew]
  exact ⟨_, rfl, rfl⟩

/-- Each table holds what was given for it. -/
structure Recorded (s : ActionTables) : Prop where
  holds : ∀ table signum, SignalTask.IsSignal signum →
    (s.tables table).actions[signum - 1]? = some (s.given table signum)
  fits : ∀ table signum act, s.given table signum = some act → act.Fits

theorem recorded_boot : Recorded boot := by
  refine ⟨fun table signum hs ↦ ?_, fun _ _ _ h ↦ by cases h⟩
  have hlt : signum - 1 < 64 := by
    have := hs.2
    omega
  rw [boot, SignalHandlers.new, Vector.getElem?_replicate, if_pos hlt]

namespace Recorded

/-- The old action is written if one was given. -/
theorem oldWritten_eq (h : s.Recorded) (hs : SignalTask.IsSignal signum) (hold : oldAction ≠ 0) :
    ActionState.oldWritten ⟨s.tables table, mem⟩ signum oldAction =
      match s.given table signum with
      | some act => act.write oldAction mem
      | none => mem := by
  rw [ActionState.oldWritten, if_neg hold, hs.wsub_eq, h.holds table signum hs]
  cases s.given table signum <;> rfl

/-- What a call returns and installs is right if the buffers fit. -/
theorem returnsGiven_iff (h : s.Recorded) (he : s.Accepts e) :
    s.ReturnsGiven e ↔ s.BuffersFit e := by
  cases e with
  | sigaction task alloc mem signum action oldAction =>
    have hs : SignalTask.IsSignal signum := he
    rw [ReturnsGiven, BuffersFit]
    refine forall₂_congr fun table _ ↦ ?_
    by_cases hok : Succeeds alloc signum action oldAction
    · rw [call_of_succeeds hs hok, imp_iff_right hok]
      by_cases hold : oldAction = 0
      · refine iff_of_true ⟨_, _, rfl, fun hne ↦ absurd hold hne, fun hnew ↦ ?_⟩ (absurd hold)
        rw [ActionState.actions_newInstalled hs hs hnew, if_pos rfl, ActionState.oldWritten,
          if_pos hold]
      rw [imp_iff_right hold, h.oldWritten_eq hs hold]
      cases hgiven : s.given table signum with
      | none =>
        constructor
        · rintro ⟨_, _, hcall, hret⟩
          cases hcall
          exact hret.1 hold
        · refine fun hdfl ↦ ⟨_, _, rfl, fun _ ↦ hdfl, fun hnew ↦ ?_⟩
          rw [ActionState.actions_newInstalled hs hs hnew, if_pos rfl]
      | some act =>
        -- the action is read back as it was given, since its fields fit
        have hback : SigAction.read (act.write oldAction mem) oldAction = act :=
          SigAction.read_write (h.fits table signum act hgiven)
        constructor
        · rintro ⟨_, _, hcall, hret⟩ hnew
          cases hcall
          -- what is installed is read after the old action is written
          have hset := hret.2 hnew
          rw [ActionState.actions_newInstalled hs hs hnew, if_pos rfl] at hset
          exact Option.some.inj (Option.some.inj hset)
        · refine fun hfit ↦ ⟨_, _, rfl, fun _ ↦ hback, fun hnew ↦ ?_⟩
          rw [ActionState.actions_newInstalled hs hs hnew, if_pos rfl]
          exact congrArg (some ∘ some) (hfit hnew)
    · obtain ⟨t, hcall, ht⟩ := call_of_not_succeeds (s := s) hs hok
      exact iff_of_true ⟨_, t, hcall, ht⟩ fun hok' ↦ absurd hok' hok
  | clone task child sighand => exact Iff.rfl
  | exec task found => exact Iff.rfl
  | create task => exact Iff.rfl

/-- One table is written, and what was given for it. -/
theorem update (h : s.Recorded) {s' : ActionTables} {handlers : SignalHandlers}
    {given : ℕ → Option SigAction} (htables : s'.tables = Function.update s.tables table handlers)
    (hgiven : s'.given = Function.update s.given table given)
    (hholds : ∀ signum, SignalTask.IsSignal signum →
      handlers.actions[signum - 1]? = some (given signum))
    (hfits : ∀ signum act, given signum = some act → act.Fits) : s'.Recorded := by
  refine ⟨fun t signum hs ↦ ?_, fun t signum act hact ↦ ?_⟩
  · rw [htables, hgiven]
    by_cases ht : t = table
    · rw [ht, Function.update_self, Function.update_self]
      exact hholds signum hs
    · rw [Function.update_of_ne ht, Function.update_of_ne ht]
      exact h.holds t signum hs
  · rw [hgiven] at hact
    by_cases ht : t = table
    · rw [ht, Function.update_self] at hact
      exact hfits signum act hact
    · rw [Function.update_of_ne ht] at hact
      exact h.fits t signum act hact

/-- A table of which only the tasks change -/
theorem of_eq (h : s.Recorded) {s' : ActionTables} (htables : s'.tables = s.tables)
    (hgiven : s'.given = s.given) : s'.Recorded := by
  refine ⟨fun t signum hs ↦ ?_, fun t signum act hact ↦ ?_⟩
  · rw [htables, hgiven]
    exact h.holds t signum hs
  · rw [hgiven] at hact
    exact h.fits t signum act hact

/-- A table without actions, for which nothing was given -/
theorem update_clear (h : s.Recorded) {s' : ActionTables}
    (htables : s'.tables = Function.update s.tables table .new)
    (hgiven : s'.given = Function.update s.given table fun _ ↦ none) : s'.Recorded :=
  h.update htables hgiven (fun signum hs ↦ recorded_boot.holds 0 signum hs)
    fun _ _ hnone ↦ by cases hnone

theorem step_sigaction (h : s.Recorded) (hs : SignalTask.IsSignal signum)
    (hfit : s.BuffersFit (.sigaction task alloc mem signum action oldAction)) :
    (s.step (.sigaction task alloc mem signum action oldAction)).Recorded := by
  have he : s.Accepts (.sigaction task alloc mem signum action oldAction) := hs
  have hreturns := (h.returnsGiven_iff he).mpr hfit
  rw [step]
  cases htable : s.tableOf task with
  | none => exact h
  | some table =>
    dsimp only
    obtain ⟨r, t, hcall, hret⟩ := hreturns table htable
    by_cases hok : Succeeds alloc signum action oldAction
    · rw [call_of_succeeds hs hok] at hcall ⊢
      cases hcall
      dsimp only at hret ⊢
      by_cases hnew : action = 0
      · -- nothing is given
        refine h.of_eq ?_ (if_pos hnew)
        rw [ActionState.newInstalled, if_pos hnew]
        exact Function.update_eq_self table s.tables
      · refine h.update rfl (if_neg hnew) (fun k hk ↦ ?_) (fun k act hact ↦ ?_)
        · by_cases hkey : k = signum
          · rw [hkey, Function.update_self]
            exact hret.2 hnew
          · rw [Function.update_of_ne hkey, ActionState.actions_newInstalled hs hk hnew,
              if_neg hkey]
            exact h.holds table k hk
        · by_cases hkey : k = signum
          · rw [hkey, Function.update_self] at hact
            rw [← Option.some.inj hact]
            exact SigAction.fits_read
          · rw [Function.update_of_ne hkey] at hact
            exact h.fits table k act hact
    · obtain ⟨t', hcall', ht⟩ := call_of_not_succeeds (s := s) hs hok
      rw [hcall']
      dsimp only
      refine h.of_eq ?_ rfl
      rw [ht]
      exact Function.update_eq_self table s.tables

/-- What a step gives and installs is recorded, if the buffers fit. -/
theorem step (h : s.Recorded) (he : s.Accepts e) (hfit : s.BuffersFit e) : (s.step e).Recorded := by
  cases e with
  | sigaction task alloc mem signum action oldAction => exact h.step_sigaction he hfit
  | clone task child sighand =>
    rw [ActionTables.step]
    cases htable : s.tableOf task with
    | none => exact h
    | some table =>
      dsimp only
      cases sighand with
      | true => exact h.of_eq rfl rfl
      | false =>
        exact h.update rfl rfl (h.holds table) (h.fits table)
  | exec task found =>
    rw [ActionTables.step]
    cases htable : s.tableOf task with
    | none => exact h
    | some table =>
      dsimp only
      cases found with
      | true => exact h.update_clear rfl rfl
      | false => exact h
  | create task => exact h.update_clear rfl rfl

end Recorded

/-- **What `sigaction` returns.** In every run, each call returns what was given last for the signal
if and only if the buffers fit. -/
theorem sigaction_returns_given_iff (events : List TableEvent)
    (hvalid : Throughout step Accepts boot events) :
    Throughout step ReturnsGiven boot events ↔ Throughout step BuffersFit boot events :=
  Throughout.iff hvalid recorded_boot (fun _ _ h he ↦ h.returnsGiven_iff he)
    fun _ _ h he hfit ↦ h.step he hfit

/-! ## A buffer with something in it -/

/-- An action at `0x1000`, whose handler is at `0x100` -/
def handlerBuffer : ByteMem := fun x ↦ if x = 0x1001 then 1 else 0

/-- The action is given and asked for, with a buffer that was clear. -/
theorem sigaction_returns_given_clear :
    Throughout step ReturnsGiven boot
      [.create 1, .sigaction 1 (fun _ ↦ true) handlerBuffer 10 0x1000 0, .clone 1 2 false,
        .sigaction 2 (fun _ ↦ true) handlerBuffer 10 0 0x2000] := by
  apply (sigaction_returns_given_iff _ ?_).mpr
  · refine ⟨trivial, fun _ _ _ hold ↦ absurd rfl hold, trivial, fun table _ _ _ ↦ ?_, trivial⟩
    split
    · decide +kernel
    · exact fun hnew ↦ absurd rfl hnew
  · have hs : SignalTask.IsSignal 10 := ⟨by decide, by decide⟩
    exact ⟨trivial, hs, trivial, hs, trivial⟩

/-- No action was given, and the call returns the handler that was in the buffer. -/
theorem sigaction_returns_buffer :
    let events : List TableEvent :=
      [.create 1, .sigaction 1 (fun _ ↦ true) handlerBuffer 10 0 0x1000]
    Throughout step Accepts boot events ∧ ¬ Throughout step ReturnsGiven boot events := by
  have hs : SignalTask.IsSignal 10 := ⟨by decide, by decide⟩
  refine ⟨⟨trivial, hs, trivial⟩, ?_⟩
  rintro ⟨-, hreturns, -⟩
  obtain ⟨r, t, hcall, hret⟩ := hreturns 0 rfl
  have hrun : ((boot.step (.create 1)).call 0 (fun _ ↦ true) handlerBuffer 10 0 0x1000).map
      (fun out ↦ (out.1, (SigAction.read out.2.mem 0x1000).handler)) = some (.ok 0, 0x100) := by
    decide +kernel
  rw [hcall, Option.map_some] at hrun
  obtain ⟨hr, hhandler⟩ := Prod.mk.inj (Option.some.inj hrun)
  dsimp only at hr hhandler
  rw [hr] at hret
  have hdfl : (SigAction.read t.mem 0x1000).handler = SIG_DFL := hret.1 (by decide)
  rw [hhandler] at hdfl
  exact absurd hdfl (by decide)

end ActionTables

end Maturin
