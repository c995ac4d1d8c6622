import Maturin.Base.Error
import Maturin.Signal.Slot

/-!
# Returning from a handler

A handler returns in one of two ways. With a restorer it goes to user code that makes the system
call `sigreturn`; without one it goes to `SIGNAL_RETURN_TRAP`, where there is nothing to execute,
and the page fault is taken for the call. Either way `signal_return` puts the interrupted context
back and returns its `a0`, which is then written to `a0` once more.

## The value that is taken for an error

On the way of the system call the `a0` passes through `sys_sigreturn`, which takes -1 for the answer
that no handler runs. So a context whose `a0` is -1 comes back with `EINVAL` in it. Every other
context comes back as it was, and on the other way all of them do.
-/

open Exec

namespace Maturin

attribute [local irreducible] wsub wadd

/-- `num as isize` -/
def ErrorNo.asIsize : ErrorNo → ℤ
  | EINVAL => -22
  | EFAULT => -14
  | ENOENT => -2
  | EMFILE => -24
  | EBADF => -9
  | EAGAIN => -11
  | EEXIST => -17
  | EISDIR => -21
  | ERANGE => -34
  | EAFNOSUPPORT => -97
  | ECONNREFUSED => -111
  | ENOMEM => -12
  | ESPIPE => -29
  | ESRCH => -3

/-- The end of `syscall`: the value of a result. -/
def syscallReturn : Except ErrorNo ℕ → ℤ
  | .ok a0 => (BitVec.ofNat 64 a0).toInt
  | .error num => num.asIsize

/-- The ways in which a handler returns. -/
inductive ReturnRoute
  | syscall
  /-- to `SIGNAL_RETURN_TRAP` -/
  | returnAddress
  deriving DecidableEq

namespace SignalTask

/-- `sys_sigreturn` -/
def sysSigreturn : EStateM Panic SignalTask (Except ErrorNo ℕ) := do
  let a0 ← signalReturn
  if a0 = -1 then pure (.error .EINVAL)
  else pure (.ok (BitVec.ofInt 64 a0).toNat)

/-- `user_trap_handler` for the trap with which a handler returns. -/
def userTrapHandler : ReturnRoute → EStateM Panic SignalTask Unit
  | .syscall => do
    modify fun s ↦ { s with trapCx := s.trapCx.setSepc (wadd s.trapCx.sepc 4) }
    let r ← sysSigreturn
    modify fun s ↦ { s with trapCx := s.trapCx.setA0 (BitVec.ofInt 64 (syscallReturn r)).toNat }
    handleSignals
  | .returnAddress => do
    let a0 ← signalReturn
    -- it returns at once, without a look at the pending signals
    modify fun s ↦ { s with trapCx := s.trapCx.setA0 (BitVec.ofInt 64 a0).toNat }

/-! ## What the return should do -/

/-- What happens while a handler runs: anything but a return from it. -/
inductive InHandler (h : SignalTask) : SignalTask → Prop
  | enter : InHandler h h
  | step {t t' : SignalTask} {e : SignalEvent} (hin : InHandler h t) (hne : e ≠ .sigreturn)
      (hrun : e.run.run t = .ok () t') : InHandler h t'

/-- The task goes on with the context: it is in it, or the next signal has interrupted it there. -/
def GoesOnWith (t : SignalTask) (cx : TrapContext) : Prop :=
  t.trapCx = cx ∨ t.trapCxBeforeSignal = some cx

instance (t : SignalTask) (cx : TrapContext) : Decidable (t.GoesOnWith cx) :=
  inferInstanceAs (Decidable (_ ∨ _))

/-- The context to which a handler is to return: the interrupted one, with `SA_SIGINFO` at the `pc`
of the `SignalUserContext` that the handler finds at `sp`. -/
def resumed (cx : TrapContext) (action : SigAction) (sp : ℕ) (mem : ByteMem) : TrapContext :=
  if action.flags.contains SigActionFlags.SA_SIGINFO then
    cx.setSepc (SignalUserContext.getPc sp mem)
  else cx

/-- The task enters the handler of the action for a signal while no handler runs. -/
structure Delivers (s h : SignalTask) (signum : ℕ) (action : SigAction) : Prop where
  idle : s.trapCxBeforeSignal = none
  taken : ∃ receivers, s.receivers.getOneSignal = some (signum, receivers)
  found : s.handlers.getActionRef signum = some (some action)
  handler : action.handler ≠ SIG_IGN
  run : handleSignals.run s = .ok () h

/-- What the kernel keeps of the interrupted context when a handler is entered, and what it tells
the handler. -/
structure Entered (cx : TrapContext) (action : SigAction) (h : SignalTask) : Prop where
  slot : h.trapCxBeforeSignal = some cx
  info : h.signalSetSiginfo = action.flags.contains SigActionFlags.SA_SIGINFO
  pc : action.flags.contains SigActionFlags.SA_SIGINFO = true →
    SignalUserContext.getPc h.trapCx.getSp h.mem = cx.sepc

end SignalTask

/-- The registers hold words of 64 bits. -/
structure TrapContext.Words (cx : TrapContext) : Prop where
  x_lt : ∀ i, cx.x i < 2 ^ 64
  sepc_lt : cx.sepc < 2 ^ 64

namespace SignalTask

variable {s h t u : SignalTask} {signum : ℕ} {action : SigAction} {cx : TrapContext}

/-! ## The way in -/

/-- The `pc` in the structure that was written. -/
theorem getPc_write {sp pc : ℕ} {mask : Bitset} {mem : ByteMem} (hpc : pc < 2 ^ 64) :
    SignalUserContext.getPc sp (SignalUserContext.write sp mask pc mem) = pc := by
  rw [SignalUserContext.getPc, SignalUserContext.write]
  exact ByteMem.load_store (hpc.trans_eq (by norm_num))

theorem wp_enterHandler_entered (hslot : s.trapCxBeforeSignal = some s.trapCx)
    (hinfo : s.signalSetSiginfo = false) (hpc : s.trapCx.sepc < 2 ^ 64) :
    wp (enterHandler signum action) (fun _ h ↦ Entered s.trapCx action h ∧ h.trapCx.getA0 = signum)
      noPanic s := by
  rw [enterHandler, wp_bind, wp_get]
  dsimp only
  split_ifs with hflag
  · rw [wp_bind, saveIfSetSiginfo, wp_modify, wp_modify]
    exact ⟨⟨hslot, hflag.symm, fun _ ↦ getPc_write hpc⟩, rfl⟩
  · rw [wp_modify]
    rw [Bool.not_eq_true] at hflag
    exact ⟨⟨hslot, hinfo.trans hflag.symm, fun h ↦ absurd (hflag.symm.trans h) (by simp)⟩, rfl⟩

/-- A delivery keeps the context that it interrupts. -/
theorem Delivers.entered (hd : Delivers s h signum action) (hpc : s.trapCx.sepc < 2 ^ 64) :
    Entered s.trapCx action h := by
  obtain ⟨receivers, hget⟩ := hd.taken
  set v : SignalTask := { s with receivers }
  have hslot : v.trapCxBeforeSignal = none := hd.idle
  have haction : v.handlers.getActionRef signum = some (some action) := hd.found
  have hwp : wp handleSignals (fun _ h ↦ Entered s.trapCx action h) noPanic s := by
    rw [wp_iff_of_run (run_handleSignals_of_some hget),
      wp_iff_of_run (run_handleSignal_of_none hslot haction), handleByAction, if_neg hd.handler]
    exact wp_imp (wp_enterHandler_entered (s := v.saved) rfl rfl hpc) fun _ h hh ↦ hh.1
  exact wp_ok (Q := fun _ h ↦ Entered s.trapCx action h) hwp hd.run

/-! ## In the handler -/

/-- The slot and what is recorded with it. -/
def Keeps (cx : TrapContext) (info : Bool) (s : SignalTask) : Prop :=
  s.trapCxBeforeSignal = some cx ∧ s.signalSetSiginfo = info

/-- A signal that comes while a handler runs leaves the slot as it is. -/
theorem maintains_keeps_handleSignals (info : Bool) : Maintains (Keeps cx info) handleSignals := by
  intro s hs
  cases hget : s.receivers.getOneSignal with
  | some taken =>
    obtain ⟨signum, receivers⟩ := taken
    have hslot : ({ s with receivers } : SignalTask).trapCxBeforeSignal = some cx := hs.1
    rw [wp_iff_of_run (run_handleSignals_of_some hget),
      wp_iff_of_run (run_handleSignal_of_some hslot)]
    split_ifs
    · exact hs
    · exact hs
  | none =>
    rw [wp, run_handleSignals_of_none hget]
    exact hs

theorem maintains_keeps_run (info : Bool) {e : SignalEvent} (hne : e ≠ .sigreturn) :
    Maintains (Keeps cx info) e.run := by
  cases e with
  | send signum => exact .modify fun _ hs ↦ hs
  | setMask how set => exact .modify fun _ hs ↦ hs
  | setAction signum action =>
    intro s hs
    rw [SignalEvent.run, sigaction]
    split_ifs
    · exact hs
    · rw [wp_bind, wp_get]
      split
      · exact hs
      · exact hs
  | user trapCx mem => exact .modify fun _ hs ↦ hs
  | trap => exact maintains_keeps_handleSignals info
  | sigreturn => exact absurd rfl hne

theorem InHandler.keeps (hin : InHandler h t) {info : Bool} (hh : Keeps cx info h) :
    Keeps cx info t := by
  induction hin with
  | enter => exact hh
  | step _ hne hrun ih => exact (maintains_keeps_run info hne).of_ok ih hrun

/-! ## The way back -/

/-- The task with the context put back. -/
def restored (t : SignalTask) (cx : TrapContext) : SignalTask := { t with
  trapCx :=
    if t.signalSetSiginfo then cx.setSepc (SignalUserContext.getPc t.trapCx.getSp t.mem) else cx
  trapCxBeforeSignal := none }

theorem restored_getA0 (t : SignalTask) (cx : TrapContext) :
    (t.restored cx).trapCx.getA0 = cx.getA0 := by
  rw [restored]
  split_ifs <;> rfl

/-- `signal_return` in a handler puts the context back and returns its `a0`. -/
theorem wp_signalReturn (ht : t.trapCxBeforeSignal = some cx) {Q : ℤ → SignalTask → Prop} :
    wp signalReturn Q noPanic t ↔ Q (BitVec.ofNat 64 cx.getA0).toInt (t.restored cx) := by
  rw [signalReturn, loadTrapCxIfHandlingSignals, wp_bind, wp_bind, wp_get, ht]
  dsimp only
  rw [wp_bind, wp_set, wp_pure, if_pos rfl, wp_bind, wp_get, wp_pure, ← restored_getA0 t cx]
  rfl

/-- The slot is empty, or a signal has been taken with the context in it, and a handler that was
entered has the number of the signal in `a0`. -/
structure Interrupted (cx : TrapContext) (u : SignalTask) : Prop where
  slot : u.trapCxBeforeSignal = none ∧ u.trapCx = cx ∨ u.trapCxBeforeSignal = some cx
  trapCx : u.trapCx = cx ∨ u.trapCx.getA0 ≤ 64

theorem wp_handleByAction_interrupted (hs : IsSignal signum)
    (hslot : s.trapCxBeforeSignal = some s.trapCx) (hinfo : s.signalSetSiginfo = false)
    (hpc : s.trapCx.sepc < 2 ^ 64) (action : Option SigAction) :
    wp (handleByAction signum action) (fun _ u ↦ Interrupted s.trapCx u) noPanic s := by
  cases action with
  | none =>
    rw [handleByAction, handleByDefault]
    cases SigActionDefault.ofSignal (SignalNo.ofUsize signum) with
    | terminate => exact ⟨Or.inr hslot, Or.inl rfl⟩
    | ignore =>
      dsimp only
      rw [loadTrapCxIfHandlingSignals, wp_bind, wp_bind, wp_get, hslot]
      dsimp only
      rw [wp_bind, wp_set, wp_pure, wp_pure, hinfo]
      exact ⟨Or.inl ⟨rfl, rfl⟩, Or.inl rfl⟩
  | some action =>
    rw [handleByAction]
    split_ifs
    · exact ⟨Or.inr hslot, Or.inl rfl⟩
    · refine wp_imp (wp_enterHandler_entered hslot hinfo hpc) fun _ u hu ↦ ?_
      exact ⟨Or.inr hu.1.slot, Or.inr (hu.2.trans_le hs.2)⟩

/-- A task with an empty slot is interrupted in its context, if at all. -/
theorem wp_handleSignals_interrupted (hslot : s.trapCxBeforeSignal = none)
    (hpc : s.trapCx.sepc < 2 ^ 64) :
    wp handleSignals (fun _ u ↦ Interrupted s.trapCx u) noPanic s := by
  cases hget : s.receivers.getOneSignal with
  | some taken =>
    obtain ⟨signum, receivers⟩ := taken
    obtain ⟨hs, -⟩ := getOneSignal_eq_some hget
    set v : SignalTask := { s with receivers }
    have hslot' : v.trapCxBeforeSignal = none := hslot
    obtain ⟨action, ha⟩ := exists_getActionRef v.handlers hs
    rw [wp_iff_of_run (run_handleSignals_of_some hget),
      wp_iff_of_run (run_handleSignal_of_none hslot' ha)]
    exact wp_handleByAction_interrupted (s := v.saved) hs rfl rfl hpc action
  | none =>
    rw [wp, run_handleSignals_of_none hget]
    exact ⟨Or.inl ⟨hslot, rfl⟩, Or.inl rfl⟩

theorem Interrupted.goesOn (hu : Interrupted cx u) : u.GoesOnWith cx := by
  rcases hu.slot with ⟨-, hcx⟩ | hslot
  · exact Or.inl hcx
  · exact Or.inr hslot

/-- A word comes back from the conversion to `isize` and from there. -/
theorem toNat_ofInt_toInt {a0 : ℕ} (h : a0 < 2 ^ 64) :
    (BitVec.ofInt 64 (BitVec.ofNat 64 a0).toInt).toNat = a0 := by
  rw [BitVec.ofInt_toInt, BitVec.toNat_ofNat, Nat.mod_eq_of_lt h]

theorem toInt_eq_neg_one_iff {a0 : ℕ} (h : a0 < 2 ^ 64) :
    (BitVec.ofNat 64 a0).toInt = -1 ↔ a0 = 2 ^ 64 - 1 := by
  rw [show (-1 : ℤ) = (BitVec.ofNat 64 (2 ^ 64 - 1)).toInt by decide, BitVec.toInt_inj,
    ← BitVec.toNat_inj, BitVec.toNat_ofNat, BitVec.toNat_ofNat, Nat.mod_eq_of_lt h]
  exact Iff.rfl

/-- What the system call returns in a handler: the `a0` of the context, unless it is -1. -/
theorem wp_sysSigreturn (ht : t.trapCxBeforeSignal = some cx) (ha0 : cx.getA0 < 2 ^ 64)
    {Q : Except ErrorNo ℕ → SignalTask → Prop} : wp sysSigreturn Q noPanic t ↔
      Q (if cx.getA0 = 2 ^ 64 - 1 then .error .EINVAL else .ok cx.getA0) (t.restored cx) := by
  rw [sysSigreturn, wp_bind, wp_signalReturn ht]
  simp only [toInt_eq_neg_one_iff ha0, toNat_ofInt_toInt ha0]
  split_ifs <;> exact Iff.rfl

/-- Writing the `a0` of a context to it changes nothing. -/
theorem setA0_getA0 : cx.setA0 cx.getA0 = cx := by
  rw [TrapContext.setA0, TrapContext.setX, TrapContext.getA0, Function.update_eq_self]

/-- By the return address the task is in the context that was put back. -/
theorem wp_return_returnAddress (ht : t.trapCxBeforeSignal = some cx) (ha0 : cx.getA0 < 2 ^ 64) :
    wp (userTrapHandler .returnAddress) (fun _ u ↦ u.trapCx = (t.restored cx).trapCx)
      noPanic t := by
  rw [userTrapHandler, wp_bind, wp_signalReturn ht, wp_modify, toNat_ofInt_toInt ha0,
    ← restored_getA0 t cx]
  exact setA0_getA0

/-- By the system call the task is in that context, but for `EINVAL` in place of -1, when it looks
at its signals. -/
theorem wp_return_syscall (ht : t.trapCxBeforeSignal = some cx) (hcx : cx.Words) :
    wp (userTrapHandler .syscall) (fun _ u ↦ Interrupted ((t.restored cx).trapCx.setA0
      (if cx.getA0 = 2 ^ 64 - 1 then 2 ^ 64 - 22 else cx.getA0)) u) noPanic t := by
  have ha0 := hcx.x_lt 10
  have hpc : (t.restored cx).trapCx.sepc < 2 ^ 64 := by
    rw [restored]
    split_ifs
    · exact (ByteMem.load_lt 8 _ _).trans_eq (by norm_num)
    · exact hcx.sepc_lt
  have hval : (BitVec.ofInt 64 (syscallReturn (if cx.getA0 = 2 ^ 64 - 1 then .error .EINVAL
      else .ok cx.getA0))).toNat = if cx.getA0 = 2 ^ 64 - 1 then 2 ^ 64 - 22 else cx.getA0 := by
    split_ifs
    · decide
    · exact toNat_ofInt_toInt ha0
  have hslot : ({ t with trapCx := t.trapCx.setSepc (wadd t.trapCx.sepc 4) } :
    SignalTask).trapCxBeforeSignal = some cx := ht
  rw [userTrapHandler, wp_bind, wp_modify, wp_bind, wp_sysSigreturn hslot ha0, wp_bind, wp_modify,
    hval]
  exact wp_handleSignals_interrupted rfl hpc

/-! ## When the context comes back -/

/-- **A handler returns to the context that it interrupted**, with all registers, unless it returns
by the system call and `a0` was -1 in it. -/
theorem sigreturn_restores_iff (hcx : s.trapCx.Words) (hd : Delivers s h signum action)
    (hin : InHandler h t) (hsp : t.trapCx.getSp = h.trapCx.getSp) (route : ReturnRoute) :
    ((∀ x, h.trapCx.getSp ≤ x → x < h.trapCx.getSp + SIGNAL_USER_CONTEXT_SIZE → t.mem x = h.mem x) →
      resumed s.trapCx action h.trapCx.getSp t.mem = s.trapCx) ∧
    ((∃ u, (userTrapHandler route).run t = .ok () u ∧
        u.GoesOnWith (resumed s.trapCx action h.trapCx.getSp t.mem)) ↔
      ¬(route = .syscall ∧ s.trapCx.getA0 = 2 ^ 64 - 1)) := by
  obtain ⟨hslot, hinfo, hpc⟩ := hd.entered hcx.sepc_lt
  obtain ⟨hslot', hinfo'⟩ := hin.keeps ⟨hslot, hinfo⟩
  have hres : (t.restored s.trapCx).trapCx = resumed s.trapCx action h.trapCx.getSp t.mem := by
    rw [restored, hinfo', hsp, resumed]
  have ha0 := restored_getA0 t s.trapCx
  rw [← hres]
  constructor
  · intro hframe
    rw [hres, resumed]
    split_ifs with hflag
    · have hsize : SIGNAL_USER_CONTEXT_SIZE = 848 := rfl
      have hload : SignalUserContext.getPc h.trapCx.getSp t.mem = s.trapCx.sepc := by
        rw [← hpc hflag]
        exact ByteMem.load_congr fun x hl hr ↦ hframe x (by omega) (hr.trans_le (by omega))
      rw [hload]
      rfl
    · rfl
  · cases route with
    | returnAddress =>
      obtain ⟨⟨⟩, u, hrun, hu⟩ := exists_of_wp (wp_return_returnAddress hslot' (hcx.x_lt 10))
      exact iff_of_true ⟨u, hrun, Or.inl hu⟩ fun h ↦ absurd h.1 (by decide)
    | syscall =>
      obtain ⟨⟨⟩, u, hrun, hu⟩ := exists_of_wp (wp_return_syscall hslot' hcx)
      by_cases hminus : s.trapCx.getA0 = 2 ^ 64 - 1
      · rw [if_pos hminus] at hu
        refine iff_of_false ?_ fun hnot ↦ hnot ⟨rfl, hminus⟩
        rintro ⟨u', hrun', hgoes⟩
        obtain ⟨-, rfl⟩ := EStateM.Result.ok.inj (hrun.symm.trans hrun')
        -- the `a0` of the context is neither `EINVAL` nor the number of a signal
        have hne : (t.restored s.trapCx).trapCx ≠
            (t.restored s.trapCx).trapCx.setA0 (2 ^ 64 - 22) := by
          intro heq
          have hval : s.trapCx.getA0 = 2 ^ 64 - 22 :=
            ha0.symm.trans (congrArg TrapContext.getA0 heq)
          rw [hminus] at hval
          exact absurd hval (by decide)
        rcases hgoes with hgoes | hgoes
        · rcases hu.trapCx with heq | hle
          · exact hne (hgoes.symm.trans heq)
          · rw [hgoes, ha0, hminus] at hle
            exact absurd hle (by decide)
        · rcases hu.slot with ⟨hnone, -⟩ | hsome
          · exact absurd (hnone.symm.trans hgoes) (by simp)
          · exact hne (Option.some.inj (hgoes.symm.trans hsome))
      · rw [if_neg hminus, ← ha0, setA0_getA0] at hu
        exact iff_of_true ⟨u, hrun, hu.goesOn⟩ fun h ↦ hminus h.2

/-! ## Two returns -/

/-- A task with a handler for signal 10, to which the signal was sent when `a0` had the value. -/
def sentWith (a0 : ℕ) : SignalTask :=
  [.setAction 10 ⟨0x1000, SigActionFlags.SA_SIGINFO, 0, 0⟩, .send 10,
    .user (TrapContext.setA0 ⟨fun _ ↦ 0x8000, 0, 0x400, 0, fun _ ↦ 0⟩ a0) fun _ ↦ 0].foldl next new

/-- The delivery to it, if it returns. -/
theorem delivers_sentWith {a0 : ℕ} (hidle : (sentWith a0).trapCxBeforeSignal = none)
    (htaken : (sentWith a0).receivers.getOneSignal = some (10, ⟨0, 0⟩))
    (hfound : (sentWith a0).handlers.getActionRef 10 =
      some (some ⟨0x1000, SigActionFlags.SA_SIGINFO, 0, 0⟩))
    (hrun : handleSignals.run (sentWith a0) = .ok () h) :
    Delivers (sentWith a0) h 10 ⟨0x1000, SigActionFlags.SA_SIGINFO, 0, 0⟩ :=
  ⟨hidle, ⟨_, htaken⟩, hfound, by decide, hrun⟩

/-- The handler of a task with 7 in `a0` returns by the system call, and 7 is there again. -/
theorem sigreturn_restores_seven : ∃ h u, Delivers (sentWith 7) h 10
      ⟨0x1000, SigActionFlags.SA_SIGINFO, 0, 0⟩ ∧
    (userTrapHandler .syscall).run h = .ok () u ∧ u.GoesOnWith (sentWith 7).trapCx := by
  have hwords : (sentWith 7).trapCx.Words := by
    constructor
    · decide +kernel
    · decide +kernel
  obtain ⟨⟨⟩, h, hrun, -⟩ := exists_of_returns (show returns handleSignals (sentWith 7)
    (fun _ _ ↦ true) = true by decide +kernel)
  have hd := delivers_sentWith (by decide +kernel) (by decide +kernel) (by decide +kernel) hrun
  obtain ⟨hframe, hiff⟩ := sigreturn_restores_iff hwords hd .enter rfl .syscall
  have ha0 : (sentWith 7).trapCx.getA0 = 7 := by decide +kernel
  obtain ⟨u, hu, hgoes⟩ := hiff.mpr fun hminus ↦ by
    rw [ha0] at hminus
    exact absurd hminus.2 (by decide)
  rw [hframe fun _ _ _ ↦ rfl] at hgoes
  exact ⟨h, u, hd, hu, hgoes⟩

/-- With -1 in `a0` the task finds `EINVAL` there after the return. -/
theorem not_restores_minus_one : ∃ h u, Delivers (sentWith (2 ^ 64 - 1)) h 10
      ⟨0x1000, SigActionFlags.SA_SIGINFO, 0, 0⟩ ∧
    (userTrapHandler .syscall).run h = .ok () u ∧ u.trapCx.getA0 = 2 ^ 64 - 22 ∧
    ¬u.GoesOnWith (sentWith (2 ^ 64 - 1)).trapCx := by
  obtain ⟨⟨⟩, h, hrun, hreturn⟩ := exists_of_returns
    (show returns handleSignals (sentWith (2 ^ 64 - 1)) (fun _ h ↦
      returns (userTrapHandler .syscall) h fun _ u ↦ decide (u.trapCx.getA0 = 2 ^ 64 - 22 ∧
        ¬u.GoesOnWith (sentWith (2 ^ 64 - 1)).trapCx)) = true by decide +kernel)
  obtain ⟨⟨⟩, u, hu, hP⟩ := exists_of_returns hreturn
  exact ⟨h, u, delivers_sentWith (by decide +kernel) (by decide +kernel) (by decide +kernel) hrun,
    hu, of_decide_eq_true hP⟩

end SignalTask

end Maturin
