import Maturin.Base.Error
import Maturin.Lib.Bytes
import Maturin.Lib.Exec
import Maturin.Signal.Signal
import Maturin.Trap.Context

/-!
# Handling signals

A trap of a user task ends in `handle_signals` of `task/cpu_local.rs`, which takes one pending
signal and either lets the task return into the user's handler, or does what the signal does by
default. The context that the handler interrupts is kept in one slot of the task,
`trap_cx_before_signal`, until the handler calls `sigreturn`.

The memory of the task is read and written at user addresses; that these are mapped is not part of
this model.
-/

open Exec

namespace Maturin

/-- The part of a task that signals work on. -/
structure SignalTask where
  handlers : SignalHandlers
  receivers : SignalReceivers
  /-- The first context on the kernel stack. -/
  trapCx : TrapContext
  trapCxBeforeSignal : Option TrapContext
  signalSetSiginfo : Bool
  mem : ByteMem
  /-- The code given to `exit_current_task`. -/
  exited : Option ℤ
  /-- The signals whose handlers were entered, the last one first. No function reads it. -/
  entered : List ℕ

/-- The bytes below the user's stack pointer that a handler must not touch. -/
abbrev USER_STACK_RED_ZONE : ℕ := 0x200

/-- `size_of::<SigInfo>()` -/
abbrev SIG_INFO_SIZE : ℕ := 12

/-- `size_of::<SignalUserContext>()` -/
abbrev SIGNAL_USER_CONTEXT_SIZE : ℕ := 848

/-- `SigInfo::default()` with a signal number: `si_errno` is 0 and `si_code` is -6. -/
def SigInfo.write (sp signum : ℕ) (mem : ByteMem) : ByteMem :=
  ByteMem.store 4 (sp + 8) (2 ^ 32 - 6)
    (ByteMem.store 4 (sp + 4) 0 (ByteMem.store 4 sp (signum % 2 ^ 32) mem))

/-- `SignalUserContext::init`: zero but for `stack.flags`, `sig_mask` and the saved `pc`. -/
def SignalUserContext.write (sp : ℕ) (mask : Bitset) (pc : ℕ) (mem : ByteMem) : ByteMem :=
  ByteMem.store 8 (sp + 176) pc (ByteMem.store 8 (sp + 40) mask.toNat
    (ByteMem.store 4 (sp + 24) 2 (ByteMem.fill sp SIGNAL_USER_CONTEXT_SIZE 0 mem)))

def SignalUserContext.getPc (sp : ℕ) (mem : ByteMem) : ℕ := ByteMem.load 8 mem (sp + 176)

/-- `(sp - size) & !0xf` -/
def pushAligned (sp size : ℕ) : ℕ := wsub sp size / 16 * 16

namespace SignalTask

/-- `save_trap_cx_if_not_handling_signals` -/
def saveTrapCxIfNotHandlingSignals : EStateM Panic SignalTask Bool := do
  let s ← get
  if s.trapCxBeforeSignal.isSome then pure false
  else
    set { s with trapCxBeforeSignal := some s.trapCx, signalSetSiginfo := false }
    pure true

/-- `save_if_set_siginfo` -/
def saveIfSetSiginfo (signalSetSiginfo : Bool) : EStateM Panic SignalTask Unit :=
  modify ({ · with signalSetSiginfo })

/-- `load_trap_cx_if_handling_signals` -/
def loadTrapCxIfHandlingSignals : EStateM Panic SignalTask Bool := do
  let s ← get
  match s.trapCxBeforeSignal with
  | some trapCxOld =>
    let pc := SignalUserContext.getPc s.trapCx.getSp s.mem
    set { s with
      trapCx := if s.signalSetSiginfo then trapCxOld.setSepc pc else trapCxOld
      trapCxBeforeSignal := none }
    pure true
  | none => pure false

/-- `exit_current_task` does not return. -/
def exitCurrentTask (code : ℤ) : EStateM Panic SignalTask Unit :=
  modify ({ · with exited := some code })

/-- The changes that let the task return into its handler; with `SA_SIGINFO` the handler gets two
structures on the user's stack. -/
def enterHandler (signum : ℕ) (action : SigAction) : EStateM Panic SignalTask Unit := do
  let s ← get
  let trapCx := s.trapCx.setRa action.getRestorer
  let sp := wsub trapCx.getSp USER_STACK_RED_ZONE
  let oldPc := trapCx.getSepc
  let trapCx := (trapCx.setSepc action.handler).setA0 signum
  if action.flags.contains SigActionFlags.SA_SIGINFO then
    saveIfSetSiginfo true
    let spInfo := pushAligned sp SIG_INFO_SIZE
    let spContext := pushAligned spInfo SIGNAL_USER_CONTEXT_SIZE
    let mem := SigInfo.write spInfo signum s.mem
    let mem := SignalUserContext.write spContext s.receivers.mask oldPc mem
    let trapCx := ((trapCx.setA1 spInfo).setA2 spContext).setSp spContext
    modify ({ · with trapCx, mem, entered := signum :: s.entered })
  else
    modify ({ · with trapCx := trapCx.setSp sp, entered := signum :: s.entered })

/-- `get_action_ref` of the task's handlers -/
def getActionRef (signum : ℕ) : EStateM Panic SignalTask (Option SigAction) := do
  match (← get).handlers.getActionRef signum with
  | some action => pure action
  | none => throw .indexOutOfBounds

/-- The default way of handling a signal. -/
def handleByDefault (signal : SignalNo) : EStateM Panic SignalTask Unit :=
  match SigActionDefault.ofSignal signal with
  | .terminate => exitCurrentTask 0
  | .ignore => do
    let _ ← loadTrapCxIfHandlingSignals
    pure ()

/-- The handling of a signal with its action, if it has one. -/
def handleByAction (signum : ℕ) : Option SigAction → EStateM Panic SignalTask Unit
  | some action => if action.handler = SIG_IGN then pure () else enterHandler signum action
  | none => handleByDefault (SignalNo.ofUsize signum)

/-- The handling of a signal that was taken out of the pending ones. -/
def handleSignal (signum : ℕ) : EStateM Panic SignalTask Unit := do
  let signal := SignalNo.ofUsize signum
  if ← saveTrapCxIfNotHandlingSignals then
    let action ← getActionRef signum
    handleByAction signum action
  else if signal = SignalNo.SIGSEGV ∨ signal = SignalNo.SIGBUS then exitCurrentTask (-1)
  else pure ()

/-- `handle_signals` -/
def handleSignals : EStateM Panic SignalTask Unit := do
  let s ← get
  match s.receivers.getOneSignal with
  | some (signum, receivers) =>
    set { s with receivers }
    handleSignal signum
  | none => pure ()

/-- `signal_return` -/
def signalReturn : EStateM Panic SignalTask ℤ := do
  if ← loadTrapCxIfHandlingSignals then
    let s ← get
    -- `as isize`
    pure (BitVec.ofNat 64 s.trapCx.getA0).toInt
  else pure (-1)

/-- The effect of `sys_sigprocmask` on the mask, with the values of `SIG_BLOCK`, `SIG_UNBLOCK` and
`SIG_SETMASK`; another `how` is an error. -/
def setMask (how : ℤ) (set : Bitset) : EStateM Panic SignalTask Unit :=
  modify fun s ↦
    let mask := s.receivers.mask
    let mask :=
      if how = 0 then mask.getUnion set
      else if how = 1 then mask.getDifference set
      else if how = 2 then set
      else mask
    { s with receivers := { s.receivers with mask } }

/-- The effect of `sys_sigaction` on the handlers; two signals cannot be handled. -/
def sigaction (signum : ℕ) (action : SigAction) : EStateM Panic SignalTask Unit := do
  if signum = SignalNo.SIGKILL.val ∨ signum = SignalNo.SIGSTOP.val then pure ()
  else
    let s ← get
    match s.handlers.setAction signum action with
    | some handlers => set { s with handlers }
    | none => throw .indexOutOfBounds

/-- `send_signal`, at the task that gets the signal. -/
def sendSignal (signum : ℕ) : EStateM Panic SignalTask Unit :=
  modify fun s ↦ { s with receivers := s.receivers.tryAddBit signum }

end SignalTask

end Maturin
