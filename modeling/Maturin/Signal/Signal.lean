import Maturin.Base.Addr
import Mathlib.Data.BitVec

/-!
# Signals

The data of `signal/`: the set of pending signals and the mask are words of 64 bits (`Bitset`), a
signal number is one of 64 (`SignalNo`), and every signal has an action that user code installs.
Signal `signum` is bit `signum - 1`.
-/

namespace Maturin

/-! ## Sets of bits -/

/-- `Bitset` -/
abbrev Bitset := BitVec 64

namespace Bitset

/-- `contain_bit`; a shift takes its distance modulo 64. -/
def containBit (s : Bitset) (kth : ℕ) : Bool := s.getLsbD (kth % 64)

def addBit (s : Bitset) (kth : ℕ) : Bitset := s ||| BitVec.twoPow 64 (kth % 64)

def removeBit (s : Bitset) (kth : ℕ) : Bitset := s &&& ~~~BitVec.twoPow 64 (kth % 64)

def getUnion (s set : Bitset) : Bitset := s ||| set

def getDifference (s set : Bitset) : Bitset := s &&& ~~~set

/-- `find_first_one`: the lowest bit that the mask does not have. -/
def findFirstOne (s mask : Bitset) : Option ℕ := (List.range 64).find? (s &&& ~~~mask).getLsbD

variable {s mask set : Bitset} {k kth pos : ℕ}

theorem containBit_addBit (hk : k < 64) (hkth : kth < 64) :
    (s.addBit kth).containBit k = (k == kth || s.containBit k) := by
  rw [containBit, addBit, containBit, Nat.mod_eq_of_lt hk, Nat.mod_eq_of_lt hkth,
    BitVec.getLsbD_or, BitVec.getLsbD_twoPow, Bool.or_comm, decide_eq_true hkth, Bool.true_and,
    Bool.beq_eq_decide_eq, decide_eq_decide.mpr eq_comm]

theorem containBit_removeBit (hk : k < 64) (hkth : kth < 64) :
    (s.removeBit kth).containBit k = (k != kth && s.containBit k) := by
  rw [containBit, removeBit, containBit, Nat.mod_eq_of_lt hk, Nat.mod_eq_of_lt hkth,
    BitVec.getLsbD_and, BitVec.getLsbD_not, BitVec.getLsbD_twoPow, decide_eq_true hk,
    decide_eq_true hkth, Bool.true_and, Bool.true_and, Bool.and_comm]
  rcases eq_or_ne k kth with rfl | hne
  · simp
  · simp [hne, Ne.symm hne]

theorem findFirstOne_eq_some (h : s.findFirstOne mask = some pos) :
    pos < 64 ∧ s.containBit pos = true ∧ mask.containBit pos = false := by
  have hlt : pos < 64 := List.mem_range.mp (List.mem_of_find?_eq_some h)
  have hbit := List.find?_some h
  rw [BitVec.getLsbD_and, BitVec.getLsbD_not, Bool.and_eq_true, Bool.and_eq_true,
    Bool.not_eq_true'] at hbit
  rw [containBit, containBit, Nat.mod_eq_of_lt hlt]
  exact ⟨hlt, hbit.1, hbit.2.2⟩

end Bitset

/-! ## Signal numbers -/

/-- `SignalNo`: the numbers 0 to 63, where 0 is `ERR`. -/
abbrev SignalNo := Fin 64

namespace SignalNo

def ERR : SignalNo := 0
def SIGBUS : SignalNo := 7
def SIGKILL : SignalNo := 9
def SIGSEGV : SignalNo := 11
def SIGALRM : SignalNo := 14
def SIGCHLD : SignalNo := 17
def SIGSTOP : SignalNo := 19
def SIGURG : SignalNo := 23
def SIGVTALRM : SignalNo := 26
def SIGPROF : SignalNo := 27

/-- `From<usize>`: a number is cut to a byte, and one that is no signal becomes `ERR`. -/
def ofUsize (num : ℕ) : SignalNo := if h : num % 256 < 64 then ⟨num % 256, h⟩ else ERR

end SignalNo

/-! ## Actions -/

/-- The value of `handler` that asks for the default. -/
abbrev SIG_DFL : ℕ := 0

/-- The value of `handler` that ignores the signal. -/
abbrev SIG_IGN : ℕ := 1

/-- The return address of a handler that has no restorer. -/
abbrev SIGNAL_RETURN_TRAP : ℕ := 0xffff000080800000

/-- The flags of an action. -/
abbrev SigActionFlags := BitVec 64

namespace SigActionFlags

def SA_SIGINFO : SigActionFlags := 4
def SA_RESTORER : SigActionFlags := 0x04000000

def contains (self other : SigActionFlags) : Bool := self &&& other == other

end SigActionFlags

/-- `SigAction` -/
structure SigAction where
  handler : ℕ
  flags : SigActionFlags
  restorer : ℕ
  mask : Bitset
  deriving DecidableEq

def SigAction.getRestorer (self : SigAction) : ℕ :=
  if self.flags.contains SigActionFlags.SA_RESTORER then self.restorer else SIGNAL_RETURN_TRAP

/-- `SigActionDefault` -/
inductive SigActionDefault
  | terminate
  | ignore
  deriving DecidableEq

def SigActionDefault.ofSignal (signal : SignalNo) : SigActionDefault :=
  if signal = SignalNo.SIGCHLD ∨ signal = SignalNo.SIGURG then .ignore else .terminate

/-! ## Handlers and receivers -/

/-- `SignalHandlers`: the actions of the signals, from signal 1 on. -/
structure SignalHandlers where
  actions : Vector (Option SigAction) 64
  deriving DecidableEq

namespace SignalHandlers

def new : SignalHandlers := ⟨Vector.replicate 64 none⟩

/-- `clear`: back to the default actions. -/
def clear (_self : SignalHandlers) : SignalHandlers := ⟨Vector.replicate 64 none⟩

/-- `get_action_ref`: the action of a signal, unless it asks for the default. The outer `none` is
an index out of bounds. -/
def getActionRef (self : SignalHandlers) (signum : ℕ) : Option (Option SigAction) :=
  (self.actions[wsub signum 1]?).map fun action ↦ action.filter fun a ↦ a.handler ≠ SIG_DFL

/-- `set_action`; `none` is an index out of bounds. -/
def setAction (self : SignalHandlers) (signum : ℕ) (action : SigAction) : Option SignalHandlers :=
  if h : wsub signum 1 < 64 then some ⟨self.actions.set (wsub signum 1) (some action) h⟩ else none

end SignalHandlers

/-- `SignalReceivers` -/
structure SignalReceivers where
  mask : Bitset
  sigReceived : Bitset
  deriving DecidableEq

namespace SignalReceivers

def new : SignalReceivers := ⟨0, 0⟩

/-- `get_one_signal`: take the lowest unmasked signal out of the received ones. -/
def getOneSignal (self : SignalReceivers) : Option (ℕ × SignalReceivers) :=
  (self.sigReceived.findFirstOne self.mask).map fun pos ↦
    (pos + 1, { self with sigReceived := self.sigReceived.removeBit pos })

def tryAddBit (self : SignalReceivers) (signum : ℕ) : SignalReceivers :=
  { self with sigReceived := self.sigReceived.addBit (wsub signum 1) }

/-- Is the signal among the received ones? -/
def Pending (self : SignalReceivers) (signum : ℕ) : Prop :=
  self.sigReceived.containBit (signum - 1) = true

end SignalReceivers

end Maturin
