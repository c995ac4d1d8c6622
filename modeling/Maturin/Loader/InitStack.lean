import Maturin.Base.Addr
import Maturin.Base.Error
import Maturin.Lib.Bytes
import Maturin.Lib.OrdMap

/-!
# The initial stack of a program

`InitStack` of `loaders/init_stack.rs` and `InitInfo` of `loaders/init_info.rs`: the arguments, the
environment and the auxiliary vector of a program are pushed onto a stack that grows downwards, in
a buffer of the kernel that is not initialised. A string is its bytes with a zero behind them, and
a `usize` or a pointer is eight bytes.
-/

namespace Maturin

abbrev USER_INIT_STACK_SIZE : ℕ := 0x4000

/-- The bytes of a string. -/
def asBytes (s : String) : List UInt8 := s.toUTF8.data.toList

/-- `to_ne_bytes` of a `usize`. -/
def toNeBytes (v : ℕ) : List UInt8 := (List.range 8).map fun i ↦ UInt8.ofNat (v / 256 ^ i)

/-- A stack that grows downwards from `buttom`, in a buffer of `USER_INIT_STACK_SIZE` bytes. -/
structure InitStack where
  sp : ℕ
  buttom : ℕ
  data : ByteMem

namespace InitStack

/-- A stack in a buffer that holds anything. -/
def new (sp : ℕ) (data : ByteMem) : InitStack := { sp, buttom := sp, data }

/-- Push a slice, given by its bytes, of elements with an alignment. -/
@[irreducible] def pushSlice (self : InitStack) (align : ℕ) (bytes : List UInt8) :
    Except Panic InitStack :=
  let sp := wsub self.sp bytes.length
  let sp := wsub sp (sp % align)
  if wsub self.buttom sp ≤ USER_INIT_STACK_SIZE then
    let offset := wsub USER_INIT_STACK_SIZE (wsub self.buttom sp)
    pure { self with sp, data := self.data.writeBytes offset bytes }
  else
    throw .assertFailed

/-- Push a slice of `usize`s or pointers. -/
def pushWords (self : InitStack) (words : List ℕ) : Except Panic InitStack :=
  self.pushSlice 8 (words.flatMap toNeBytes)

/-- Push a string with a zero behind it, and return the top of the stack. -/
def pushStr (self : InitStack) (s : String) : Except Panic (ℕ × InitStack) := do
  let self ← self.pushSlice 1 [0]
  let self ← self.pushSlice 1 (asBytes s)
  pure (self.sp, self)

/-- Push strings one after another, and return where each of them is. -/
def pushStrs : List String → InitStack → Except Panic (List ℕ × InitStack)
  | [], self => pure ([], self)
  | s :: rest, self => do
    let (pos, self) ← self.pushStr s
    let (poss, self) ← pushStrs rest self
    pure (pos :: poss, self)

/-- What was pushed. -/
def deref (self : InitStack) : List UInt8 :=
  self.data.readBytes (wsub USER_INIT_STACK_SIZE (wsub self.buttom self.sp))
    (wsub self.buttom self.sp)

end InitStack

def AT_PHDR : ℕ := 3
def AT_PHENT : ℕ := 4
def AT_PHNUM : ℕ := 5
def AT_PAGESZ : ℕ := 6
def AT_RANDOM : ℕ := 25

/-- What a program is told at its start. -/
structure InitInfo where
  args : List String
  envs : List String
  auxv : OrdMap ℕ ℕ

namespace InitInfo

/-- The loop of `serialize` over the auxiliary vector. -/
def pushAuxv (randomPos : ℕ) : List (ℕ × ℕ) → InitStack → Except Panic InitStack
  | [], writer => pure writer
  | (type, value) :: rest, writer => do
    let writer ← writer.pushWords [type, if type = AT_RANDOM then randomPos else value]
    pushAuxv randomPos rest writer

/-- Push everything onto a stack below `stackTop`. -/
def serialize (self : InitInfo) (stackTop : ℕ) (data : ByteMem) : Except Panic InitStack :=
  match self.args with
  | [] => throw .indexOutOfBounds
  | name :: _ => do
    let writer := InitStack.new stackTop data
    let (_, writer) ← writer.pushStr name
    let writer ← writer.pushWords [3703830112808742751, 7081108068768079778]
    let randomPos := writer.sp
    let (envs, writer) ← InitStack.pushStrs self.envs writer
    let (argv, writer) ← InitStack.pushStrs self.args writer
    let writer ← writer.pushWords [0, 0]
    let writer ← pushAuxv randomPos self.auxv.entries writer
    let writer ← writer.pushWords [0]
    let writer ← writer.pushWords envs
    let writer ← writer.pushWords [0]
    let writer ← writer.pushWords argv
    writer.pushWords [argv.length]

end InitInfo

end Maturin
