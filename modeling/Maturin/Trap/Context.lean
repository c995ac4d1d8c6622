import Maturin.Lib.Riscv
import Mathlib.Logic.Function.Basic
import Mathlib.Data.Fintype.Basic
import Mathlib.Algebra.Order.Group.Nat

/-!
# The trap context

`TrapContext` of `trap/context.rs` is the frame that a trap leaves on the kernel stack of a task:
the general registers, `sstatus`, `sepc`, the number of the processor, and two floating-point
registers.
-/

open Function

namespace Maturin

/-- `TrapContext` -/
structure TrapContext where
  x : Fin 32 → ℕ
  sstatus : ℕ
  sepc : ℕ
  cpuId : ℕ
  fs : Fin 2 → ℕ
  deriving DecidableEq

namespace TrapContext

variable (cx : TrapContext)

/-- Set a general register. -/
def setX (i : Fin 32) (v : ℕ) : TrapContext := { cx with x := update cx.x i v }

def setRa (ra : ℕ) : TrapContext := cx.setX 1 ra
def setSp (sp : ℕ) : TrapContext := cx.setX 2 sp
def getSp : ℕ := cx.x 2
def setGp (gp : ℕ) : TrapContext := cx.setX 3 gp
def setTp (tp : ℕ) : TrapContext := cx.setX 4 tp
def setA0 (a0 : ℕ) : TrapContext := cx.setX 10 a0
def getA0 : ℕ := cx.x 10
def setA1 (a1 : ℕ) : TrapContext := cx.setX 11 a1
def setA2 (a2 : ℕ) : TrapContext := cx.setX 12 a2
def setSepc (sepc : ℕ) : TrapContext := { cx with sepc }
def getSepc : ℕ := cx.sepc

/-- `app_init_context`, where `sstatus` is what the register holds. -/
def appInitContext (sstatus entry sp : ℕ) : TrapContext :=
  let cx : TrapContext :=
    { x := fun _ ↦ 0
      -- the previous mode, bit 8, is the user's
      sstatus := if sstatus.testBit 8 then sstatus - 2 ^ 8 else sstatus
      sepc := entry
      cpuId := 2 ^ 64 - 1
      fs := fun _ ↦ 0 }
  ((cx.setSp sp).setGp 0x17908).setA0 sp

def appExecContext (sstatus entry sp argc argv : ℕ) : TrapContext :=
  ((appInitContext sstatus entry sp).setA0 argc).setA1 argv

variable {cx} {i j : Fin 32} {v : ℕ}

@[simp] theorem setX_sepc : (cx.setX i v).sepc = cx.sepc := rfl

@[simp] theorem setX_x : (cx.setX i v).x = update cx.x i v := rfl

@[simp] theorem setSepc_sepc : (cx.setSepc v).sepc = v := rfl

@[simp] theorem setSepc_x : (cx.setSepc v).x = cx.x := rfl

end TrapContext

end Maturin
