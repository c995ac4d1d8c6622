import Mathlib.Algebra.Order.Ring.Int
import Mathlib.Tactic.Common

/-!
# Interrupts while a lock is held

The locks of the kernel turn the interrupts of their CPU off. `push_off` and `pop_off` are matched:
it takes as many `pop_off`s as `push_off`s until the interrupts are what they were before the first
one, and a `pop_off` without its `push_off` panics, as does one that finds the interrupts on.
-/

namespace Maturin.KernelSync

/-- `Cpu`: the depth of nesting, and whether interrupts were enabled before it. -/
structure Cpu where
  noff : ℤ
  interruptEnable : Bool

/-- A CPU: the bit `sstatus.SIE` and its entry of `CPUS`. -/
structure Hart where
  sie : Bool
  cpu : Cpu

namespace Hart

/-- The entry of a CPU before any lock was taken -/
def fresh (sie : Bool) : Hart := ⟨sie, ⟨0, false⟩⟩

/-- `push_off`. -/
def pushOff (h : Hart) : Hart where
  sie := false
  cpu :=
    { noff := h.cpu.noff + 1
      interruptEnable := if h.cpu.noff = 0 then h.sie else h.cpu.interruptEnable }

/-- `pop_off`; `none` is its `panic!`. -/
def popOff (h : Hart) : Option Hart :=
  if h.sie = true ∨ h.cpu.noff < 1 then none
  else
    let noff := h.cpu.noff - 1
    some
      { sie := decide (noff = 0) && h.cpu.interruptEnable
        cpu := { h.cpu with noff } }

/-- `n` pairs are open. -/
structure Nested (h : Hart) (n : ℕ) : Prop where
  noff_eq : h.cpu.noff = n
  off : 0 < n → h.sie = false

/-- Are interrupts on outside of all pairs? -/
def outside (h : Hart) : Bool := if h.cpu.noff = 0 then h.sie else h.cpu.interruptEnable

variable {h h' : Hart} {n : ℕ}

theorem nested_fresh (sie : Bool) : (fresh sie).Nested 0 :=
  ⟨rfl, fun hpos ↦ absurd hpos (lt_irrefl 0)⟩

theorem outside_of_nested_zero (hn : h.Nested 0) : h.outside = h.sie := if_pos hn.noff_eq

theorem Nested.pushOff (hn : h.Nested n) : h.pushOff.Nested (n + 1) := by
  refine ⟨?_, fun _ ↦ rfl⟩
  rw [Hart.pushOff, hn.noff_eq]
  rfl

theorem outside_pushOff (hn : h.Nested n) : h.pushOff.outside = h.outside := by
  have hne : h.pushOff.cpu.noff ≠ 0 := by
    rw [hn.pushOff.noff_eq]
    exact_mod_cast n.succ_ne_zero
  rw [outside, if_neg hne]
  rfl

/-- A `pop_off` of an open pair does not panic. -/
theorem Nested.exists_popOff (hn : h.Nested (n + 1)) :
    ∃ h', h.popOff = some h' ∧ h'.Nested n ∧ h'.outside = h.outside := by
  have hpos : ¬(h.sie = true ∨ h.cpu.noff < 1) := by
    rw [not_or, hn.noff_eq, hn.off n.succ_pos]
    refine ⟨Bool.false_ne_true, ?_⟩
    push_cast
    omega
  refine ⟨_, if_neg hpos, ⟨?_, fun hn' ↦ ?_⟩, ?_⟩
  · dsimp only
    rw [hn.noff_eq]
    push_cast
    omega
  · have hne : h.cpu.noff - 1 ≠ 0 := by
      rw [hn.noff_eq]
      push_cast
      omega
    dsimp only
    rw [decide_eq_false hne, Bool.false_and]
  · have hne : h.cpu.noff ≠ 0 := by
      rw [hn.noff_eq]
      exact_mod_cast n.succ_ne_zero
    rw [outside, outside, if_neg hne]
    dsimp only
    split_ifs with hzero
    · rw [decide_eq_true hzero, Bool.true_and]
    · rfl

/-- A `pop_off` panics where no pair is open. -/
theorem Nested.popOff_eq_none (hn : h.Nested 0) : h.popOff = none := by
  rw [popOff, if_pos]
  rw [hn.noff_eq]
  exact .inr Int.zero_lt_one

end Hart

end Maturin.KernelSync
