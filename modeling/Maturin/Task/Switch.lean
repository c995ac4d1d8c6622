import Maturin.Lib.Riscv

/-!
# Switching between contexts

`switch.S` and `TaskContext`. `__switch` stores the registers that a function has to keep, with its
return address, in one context, and loads them from another one. So the call returns to whoever has
stored the other context, with the registers that it had then.
-/

open Riscv

namespace Maturin

/-- `TaskContext` -/
@[ext]
structure TaskContext where
  ra : Word
  sp : Word
  s : Fin 12 → Word

/-- The register `s` with a number. -/
def sReg (n : Fin 12) : Reg := if n.val < 2 then Fin.ofNat 32 (8 + n) else Fin.ofNat 32 (16 + n)

namespace TaskContext

/-- The number of doublewords. -/
abbrev words : ℕ := 14

/-- `zero_init` -/
def zeroInit : TaskContext where
  ra := 0
  sp := 0
  s _ := 0

/-- `goto_restore`, where `restore` is the address of `__restore`. -/
def gotoRestore (restore kstackPtr : Word) : TaskContext where
  ra := restore
  sp := kstackPtr
  s _ := 0

/-- The context at an address. -/
def ofMem (a : ℕ) (m : Machine) : TaskContext where
  ra := m.load (a + 8 * 0)
  sp := m.load (a + 8 * 1)
  s n := m.load (a + 8 * (n + 2 : ℕ))

/-- The registers that belong to a context. -/
def ofRegs (m : Machine) : TaskContext where
  ra := m.get Riscv.ra
  sp := m.get Riscv.sp
  s n := m.get (sReg n)

end TaskContext

/-! ## The assembly -/

/-- The labels of `switch.S`. -/
inductive SwitchLabel
  | switch
  | moveToContext
  deriving DecidableEq

/-- `SAVE_SN` -/
def saveSn (n : Fin 12) : Instr SwitchLabel := .sd (sReg n) ((n + 2) * 8) a0

/-- `LOAD_SN` -/
def loadSn (n : Fin 12) : Instr SwitchLabel := .ld (sReg n) ((n + 2) * 8) a1

/-- `LOAD_AT` -/
def loadAt (n : Fin 12) : Instr SwitchLabel := .ld (sReg n) ((n + 2) * 8) a0

/-- `switch.S` -/
def switchText : Text SwitchLabel :=
  [(.switch,
    [ .sd sp 8 a0,
      .sd ra 0 a0 ]
    ++ (List.finRange 12).map saveSn ++
    [ .ld ra 0 a1 ]
    ++ (List.finRange 12).map loadSn ++
    [ .ld sp 8 a1,
      .ret ]),
   (.moveToContext,
    [ .ld ra 0 a0 ]
    ++ (List.finRange 12).map loadAt ++
    [ .ld sp 8 a0,
      .ret ])]

/-- From `__switch` until it returns. -/
def switch (m : Machine) : Option (Log SwitchLabel × Exit SwitchLabel × Machine) :=
  run switchText 1 .switch m

/-- The registers with their slots, in the order of the stores. -/
def storedSlots : List (Reg × ℕ) :=
  (sp, 1) :: (ra, 0) :: (List.finRange 12).map fun n ↦ (sReg n, n.val + 2)

/-- In the order of the loads. -/
def loadedSlots : List (Reg × ℕ) :=
  (ra, 0) :: (List.finRange 12).map (fun n ↦ (sReg n, n.val + 2)) ++ [(sp, 1)]

theorem codeFrom_switch : switchText.codeFrom .switch =
    (saves a0 storedSlots ++ loads a1 loadedSlots) ++
      .ret :: switchText.codeFrom .moveToContext := by
  decide +kernel

theorem storedSlots_lt : ∀ p ∈ storedSlots, p.2 < TaskContext.words := by decide

theorem loadedSlots_lt : ∀ p ∈ loadedSlots, p.2 < TaskContext.words := by decide

theorem nodup_storedSlots : (storedSlots.map Prod.snd).Nodup := by decide

theorem nodup_loadedSlots : (loadedSlots.map Prod.fst).Nodup := by decide

theorem mem_storedSlots (n : Fin 12) : (sReg n, n.val + 2) ∈ storedSlots := by
  revert n
  decide

theorem mem_loadedSlots (n : Fin 12) : (sReg n, n.val + 2) ∈ loadedSlots := by
  revert n
  decide

theorem sReg_ne_zero (n : Fin 12) : sReg n ≠ 0 := by
  revert n
  decide

/-! ## What it does -/

/-- The machine after `__switch`, which has left its context at `a` and taken the one at `b`. -/
structure Switched (a b : ℕ) (m m' : Machine) : Prop where
  saved : TaskContext.ofMem a m' = .ofRegs m
  loaded : TaskContext.ofRegs m' = .ofMem b m
  csr : m'.csr = m.csr
  f : m'.f = m.f
  mem : ∀ x, x < a ∨ a + 8 * TaskContext.words ≤ x → m'.mem x = m.mem x

variable {m : Machine} {a b : ℕ}

/-- **The contexts are exchanged.** -/
theorem exists_switch (ha : m.HasFrame a0 a TaskContext.words)
    (hb : m.HasFrame a1 b TaskContext.words)
    (hapart : a + 8 * TaskContext.words ≤ b ∨ b + 8 * TaskContext.words ≤ a) :
    ∃ log m', switch m = some (log, .ret, m') ∧ Switched a b m m' := by
  have hblock := congrArg (fun code ↦ runBlock code m) codeFrom_switch
  rw [runBlock_append (by decide), runBlock_of_exit rfl] at hblock
  refine ⟨_, _, run_of_exit hblock nofun, ?_⟩
  rw [execAll_append]
  -- the registers are stored
  obtain ⟨m₁, hm₁⟩ : ∃ m₁, execAll m (saves a0 storedSlots : List (Instr SwitchLabel)) = m₁ :=
    ⟨_, rfl⟩
  have hb₁ : m₁.HasFrame a1 b TaskContext.words := hb.congr (by rw [← hm₁, get_execAll_saves])
  have hmem : ∀ x, x < a ∨ a + 8 * TaskContext.words ≤ x → m₁.mem x = m.mem x := by
    intro x hx
    rw [← hm₁, execAll_saves_mem ha storedSlots_lt hx]
  have hstored : ∀ r k, (r, k) ∈ storedSlots → m₁.load (a + 8 * k) = m.get r := by
    intro r k h
    rw [← hm₁, load_execAll_saves ha storedSlots_lt nodup_storedSlots h]
  have hload : ∀ k < TaskContext.words, m₁.load (b + 8 * k) = m.load (b + 8 * k) := by
    intro k hk
    exact Machine.load_congr fun x hl hr ↦ hmem x (by simp only [TaskContext.words] at *; omega)
  rw [hm₁]
  -- and the others are loaded
  obtain ⟨m₂, hm₂⟩ : ∃ m₂, execAll m₁ (loads a1 loadedSlots : List (Instr SwitchLabel)) = m₂ :=
    ⟨_, rfl⟩
  have hloaded : ∀ r k, (r, k) ∈ loadedSlots → r ≠ 0 → m₂.get r = m.load (b + 8 * k) := by
    intro r k h hr
    rw [← hm₂, get_execAll_loads hb₁ loadedSlots_lt nodup_loadedSlots (by decide) h hr,
      hload k (loadedSlots_lt _ h)]
  have hmem₂ : m₂.mem = m₁.mem := by rw [← hm₂, execAll_loads_mem]
  have hload₂ : ∀ x, m₂.load x = m₁.load x := fun x ↦ Machine.load_congr fun y _ _ ↦
    congrFun hmem₂ y
  rw [hm₂]
  constructor
  case saved =>
    ext1
    · exact (hload₂ _).trans (hstored ra 0 (by decide))
    · exact (hload₂ _).trans (hstored sp 1 (by decide))
    · funext n
      exact (hload₂ _).trans (hstored _ _ (mem_storedSlots n))
  case loaded =>
    ext1
    · exact hloaded ra 0 (by decide) (by decide)
    · exact hloaded sp 1 (by decide) (by decide)
    · funext n
      exact hloaded _ _ (mem_loadedSlots n) (sReg_ne_zero n)
  case csr => rw [← hm₂, execAll_loads_csr, ← hm₁, execAll_saves_csr]
  case f => rw [← hm₂, execAll_loads_f, ← hm₁, execAll_saves_f]
  case mem =>
    intro x hx
    rw [hmem₂, hmem x hx]

theorem switched_of_switch {m' : Machine} {log : Log SwitchLabel}
    (ha : m.HasFrame a0 a TaskContext.words) (hb : m.HasFrame a1 b TaskContext.words)
    (hapart : a + 8 * TaskContext.words ≤ b ∨ b + 8 * TaskContext.words ≤ a)
    (h : switch m = some (log, .ret, m')) : Switched a b m m' := by
  obtain ⟨log', m'', hrun, hswitched⟩ := exists_switch ha hb hapart
  rw [h, Option.some.injEq, Prod.mk.injEq, Prod.mk.injEq] at hrun
  rwa [hrun.2.2]

end Maturin
