import Maturin.Alloc.PageFrame
import Maturin.Lib.Riscv
import Maturin.Trap.Context

/-!
# The way into the kernel and back

`trap.S` of the kernel. A trap enters at `__alltraps` with the registers of whatever it interrupted,
puts a `TrapContext` on a stack and calls `trap_handler`, which returns to `__restore`. A task in
user mode finds its kernel stack in `sscratch`, where `__restore` has left it.
-/

open Riscv

namespace Maturin

/-! ## The assembly -/

/-- The labels of `trap.S`, and the function that it calls. -/
inductive TrapLabel
  | alltraps
  | realTrapEntry
  | restore
  | userTrapEnd
  | userTrapStart
  | idleKernelTrapEnd
  | kernelTrapEnd
  | trapHandler
  deriving DecidableEq

/-- `SAVE_GP` -/
def saveGp (n : Reg) : Instr TrapLabel := .sd n (n * 8) sp

/-- `LOAD_GP` -/
def loadGp (n : Reg) : Instr TrapLabel := .ld n (n * 8) sp

/-- The registers from `x5` to `x31`. -/
def x5ToX31 : List Reg := (List.range 27).map fun i ↦ Fin.ofNat 32 (5 + i)

/-- `trap.S` -/
def trapText : Text TrapLabel :=
  [(.alltraps,
    [ .bgtz sp .userTrapStart,
      .sd tp (-3 * 8) sp ]),
   (.realTrapEntry, List.flatten
    [[ .addi sp sp (-37 * 8),
       .sd 1 (1 * 8) sp,
       .sd 3 (3 * 8) sp,
       .sd tp (4 * 8) sp ],
     x5ToX31.map saveGp,
     [ .csrr t0 .sstatus,
       .csrr t1 .sepc,
       .sd t0 (32 * 8) sp,
       .sd t1 (33 * 8) sp,
       .csrr t2 .sscratch,
       .fsd 8 280 sp,
       .fsd 9 288 sp,
       .sd t2 (2 * 8) sp,
       .ld tp (34 * 8) sp,
       .mv a0 sp,
       .call .trapHandler ]]),
   (.restore,
    [ .ld t0 (32 * 8) sp,
      .ld t1 (33 * 8) sp,
      .ld t2 (2 * 8) sp,
      .sd tp (34 * 8) sp,
      .ld tp (4 * 8) sp,
      .csrw .sstatus t0,
      .csrw .sepc t1,
      .csrw .sscratch t2,
      .andi t0 t0 0x100,
      .bnez t0 .kernelTrapEnd ]),
   (.userTrapEnd, List.flatten
    [[ .ld 1 (1 * 8) sp,
       .ld 3 (3 * 8) sp ],
     x5ToX31.map loadGp,
     [ .fld 8 280 sp,
       .fld 9 288 sp,
       .addi sp sp (37 * 8),
       .csrrw sp .sscratch sp,
       .beqz sp .idleKernelTrapEnd,
       .sret ]]),
   (.userTrapStart,
    [ .csrrw sp .sscratch sp,
      .j .realTrapEntry ]),
   (.idleKernelTrapEnd,
    [ .csrrw sp .sscratch sp,
      .sret ]),
   (.kernelTrapEnd, List.flatten
    [[ .ld 1 (1 * 8) sp,
       .ld 3 (3 * 8) sp ],
     x5ToX31.map loadGp,
     [ .addi sp sp (37 * 8),
       .sret ]])]

/-- From `__alltraps` until the text is left. -/
def alltraps (m : Machine) : Option (Log TrapLabel × Exit TrapLabel × Machine) :=
  run trapText 3 .alltraps m

/-- From `__restore` until the text is left. -/
def restore (m : Machine) : Option (Log TrapLabel × Exit TrapLabel × Machine) :=
  run trapText 3 .restore m

/-- What the processor does when it takes a trap in user mode at `pc`: `SPIE` gets `SIE`, which is
cleared, and the previous mode is the user's. -/
def takeTrap (pc : Word) (m : Machine) : Machine :=
  (m.setCsr .sepc pc).setCsr .sstatus
    ((m.csr .sstatus &&& ~~~(0x122 : Word)) ||| ((m.csr .sstatus &&& 2) <<< 4))

/-- The `TrapContext` at an address. -/
def TrapContext.ofMem (a : ℕ) (m : Machine) : TrapContext where
  x i := (m.load (a + 8 * i)).toNat
  sstatus := (m.load (a + 8 * 32)).toNat
  sepc := (m.load (a + 8 * 33)).toNat
  cpuId := (m.load (a + 8 * 34)).toNat
  fs i := (m.load (a + 8 * (35 + i))).toNat

/-! ## Pieces of the assembly -/

/-- The registers that have the slot with their number. -/
def savedRegs : List (Reg × ℕ) := ([1, 3, 4] ++ x5ToX31).map fun n ↦ (n, n.val)

/-- The registers that are loaded last. -/
def loadedRegs : List (Reg × ℕ) := ([1, 3] ++ x5ToX31).map fun n ↦ (n, n.val)

theorem mem_savedRegs {r : Reg} (h0 : r ≠ 0) (hsp : r ≠ sp) : (r, r.val) ∈ savedRegs := by
  revert r
  decide

theorem mem_loadedRegs {r : Reg} (h0 : r ≠ 0) (hsp : r ≠ sp) (htp : r ≠ tp) :
    (r, r.val) ∈ loadedRegs := by
  revert r
  decide

/-- After the registers: the control registers, the user's stack pointer and `tp`. -/
def entryTail : List (Instr TrapLabel) :=
  [ .csrr t0 .sstatus, .csrr t1 .sepc, .sd t0 (32 * 8) sp, .sd t1 (33 * 8) sp, .csrr t2 .sscratch,
    .fsd 8 280 sp, .fsd 9 288 sp, .sd t2 (2 * 8) sp, .ld tp (34 * 8) sp, .mv a0 sp ]

/-- The control registers, and the thread pointers of the kernel and of the user. -/
def restoreHead : List (Instr TrapLabel) :=
  [ .ld t0 (32 * 8) sp, .ld t1 (33 * 8) sp, .ld t2 (2 * 8) sp, .sd tp (34 * 8) sp,
    .ld tp (4 * 8) sp, .csrw .sstatus t0, .csrw .sepc t1, .csrw .sscratch t2, .andi t0 t0 0x100 ]

/-- After the registers: the frame is released and the stacks are exchanged. -/
def restoreTail : List (Instr TrapLabel) :=
  [ .fld 8 280 sp, .fld 9 288 sp, .addi sp sp (37 * 8), .csrrw sp .sscratch sp ]

theorem codeFrom_restore : trapText.codeFrom .restore =
    restoreHead ++ .bnez t0 .kernelTrapEnd :: trapText.codeFrom .userTrapEnd := by
  decide +kernel

theorem codeFrom_userTrapEnd : trapText.codeFrom .userTrapEnd =
    (loads sp loadedRegs ++ restoreTail) ++
      .beqz sp .idleKernelTrapEnd :: .sret :: trapText.codeFrom .userTrapStart := by
  decide +kernel

theorem codeFrom_realTrapEntry : trapText.codeFrom .realTrapEntry =
    (.addi sp sp (-37 * 8) :: saves sp savedRegs ++ entryTail) ++
      .call .trapHandler :: trapText.codeFrom .restore := by
  decide +kernel

/-! ## The frame -/

/-- The machine when `trap_handler` is called. -/
def enterKernel (m : Machine) : Machine :=
  execAll m (.addi sp sp (-37 * 8) :: saves sp savedRegs ++ entryTail)

theorem runBlock_realTrapEntry (m : Machine) :
    runBlock (trapText.codeFrom .realTrapEntry) m =
      (steps (.addi sp sp (-37 * 8) :: saves sp savedRegs ++ entryTail) m ++
        [(.call .trapHandler, enterKernel m)], .call .trapHandler, enterKernel m) := by
  rw [codeFrom_realTrapEntry, runBlock_append (by decide), runBlock_of_exit rfl, enterKernel]

section

variable {m : Machine} {base : ℕ}

/-- The slots are the registers that the trap found. -/
structure Entered (base : ℕ) (m m' : Machine) : Prop where
  frame : m'.HasFrame sp base 37
  regs : ∀ r : Reg, r ≠ 0 → r ≠ sp → m'.load (base + 8 * r) = m.get r
  sscratch : m'.load (base + 8 * 2) = m.csr .sscratch
  sstatus : m'.load (base + 8 * 32) = m.csr .sstatus
  sepc : m'.load (base + 8 * 33) = m.csr .sepc
  cpuId : m'.load (base + 8 * 34) = m.load (base + 8 * 34)
  fs0 : m'.load (base + 8 * 35) = m.f 8
  fs1 : m'.load (base + 8 * 36) = m.f 9
  tp : m'.get tp = m.load (base + 8 * 34)
  csr : m'.csr = m.csr
  f : m'.f = m.f
  mem : ∀ a, a < base ∨ base + 8 * 37 ≤ a → m'.mem a = m.mem a

/-- What follows the registers. -/
theorem execAll_entryTail (hm : m.HasFrame sp base 37) :
    execAll m entryTail =
      (((((((((m.set t0 (m.csr .sstatus)).set t1 (m.csr .sepc)).store (base + 8 * 32)
        (m.csr .sstatus)).store (base + 8 * 33) (m.csr .sepc)).set t2 (m.csr .sscratch)).store
        (base + 8 * 35) (m.f 8)).store (base + 8 * 36) (m.f 9)).store (base + 8 * 2)
        (m.csr .sscratch)).set tp (m.load (base + 8 * 34))).set a0 (m.get sp) := by
  have h2 : m.addr sp (2 * 8) = base + 8 * 2 :=
    hm.addr_of_eq 2 (by norm_num) (by norm_num)
  have h32 : m.addr sp (32 * 8) = base + 8 * 32 :=
    hm.addr_of_eq 32 (by norm_num) (by norm_num)
  have h33 : m.addr sp (33 * 8) = base + 8 * 33 :=
    hm.addr_of_eq 33 (by norm_num) (by norm_num)
  have h34 : m.addr sp (34 * 8) = base + 8 * 34 :=
    hm.addr_of_eq 34 (by norm_num) (by norm_num)
  have h35 : m.addr sp 280 = base + 8 * 35 :=
    hm.addr_of_eq 35 (by norm_num) (by norm_num)
  have h36 : m.addr sp 288 = base + 8 * 36 :=
    hm.addr_of_eq 36 (by norm_num) (by norm_num)
  simp only [Machine.addr] at *
  simp (disch := decide) only [entryTail, execAll_cons, execAll_nil, Instr.exec, Machine.addr,
    Machine.get_store, Machine.get_set_of_ne, Machine.get_set_self, Machine.set_csr,
    Machine.store_csr, Machine.set_f, Machine.store_f, h2, h32, h33, h34, h35, h36]
  simp (disch := omega) only [Machine.load_store_of_disjoint, Machine.load_set]

theorem savedRegs_lt : ∀ p ∈ savedRegs, p.2 < 37 := by decide

theorem nodup_savedRegs : (savedRegs.map Prod.snd).Nodup := by decide

/-- **The whole frame is stored.** -/
theorem entered_enter (hm : (m.get sp).toNat = base + 8 * 37) : Entered base m (enterKernel m) := by
  have hlt := (m.get sp).isLt
  -- the frame is allocated
  obtain ⟨m₀, hm₀⟩ : ∃ m₀, m.set sp (m.get sp + BitVec.ofInt 64 (-37 * 8)) = m₀ := ⟨_, rfl⟩
  have hframe : m₀.HasFrame sp base 37 := by
    refine ⟨?_, by omega⟩
    rw [← hm₀, Machine.get_set_self (by decide), BitVec.toNat_add, hm]
    norm_num
    omega
  have hload : ∀ a, m₀.load a = m.load a := fun a ↦ by rw [← hm₀, Machine.load_set]
  have hget : ∀ r, r ≠ sp → m₀.get r = m.get r := fun r hr ↦ by
    rw [← hm₀, Machine.get_set_of_ne hr]
  -- the registers are saved
  obtain ⟨m₁, hm₁⟩ : ∃ m₁, execAll m₀ (saves sp savedRegs : List (Instr TrapLabel)) = m₁ :=
    ⟨_, rfl⟩
  have henter : enterKernel m = execAll m₁ entryTail := by
    rw [← hm₁, ← hm₀, enterKernel, List.cons_append, execAll_cons, execAll_append]
    rfl
  have hframe₁ : m₁.HasFrame sp base 37 := hframe.congr (by rw [← hm₁, get_execAll_saves])
  have hregs : ∀ r : Reg, r ≠ 0 → r ≠ sp → m₁.load (base + 8 * r) = m.get r := by
    intro r h0 hr
    rw [← hm₁, load_execAll_saves hframe savedRegs_lt nodup_savedRegs (mem_savedRegs h0 hr),
      hget r hr]
  have hcpu : m₁.load (base + 8 * 34) = m.load (base + 8 * 34) := by
    rw [← hm₁, load_execAll_saves_of_notMem hframe savedRegs_lt (by decide), hload]
  have hcsr : m₁.csr = m.csr := by
    rw [← hm₁, execAll_saves_csr, ← hm₀, Machine.set_csr]
  have hf : m₁.f = m.f := by
    rw [← hm₁, execAll_saves_f, ← hm₀, Machine.set_f]
  have hmem : ∀ a, a < base ∨ base + 8 * 37 ≤ a → m₁.mem a = m.mem a := by
    intro a ha
    rw [← hm₁, execAll_saves_mem hframe savedRegs_lt ha, ← hm₀, Machine.set_mem]
  clear hm₁ hm₀
  rw [henter, execAll_entryTail hframe₁]
  constructor
  case frame =>
    refine hframe₁.congr ?_
    simp (disch := decide) only [Machine.get_set_of_ne, Machine.get_store]
  case regs =>
    intro r h0 hr
    have hne : r.val ≠ 2 := fun h ↦ hr (Fin.ext h)
    simp (disch := omega) only [Machine.load_set, Machine.load_store_of_disjoint]
    exact hregs r h0 hr
  case mem =>
    intro a ha
    simp (disch := omega) only [Machine.set_mem, Machine.store_mem_of_notMem]
    exact hmem a ha
  case cpuId =>
    simp (disch := omega) only [Machine.load_set, Machine.load_store_of_disjoint]
    exact hcpu
  case tp =>
    rw [Machine.get_set_of_ne (by decide), Machine.get_set_self (by decide)]
    exact hcpu
  case csr => simp only [Machine.set_csr, Machine.store_csr, hcsr]
  case f => simp only [Machine.set_f, Machine.store_f, hf]
  -- the slots that the tail stores
  all_goals
    simp (disch := omega) only [Machine.load_set, Machine.load_store_of_disjoint,
      Machine.load_store_self, hcsr, hf]

/-! ## Leaving the kernel -/

/-- The registers and the memory at the end of `__user_trap_end`. -/
def leaveKernel (m : Machine) : Machine :=
  execAll (execAll m restoreHead) (loads sp loadedRegs ++ restoreTail)

theorem execAll_restoreHead (hm : m.HasFrame sp base 37) :
    execAll m restoreHead =
      ((((((((m.set t0 (m.load (base + 8 * 32))).set t1 (m.load (base + 8 * 33))).set t2
        (m.load (base + 8 * 2))).store (base + 8 * 34) (m.get tp)).set tp
        (m.load (base + 8 * 4))).setCsr .sstatus (m.load (base + 8 * 32))).setCsr .sepc
        (m.load (base + 8 * 33))).setCsr .sscratch (m.load (base + 8 * 2))).set t0
        (m.load (base + 8 * 32) &&& 0x100) := by
  have h2 : m.addr sp (2 * 8) = base + 8 * 2 :=
    hm.addr_of_eq 2 (by norm_num) (by norm_num)
  have h4 : m.addr sp (4 * 8) = base + 8 * 4 :=
    hm.addr_of_eq 4 (by norm_num) (by norm_num)
  have h32 : m.addr sp (32 * 8) = base + 8 * 32 :=
    hm.addr_of_eq 32 (by norm_num) (by norm_num)
  have h33 : m.addr sp (33 * 8) = base + 8 * 33 :=
    hm.addr_of_eq 33 (by norm_num) (by norm_num)
  have h34 : m.addr sp (34 * 8) = base + 8 * 34 :=
    hm.addr_of_eq 34 (by norm_num) (by norm_num)
  have hbit : BitVec.ofInt 64 0x100 = 0x100 := by decide
  simp only [Machine.addr] at *
  simp (disch := decide) only [restoreHead, execAll_cons, execAll_nil, Instr.exec, Machine.addr,
    Machine.get_store, Machine.get_set_of_ne, Machine.get_set_self, Machine.get_setCsr,
    Machine.load_set, h2, h4, h32, h33, h34, hbit]
  simp (disch := omega) only [Machine.load_store_of_disjoint, Machine.load_set]

theorem execAll_restoreTail (hm : m.HasFrame sp base 37) :
    execAll m restoreTail =
      ((((m.setF 8 (m.load (base + 8 * 35))).setF 9 (m.load (base + 8 * 36))).set sp
        (m.get sp + BitVec.ofInt 64 (37 * 8))).setCsr .sscratch
        (m.get sp + BitVec.ofInt 64 (37 * 8))).set sp (m.csr .sscratch) := by
  have h35 : m.addr sp 280 = base + 8 * 35 :=
    hm.addr_of_eq 35 (by norm_num) (by norm_num)
  have h36 : m.addr sp 288 = base + 8 * 36 :=
    hm.addr_of_eq 36 (by norm_num) (by norm_num)
  simp only [Machine.addr] at *
  simp (disch := decide) only [restoreTail, execAll_cons, execAll_nil, Instr.exec, Machine.addr,
    Machine.get_setF, Machine.get_set_self, Machine.set_csr, Machine.setF_csr, Machine.load_setF,
    h35, h36]

/-- The registers are what the slots hold. -/
structure Left (base : ℕ) (m m' : Machine) : Prop where
  regs : ∀ r : Reg, r ≠ 0 → r ≠ sp → m'.get r = m.load (base + 8 * r)
  sp : m'.get sp = m.load (base + 8 * 2)
  sscratch : (m'.csr .sscratch).toNat = base + 8 * 37
  sstatus : m'.csr .sstatus = m.load (base + 8 * 32)
  sepc : m'.csr .sepc = m.load (base + 8 * 33)
  fs0 : m'.f 8 = m.load (base + 8 * 35)
  fs1 : m'.f 9 = m.load (base + 8 * 36)
  f : ∀ r, r ≠ 8 → r ≠ 9 → m'.f r = m.f r
  cpuId : m'.load (base + 8 * 34) = m.get tp
  mem : ∀ a, a < base + 8 * 34 ∨ base + 8 * 35 ≤ a → m'.mem a = m.mem a

theorem loadedRegs_lt : ∀ p ∈ loadedRegs, p.2 < 37 := by decide

theorem nodup_loadedRegs : (loadedRegs.map Prod.fst).Nodup := by decide

/-- The frame after the control registers have been loaded from it. -/
structure Headed (base : ℕ) (m m' : Machine) : Prop where
  sp : m'.get sp = m.get sp
  tp : m'.get tp = m.load (base + 8 * 4)
  sscratch : m'.csr .sscratch = m.load (base + 8 * 2)
  sstatus : m'.csr .sstatus = m.load (base + 8 * 32)
  sepc : m'.csr .sepc = m.load (base + 8 * 33)
  t0 : m'.get t0 = m.load (base + 8 * 32) &&& 0x100
  f : m'.f = m.f
  cpuId : m'.load (base + 8 * 34) = m.get Riscv.tp
  mem : ∀ a, a < base + 8 * 34 ∨ base + 8 * 35 ≤ a → m'.mem a = m.mem a

theorem headed_restoreHead (hm : m.HasFrame sp base 37) :
    Headed base m (execAll m restoreHead) := by
  rw [execAll_restoreHead hm]
  constructor
  case mem =>
    intro a ha
    simp (disch := omega) only [Machine.set_mem, Machine.setCsr_mem, Machine.store_mem_of_notMem]
  all_goals
    simp (disch := decide) only [Machine.get_set_of_ne, Machine.get_set_self, Machine.get_setCsr,
      Machine.get_store, Machine.set_csr, Machine.setCsr_csr, Function.update_self,
      Function.update_of_ne, Machine.set_f, Machine.setCsr_f, Machine.store_f, Machine.load_set,
      Machine.load_setCsr, Machine.load_store_self]

theorem Headed.load {m' : Machine} (h : Headed base m m') {k : ℕ} (hk : k ≠ 34) :
    m'.load (base + 8 * k) = m.load (base + 8 * k) :=
  Machine.load_congr fun b hl hr ↦ h.mem b (by omega)

/-- **What is in the frame is loaded.** -/
theorem left_leave (hm : m.HasFrame sp base 37) (hlt : base + 8 * 37 < 2 ^ 64) :
    Left base m (leaveKernel m) := by
  have hhead := headed_restoreHead hm
  rw [leaveKernel, execAll_append]
  generalize execAll m restoreHead = m₀ at hhead
  have hframe : m₀.HasFrame sp base 37 := hm.congr hhead.sp
  -- the registers are loaded
  obtain ⟨m₁, hm₁⟩ : ∃ m₁, execAll m₀ (loads sp loadedRegs : List (Instr TrapLabel)) = m₁ :=
    ⟨_, rfl⟩
  have hsp : m₁.get sp = m.get sp := by
    rw [← hm₁, get_execAll_loads_of_notMem (by decide), hhead.sp]
  have hregs : ∀ r : Reg, r ≠ 0 → r ≠ sp → m₁.get r = m.load (base + 8 * r) := by
    intro r h0 hr
    by_cases htp : r = tp
    · subst htp
      rw [← hm₁, get_execAll_loads_of_notMem (by decide), hhead.tp]
      rfl
    · rw [← hm₁, get_execAll_loads hframe loadedRegs_lt nodup_loadedRegs (by decide)
        (mem_loadedRegs h0 hr htp) h0, hhead.load (by omega)]
  have hmem : m₁.mem = m₀.mem := by rw [← hm₁, execAll_loads_mem]
  have hload : ∀ a, m₁.load a = m₀.load a := fun a ↦ Machine.load_congr fun b _ _ ↦
    congrFun hmem b
  have hcsr : m₁.csr = m₀.csr := by rw [← hm₁, execAll_loads_csr]
  have hf : m₁.f = m.f := by rw [← hm₁, execAll_loads_f, hhead.f]
  rw [hm₁, execAll_restoreTail (hm.congr hsp)]
  clear hm₁
  constructor
  case regs =>
    intro r h0 hr
    rw [Machine.get_set_of_ne hr, Machine.get_setCsr, Machine.get_set_of_ne hr]
    exact hregs r h0 hr
  case sscratch =>
    rw [Machine.set_csr, Machine.setCsr_csr, Function.update_self, hsp, BitVec.toNat_add,
      hm.toNat_get]
    norm_num
    omega
  case f =>
    intro r h8 h9
    simp (disch := assumption) only [Machine.set_f, Machine.setCsr_f, Machine.setF_f,
      Function.update_of_ne]
    rw [hf]
  case mem =>
    intro a ha
    simp only [Machine.set_mem, Machine.setCsr_mem, Machine.setF_mem]
    rw [hmem, hhead.mem a ha]
  case cpuId =>
    simp only [Machine.load_set, Machine.load_setCsr, Machine.load_setF]
    rw [hload, hhead.cpuId]
  case sp => rw [Machine.get_set_self (by decide), hcsr, hhead.sscratch]
  case sstatus | sepc =>
    simp (disch := decide) only [Machine.set_csr, Machine.setCsr_csr, Machine.setF_csr,
      Function.update_of_ne, hcsr, hhead.sstatus, hhead.sepc]
  case fs0 | fs1 =>
    simp (disch := decide) only [Machine.set_f, Machine.setCsr_f, Machine.setF_f,
      Function.update_self, Function.update_of_ne]
    rw [hload, hhead.load (by norm_num)]

end

/-! ## Runs -/

section

variable {m : Machine} {base : ℕ}

/-- `csrrw sp, sscratch, sp` -/
def swapSp (m : Machine) : Machine :=
  (Instr.csrrw sp .sscratch sp : Instr TrapLabel).exec m

@[simp] theorem swapSp_sp : (swapSp m).get sp = m.csr .sscratch := Machine.get_set_self (by decide)

theorem swapSp_get {r : Reg} (hr : r ≠ sp) : (swapSp m).get r = m.get r :=
  (Machine.get_set_of_ne hr).trans Machine.get_setCsr

theorem swapSp_csr : (swapSp m).csr = Function.update m.csr .sscratch (m.get sp) :=
  Machine.set_csr

@[simp] theorem swapSp_f : (swapSp m).f = m.f := Machine.set_f

@[simp] theorem swapSp_mem : (swapSp m).mem = m.mem := Machine.set_mem

/-- The instructions of `__real_trap_entry` before the call. -/
abbrev entryBlock : List (Instr TrapLabel) :=
  .addi sp sp (-37 * 8) :: saves sp savedRegs ++ entryTail

/-- Where `sp` is positive, the entry goes through `sscratch`. -/
theorem alltraps_of_pos (h : 0 < (m.get sp).toInt) :
    alltraps m = some ((.bgtz sp .userTrapStart, m) :: (.csrrw sp .sscratch sp, m) ::
      (.j .realTrapEntry, swapSp m) :: (steps entryBlock (swapSp m) ++
        [(.call .trapHandler, enterKernel (swapSp m))]), .call .trapHandler,
        enterKernel (swapSp m)) := by
  have hstart : runBlock (trapText.codeFrom .alltraps) m =
      ([(.bgtz sp .userTrapStart, m)], .jump .userTrapStart, m) :=
    runBlock_of_exit (exit?_bgtz h)
  have hswap : runBlock (trapText.codeFrom .userTrapStart) m =
      ([(.csrrw sp .sscratch sp, m), (.j .realTrapEntry, swapSp m)], .jump .realTrapEntry,
        swapSp m) := rfl
  exact run_of_jump hstart (run_of_jump hswap
    (run_of_exit (runBlock_realTrapEntry _) nofun))

/-- The machine that has stored `tp` below `sp`. -/
def storeTp (m : Machine) : Machine := (Instr.sd tp (-3 * 8) sp : Instr TrapLabel).exec m

/-- Where `sp` is not positive, it is taken for that of the kernel. -/
theorem alltraps_of_not_pos (h : ¬0 < (m.get sp).toInt) :
    alltraps m = some ((.bgtz sp .userTrapStart, m) :: (.sd tp (-3 * 8) sp, m) ::
      (steps entryBlock (storeTp m) ++ [(.call .trapHandler, enterKernel (storeTp m))]),
        .call .trapHandler, enterKernel (storeTp m)) := by
  have hcode : trapText.codeFrom .alltraps = .bgtz sp .userTrapStart :: .sd tp (-3 * 8) sp ::
      trapText.codeFrom .realTrapEntry := by decide +kernel
  have hstart : runBlock (trapText.codeFrom .alltraps) m =
      ((.bgtz sp .userTrapStart, m) :: (.sd tp (-3 * 8) sp, m) ::
        (runBlock (trapText.codeFrom .realTrapEntry) (storeTp m)).1,
        (runBlock (trapText.codeFrom .realTrapEntry) (storeTp m)).2) := by
    rw [hcode, runBlock_of_none (exit?_bgtz_of_not h), runBlock_of_none rfl]
    rfl
  rw [runBlock_realTrapEntry] at hstart
  exact run_of_exit hstart nofun

/-- `__restore` does not take the way of a trap from the kernel. -/
theorem runBlock_restore (hm : m.HasFrame sp base 37)
    (huser : m.load (base + 8 * 32) &&& 0x100 = 0) :
    runBlock (trapText.codeFrom .restore) m =
      (steps restoreHead m ++ (.bnez t0 .kernelTrapEnd, execAll m restoreHead) ::
        (runBlock (trapText.codeFrom .userTrapEnd) (execAll m restoreHead)).1,
        (runBlock (trapText.codeFrom .userTrapEnd) (execAll m restoreHead)).2) := by
  have hzero : (execAll m restoreHead).get t0 = 0 := by
    rw [(headed_restoreHead hm).t0, huser]
  rw [codeFrom_restore, runBlock_append (by decide), runBlock_bnez_of_eq hzero]

/-- The log of a return to user mode up to the last branch. -/
def leaveLog (m : Machine) : Log TrapLabel :=
  steps restoreHead m ++ (.bnez t0 .kernelTrapEnd, execAll m restoreHead) ::
    steps (loads sp loadedRegs ++ restoreTail) (execAll m restoreHead)

/-- The end of a return to user mode, from its last branch on. -/
theorem runBlock_leave (hm : m.HasFrame sp base 37)
    (huser : m.load (base + 8 * 32) &&& 0x100 = 0) {rest : List (Instr TrapLabel)}
    (hrest : rest = .beqz sp .idleKernelTrapEnd :: .sret :: trapText.codeFrom .userTrapStart) :
    runBlock (trapText.codeFrom .restore) m =
      (leaveLog m ++ (runBlock rest (leaveKernel m)).1, (runBlock rest (leaveKernel m)).2) := by
  rw [runBlock_restore hm huser, codeFrom_userTrapEnd, runBlock_append (by decide), ← leaveKernel,
    ← hrest, leaveLog, List.append_assoc, List.cons_append]

/-- **A task with a stack pointer returns to user mode.** -/
theorem restore_of_ne_zero (hm : m.HasFrame sp base 37) (hlt : base + 8 * 37 < 2 ^ 64)
    (huser : m.load (base + 8 * 32) &&& 0x100 = 0) (h : m.load (base + 8 * 2) ≠ 0) :
    restore m = some (leaveLog m ++
      [(.beqz sp .idleKernelTrapEnd, leaveKernel m), (.sret, leaveKernel m)], .sret,
      leaveKernel m) := by
  have hsp : (leaveKernel m).get sp ≠ 0 := by rwa [(left_leave hm hlt).sp]
  have hblock := runBlock_leave hm huser rfl
  rw [runBlock_beqz_of_ne hsp, runBlock_of_exit rfl] at hblock
  exact run_of_exit hblock nofun

/-- Without a stack pointer the stacks are exchanged once more. -/
theorem restore_of_eq_zero (hm : m.HasFrame sp base 37) (hlt : base + 8 * 37 < 2 ^ 64)
    (huser : m.load (base + 8 * 32) &&& 0x100 = 0) (h : m.load (base + 8 * 2) = 0) :
    restore m = some (leaveLog m ++ [(.beqz sp .idleKernelTrapEnd, leaveKernel m)] ++
      [(.csrrw sp .sscratch sp, leaveKernel m), (.sret, swapSp (leaveKernel m))], .sret,
      swapSp (leaveKernel m)) := by
  have hsp : (leaveKernel m).get sp = 0 := by rwa [(left_leave hm hlt).sp]
  have hblock := runBlock_leave hm huser rfl
  rw [runBlock_of_exit (exit?_beqz hsp)] at hblock
  have hidle : runBlock (trapText.codeFrom .idleKernelTrapEnd) (leaveKernel m) =
      ([(.csrrw sp .sscratch sp, leaveKernel m), (.sret, swapSp (leaveKernel m))], .sret,
        swapSp (leaveKernel m)) := rfl
  exact run_of_jump hblock (run_of_exit hidle nofun)

end

end Maturin
