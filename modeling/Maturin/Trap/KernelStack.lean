import Maturin.Trap.Entry

/-!
# The kernel stack of a task

A task that leaves the kernel has the top of its kernel stack in `sscratch`, and a trap is to store
the frame of the task there. But `__alltraps` does not ask where the trap comes from. It takes a
stack pointer that is positive for one of the user, and every other one for that of the kernel, so
a user whose `sp` is zero or in the upper half of the addresses lets the kernel store its frame at
an address of the user's choice. A task that enters user mode with a stack pointer of zero gets the
address of its kernel stack instead.
-/

open Riscv

namespace Maturin

abbrev PHYS_VIRT_OFFSET : ℕ := 0xFFFF_FFFF_0000_0000

abbrev PHYS_MEMORY_END : ℕ := 0x8800_0000

abbrev KERNEL_STACK_SIZE : ℕ := 0x80_000

/-- `Frame::as_ptr` -/
def Frame.asPtr (f : Frame) : ℕ := wadd f.startPaddr PHYS_VIRT_OFFSET

/-- The size of a `TrapContext`. -/
abbrev TrapContext.size : ℕ := 8 * 37

/-- `KernelStack`: a frame in the physical memory. -/
structure KernelStack where
  frame : Frame
  frameCount : frame.frameCount = KERNEL_STACK_SIZE / PAGE_SIZE
  lower : PHYS_MEMORY_OFFSET ≤ frame.startPaddr
  upper : frame.startPaddr + KERNEL_STACK_SIZE ≤ PHYS_MEMORY_END

namespace KernelStack

/-- `get_sp` -/
def getSp (stack : KernelStack) : ℕ := wadd stack.frame.asPtr KERNEL_STACK_SIZE

/-- `get_first_context` -/
def getFirstContext (stack : KernelStack) : ℕ := wsub stack.getSp TrapContext.size

variable (stack : KernelStack)

/-- The code of the user runs. It writes neither `sscratch` nor the kernel stack. -/
structure UserRun (m u : Machine) : Prop where
  sscratch : u.csr .sscratch = m.csr .sscratch
  mem : ∀ a, stack.frame.asPtr ≤ a → a < stack.getSp → u.mem a = m.mem a

/-- `trap_handler` returns with the stack pointer that it was called with, and with a frame that
leads to user mode. -/
structure HandlerRun (m m' : Machine) : Prop where
  sp : m'.get sp = m.get sp
  spp : m'.load (stack.getFirstContext + 8 * 32) &&& 0x100 = 0

/-- The stack pointer that the frame holds for the user. -/
def userSp (m : Machine) : Word := m.load (stack.getFirstContext + 8 * 2)

/-- The task gets to `__restore`, for the first time with the frame that was pushed for it, and
again with the frame of each trap. -/
inductive Served : Machine → Prop
  | first {m : Machine} (hsp : m.get sp = BitVec.ofNat 64 stack.getFirstContext)
      (hspp : m.load (stack.getFirstContext + 8 * 32) &&& 0x100 = 0) : Served m
  | again {m m₁ u m₂ m' : Machine} {log log' : Log TrapLabel} {pc : Word} (h : Served m)
      (hrestore : restore m = some (log, .sret, m₁)) (huserSp : stack.userSp m ≠ 0)
      (hu : stack.UserRun m₁ u) (hpos : 0 < (u.get sp).toInt)
      (htrap : alltraps (takeTrap pc u) = some (log', .call .trapHandler, m₂))
      (hhandler : stack.HandlerRun m₂ m') : Served m'

/-- A trap that the user `u` takes at `pc` is entered safely: `trap_handler` is called with the
frame at the top of the kernel stack, every store was within this stack and independent of the
user's stack pointer, and the frame holds the registers of the user. -/
structure SafeEntry (pc : Word) (u : Machine) (log : Log TrapLabel) (m : Machine) : Prop where
  run : alltraps (takeTrap pc u) = some (log, .call .trapHandler, m)
  atFrame : (m.get sp).toNat = stack.getFirstContext
  stored : ∀ a ∈ log.stored, stack.frame.asPtr ≤ a ∧ a + 8 ≤ stack.getSp
  noUserSp : NoStoreBy (.x sp) (log.map Prod.fst)
  regs : ∀ r : Reg, r ≠ 0 → (TrapContext.ofMem stack.getFirstContext m).x r = (u.get r).toNat
  sstatus : (TrapContext.ofMem stack.getFirstContext m).sstatus =
    ((takeTrap pc u).csr .sstatus).toNat
  sepc : (TrapContext.ofMem stack.getFirstContext m).sepc = pc.toNat
  fs0 : (TrapContext.ofMem stack.getFirstContext m).fs 0 = (u.f 8).toNat
  fs1 : (TrapContext.ofMem stack.getFirstContext m).fs 1 = (u.f 9).toNat

/-! ## The addresses of a stack -/

variable {stack} {m m' u : Machine} {base : ℕ}

theorem asPtr_eq : stack.frame.asPtr = stack.frame.startPaddr + PHYS_VIRT_OFFSET := by
  have hupper := stack.upper
  simp only [KERNEL_STACK_SIZE, PHYS_MEMORY_END] at hupper
  exact wadd_of_lt (by simp only [PHYS_VIRT_OFFSET]; omega)

theorem getSp_eq : stack.getSp = stack.frame.asPtr + KERNEL_STACK_SIZE := by
  have hupper := stack.upper
  rw [getSp, asPtr_eq]
  simp only [KERNEL_STACK_SIZE, PHYS_MEMORY_END] at hupper
  exact wadd_of_lt (by simp only [PHYS_VIRT_OFFSET, KERNEL_STACK_SIZE]; omega)

theorem getSp_lt : stack.getSp < 2 ^ 64 - TrapContext.size := by
  have hupper := stack.upper
  rw [getSp_eq, asPtr_eq]
  simp only [KERNEL_STACK_SIZE, PHYS_MEMORY_END, PHYS_VIRT_OFFSET, TrapContext.size] at *
  omega

theorem getFirstContext_add : stack.getFirstContext + TrapContext.size = stack.getSp := by
  have hlt := stack.getSp_lt
  have heq := stack.getSp_eq
  simp only [KERNEL_STACK_SIZE] at heq
  rw [getFirstContext, wsub_of_le (by simp only [TrapContext.size]; omega) (by omega)]
  simp only [TrapContext.size]
  omega

theorem asPtr_le_getFirstContext : stack.frame.asPtr ≤ stack.getFirstContext := by
  have hadd := stack.getFirstContext_add
  have heq := stack.getSp_eq
  simp only [KERNEL_STACK_SIZE, TrapContext.size] at *
  omega

/-! ## The entry -/

theorem hasFrame (h : (m.get sp).toNat = stack.getFirstContext) :
    m.HasFrame sp stack.getFirstContext 37 := by
  have hadd := stack.getFirstContext_add
  have hlt := stack.getSp_lt
  simp only [TrapContext.size] at *
  exact ⟨h, by omega⟩

/-- Every store of the block goes to the frame. -/
theorem stored_entryBlock (hm : (m.get sp).toNat = base + 8 * 37) :
    ∀ a ∈ Log.stored (steps entryBlock m), base ≤ a ∧ a + 8 ≤ base + 8 * 37 := by
  have hlt := (m.get sp).isLt
  have hframe : (Instr.exec m (.addi sp sp (-37 * 8) : Instr TrapLabel)).HasFrame sp base 37 := by
    refine ⟨?_, by omega⟩
    rw [Instr.exec, Machine.get_set_self (by decide), BitVec.toNat_add, hm]
    norm_num
    omega
  have hstores : ∀ i ∈ saves sp savedRegs ++ entryTail, ∀ q ∈ i.storesAt,
      q.1 = sp ∧ ∃ k : ℕ, k < 37 ∧ q.2 = (8 * k : ℤ) := by decide
  intro a ha
  obtain ⟨p, hp, hpa⟩ := List.mem_filterMap.mp ha
  obtain ⟨q, hq, rfl⟩ := Option.map_eq_some_iff.mp hpa
  rw [entryBlock, List.cons_append, steps, List.mem_cons] at hp
  obtain rfl | hp := hp
  · cases hq
  · have hi : p.1 ∈ saves sp savedRegs ++ entryTail := by
      have hmem := List.mem_map_of_mem (f := Prod.fst) hp
      rwa [map_fst_steps] at hmem
    obtain ⟨hsp, k, hk, hoff⟩ := hstores p.1 hi q hq
    have hget := get_of_mem_steps (r := sp) (by decide) p hp
    rw [hsp, (hframe.congr hget).addr_of_eq k hk hoff]
    omega

/-- Where the frame lies, when the entry does not go through the stack of the kernel. -/
theorem enter_sp (m : Machine) : (enterKernel m).get sp = m.get sp + BitVec.ofInt 64 (-37 * 8) := by
  rw [enterKernel, List.cons_append, execAll_cons, get_execAll (by decide)]
  exact Machine.get_set_self (by decide)

@[simp] theorem takeTrap_get (pc : Word) (r : Reg) : (takeTrap pc u).get r = u.get r := rfl

@[simp] theorem takeTrap_f (pc : Word) : (takeTrap pc u).f = u.f := rfl

@[simp] theorem takeTrap_sscratch (pc : Word) :
    (takeTrap pc u).csr .sscratch = u.csr .sscratch := rfl

@[simp] theorem takeTrap_sepc (pc : Word) : (takeTrap pc u).csr .sepc = pc := rfl

/-- **A user with a positive stack pointer**, and the top of the kernel stack in `sscratch`. -/
theorem safeEntry_of_pos (pc : Word) (hpos : 0 < (u.get sp).toInt)
    (hscratch : (u.csr .sscratch).toNat = stack.getSp) :
    ∃ log m, stack.SafeEntry pc u log m := by
  have hadd := stack.getFirstContext_add
  have hle := stack.asPtr_le_getFirstContext
  set v := swapSp (takeTrap pc u) with hv
  have hsp : (v.get sp).toNat = stack.getFirstContext + 8 * 37 := by
    rw [hv, swapSp_sp, takeTrap_sscratch, hscratch]
    exact hadd.symm
  have hframe := entered_enter hsp
  have hlog : ∀ a ∈ Log.stored (steps entryBlock v),
      stack.frame.asPtr ≤ a ∧ a + 8 ≤ stack.getSp := by
    intro a ha
    obtain ⟨hl, hr⟩ := stored_entryBlock hsp a ha
    exact ⟨hle.trans hl, hr.trans hadd.le⟩
  refine ⟨_, _, ⟨alltraps_of_pos hpos, hframe.frame.toNat_get, ?_, ?_, ?_, ?_, ?_, ?_, ?_⟩⟩
  case refine_1 =>
    -- nothing else stores
    intro a ha
    rw [Log.stored, List.filterMap_cons_none rfl, List.filterMap_cons_none rfl,
      List.filterMap_cons_none rfl, List.filterMap_append, List.filterMap_cons_none rfl,
      List.filterMap_nil, List.append_nil] at ha
    exact hlog a ha
  case refine_2 =>
    simp only [List.map_cons, List.map_append, map_fst_steps, List.map_nil]
    decide +kernel
  case refine_3 =>
    intro r h0
    by_cases hr : r = sp
    · subst hr
      exact congrArg BitVec.toNat hframe.sscratch
    · rw [← takeTrap_get pc, ← swapSp_get hr]
      exact congrArg BitVec.toNat (hframe.regs r h0 hr)
  case refine_4 => exact congrArg BitVec.toNat hframe.sstatus
  case refine_5 => exact congrArg BitVec.toNat hframe.sepc
  case refine_6 => exact congrArg BitVec.toNat hframe.fs0
  case refine_7 => exact congrArg BitVec.toNat hframe.fs1

/-- A stack pointer that is not positive is stored through. -/
theorem not_safeEntry_of_not_pos {pc : Word} {log : Log TrapLabel} (hpos : ¬0 < (u.get sp).toInt) :
    ¬stack.SafeEntry pc u log m := by
  intro h
  have hrun := h.run
  rw [alltraps_of_not_pos (takeTrap_get (u := u) pc sp ▸ hpos), Option.some.injEq,
    Prod.mk.injEq] at hrun
  have hstore := h.noUserSp 1
  rw [← hrun.1] at hstore
  simp only [List.map_cons, List.length_cons] at hstore
  have hsp := hstore (by omega) (sp, -3 * 8) rfl
  cases hsp

/-- Without the address of the kernel stack in `sscratch` the frame is not there. -/
theorem not_safeEntry_of_ne {pc : Word} {log : Log TrapLabel} (hpos : 0 < (u.get sp).toInt)
    (hscratch : (u.csr .sscratch).toNat ≠ stack.getSp) : ¬stack.SafeEntry pc u log m := by
  intro h
  have hrun := h.run
  have hframe := h.atFrame
  have hadd := stack.getFirstContext_add
  have hlt := stack.getSp_lt
  have hscr := (u.csr .sscratch).isLt
  rw [alltraps_of_pos (takeTrap_get (u := u) pc sp ▸ hpos), Option.some.injEq, Prod.mk.injEq,
    Prod.mk.injEq] at hrun
  rw [← hrun.2.2, enter_sp, swapSp_sp, takeTrap_sscratch, BitVec.toNat_add] at hframe
  norm_num [TrapContext.size] at hframe hadd hlt
  omega

/-- **An entry is safe if and only if the user's stack pointer is positive**, and `sscratch` holds
the top of the kernel stack. -/
theorem exists_safeEntry_iff {pc : Word} : (∃ log m, stack.SafeEntry pc u log m) ↔
    (u.csr .sscratch).toNat = stack.getSp ∧ 0 < (u.get sp).toInt := by
  constructor
  · rintro ⟨log, m, h⟩
    have hpos : 0 < (u.get sp).toInt := by
      by_contra hpos
      exact not_safeEntry_of_not_pos hpos h
    refine ⟨?_, hpos⟩
    by_contra hscratch
    exact not_safeEntry_of_ne hpos hscratch h
  · rintro ⟨hscratch, hpos⟩
    exact safeEntry_of_pos pc hpos hscratch

/-! ## The protocol -/

variable (stack) in
/-- The frame is at the top of the stack, and leads to user mode. -/
structure AtRestore (m : Machine) : Prop where
  sp : (m.get sp).toNat = stack.getFirstContext
  spp : m.load (stack.getFirstContext + 8 * 32) &&& 0x100 = 0

section

variable {m₁ : Machine} {log : Log TrapLabel}

/-- What `sscratch` holds in user mode. -/
theorem AtRestore.sscratch (hm : stack.AtRestore m) (h : restore m = some (log, .sret, m₁)) :
    (m₁.csr .sscratch).toNat = if stack.userSp m = 0 then 0 else stack.getSp := by
  have hadd := stack.getFirstContext_add
  have hlt : stack.getFirstContext + 8 * 37 < 2 ^ 64 := by
    have := stack.getSp_lt
    simp only [TrapContext.size] at *
    omega
  have hframe := hasFrame hm.sp
  have hleft := left_leave hframe hlt
  split_ifs with hzero
  · rw [restore_of_eq_zero hframe hlt hm.spp hzero, Option.some.injEq, Prod.mk.injEq,
      Prod.mk.injEq] at h
    rw [← h.2.2, swapSp_csr, Function.update_self, hleft.sp]
    exact congrArg BitVec.toNat hzero
  · rw [restore_of_ne_zero hframe hlt hm.spp hzero, Option.some.injEq, Prod.mk.injEq,
      Prod.mk.injEq] at h
    rw [← h.2.2, hleft.sscratch]
    exact hadd

/-- A task is served with the frame at the top of its stack. -/
theorem Served.atRestore (h : stack.Served m) : stack.AtRestore m := by
  induction h with
  | first hsp hspp =>
    refine ⟨?_, hspp⟩
    rw [hsp, BitVec.toNat_ofNat, Nat.mod_eq_of_lt]
    have hadd := stack.getFirstContext_add
    have hlt := stack.getSp_lt
    omega
  | @again m m₁ u m₂ m' log log' pc _ hrestore huserSp hu hpos htrap hhandler ih =>
    refine ⟨?_, hhandler.spp⟩
    have hscratch := ih.sscratch hrestore
    rw [if_neg huserSp, ← hu.sscratch] at hscratch
    obtain ⟨log₂, m₃, hentry⟩ := safeEntry_of_pos pc hpos hscratch
    have heq := hentry.run
    rw [htrap, Option.some.injEq, Prod.mk.injEq, Prod.mk.injEq] at heq
    rw [hhandler.sp, heq.2.2, hentry.atFrame]

/-- A machine that starts a task whose stack pointer is `v`. -/
def starting (stack : KernelStack) (v : Word) : Machine where
  x _ := BitVec.ofNat 64 stack.getFirstContext
  f _ := 0
  csr _ := 0
  mem := ByteMem.store 8 (stack.getFirstContext + 8 * 2) v.toNat fun _ ↦ 0

theorem userSp_starting (v : Word) : stack.userSp (stack.starting v) = v := by
  have hv : v.toNat < 256 ^ 8 := v.isLt
  rw [userSp, Machine.load, starting, ByteMem.load_store hv, BitVec.ofNat_toNat,
    BitVec.setWidth_eq]

theorem served_starting (v : Word) : stack.Served (stack.starting v) := by
  refine .first rfl ?_
  have hzero : (stack.starting v).load (stack.getFirstContext + 8 * 32) = 0 := by
    rw [Machine.load, starting, ByteMem.load_store_of_disjoint (by omega),
      ByteMem.load_eq_zero fun _ _ _ ↦ rfl]
    rfl
  rw [hzero]
  rfl

/-- The task gets to user mode. -/
theorem exists_restore_starting (stack : KernelStack) {v : Word} (hv : v ≠ 0) :
    ∃ log m₁, restore (stack.starting v) = some (log, .sret, m₁) := by
  have hserved : stack.AtRestore (stack.starting v) := (served_starting v).atRestore
  have hframe := hasFrame hserved.sp
  refine ⟨_, _, restore_of_ne_zero hframe ?_ hserved.spp ?_⟩
  · have hadd := stack.getFirstContext_add
    have hlt := stack.getSp_lt
    simp only [TrapContext.size] at *
    omega
  · have huserSp : stack.userSp (stack.starting v) = v := userSp_starting v
    exact fun h ↦ hv (huserSp.symm.trans h)

theorem userRun_set (m : Machine) (v : Word) : stack.UserRun m (m.set sp v) := by
  refine ⟨?_, fun a _ _ ↦ ?_⟩
  · rw [Machine.set_csr]
  · rw [Machine.set_mem]

/-- A kernel stack at the end of the memory. -/
def last : KernelStack where
  frame := ⟨PHYS_MEMORY_END - KERNEL_STACK_SIZE, KERNEL_STACK_SIZE / PAGE_SIZE⟩
  frameCount := rfl
  lower := by decide
  upper := by decide

/-- **Which traps from user mode are entered safely.** The frame had to lead to a stack pointer
other than zero, and the user's one has to be positive. -/
theorem safeEntry_iff (hm : stack.Served m) (hrestore : restore m = some (log, .sret, m₁))
    (hu : stack.UserRun m₁ u) (pc : Word) :
    (∃ log' m₂, stack.SafeEntry pc u log' m₂) ↔ stack.userSp m ≠ 0 ∧ 0 < (u.get sp).toInt := by
  have htop : 0 ≠ stack.getSp := by
    rw [getSp_eq]
    simp only [KERNEL_STACK_SIZE]
    omega
  rw [exists_safeEntry_iff, hu.sscratch, hm.atRestore.sscratch hrestore]
  by_cases h : stack.userSp m = 0
  · rw [if_pos h]
    exact iff_of_false (fun hand ↦ htop hand.1) fun hand ↦ hand.1 h
  · rw [if_neg h, eq_self, true_and, and_iff_right h]

theorem safeEntry_iff_starting : ∃ (m₁ : Machine) (log : Log TrapLabel),
    restore (last.starting 0x3FE0_0000) = some (log, .sret, m₁) ∧
    ((∃ log' m₂, last.SafeEntry 0x1_0000 (m₁.set sp 0x3FDF_FF00) log' m₂) ↔
      last.userSp (last.starting 0x3FE0_0000) ≠ 0 ∧
        0 < ((m₁.set sp 0x3FDF_FF00).get sp).toInt) := by
  obtain ⟨log, m₁, hrestore⟩ :=
    last.exists_restore_starting (v := 0x3FE0_0000) (by decide)
  exact ⟨m₁, log, hrestore, safeEntry_iff (served_starting _) hrestore (userRun_set _ _) _⟩

/-- The stack pointer of a user is an address of the kernel, and `__alltraps` stores below it. -/
theorem not_safeEntry_kernel : ∃ (m m₁ u : Machine) (log log' : Log TrapLabel) (m₂ : Machine),
    last.Served m ∧ restore m = some (log, .sret, m₁) ∧ last.UserRun m₁ u ∧
    u.get sp = 0xFFFF_FFFF_8020_0000 ∧
    alltraps (takeTrap 0x1_0000 u) = some (log', .call .trapHandler, m₂) ∧
    0xFFFF_FFFF_801F_FFE8 ∈ log'.stored ∧
    ¬∃ log' m₂, last.SafeEntry 0x1_0000 u log' m₂ := by
  obtain ⟨log, m₁, hrestore⟩ :=
    last.exists_restore_starting (v := 0x3FE0_0000) (by decide)
  have hget : (m₁.set sp 0xFFFF_FFFF_8020_0000).get sp = 0xFFFF_FFFF_8020_0000 :=
    Machine.get_set_self (by decide)
  have hpos : ¬0 < ((m₁.set sp 0xFFFF_FFFF_8020_0000).get sp).toInt := by
    rw [hget]
    decide
  refine ⟨_, m₁, m₁.set sp 0xFFFF_FFFF_8020_0000, log, _, _, served_starting _, hrestore,
    userRun_set _ _, hget, alltraps_of_not_pos hpos, ?_, ?_⟩
  · have haddr : (takeTrap 0x1_0000 (m₁.set sp 0xFFFF_FFFF_8020_0000)).addr sp (-3 * 8) =
        0xFFFF_FFFF_801F_FFE8 := by
      rw [Machine.addr, takeTrap_get, hget]
      decide
    refine List.mem_filterMap.mpr ⟨_, List.mem_cons_of_mem _ List.mem_cons_self, ?_⟩
    exact congrArg some haddr
  · rintro ⟨log', m₂, h⟩
    exact not_safeEntry_of_not_pos hpos h

end

end KernelStack

end Maturin
