import Maturin.Base.Addr
import Maturin.Lib.Throughout
import Maturin.Task.Kernel

/-!
# The heap of tasks that share an address space

The heap of a program begins at `USER_STACK_OFFSET` and grows towards the stack, in the one area
that the loader maps for both. Its top is a field of the task, while `clone` may make the address
space one of several tasks: a new task always starts with an empty heap, and `sys_brk` moves the top
of the caller alone, to anywhere below the stack pointer that user code has left behind.

## When the tops agree

Call an event *sound* when it is no `CLONE_VM` of a task that has a heap, and no accepted `brk` past
the mapped area or to a new top while the address space is shared. In a run of sound events the heap
of a shared address space is empty for good, so that all tops in it are `USER_STACK_OFFSET`; and the
first event that is not sound makes two tops differ or one leave the area.
-/

namespace Maturin

theorem userStackOffset_mapped : USER_STACK_OFFSET ≤ USER_STACK_OFFSET ∧
    USER_STACK_OFFSET < USER_STACK_OFFSET + USER_STACK_SIZE := by
  decide

/-- The address space is shared. -/
abbrev CloneFlags.CLONE_VM : CloneFlags := 1#32 <<< 8

/-- The fields of a task that concern the heap. -/
structure HeapTask where
  /-- the number of the `MemorySet` -/
  vm : ℕ
  userHeapTop : ℕ
  /-- `sp` in the first context on the kernel stack -/
  userSp : ℕ
  deriving DecidableEq

namespace HeapTask

/-- `get_user_heap_top` -/
def getUserHeapTop (self : HeapTask) : ℕ := self.userHeapTop

/-- Is the new top in the area and below the stack, as far as `set_user_heap_top` checks it? -/
def Accepts (self : HeapTask) (newTop : ℕ) : Prop :=
  USER_STACK_OFFSET ≤ newTop ∧ newTop < self.userSp

instance (self : HeapTask) (newTop : ℕ) : Decidable (self.Accepts newTop) :=
  inferInstanceAs (Decidable (_ ∧ _))

/-- `set_user_heap_top`: the top after the call, which is the old one if the new one is refused. -/
def setUserHeapTop (self : HeapTask) (newTop : ℕ) : ℕ × HeapTask :=
  if self.Accepts newTop then (newTop, { self with userHeapTop := newTop })
  else (self.userHeapTop, self)

/-- `sys_brk` -/
def sysBrk (self : HeapTask) (brk : ℕ) : ℕ × HeapTask :=
  if brk = 0 then (self.getUserHeapTop, self) else self.setUserHeapTop brk

variable {self : HeapTask} {brk : ℕ}

theorem sysBrk_of_accepts (h : self.Accepts brk) :
    self.sysBrk brk = (brk, { self with userHeapTop := brk }) := by
  have hne : brk ≠ 0 := fun hzero ↦ absurd h.1 (hzero ▸ by decide)
  rw [sysBrk, if_neg hne, setUserHeapTop, if_pos h]

theorem sysBrk_of_not (h : ¬self.Accepts brk) : self.sysBrk brk = (self.userHeapTop, self) := by
  rw [sysBrk, setUserHeapTop, if_neg h]
  exact ite_self _

end HeapTask

/-- The tasks by number, of which the first `next` have been created, and for each address space
which task `sys_brk` has given a byte to. The kernel keeps no record of the latter. -/
structure Heaps where
  tcb : ℕ → HeapTask
  next : ℕ
  nextVm : ℕ
  holder : ℕ → ℕ → Option ℕ

namespace Heaps

variable {s : Heaps} {task other vm brk : ℕ} {flags : CloneFlags} {userStack : ℤ}

/-- The first task, with the stack that the loader has made. -/
def fromAppName (userStack : ℕ) : Heaps where
  tcb _ := ⟨0, USER_STACK_OFFSET, userStack⟩
  next := 1
  nextVm := 1
  holder _ _ := none

/-- `from_clone` -/
def fromClone (s : Heaps) (task : ℕ) (userStack : Option ℕ) (flags : CloneFlags) : Heaps where
  tcb := Function.update s.tcb s.next {
    vm := if flags.contains .CLONE_VM then (s.tcb task).vm else s.nextVm
    userHeapTop := USER_STACK_OFFSET
    userSp := userStack.getD (s.tcb task).userSp }
  next := s.next + 1
  nextVm := if flags.contains .CLONE_VM then s.nextVm else s.nextVm + 1
  holder := s.holder

/-- `sys_clone`; a negative stack is an error, and 0 stands for the stack of the caller. -/
def sysClone (s : Heaps) (task : ℕ) (flags : CloneFlags) (userStack : ℤ) : Heaps :=
  if userStack < 0 then s
  else if userStack > 0 then s.fromClone task (some userStack.toNat) flags
  else s.fromClone task none flags

/-- `sys_brk` of a task. The bytes between the old top and the new one are given to the task, or
taken from whoever had them. -/
def sysBrk (s : Heaps) (task brk : ℕ) : Heaps :=
  let t := s.tcb task
  let (newTop, t') := t.sysBrk brk
  { s with
    tcb := Function.update s.tcb task t'
    holder := Function.update s.holder t.vm fun a ↦
      if t.userHeapTop ≤ a ∧ a < newTop then some task
      else if newTop ≤ a ∧ a < t.userHeapTop then none
      else s.holder t.vm a }

/-- The stack pointer that user code leaves when it traps. -/
def setUserSp (s : Heaps) (task sp : ℕ) : Heaps :=
  { s with tcb := Function.update s.tcb task { s.tcb task with userSp := sp } }

end Heaps

/-- What a task does. -/
inductive HeapEvent
  | clone (flags : CloneFlags) (userStack : ℤ)
  | brk (brk : ℕ)
  /-- user code moves its stack pointer, and traps -/
  | setSp (sp : ℕ)

namespace Heaps

variable {s : Heaps} {task other vm brk : ℕ} {flags : CloneFlags} {userStack : ℤ} {e : HeapEvent}

/-- The state after an event of a task. -/
def after (s : Heaps) (task : ℕ) : HeapEvent → Heaps
  | .clone flags userStack => s.sysClone task flags userStack
  | .brk brk => s.sysBrk task brk
  | .setSp sp => s.setUserSp task sp

/-! ## Agreement -/

/-- Two tasks share their address space. -/
def Shares (s : Heaps) (task other : ℕ) : Prop :=
  task < s.next ∧ other < s.next ∧ (s.tcb task).vm = (s.tcb other).vm

/-- The tasks of an address space see one heap top, and every heap top is in the mapped area. -/
structure Agree (s : Heaps) : Prop where
  shared : ∀ task other, s.Shares task other →
    (s.tcb task).getUserHeapTop = (s.tcb other).getUserHeapTop
  mapped : ∀ task < s.next, USER_STACK_OFFSET ≤ (s.tcb task).getUserHeapTop ∧
    (s.tcb task).getUserHeapTop < USER_STACK_OFFSET + USER_STACK_SIZE

/-- The event gives the task a byte that another task holds. -/
def Regrants (s : Heaps) (task : ℕ) : HeapEvent → Prop
  | .brk brk => ∃ a, (s.tcb task).userHeapTop ≤ a ∧ a < ((s.tcb task).sysBrk brk).1 ∧
      ∃ other, other ≠ task ∧ s.holder (s.tcb task).vm a = some other
  | _ => False

/-- The condition on an event, by the state before it. -/
def Sound (s : Heaps) (task : ℕ) : HeapEvent → Prop
  | .clone flags userStack => 0 ≤ userStack → flags.contains .CLONE_VM = true →
      (s.tcb task).getUserHeapTop = USER_STACK_OFFSET
  | .brk brk => (s.tcb task).Accepts brk → brk < USER_STACK_OFFSET + USER_STACK_SIZE ∧
      (brk = (s.tcb task).getUserHeapTop ∨ ∀ other, s.Shares task other → other = task)
  | .setSp _ => True

/-- An event of a run, with the task that it is of. -/
def step (s : Heaps) (event : ℕ × HeapEvent) : Heaps := s.after event.1 event.2

/-! ## What every run keeps -/

/-- Address spaces are numbered in the order of their creation, and a byte is held by a task of its
address space. -/
structure WellFormed (s : Heaps) : Prop where
  vm_lt : ∀ task < s.next, (s.tcb task).vm < s.nextVm
  held : ∀ vm a task, s.holder vm a = some task → task < s.next ∧ (s.tcb task).vm = vm

theorem wellFormed_fromAppName (userStack : ℕ) : (fromAppName userStack).WellFormed where
  vm_lt _ _ := Nat.zero_lt_one
  held := by
    intro vm a task h
    cases h

theorem agree_fromAppName (userStack : ℕ) : (fromAppName userStack).Agree where
  shared _ _ _ := rfl
  mapped task _ := by
    rw [HeapTask.getUserHeapTop, fromAppName]
    exact userStackOffset_mapped

/-! ### The operations -/

theorem sysClone_of_neg (h : userStack < 0) : s.sysClone task flags userStack = s := if_pos h

theorem exists_sysClone (s : Heaps) (task : ℕ) (flags : CloneFlags) (h : 0 ≤ userStack) :
    ∃ stack, s.sysClone task flags userStack = s.fromClone task stack flags := by
  rw [sysClone, if_neg (not_lt.mpr h)]
  split_ifs
  · exact ⟨_, rfl⟩
  · exact ⟨_, rfl⟩

theorem fromClone_tcb_of_lt {stack : Option ℕ} (h : other < s.next) :
    (s.fromClone task stack flags).tcb other = s.tcb other :=
  Function.update_of_ne h.ne _ _

theorem fromClone_tcb_next {stack : Option ℕ} :
    (s.fromClone task stack flags).tcb s.next = {
      vm := if flags.contains .CLONE_VM then (s.tcb task).vm else s.nextVm
      userHeapTop := USER_STACK_OFFSET
      userSp := stack.getD (s.tcb task).userSp } :=
  Function.update_self _ _ _

theorem fromClone_getUserHeapTop_next {stack : Option ℕ} :
    ((s.fromClone task stack flags).tcb s.next).getUserHeapTop = USER_STACK_OFFSET := by
  rw [fromClone_tcb_next, HeapTask.getUserHeapTop]

theorem sysBrk_of_not (h : ¬(s.tcb task).Accepts brk) : s.sysBrk task brk = s := by
  have hnone : ∀ a, ¬((s.tcb task).userHeapTop ≤ a ∧ a < (s.tcb task).userHeapTop) := by
    intro a ha
    omega
  simp only [sysBrk, HeapTask.sysBrk_of_not h, hnone, if_false, Function.update_eq_self]

theorem sysBrk_next : (s.sysBrk task brk).next = s.next := rfl

theorem sysBrk_tcb_self (h : (s.tcb task).Accepts brk) :
    (s.sysBrk task brk).tcb task = { s.tcb task with userHeapTop := brk } := by
  simp only [sysBrk, HeapTask.sysBrk_of_accepts h, Function.update_self]

theorem sysBrk_tcb_of_ne (h : other ≠ task) : (s.sysBrk task brk).tcb other = s.tcb other :=
  Function.update_of_ne h _ _

theorem sysBrk_vm : ((s.sysBrk task brk).tcb other).vm = (s.tcb other).vm := by
  by_cases h : (s.tcb task).Accepts brk
  · rcases eq_or_ne other task with rfl | hne
    · rw [sysBrk_tcb_self h]
    · rw [sysBrk_tcb_of_ne hne]
  · rw [sysBrk_of_not h]

/-- A byte that is held after a `brk` was held by the same task before or is given to the caller. -/
theorem sysBrk_holder {a : ℕ} (h : (s.sysBrk task brk).holder vm a = some other) :
    other = task ∧ vm = (s.tcb task).vm ∨ s.holder vm a = some other := by
  simp only [sysBrk] at h
  rcases eq_or_ne vm (s.tcb task).vm with rfl | hne
  · rw [Function.update_self] at h
    split_ifs at h
    · exact .inl ⟨(Option.some.inj h).symm, rfl⟩
    · exact .inr h
  · rw [Function.update_of_ne hne] at h
    exact .inr h

theorem setUserSp_vm {sp : ℕ} : ((s.setUserSp task sp).tcb other).vm = (s.tcb other).vm := by
  rcases eq_or_ne other task with rfl | hne
  · simp only [setUserSp, Function.update_self]
  · simp only [setUserSp, Function.update_of_ne hne]

theorem setUserSp_userHeapTop {sp : ℕ} :
    ((s.setUserSp task sp).tcb other).userHeapTop = (s.tcb other).userHeapTop := by
  rcases eq_or_ne other task with rfl | hne
  · simp only [setUserSp, Function.update_self]
  · simp only [setUserSp, Function.update_of_ne hne]

/-! ### Well-formedness is kept -/

theorem WellFormed.fromClone {stack : Option ℕ} (h : s.WellFormed) (htask : task < s.next) :
    (s.fromClone task stack flags).WellFormed where
  vm_lt other hother := by
    have hle : s.nextVm ≤ (s.fromClone task stack flags).nextVm := by
      change _ ≤ if flags.contains .CLONE_VM then _ else _
      split_ifs
      · exact le_rfl
      · exact Nat.le_succ _
    rcases Nat.lt_succ_iff_lt_or_eq.mp hother with hlt | rfl
    · rw [fromClone_tcb_of_lt hlt]
      exact (h.vm_lt other hlt).trans_le hle
    · rw [fromClone_tcb_next]
      change (if flags.contains .CLONE_VM then _ else _) < if flags.contains .CLONE_VM then _ else _
      split_ifs
      · exact h.vm_lt task htask
      · exact Nat.lt_succ_self _
  held vm a other hother := by
    obtain ⟨hlt, hvm⟩ := h.held vm a other hother
    refine ⟨Nat.lt_succ_of_lt hlt, ?_⟩
    rw [fromClone_tcb_of_lt hlt, hvm]

theorem WellFormed.sysBrk (h : s.WellFormed) (htask : task < s.next) :
    (s.sysBrk task brk).WellFormed where
  vm_lt other hother := by
    rw [sysBrk_vm]
    exact h.vm_lt other hother
  held vm a other hother := by
    rw [sysBrk_vm, sysBrk_next]
    rcases sysBrk_holder hother with ⟨rfl, rfl⟩ | hheld
    · exact ⟨htask, rfl⟩
    · exact h.held vm a other hheld

theorem WellFormed.setUserSp {sp : ℕ} (h : s.WellFormed) : (s.setUserSp task sp).WellFormed where
  vm_lt other hother := by
    rw [setUserSp_vm]
    exact h.vm_lt other hother
  held vm a other hother := by
    rw [setUserSp_vm]
    exact h.held vm a other hother

theorem WellFormed.after (h : s.WellFormed) (htask : task < s.next) :
    (s.after task e).WellFormed := by
  cases e with
  | clone flags userStack =>
    rw [Heaps.after]
    rcases lt_or_ge userStack 0 with hneg | hnonneg
    · rw [sysClone_of_neg hneg]
      exact h
    · obtain ⟨stack, hstack⟩ := exists_sysClone s task flags hnonneg
      rw [hstack]
      exact h.fromClone htask
  | brk brk => exact h.sysBrk htask
  | setSp sp => exact h.setUserSp

/-! ## Soundness decides agreement -/

theorem agree_fromClone_iff {stack : Option ℕ} (hwf : s.WellFormed) (h : s.Agree)
    (htask : task < s.next) :
    (s.fromClone task stack flags).Agree ↔
      (flags.contains .CLONE_VM = true → (s.tcb task).getUserHeapTop = USER_STACK_OFFSET) := by
  constructor
  · intro hagree hvm
    have hshares : (s.fromClone task stack flags).Shares task s.next := by
      refine ⟨Nat.lt_succ_of_lt htask, Nat.lt_succ_self _, ?_⟩
      rw [fromClone_tcb_of_lt htask, fromClone_tcb_next, if_pos hvm]
    have htop := hagree.shared _ _ hshares
    rwa [fromClone_tcb_of_lt htask, fromClone_getUserHeapTop_next] at htop
  · intro hsound
    -- the new task has the top of every old task of its address space
    have hnew : ∀ other < s.next,
        (s.tcb other).vm = ((s.fromClone task stack flags).tcb s.next).vm →
        (s.tcb other).getUserHeapTop = USER_STACK_OFFSET := by
      intro other hother hvm
      rw [fromClone_tcb_next] at hvm
      by_cases hflag : flags.contains .CLONE_VM = true
      · rw [if_pos hflag] at hvm
        exact (h.shared other task ⟨hother, htask, hvm⟩).trans (hsound hflag)
      · rw [if_neg hflag] at hvm
        exact absurd hvm (hwf.vm_lt other hother).ne
    constructor
    · rintro a b ⟨ha, hb, hvm⟩
      rcases Nat.lt_succ_iff_lt_or_eq.mp ha with ha | rfl <;>
        rcases Nat.lt_succ_iff_lt_or_eq.mp hb with hb | rfl
      · rw [fromClone_tcb_of_lt ha, fromClone_tcb_of_lt hb] at hvm ⊢
        exact h.shared a b ⟨ha, hb, hvm⟩
      · rw [fromClone_tcb_of_lt ha] at hvm
        rw [fromClone_tcb_of_lt ha, fromClone_getUserHeapTop_next]
        exact hnew a ha hvm
      · rw [fromClone_tcb_of_lt hb] at hvm
        rw [fromClone_tcb_of_lt hb, fromClone_getUserHeapTop_next]
        exact (hnew b hb hvm.symm).symm
      · rfl
    · intro other hother
      rcases Nat.lt_succ_iff_lt_or_eq.mp hother with hlt | rfl
      · rw [fromClone_tcb_of_lt hlt]
        exact h.mapped other hlt
      · rw [fromClone_getUserHeapTop_next]
        exact userStackOffset_mapped

/-- What an accepted `brk` does to the agreement of the tops. -/
theorem agree_sysBrk_iff (h : s.Agree) (htask : task < s.next)
    (haccepts : (s.tcb task).Accepts brk) :
    (s.sysBrk task brk).Agree ↔ brk < USER_STACK_OFFSET + USER_STACK_SIZE ∧
      (brk = (s.tcb task).getUserHeapTop ∨ ∀ other, s.Shares task other → other = task) := by
  have hself := sysBrk_tcb_self haccepts
  constructor
  · intro hagree
    have hmapped := (hagree.mapped task htask).2
    rw [hself] at hmapped
    refine ⟨hmapped, or_iff_not_imp_right.mpr fun hnot ↦ ?_⟩
    push Not at hnot
    obtain ⟨other, hshares, hne⟩ := hnot
    have htop := hagree.shared task other ⟨hshares.1, hshares.2.1, by
      rw [sysBrk_vm, sysBrk_vm]
      exact hshares.2.2⟩
    rw [hself, sysBrk_tcb_of_ne hne] at htop
    exact htop.trans (h.shared task other hshares).symm
  · rintro ⟨hlt, hor⟩
    constructor
    · rintro a b ⟨ha, hb, hvm⟩
      rw [sysBrk_vm, sysBrk_vm] at hvm
      have hold := h.shared a b ⟨ha, hb, hvm⟩
      rcases hor with htop | halone
      · -- the brk changes nothing
        have hsame : ∀ c,
            ((s.sysBrk task brk).tcb c).getUserHeapTop = (s.tcb c).getUserHeapTop := by
          intro c
          rcases eq_or_ne c task with rfl | hne
          · rw [hself]
            exact htop
          · rw [sysBrk_tcb_of_ne hne]
        rw [hsame, hsame, hold]
      · rcases eq_or_ne a task with rfl | hane
        · rw [halone b ⟨ha, hb, hvm⟩]
        · rcases eq_or_ne b task with rfl | hbne
          · rw [halone a ⟨hb, ha, hvm.symm⟩]
          · rw [sysBrk_tcb_of_ne hane, sysBrk_tcb_of_ne hbne, hold]
    · intro other hother
      rcases eq_or_ne other task with rfl | hne
      · rw [hself]
        exact ⟨haccepts.1, hlt⟩
      · rw [sysBrk_tcb_of_ne hne]
        exact h.mapped other hother

/-- A byte is given out twice only if it is taken from another task of the address space. -/
theorem not_regrants_of_sound (hwf : s.WellFormed) (htask : task < s.next)
    (h : s.Sound task e) : ¬s.Regrants task e := by
  cases e with
  | brk brk =>
    rintro ⟨a, hle, hlt, other, hne, hheld⟩
    by_cases haccepts : (s.tcb task).Accepts brk
    · rw [HeapTask.sysBrk_of_accepts haccepts] at hlt
      obtain ⟨hother, hvm⟩ := hwf.held _ _ _ hheld
      rcases (h haccepts).2 with htop | halone
      · exact absurd (hlt.trans_eq htop) (not_lt.mpr hle)
      · exact hne (halone other ⟨htask, hother, hvm.symm⟩)
    · rw [HeapTask.sysBrk_of_not haccepts] at hlt
      exact absurd hlt (not_lt.mpr hle)
  | clone flags userStack => exact id
  | setSp sp => exact id

/-- **One event.** While the tops agree, they agree after the event exactly if it is sound. -/
theorem agree_after_iff (hwf : s.WellFormed) (h : s.Agree) (htask : task < s.next) :
    (s.after task e).Agree ↔ s.Sound task e := by
  cases e with
  | clone flags userStack =>
    rcases lt_or_ge userStack 0 with hneg | hnonneg
    · rw [after, sysClone_of_neg hneg]
      exact iff_of_true h fun hnonneg ↦ absurd hnonneg (not_le.mpr hneg)
    · obtain ⟨stack, hstack⟩ := exists_sysClone s task flags hnonneg
      rw [after, hstack, agree_fromClone_iff hwf h htask, Sound]
      exact ⟨fun hsound _ ↦ hsound, fun hsound ↦ hsound hnonneg⟩
  | brk brk =>
    rw [after, Sound]
    by_cases haccepts : (s.tcb task).Accepts brk
    · rw [agree_sysBrk_iff h htask haccepts]
      exact ⟨fun hsound _ ↦ hsound, fun hsound ↦ hsound haccepts⟩
    · -- a call that is refused changes nothing
      rw [sysBrk_of_not haccepts]
      exact iff_of_true h fun ha ↦ absurd ha haccepts
  | setSp sp =>
    refine iff_of_true ⟨?_, ?_⟩ trivial
    · rintro a b ⟨ha, hb, hvm⟩
      rw [after, setUserSp_vm, setUserSp_vm] at hvm
      rw [after, HeapTask.getUserHeapTop, HeapTask.getUserHeapTop, setUserSp_userHeapTop,
        setUserSp_userHeapTop]
      exact h.shared a b ⟨ha, hb, hvm⟩
    · intro a ha
      rw [after, HeapTask.getUserHeapTop, setUserSp_userHeapTop]
      exact h.mapped a ha

/-- The tops agree after each event of a run exactly if all of them are sound. -/
theorem throughout_agree_iff (userStack : ℕ) {events : List (ℕ × HeapEvent)}
    (htasks : Throughout step (fun s event ↦ event.1 < s.next) (fromAppName userStack) events) :
    Throughout step (fun s event ↦ (s.step event).Agree ∧ ¬s.Regrants event.1 event.2)
        (fromAppName userStack) events ↔
      Throughout step (fun s event ↦ s.Sound event.1 event.2) (fromAppName userStack) events := by
  apply htasks.iff (I := fun s ↦ s.WellFormed ∧ s.Agree)
    ⟨wellFormed_fromAppName userStack, agree_fromAppName userStack⟩
  · rintro s event ⟨hwf, h⟩ htask
    rw [step, agree_after_iff hwf h htask]
    exact ⟨And.left, fun hsound ↦ ⟨hsound, not_regrants_of_sound hwf htask hsound⟩⟩
  · rintro s event ⟨hwf, h⟩ htask hsound
    exact ⟨hwf.after htask, (agree_after_iff hwf h htask).mpr hsound⟩

/-- **The heap of tasks that share an address space.** In a run from the first task, all tasks of an
address space always see one heap top, every top is in the mapped area and no byte is given to two
tasks, if and only if every event is sound. -/
theorem heap_agree_iff (userStack : ℕ) {events : List (ℕ × HeapEvent)}
    (htasks : Throughout step (fun s event ↦ event.1 < s.next) (fromAppName userStack) events) :
    (fromAppName userStack).Agree ∧
    (Throughout step (fun s event ↦ (s.step event).Agree ∧ ¬s.Regrants event.1 event.2)
        (fromAppName userStack) events ↔
      Throughout step (fun s event ↦ s.Sound event.1 event.2) (fromAppName userStack) events) :=
  ⟨agree_fromAppName userStack, throughout_agree_iff userStack htasks⟩

/-- Two threads, of which one moves its stack and asks for the heap top. -/
theorem heap_agree_threads :
    Throughout step (fun s event ↦ (s.step event).Agree ∧ ¬s.Regrants event.1 event.2)
      (fromAppName 0x3fff_ff00)
      [(0, .clone .CLONE_VM 0x3fc0_0000), (1, .setSp 0x3fbf_f000), (1, .brk 0)] :=
  (heap_agree_iff 0x3fff_ff00 (by decide)).2.mpr
    ⟨fun _ _ ↦ rfl, trivial, fun h ↦ absurd h.1 (by decide), trivial⟩

/-- A task raises its heap top and creates a thread, which is then given the same page. -/
theorem heap_regranted :
    ¬Throughout step (fun s event ↦ (s.step event).Agree ∧ ¬s.Regrants event.1 event.2)
      (fromAppName 0x3fff_ff00)
      [(0, .brk 0x3fe0_1000), (0, .clone .CLONE_VM 0x5000_0000), (1, .brk 0x3fe0_1000)] := by
  rw [throughout_agree_iff 0x3fff_ff00 (by decide)]
  rintro ⟨-, hclone, -⟩
  exact absurd (hclone (by decide) (by decide)) (by decide)

end Heaps

end Maturin
