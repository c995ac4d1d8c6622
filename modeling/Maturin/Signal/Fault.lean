import Maturin.Memory.Coherence
import Maturin.Memory.Teardown
import Maturin.Signal.Delivery

/-!
# Where the delivery of signals touches the memory of the user

A handler with `SA_SIGINFO` gets two structures below the stack pointer of the user, and what gives
the task back its context loads a `pc` from above it. Both go straight through the page table of the
task, wherever the user has put its stack pointer. A page that has not been touched has no entry
there, and a page fault of the kernel is a panic.

The accesses are logged beside the state and have no influence on it.
-/

open Exec

namespace Maturin

attribute [local irreducible] wsub

/-! ## Accesses -/

/-- An access to memory, with the permission that it needs. -/
structure Access where
  addr : ℕ
  len : ℕ
  need : PTEFlags

/-- What a page table has for each page. -/
abbrev PageFlags := ℕ → Option PTEFlags

/-- The page table of an address space, for the pages with addresses of 39 bits, sign extended -/
def MemorySet.pageFlags {σ φ F : Type} (ms : MemorySet F) (w : World σ φ) : PageFlags := fun n ↦
  if n < 2 ^ 26 ∨ 2 ^ 52 - 2 ^ 26 ≤ n then
    (PageTable.lookup (ms.pt, w) (n * PAGE_SIZE)).map Prod.snd
  else none

namespace Access

/-- Each byte is on a page with the flags. -/
def On (self : Access) (pages : PageFlags) (flags : PTEFlags) : Prop :=
  ∀ i < self.len, ∃ f ∈ pages (wadd self.addr i / PAGE_SIZE), f.contains flags = true

/-- The kernel can do it without a page fault; `SUM` is set. -/
def Allowed (self : Access) (pages : PageFlags) : Prop := self.On pages self.need

/-- It is to pages of the user that have the permission. -/
def IsUser (self : Access) (pages : PageFlags) : Prop := self.On pages (PTEFlags.USER ||| self.need)

instance {self : Access} {pages : PageFlags} {flags : PTEFlags} : Decidable (self.On pages flags) :=
  inferInstanceAs (Decidable (∀ i < self.len, _))

instance {self : Access} {pages : PageFlags} : Decidable (self.Allowed pages) :=
  inferInstanceAs (Decidable (self.On pages self.need))

instance {self : Access} {pages : PageFlags} : Decidable (self.IsUser pages) :=
  inferInstanceAs (Decidable (self.On pages _))

theorem IsUser.allowed {self : Access} {pages : PageFlags} (h : self.IsUser pages) :
    self.Allowed pages := by
  intro i hi
  obtain ⟨f, hf, hflags⟩ := h i hi
  exact ⟨f, hf, PTEFlags.contains_of_or hflags⟩

/-- The `SigInfo` for a handler, below the red zone -/
def sigInfo (sp : ℕ) : Access :=
  ⟨pushAligned (wsub sp USER_STACK_RED_ZONE) SIG_INFO_SIZE, SIG_INFO_SIZE, PTEFlags.WRITE⟩

/-- The `SignalUserContext` for a handler, below the `SigInfo` -/
def userContext (sp : ℕ) : Access :=
  ⟨pushAligned (sigInfo sp).addr SIGNAL_USER_CONTEXT_SIZE, SIGNAL_USER_CONTEXT_SIZE, PTEFlags.WRITE⟩

/-- The `pc` in what is taken for a `SignalUserContext` at the stack pointer -/
def userPc (sp : ℕ) : Access := ⟨wadd sp 176, 8, PTEFlags.READ⟩

end Access

theorem SigInfo.write_of_notMem {sp signum x : ℕ} {mem : ByteMem}
    (h : x < sp ∨ sp + SIG_INFO_SIZE ≤ x) : SigInfo.write sp signum mem x = mem x := by
  have hsize : SIG_INFO_SIZE = 12 := rfl
  rw [SigInfo.write, ByteMem.store_of_notMem (by omega), ByteMem.store_of_notMem (by omega),
    ByteMem.store_of_notMem (by omega)]

theorem SignalUserContext.write_of_notMem {sp pc x : ℕ} {mask : Bitset} {mem : ByteMem}
    (h : x < sp ∨ sp + SIGNAL_USER_CONTEXT_SIZE ≤ x) :
    SignalUserContext.write sp mask pc mem x = mem x := by
  have hsize : SIGNAL_USER_CONTEXT_SIZE = 848 := rfl
  rw [SignalUserContext.write, ByteMem.store_of_notMem (by omega),
    ByteMem.store_of_notMem (by omega), ByteMem.store_of_notMem (by omega),
    ByteMem.fill_of_notMem h]

namespace AccessTask

variable {α β : Type}

/-- An access of the kernel -/
def access (pages : PageFlags) (a : Access) : EStateM Panic (List Access × SignalTask) Unit := do
  modify fun s ↦ (s.1 ++ [a], s.2)
  if a.Allowed pages then pure () else throw .kernelTrap

/-- `load_trap_cx_if_handling_signals`, which loads the `pc` in any case. -/
def loadTrapCxIfHandlingSignals (pages : PageFlags) :
    EStateM Panic (List Access × SignalTask) Bool := do
  let s ← get
  if s.2.trapCxBeforeSignal.isSome then
    access pages (.userPc s.2.trapCx.getSp)
    onSnd SignalTask.loadTrapCxIfHandlingSignals
  else pure false

def enterHandler (pages : PageFlags) (signum : ℕ) (action : SigAction) :
    EStateM Panic (List Access × SignalTask) Unit := do
  let s ← get
  if action.flags.contains SigActionFlags.SA_SIGINFO then
    access pages (.sigInfo s.2.trapCx.getSp)
    access pages (.userContext s.2.trapCx.getSp)
    onSnd (SignalTask.enterHandler signum action)
  else onSnd (SignalTask.enterHandler signum action)

def handleByDefault (pages : PageFlags) (signal : SignalNo) :
    EStateM Panic (List Access × SignalTask) Unit :=
  match SigActionDefault.ofSignal signal with
  | .terminate => onSnd (SignalTask.exitCurrentTask 0)
  | .ignore => do
    let _ ← loadTrapCxIfHandlingSignals pages
    pure ()

def handleByAction (pages : PageFlags) (signum : ℕ) :
    Option SigAction → EStateM Panic (List Access × SignalTask) Unit
  | some action => if action.handler = SIG_IGN then pure () else enterHandler pages signum action
  | none => handleByDefault pages (SignalNo.ofUsize signum)

def handleSignal (pages : PageFlags) (signum : ℕ) :
    EStateM Panic (List Access × SignalTask) Unit := do
  let signal := SignalNo.ofUsize signum
  if ← onSnd SignalTask.saveTrapCxIfNotHandlingSignals then
    let action ← onSnd (SignalTask.getActionRef signum)
    handleByAction pages signum action
  else if signal = SignalNo.SIGSEGV ∨ signal = SignalNo.SIGBUS then
    onSnd (SignalTask.exitCurrentTask (-1))
  else pure ()

/-- `handle_signals`, with its accesses to the memory of the user. -/
def handleSignals (pages : PageFlags) : EStateM Panic (List Access × SignalTask) Unit := do
  let s ← get
  match s.2.receivers.getOneSignal with
  | some (signum, receivers) =>
    set (s.1, { s.2 with receivers })
    handleSignal pages signum
  | none => pure ()

/-- `signal_return`, with its access to the memory of the user. -/
def signalReturn (pages : PageFlags) : EStateM Panic (List Access × SignalTask) ℤ := do
  if ← loadTrapCxIfHandlingSignals pages then
    let s ← get
    pure (BitVec.ofNat 64 s.2.trapCx.getA0).toInt
  else pure (-1)

/-! ## Which accesses are made -/

variable {pages : PageFlags} {s s' t : SignalTask} {l : List Access} {a : Access} {r : α}
  {x x' : EStateM Panic SignalTask α} {y y' : EStateM Panic (List Access × SignalTask) α}

/-- The second program makes the accesses, where a fault is a panic, and does to the task what the
first does. -/
def Makes (pages : PageFlags) (l : List Access) (x : EStateM Panic SignalTask α)
    (y : EStateM Panic (List Access × SignalTask) α) (s : SignalTask) : Prop :=
  ∃ r t, x.run s = .ok r t ∧ ∀ log,
    ((∀ a ∈ l, a.Allowed pages) → y.run (log, s) = .ok r (log ++ l, t)) ∧
    ((∃ a ∈ l, ¬ a.Allowed pages) → ∃ u, y.run (log, s) = .error .kernelTrap u)

/-- No page fault, and all accesses are to pages of the user that have the permission. -/
def Safe (pages : PageFlags) (y : EStateM Panic (List Access × SignalTask) α) (s : SignalTask) :
    Prop :=
  ∃ r log t, y.run ([], s) = .ok r (log, t) ∧ ∀ a ∈ log, a.IsUser pages

theorem Makes.safe_iff (h : Makes pages l x y s) : Safe pages y s ↔ ∀ a ∈ l, a.IsUser pages := by
  obtain ⟨r, t, -, hy⟩ := h
  obtain ⟨hok, hfault⟩ := hy []
  constructor
  · rintro ⟨r', log, t', hrun, huser⟩
    have hall : ∀ a ∈ l, a.Allowed pages := by
      intro a ha
      by_contra hnot
      obtain ⟨u, herr⟩ := hfault ⟨a, ha, hnot⟩
      rw [hrun] at herr
      cases herr
    rw [hok hall, List.nil_append] at hrun
    cases hrun
    exact huser
  · intro huser
    exact ⟨r, l, t, hok fun a ha ↦ (huser a ha).allowed, huser⟩

theorem makes_onSnd (h : x.run s = .ok r t) : Makes pages [] x (onSnd x) s := by
  refine ⟨r, t, h, fun log ↦ ⟨fun _ ↦ ?_, ?_⟩⟩
  · rw [List.append_nil, run_onSnd_of_ok h]
  · rintro ⟨a, ha, -⟩
    exact absurd ha List.not_mem_nil

theorem makes_pure (r : α) : Makes pages [] (pure r) (pure r) s :=
  ⟨r, s, rfl, fun log ↦ ⟨fun _ ↦ by rw [List.append_nil]; rfl,
    fun ⟨_, ha, _⟩ ↦ absurd ha List.not_mem_nil⟩⟩

theorem Makes.access (h : Makes pages l x y s) (a : Access) :
    Makes pages (a :: l) x (do AccessTask.access pages a; y) s := by
  obtain ⟨r, t, hx, hy⟩ := h
  refine ⟨r, t, hx, fun log ↦ ?_⟩
  obtain ⟨hok, hfault⟩ := hy (log ++ [a])
  by_cases ha : a.Allowed pages
  · -- the access is made, and what comes next is as before
    have hrun : (AccessTask.access pages a).run (log, s) = .ok () (log ++ [a], s) := by
      rw [AccessTask.access, if_pos ha]
      rfl
    refine ⟨fun hall ↦ ?_, fun hnot ↦ ?_⟩
    · rw [run_bind_of_ok hrun, hok fun b hb ↦ hall b (List.mem_cons_of_mem a hb),
        List.append_assoc, List.singleton_append]
    · rw [run_bind_of_ok hrun]
      obtain ⟨b, hb, hnot⟩ := hnot
      rcases List.mem_cons.mp hb with rfl | hb
      · exact absurd ha hnot
      · exact hfault ⟨b, hb, hnot⟩
  · -- the access traps, and nothing comes next
    have hrun : (AccessTask.access pages a).run (log, s) = .error .kernelTrap (log ++ [a], s) := by
      rw [AccessTask.access, if_neg ha]
      rfl
    refine ⟨fun hall ↦ absurd (hall a List.mem_cons_self) ha, fun _ ↦ ⟨_, run_bind_of_error hrun⟩⟩

theorem Makes.congr (h : Makes pages l x' y' s') (hx : x.run s = x'.run s')
    (hy : ∀ log, y.run (log, s) = y'.run (log, s')) : Makes pages l x y s := by
  obtain ⟨r, t, hrun, hmakes⟩ := h
  refine ⟨r, t, hx.trans hrun, fun log ↦ ?_⟩
  rw [hy]
  exact hmakes log

/-- What comes after the accesses makes none. -/
theorem Makes.bind {f : α → EStateM Panic SignalTask β}
    {g : α → EStateM Panic (List Access × SignalTask) β} (h : Makes pages l x y s)
    (hf : ∀ r t, x.run s = .ok r t → Makes pages [] (f r) (g r) t) :
    Makes pages l (x >>= f) (y >>= g) s := by
  obtain ⟨r, t, hx, hy⟩ := h
  obtain ⟨r', t', hfx, hgy⟩ := hf r t hx
  refine ⟨r', t', (run_bind_of_ok hx).trans hfx, fun log ↦ ⟨fun hall ↦ ?_, fun hnot ↦ ?_⟩⟩
  · rw [run_bind_of_ok ((hy log).1 hall), (hgy _).1 fun a ha ↦ absurd ha List.not_mem_nil,
      List.append_nil]
  · obtain ⟨u, herr⟩ := (hy log).2 hnot
    exact ⟨u, run_bind_of_error herr⟩

theorem makes_load (pages : PageFlags) (s : SignalTask) : Makes pages
    (if s.trapCxBeforeSignal.isSome then [.userPc s.trapCx.getSp] else [])
    SignalTask.loadTrapCxIfHandlingSignals (loadTrapCxIfHandlingSignals pages) s := by
  obtain ⟨b, t, hrun⟩ := SignalTask.exists_run_load s
  cases hslot : s.trapCxBeforeSignal with
  | some cx =>
    rw [if_pos Option.isSome_some]
    refine ((makes_onSnd hrun).access (.userPc s.trapCx.getSp)).congr rfl fun log ↦ ?_
    rw [loadTrapCxIfHandlingSignals, run_get_bind, if_pos (by rw [hslot]; rfl)]
  | none =>
    have hload : SignalTask.loadTrapCxIfHandlingSignals.run s = .ok false s := by
      rw [SignalTask.loadTrapCxIfHandlingSignals, run_get_bind, hslot]
      rfl
    refine (makes_onSnd hload).congr rfl fun log ↦ ?_
    rw [loadTrapCxIfHandlingSignals, run_get_bind, if_neg (by rw [hslot]; simp),
      run_onSnd_of_ok hload]
    rfl

/-- What a handler gets is stored where the accesses say. -/
theorem wp_enterHandler_mem {signum : ℕ} {action : SigAction} :
    wp (SignalTask.enterHandler signum action) (fun _ t ↦ ∀ x, t.mem x ≠ s.mem x →
      ∃ a ∈ [Access.sigInfo s.trapCx.getSp, .userContext s.trapCx.getSp],
        a.addr ≤ x ∧ x < a.addr + a.len) noPanic s := by
  rw [SignalTask.enterHandler, wp_bind, wp_get]
  dsimp only
  split_ifs
  · rw [wp_bind, SignalTask.saveIfSetSiginfo, wp_modify, wp_modify]
    intro x hx
    by_contra hnot
    simp only [List.mem_cons, List.not_mem_nil, or_false, exists_eq_or_imp, exists_eq_left,
      not_or, not_and_or, not_le, not_lt] at hnot
    obtain ⟨hinfo, hcontext⟩ := hnot
    apply hx
    change SignalUserContext.write (Access.userContext s.trapCx.getSp).addr _ _
      (SigInfo.write (Access.sigInfo s.trapCx.getSp).addr _ _) x = s.mem x
    rw [SignalUserContext.write_of_notMem hcontext, SigInfo.write_of_notMem hinfo]
  · rw [wp_modify]
    exact fun x hx ↦ absurd rfl hx

theorem makes_enterHandler (pages : PageFlags) (signum : ℕ) (action : SigAction)
    (s : SignalTask) : Makes pages
    (if action.flags.contains SigActionFlags.SA_SIGINFO then
      [.sigInfo s.trapCx.getSp, .userContext s.trapCx.getSp] else [])
    (SignalTask.enterHandler signum action) (enterHandler pages signum action) s := by
  have hwp : wp (SignalTask.enterHandler signum action) (fun _ _ ↦ True) noPanic s :=
    wp_imp SignalTask.wp_enterHandler fun _ _ _ ↦ trivial
  obtain ⟨⟨⟩, t, hrun, -⟩ := exists_of_wp hwp
  by_cases hinfo : action.flags.contains SigActionFlags.SA_SIGINFO = true
  · rw [if_pos hinfo]
    refine Makes.congr (((makes_onSnd hrun).access _).access _) rfl fun log ↦ ?_
    rw [enterHandler, run_get_bind, if_pos hinfo]
  · rw [if_neg hinfo]
    refine (makes_onSnd hrun).congr rfl fun log ↦ ?_
    rw [enterHandler, run_get_bind, if_neg hinfo]

/-- The accesses for a signal with its action, if it has one, where the slot is full. -/
def accessesOf (signum sp : ℕ) : Option SigAction → List Access
  | some action =>
    if action.handler = SIG_IGN then []
    else if action.flags.contains SigActionFlags.SA_SIGINFO then [.sigInfo sp, .userContext sp]
    else []
  | none =>
    match SigActionDefault.ofSignal (SignalNo.ofUsize signum) with
    | .terminate => []
    | .ignore => [.userPc sp]

theorem makes_handleByAction (hslot : s.trapCxBeforeSignal.isSome = true) (signum : ℕ)
    (action : Option SigAction) :
    Makes pages (accessesOf signum s.trapCx.getSp action)
      (SignalTask.handleByAction signum action) (handleByAction pages signum action) s := by
  cases action with
  | some action =>
    rw [accessesOf, SignalTask.handleByAction, handleByAction]
    split_ifs with hign hinfo
    · exact makes_pure ()
    · have h := makes_enterHandler pages signum action s
      rwa [if_pos hinfo] at h
    · have h := makes_enterHandler pages signum action s
      rwa [if_neg hinfo] at h
  | none =>
    rw [accessesOf, SignalTask.handleByAction, handleByAction, SignalTask.handleByDefault,
      handleByDefault]
    cases SigActionDefault.ofSignal (SignalNo.ofUsize signum) with
    | terminate => exact makes_onSnd rfl
    | ignore =>
      -- the context goes back, so that the frame of the handler is looked at
      have h := makes_load pages s
      rw [if_pos hslot] at h
      exact h.bind fun _ _ _ ↦ makes_pure ()

/-! ## Where no page fault happens -/

/-- The pages of a trap are there: if it enters a handler with `SA_SIGINFO`, the user can write the
two structures; and if it takes a signal that is ignored by default, the user can read the word
where a `pc` would be. -/
def TrapFits (pages : PageFlags) (s : SignalTask) : Prop :=
  ∀ signum receivers, s.receivers.getOneSignal = some (signum, receivers) →
    s.trapCxBeforeSignal = none →
      match (s.handlers.getActionRef signum).join with
      | some action =>
        action.handler ≠ SIG_IGN → action.flags.contains SigActionFlags.SA_SIGINFO = true →
          (Access.sigInfo s.trapCx.getSp).IsUser pages ∧
            (Access.userContext s.trapCx.getSp).IsUser pages
      | none => SigActionDefault.ofSignal (SignalNo.ofUsize signum) = .ignore →
          (Access.userPc s.trapCx.getSp).IsUser pages

theorem accessesOf_isUser_iff {signum sp : ℕ} (action : Option SigAction) :
    (∀ a ∈ accessesOf signum sp action, a.IsUser pages) ↔
      match action with
      | some action =>
        action.handler ≠ SIG_IGN → action.flags.contains SigActionFlags.SA_SIGINFO = true →
          (Access.sigInfo sp).IsUser pages ∧ (Access.userContext sp).IsUser pages
      | none => SigActionDefault.ofSignal (SignalNo.ofUsize signum) = .ignore →
          (Access.userPc sp).IsUser pages := by
  cases action with
  | some action =>
    rw [accessesOf]
    split_ifs with hign hinfo
    · exact iff_of_true (fun _ ha ↦ absurd ha List.not_mem_nil) fun hne ↦ absurd hign hne
    · rw [List.forall_mem_cons, List.forall_mem_singleton]
      exact ⟨fun h _ _ ↦ h, fun h ↦ h hign hinfo⟩
    · exact iff_of_true (fun _ ha ↦ absurd ha List.not_mem_nil) fun _ h ↦ absurd h hinfo
  | none =>
    rw [accessesOf]
    cases SigActionDefault.ofSignal (SignalNo.ofUsize signum) with
    | terminate =>
      exact iff_of_true (fun _ ha ↦ absurd ha List.not_mem_nil) SigActionDefault.noConfusion
    | ignore =>
      rw [List.forall_mem_singleton]
      exact ⟨fun h _ ↦ h, fun h ↦ h rfl⟩

/-- With an empty slot the context is saved, and the action says what is done. -/
theorem run_handleSignal_of_none {signum : ℕ} {action : Option SigAction}
    (hslot : s.trapCxBeforeSignal = none) (h : s.handlers.getActionRef signum = some action)
    (log : List Access) : (handleSignal pages signum).run (log, s) =
      (handleByAction pages signum action).run (log, s.saved) := by
  have hget : (SignalTask.getActionRef signum).run s.saved = .ok action s.saved :=
    SignalTask.run_getActionRef h
  rw [handleSignal, run_bind_of_ok (run_onSnd_of_ok (SignalTask.run_save_of_none hslot) log),
    if_pos rfl, run_bind_of_ok (run_onSnd_of_ok hget log)]

/-- With a full slot a fault ends the task, and any other signal does nothing. -/
theorem run_handleSignal_of_some {signum : ℕ} {cx : TrapContext}
    (hslot : s.trapCxBeforeSignal = some cx) (log : List Access) :
    (handleSignal pages signum).run (log, s) =
      (if SignalNo.ofUsize signum = SignalNo.SIGSEGV ∨ SignalNo.ofUsize signum = SignalNo.SIGBUS
        then onSnd (SignalTask.exitCurrentTask (-1)) else pure ()).run (log, s) := by
  rw [handleSignal, run_bind_of_ok (run_onSnd_of_ok (SignalTask.run_save_of_some hslot) log),
    if_neg (by simp)]

theorem makes_handleSignal {signum : ℕ} (hs : SignalTask.IsSignal signum) (pages : PageFlags) :
    Makes pages (if s.trapCxBeforeSignal = none then
        accessesOf signum s.trapCx.getSp (s.handlers.getActionRef signum).join else [])
      (SignalTask.handleSignal signum) (handleSignal pages signum) s := by
  cases hslot : s.trapCxBeforeSignal with
  | none =>
    rw [if_pos rfl]
    obtain ⟨action, haction⟩ := SignalTask.exists_getActionRef s.handlers hs
    rw [haction, Option.join_some]
    exact (makes_handleByAction (s := s.saved) rfl signum action).congr
      (SignalTask.run_handleSignal_of_none hslot haction) (run_handleSignal_of_none hslot haction)
  | some cx =>
    rw [if_neg (Option.some_ne_none cx)]
    apply Makes.congr _ (SignalTask.run_handleSignal_of_some hslot)
      (run_handleSignal_of_some hslot)
    split_ifs
    · exact makes_onSnd rfl
    · exact makes_pure ()

/-- The accesses of a trap -/
def accesses (s : SignalTask) : List Access :=
  match s.receivers.getOneSignal with
  | some (signum, _) =>
    if s.trapCxBeforeSignal = none then
      accessesOf signum s.trapCx.getSp (s.handlers.getActionRef signum).join
    else []
  | none => []

theorem makes_handleSignals (pages : PageFlags) (s : SignalTask) :
    Makes pages (accesses s) SignalTask.handleSignals (handleSignals pages) s := by
  rw [accesses]
  cases hget : s.receivers.getOneSignal with
  | none =>
    have hpure : Makes pages [] (pure ()) (pure ()) s := makes_pure ()
    refine hpure.congr (SignalTask.run_handleSignals_of_none hget) fun log ↦ ?_
    rw [handleSignals, run_get_bind, hget]
  | some taken =>
    obtain ⟨signum, receivers⟩ := taken
    obtain ⟨hs, -⟩ := SignalTask.getOneSignal_eq_some hget
    have hmakes := makes_handleSignal (s := { s with receivers }) hs pages
    refine hmakes.congr (SignalTask.run_handleSignals_of_some hget) fun log ↦ ?_
    rw [handleSignals, run_get_bind, hget]
    rfl

/-- When a trap is safe. -/
theorem handleSignals_safe_iff : Safe pages (handleSignals pages) s ↔ TrapFits pages s := by
  rw [(makes_handleSignals pages s).safe_iff, accesses, TrapFits]
  cases s.receivers.getOneSignal with
  | none =>
    exact iff_of_true (fun _ ha ↦ absurd ha List.not_mem_nil) fun _ _ hsome ↦ by cases hsome
  | some taken =>
    obtain ⟨signum, receivers⟩ := taken
    dsimp only
    constructor
    · intro h signum' receivers' hsome hslot
      obtain ⟨rfl, -⟩ := Prod.mk.inj (Option.some.inj hsome)
      rw [if_pos hslot] at h
      exact (accessesOf_isUser_iff _).mp h
    · intro h
      split_ifs with hslot
      · exact (accessesOf_isUser_iff _).mpr (h signum receivers rfl hslot)
      · exact fun _ ha ↦ absurd ha List.not_mem_nil

/-- When a return from a handler is safe. -/
theorem signalReturn_safe_iff : Safe pages (signalReturn pages) s ↔
    (s.trapCxBeforeSignal ≠ none → (Access.userPc s.trapCx.getSp).IsUser pages) := by
  have hmakes : Makes pages
      (if s.trapCxBeforeSignal.isSome then [.userPc s.trapCx.getSp] else [])
      SignalTask.signalReturn (signalReturn pages) s := by
    refine (makes_load pages s).bind fun found t _ ↦ ?_
    cases found with
    | true =>
      rw [if_pos rfl, if_pos rfl]
      have hpure : Makes pages [] (pure (BitVec.ofNat 64 t.trapCx.getA0).toInt)
          (pure (BitVec.ofNat 64 t.trapCx.getA0).toInt) t := makes_pure _
      exact hpure.congr run_get_bind fun _ ↦ run_get_bind
    | false =>
      rw [if_neg (by simp), if_neg (by simp)]
      exact makes_pure (-1)
  rw [hmakes.safe_iff]
  cases s.trapCxBeforeSignal with
  | none => exact iff_of_true (fun _ ha ↦ absurd ha List.not_mem_nil) fun h ↦ absurd rfl h
  | some cx =>
    rw [if_pos Option.isSome_some, List.forall_mem_singleton]
    exact ⟨fun h _ ↦ h, fun h ↦ h (Option.some_ne_none cx)⟩

/-- **When the delivery of signals is safe.** For every address space, task and stack pointer: a
trap has no page fault and keeps to pages that the user may access exactly if the pages that it
needs are there, and a return from a handler exactly if the word above the stack pointer is. -/
theorem delivery_safe_iff (pages : PageFlags) (s : SignalTask) :
    (Safe pages (handleSignals pages) s ↔ TrapFits pages s) ∧
    (Safe pages (signalReturn pages) s ↔
      (s.trapCxBeforeSignal ≠ none → (Access.userPc s.trapCx.getSp).IsUser pages)) :=
  ⟨handleSignals_safe_iff, signalReturn_safe_iff⟩

/-! ## A stack that was not touched -/

theorem not_safe_of_panics (h : panicOf y ([], s) = some .kernelTrap) : ¬ Safe pages y s := by
  rintro ⟨r, log, t, hrun, -⟩
  rw [panicOf, hrun] at h
  cases h

/-- Signal 10 is pending, its handler wants the structures or not, and the stack ends at
`0x2000`. -/
def infoTask (flags : SigActionFlags) : SignalTask :=
  [SignalEvent.user (SignalTask.new.trapCx.setSp 0x2000) (fun _ ↦ 0),
    .setAction 10 ⟨0x1000, flags, 0, 0⟩, .send 10].foldl SignalTask.next .new

/-- The task returns from its handler with a null stack pointer. -/
def nullTask : SignalTask :=
  [SignalEvent.trap, .user (SignalTask.new.trapCx.setSp 0) (fun _ ↦ 0)].foldl SignalTask.next
    (infoTask 0)

/-- The page of the stack is there, but was not touched. -/
theorem delivery_faults : ∃ (D : Set ℕ) (ms : MemorySet Empty) (w : World Bitmap Unit),
    Reach PHYS_MEMORY_OFFSET SpaceCall.User D ms w ∧ (ms.areaMap.find 0x1fff).isSome ∧
    ¬ Safe (ms.pageFlags w) (handleSignals (ms.pageFlags w)) (infoTask SigActionFlags.SA_SIGINFO) ∧
    ¬ Safe (ms.pageFlags w) (signalReturn (ms.pageFlags w)) nullTask := by
  obtain ⟨ms, w, hrun, hP⟩ := exists_of_returns (x := SpaceCall.runNew PHYS_MEMORY_OFFSET
      [.pushWithBackend 0x1000 0x2000 bssPage.flags none false]) (s := World.kernel)
    (P := fun (ms : MemorySet Empty) w ↦ (ms.areaMap.find 0x1fff).isSome &&
      decide (panicOf (handleSignals (ms.pageFlags w))
        ([], infoTask SigActionFlags.SA_SIGINFO) = some .kernelTrap) &&
      decide (panicOf (signalReturn (ms.pageFlags w)) ([], nullTask) = some .kernelTrap))
    (by decide +kernel)
  rw [Bool.and_eq_true, Bool.and_eq_true, decide_eq_true_eq, decide_eq_true_eq] at hP
  obtain ⟨D, hreach⟩ : ∃ D, Reach PHYS_MEMORY_OFFSET SpaceCall.User D ms w :=
    Reach.runNew (by simp [SpaceCall.User, PageAligned, PAGE_SIZE]) (by decide)
      World.kernel_inUse hrun
  exact ⟨D, ms, w, hreach, hP.1.1, not_safe_of_panics hP.1.2, not_safe_of_panics hP.2⟩

end AccessTask

end Maturin
