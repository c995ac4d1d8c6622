import Maturin.Lib.FifoLock
import Maturin.Sync.Interrupt
import Mathlib.Data.List.Nodup

/-!
# The ticket lock

`TicketMutex` of the crate `lock`, which the kernel has as its `Mutex`. Any number of CPUs use any
number of locks at the same time. What one CPU does in `lock`, `try_lock` and the `drop` of a guard
is cut where another one may come in between: at each access to one of the two counters.

## What may happen

A CPU that is in none of the functions calls one of them, changes what a guard of its own protects,
or turns its interrupts on or off while it has no guard; one that is in a function makes the next
access. What an event asks for where it may not happen is not done.
-/

namespace Maturin.KernelSync

variable {κ ι α : Type}

/-- `TicketMutex`. -/
structure TicketMutex (α : Type) where
  nextTicket : ℕ
  nextServing : ℕ
  data : α

/-- `TicketMutex::new`. -/
def TicketMutex.new (data : α) : TicketMutex α := ⟨0, 0, data⟩

/-- `TicketMutexGuard`. -/
structure TicketMutexGuard (ι : Type) where
  lock : ι
  ticket : ℕ
  deriving DecidableEq

/-- What comes after a ticket; `fetch_add` wraps. -/
def nextWord (ticket : ℕ) : ℕ := (ticket + 1) % 2 ^ 64

/-- Where a CPU is: in none of the functions, or before an access. -/
inductive TicketPc (ι : Type)
  | out
  /-- `lock`, before `next_ticket.fetch_add` -/
  | draw (l : ι)
  /-- `lock`, before a look at `next_serving` -/
  | spin (l : ι) (ticket : ℕ)
  /-- `try_lock`, before `fetch_update` looks at `next_ticket` -/
  | load (l : ι)
  /-- `try_lock`, before the closure looks at `next_serving` -/
  | check (l : ι) (ticket : ℕ)
  /-- `try_lock`, before the `compare_exchange_weak` of `fetch_update` -/
  | swap (l : ι) (ticket : ℕ)
  /-- before the `pop_off` of a `try_lock` that fails, or of a `drop` -/
  | leaving
  deriving DecidableEq

/-- A CPU: its interrupts, the guards that it has, and where it is. -/
structure TicketCore (ι : Type) where
  hart : Hart
  guards : List (TicketMutexGuard ι)
  pc : TicketPc ι

/-- The locks and the CPUs. -/
structure TicketSys (κ ι α : Type) where
  mutex : ι → TicketMutex α
  core : κ → TicketCore ι

inductive TicketEvent (κ ι α : Type)
  | lock (c : κ) (l : ι)
  | tryLock (c : κ) (l : ι)
  /-- a change through `deref_mut` -/
  | update (c : κ) (g : TicketMutexGuard ι) (f : α → α)
  | drop (c : κ) (g : TicketMutexGuard ι)
  | setSie (c : κ) (sie : Bool)
  /-- the next access; `weak` makes a `compare_exchange_weak` fail as it may at any time -/
  | access (c : κ) (weak : Bool)

/-- The pairs of `push_off` and `pop_off` that are open besides those of guards. -/
def TicketPc.depth : TicketPc ι → ℕ
  | .out => 0
  | _ => 1

/-- The lock of the function. -/
def TicketPc.lock : TicketPc ι → Option ι
  | .draw l | .spin l _ | .load l | .check l _ | .swap l _ => some l
  | .out | .leaving => none

/-- What holds of a CPU: a pair is open for each guard, and in each function. -/
structure TicketCore.Ok (core : TicketCore ι) : Prop where
  nested : core.hart.Nested (core.guards.length + core.pc.depth)
  nodup : core.guards.Nodup

/-- The CPU of an event. -/
def TicketEvent.cpu : TicketEvent κ ι α → κ
  | .lock c _ | .tryLock c _ | .update c _ _ | .drop c _ | .setSie c _ | .access c _ => c

namespace TicketCore.Ok

variable {core : TicketCore ι} {pc : TicketPc ι} {g : TicketMutexGuard ι}

theorem goto (h : core.Ok) (pc : TicketPc ι) (hpc : pc.depth = core.pc.depth) :
    { core with pc }.Ok :=
  ⟨hpc ▸ h.nested, h.nodup⟩

/-- The pair of the function is that of the guard. -/
theorem give (h : core.Ok) (hpc : core.pc.depth = 1) (hg : g ∉ core.guards) :
    { core with guards := g :: core.guards, pc := .out }.Ok := by
  have hnested := h.nested
  rw [hpc] at hnested
  exact ⟨hnested, List.nodup_cons.mpr ⟨hg, h.nodup⟩⟩

/-- The pair of the guard is that of the function. -/
theorem drop [DecidableEq ι] (h : core.Ok) (hpc : core.pc = .out) (hg : g ∈ core.guards) :
    { core with guards := core.guards.erase g, pc := .leaving }.Ok := by
  have hlen : (core.guards.erase g).length + 1 = core.guards.length := by
    rw [List.length_erase_of_mem hg]
    exact Nat.sub_add_cancel (List.length_pos_of_mem hg)
  have hnested := h.nested
  rw [hpc, ← hlen] at hnested
  exact ⟨hnested, h.nodup.erase g⟩

/-- A function begins. -/
theorem pushOff (h : core.Ok) (hpc : core.pc = .out) (hdepth : pc.depth = 1) :
    { core with hart := core.hart.pushOff, pc }.Ok := by
  have hnested := h.nested.pushOff
  rw [hpc] at hnested
  exact ⟨by rw [hdepth]; exact hnested, h.nodup⟩

/-- A function ends. -/
theorem exists_popOff (h : core.Ok) (hpc : core.pc = .leaving) :
    ∃ hart, core.hart.popOff = some hart ∧ hart.outside = core.hart.outside ∧
      { core with hart, pc := .out }.Ok := by
  have hnested := h.nested
  rw [hpc] at hnested
  obtain ⟨hart, hpop, hnested', houtside⟩ := hnested.exists_popOff
  exact ⟨hart, hpop, houtside, hnested', h.nodup⟩

end TicketCore.Ok

namespace TicketSys

/-- Fresh locks and CPUs -/
def new (data : ι → α) (sie : κ → Bool) : TicketSys κ ι α where
  mutex l := .new (data l)
  core c := ⟨.fresh (sie c), [], .out⟩

section

variable [DecidableEq κ] [DecidableEq ι]

def setCore (s : TicketSys κ ι α) (c : κ) (core : TicketCore ι) : TicketSys κ ι α :=
  { s with core := Function.update s.core c core }

def setMutex (s : TicketSys κ ι α) (l : ι) (m : TicketMutex α) : TicketSys κ ι α :=
  { s with mutex := Function.update s.mutex l m }

/-- A CPU goes on to another place. -/
def goto (s : TicketSys κ ι α) (c : κ) (pc : TicketPc ι) : TicketSys κ ι α :=
  s.setCore c { s.core c with pc }

/-- A CPU is given a guard. -/
def give (s : TicketSys κ ι α) (c : κ) (g : TicketMutexGuard ι) : TicketSys κ ι α :=
  s.setCore c { s.core c with guards := g :: (s.core c).guards, pc := .out }

/-- The next access of a CPU; `none` is a panic. -/
def access (s : TicketSys κ ι α) (c : κ) (weak : Bool) : Option (TicketSys κ ι α) :=
  match (s.core c).pc with
  | .out => some s
  | .draw l =>
    let m := s.mutex l
    some ((s.setMutex l { m with nextTicket := nextWord m.nextTicket }).goto c
      (.spin l m.nextTicket))
  | .spin l ticket =>
    some (if (s.mutex l).nextServing = ticket then s.give c ⟨l, ticket⟩ else s)
  | .load l => some (s.goto c (.check l (s.mutex l).nextTicket))
  | .check l ticket =>
    some (s.goto c (if (s.mutex l).nextServing = ticket then .swap l ticket else .leaving))
  | .swap l ticket =>
    let m := s.mutex l
    some (if m.nextTicket = ticket ∧ weak = false then
      (s.setMutex l { m with nextTicket := nextWord ticket }).give c ⟨l, ticket⟩
    else s.goto c (.check l m.nextTicket))
  | .leaving =>
    (s.core c).hart.popOff.map fun hart ↦ s.setCore c { s.core c with hart, pc := .out }

/-- An event; `none` is a panic. -/
def step (s : TicketSys κ ι α) : TicketEvent κ ι α → Option (TicketSys κ ι α)
  | .lock c l =>
    some (if (s.core c).pc = .out then
      s.setCore c { s.core c with hart := (s.core c).hart.pushOff, pc := .draw l }
    else s)
  | .tryLock c l =>
    some (if (s.core c).pc = .out then
      s.setCore c { s.core c with hart := (s.core c).hart.pushOff, pc := .load l }
    else s)
  | .update c g f =>
    let m := s.mutex g.lock
    some (if (s.core c).pc = .out ∧ g ∈ (s.core c).guards then
      s.setMutex g.lock { m with data := f m.data }
    else s)
  | .drop c g =>
    let m := s.mutex g.lock
    some (if (s.core c).pc = .out ∧ g ∈ (s.core c).guards then
      (s.setMutex g.lock { m with nextServing := nextWord g.ticket }).setCore c
        { s.core c with guards := (s.core c).guards.erase g, pc := .leaving }
    else s)
  | .setSie c sie =>
    some (if (s.core c).pc = .out ∧ (s.core c).guards = [] then
      s.setCore c { s.core c with hart := { (s.core c).hart with sie } }
    else s)
  | .access c weak => s.access c weak

/-- The state after events, if none of them panics. -/
def run (s : TicketSys κ ι α) (events : List (TicketEvent κ ι α)) : Option (TicketSys κ ι α) :=
  events.foldlM step s

/-- What an event is at a lock: who has drawn a ticket arrives, and who is given a guard enters. -/
def happens (l : ι) (s : TicketSys κ ι α) : TicketEvent κ ι α → List (LockEvent κ α)
  | .update c g f =>
    if (s.core c).pc = .out ∧ g ∈ (s.core c).guards ∧ g.lock = l then [.update c f] else []
  | .drop c g =>
    if (s.core c).pc = .out ∧ g ∈ (s.core c).guards ∧ g.lock = l then [.leave c] else []
  | .access c weak =>
    match (s.core c).pc with
    | .draw l' => if l' = l then [.arrive c] else []
    | .spin l' ticket =>
      if l' = l ∧ (s.mutex l).nextServing = ticket then [.enter c] else []
    | .swap l' ticket =>
      if l' = l ∧ (s.mutex l).nextTicket = ticket ∧ weak = false then [.arrive c, .enter c] else []
    | _ => []
  | _ => []

/-- What happens at a lock in a run. -/
def trace (l : ι) (s : TicketSys κ ι α) : List (TicketEvent κ ι α) → List (LockEvent κ α)
  | [] => []
  | e :: events => happens l s e ++ ((s.step e).map fun s' ↦ trace l s' events).getD []

end

variable {s s' : TicketSys κ ι α} {c c' : κ} {l l' : ι} {n : ℕ} {q q' : FifoLock κ α}
  {core core' : TicketCore ι} {m : TicketMutex α} {events : List (TicketEvent κ ι α)}

/-! ## What holds of a lock -/

/-- The lock is this one, after at most `n` events. The tickets from the one that is served on
belong to the one inside and to those who wait, in their order. -/
structure Queued (s : TicketSys κ ι α) (l : ι) (n : ℕ) (q : FifoLock κ α) : Prop where
  data_eq : (s.mutex l).data = q.data
  next_eq : (s.mutex l).nextTicket = (s.mutex l).nextServing + q.queue.length
  next_le : (s.mutex l).nextTicket ≤ n
  held : ∀ c ticket, ⟨l, ticket⟩ ∈ (s.core c).guards ↔
    q.holder = some c ∧ ticket = (s.mutex l).nextServing
  spins : ∀ c ticket, (s.core c).pc = .spin l ticket ↔
    ∃ k, q.waiting[k]? = some c ∧
      ticket = (s.mutex l).nextServing + q.holder.toList.length + k
  swaps : ∀ c ticket, (s.core c).pc = .swap l ticket → ticket ≤ (s.mutex l).nextServing

/-- For a lock, two states of a CPU are the same. -/
structure SameAt (l : ι) (core core' : TicketCore ι) : Prop where
  guards : ∀ ticket, ⟨l, ticket⟩ ∈ core'.guards ↔ ⟨l, ticket⟩ ∈ core.guards
  spin : ∀ ticket, core'.pc = .spin l ticket ↔ core.pc = .spin l ticket
  swap : ∀ ticket, core'.pc = .swap l ticket → core.pc = .swap l ticket

theorem SameAt.refl (l : ι) (core : TicketCore ι) : SameAt l core core :=
  ⟨fun _ ↦ Iff.rfl, fun _ ↦ Iff.rfl, fun _ ↦ id⟩

/-- A CPU that goes on without the lock is the same for it. -/
theorem SameAt.of_lock (hguards : ∀ ticket, ⟨l, ticket⟩ ∈ core'.guards ↔ ⟨l, ticket⟩ ∈ core.guards)
    (hpc : core.pc.lock ≠ some l) (hpc' : core'.pc.lock ≠ some l) : SameAt l core core' where
  guards := hguards
  spin ticket := by
    refine iff_of_false (fun h ↦ hpc' ?_) (fun h ↦ hpc ?_) <;> rw [h] <;> rfl
  swap ticket h := absurd (by rw [h]; rfl) hpc'

theorem Queued.frame (h : Queued s l n q) (hmutex : s'.mutex l = s.mutex l)
    (hcore : ∀ c, SameAt l (s.core c) (s'.core c)) : Queued s' l (n + 1) q where
  data_eq := hmutex ▸ h.data_eq
  next_eq := hmutex ▸ h.next_eq
  next_le := hmutex ▸ h.next_le.trans n.le_succ
  held c ticket := by rw [(hcore c).guards, hmutex, h.held]
  spins c ticket := by rw [(hcore c).spin, hmutex, h.spins]
  swaps c ticket hswap := hmutex ▸ h.swaps c ticket ((hcore c).swap ticket hswap)

/-- The locks are these, after at most `n` events. -/
structure Sim (s : TicketSys κ ι α) (n : ℕ) (q : ι → FifoLock κ α) : Prop where
  ok : ∀ c, (s.core c).Ok
  queued : ∀ l, Queued s l n (q l)

variable {e : TicketEvent κ ι α} {Q : ι → FifoLock κ α} {g : TicketMutexGuard ι} {ticket : ℕ}

section

variable [DecidableEq κ] [DecidableEq ι]

omit [DecidableEq ι] in
theorem forall_core {P : κ → TicketCore ι → Prop} :
    (∀ c', P c' ((s.setCore c core).core c')) ↔ P c core ∧ ∀ c' ≠ c, P c' (s.core c') :=
  Function.forall_update_iff s.core P

omit [DecidableEq κ] in
theorem setMutex_self (s : TicketSys κ ι α) (l : ι) : s.setMutex l (s.mutex l) = s := by
  rw [setMutex, Function.update_eq_self]

omit [DecidableEq ι] in
/-- A guard of one lock more says nothing about the others. -/
theorem mem_cons_guard {l l' : ι} {guards : List (TicketMutexGuard ι)} {ticket ticket' : ℕ}
    (hl : l' ≠ l) :
    (⟨l', ticket'⟩ : TicketMutexGuard ι) ∈ ⟨l, ticket⟩ :: guards ↔ ⟨l', ticket'⟩ ∈ guards :=
  List.mem_cons.trans (or_iff_right fun heq ↦ hl (congrArg TicketMutexGuard.lock heq))

theorem Sim.of_update (h : Sim s n Q) (hok : core.Ok)
    (hsame : ∀ l' ≠ l, SameAt l' (s.core c) core)
    (hq : Queued ((s.setMutex l m).setCore c core) l (n + 1) q) :
    Sim ((s.setMutex l m).setCore c core) (n + 1) (Function.update Q l q) := by
  refine ⟨(forall_core (P := fun _ core ↦ core.Ok)).mpr ⟨hok, fun c' _ ↦ h.ok c'⟩, ?_⟩
  rw [Function.forall_update_iff Q fun l' ↦ Queued _ l' (n + 1)]
  refine ⟨hq, fun l' hl' ↦ (h.queued l').frame (Function.update_of_ne hl' ..) ?_⟩
  exact (forall_core (P := fun c' ↦ SameAt l' (s.core c'))).mpr
    ⟨hsame l' hl', fun c' _ ↦ .refl l' _⟩

/-- An event does not panic, and the locks go on as it says. -/
def Follows (s : TicketSys κ ι α) (n : ℕ) (Q : ι → FifoLock κ α) (e : TicketEvent κ ι α) : Prop :=
  ∃ s' Q', s.step e = some s' ∧ Sim s' (n + 1) Q' ∧ ∀ l, (Q l).Run (happens l s e) (Q' l)

theorem Sim.stay (h : Sim s n Q) (hstep : s.step e = some s) (hnone : ∀ l, happens l s e = []) :
    Follows s n Q e := by
  refine ⟨s, Q, hstep, ⟨h.ok, fun l ↦ (h.queued l).frame rfl fun c ↦ .refl l _⟩, fun l ↦ ?_⟩
  rw [hnone]
  exact .nil

/-- Nothing happens at any lock. -/
theorem Sim.still (h : Sim s n Q) (hstep : s.step e = some (s.setCore c core)) (hok : core.Ok)
    (hsame : ∀ l, SameAt l (s.core c) core) (hnone : ∀ l, happens l s e = []) :
    Follows s n Q e := by
  refine ⟨_, Q, hstep, ⟨?_, fun l ↦ (h.queued l).frame rfl ?_⟩, fun l ↦ ?_⟩
  · exact (forall_core (P := fun _ core ↦ core.Ok)).mpr ⟨hok, fun c' _ ↦ h.ok c'⟩
  · exact (forall_core (P := fun c' ↦ SameAt l (s.core c'))).mpr
      ⟨hsame l, fun c' _ ↦ .refl l _⟩
  · rw [hnone]
    exact .nil

/-- Something happens at one lock. -/
theorem Sim.at (h : Sim s n Q) (hstep : s.step e = some ((s.setMutex l m).setCore c core))
    (hok : core.Ok) (hsame : ∀ l' ≠ l, SameAt l' (s.core c) core)
    (hnone : ∀ l' ≠ l, happens l' s e = []) (hrun : (Q l).Run (happens l s e) q)
    (hq : Queued ((s.setMutex l m).setCore c core) l (n + 1) q) : Follows s n Q e := by
  refine ⟨_, _, hstep, h.of_update hok hsame hq, ?_⟩
  rw [Function.forall_update_iff Q fun l' ↦ (Q l').Run (happens l' s e)]
  refine ⟨hrun, fun l' hl' ↦ ?_⟩
  rw [hnone l' hl']
  exact .nil

/-! ## The events at a lock -/

/-- A lock after an event of a CPU, from what it is for that CPU and for the others. -/
theorem queued_setCore (hdata : m.data = q.data)
    (hnext : m.nextTicket = m.nextServing + q.queue.length) (hle : m.nextTicket ≤ n)
    (hheld : ∀ ticket, ⟨l, ticket⟩ ∈ core.guards ↔
      q.holder = some c ∧ ticket = m.nextServing)
    (hheld' : ∀ c' ≠ c, ∀ ticket, ⟨l, ticket⟩ ∈ (s.core c').guards ↔
      q.holder = some c' ∧ ticket = m.nextServing)
    (hspins : ∀ ticket, core.pc = .spin l ticket ↔
      ∃ k, q.waiting[k]? = some c ∧ ticket = m.nextServing + q.holder.toList.length + k)
    (hspins' : ∀ c' ≠ c, ∀ ticket, (s.core c').pc = .spin l ticket ↔
      ∃ k, q.waiting[k]? = some c' ∧ ticket = m.nextServing + q.holder.toList.length + k)
    (hswaps : ∀ ticket, core.pc = .swap l ticket → ticket ≤ m.nextServing)
    (hswaps' : ∀ c' ≠ c, ∀ ticket, (s.core c').pc = .swap l ticket → ticket ≤ m.nextServing) :
    Queued ((s.setMutex l m).setCore c core) l n q := by
  have hm : ((s.setMutex l m).setCore c core).mutex l = m := Function.update_self ..
  refine ⟨?_, ?_, ?_, ?_, ?_, ?_⟩ <;> rw [hm]
  · exact hdata
  · exact hnext
  · exact hle
  · exact (forall_core (P := fun c core ↦ ∀ ticket, ⟨l, ticket⟩ ∈ core.guards ↔
      q.holder = some c ∧ ticket = m.nextServing)).mpr ⟨hheld, hheld'⟩
  · exact (forall_core (P := fun c core ↦ ∀ ticket, core.pc = .spin l ticket ↔
      ∃ k, q.waiting[k]? = some c ∧
        ticket = m.nextServing + q.holder.toList.length + k)).mpr ⟨hspins, hspins'⟩
  · exact (forall_core (P := fun _ core ↦ ∀ ticket, core.pc = .swap l ticket →
      ticket ≤ m.nextServing)).mpr ⟨hswaps, hswaps'⟩

/-- A ticket that was looked at in time is not behind. -/
theorem Queued.look (h : Queued s l n q) (hpc : (s.core c).pc = .check l (s.mutex l).nextServing) :
    Queued ((s.setMutex l (s.mutex l)).goto c (.swap l (s.mutex l).nextServing)) l (n + 1) q := by
  refine queued_setCore h.data_eq h.next_eq (h.next_le.trans n.le_succ) (h.held c)
    (fun c' _ ↦ h.held c') (fun ticket ↦ ?_) (fun c' _ ↦ h.spins c') ?_ fun c' _ ↦ h.swaps c'
  · rw [← h.spins, hpc]
    exact iff_of_false nofun nofun
  · intro ticket hswap
    exact (TicketPc.swap.inj hswap).2.symm.le

/-- Who draws a ticket waits last. -/
theorem Queued.draw (h : Queued s l n q) (hn : n + 1 < 2 ^ 64) (hpc : (s.core c).pc = .draw l) :
    Queued ((s.setMutex l { s.mutex l with nextTicket := nextWord (s.mutex l).nextTicket }).goto c
      (.spin l (s.mutex l).nextTicket)) l (n + 1) (q.join c) := by
  have hle := h.next_le
  have hword : nextWord (s.mutex l).nextTicket = (s.mutex l).nextTicket + 1 :=
    Nat.mod_eq_of_lt (by omega)
  -- the CPU was not waiting for this lock
  have hnot : ∀ k, q.waiting[k]? ≠ some c := fun k hk ↦ by
    have hspin := (h.spins c _).mpr ⟨k, hk, rfl⟩
    rw [hpc] at hspin
    cases hspin
  refine queued_setCore h.data_eq ?_ ?_ (h.held c) (fun c' _ ↦ h.held c') ?_ ?_ nofun
    fun c' _ ↦ h.swaps c'
  · rw [FifoLock.length_queue_join, ← Nat.add_assoc, ← h.next_eq]
    exact hword
  · dsimp only
    rw [hword]
    omega
  · have hlast : (s.mutex l).nextTicket =
        (s.mutex l).nextServing + q.holder.toList.length + q.waiting.length := by
      rw [h.next_eq, FifoLock.length_queue, Nat.add_assoc]
    intro ticket
    dsimp only
    constructor
    · intro hspin
      obtain rfl := (TicketPc.spin.inj hspin).2
      exact ⟨_, FifoLock.getElem?_concat_eq_some.mpr (.inr ⟨rfl, rfl⟩), hlast⟩
    · rintro ⟨k, hk, rfl⟩
      obtain hk | ⟨rfl, -⟩ := FifoLock.getElem?_concat_eq_some.mp hk
      · exact absurd hk (hnot k)
      · exact congrArg (TicketPc.spin l) hlast
  · intro c' hc' ticket
    dsimp only
    rw [h.spins]
    refine exists_congr fun k ↦ and_congr_left fun _ ↦ ?_
    exact ((FifoLock.getElem?_concat_eq_some).trans
      (or_iff_left fun hlast ↦ hc' hlast.2.symm)).symm

omit [DecidableEq κ] [DecidableEq ι] in
/-- The CPU whose ticket is served is the first of those who wait, and nobody is inside. -/
theorem Queued.first (h : Queued s l n q)
    (hpc : (s.core c).pc = .spin l (s.mutex l).nextServing) :
    ∃ waiting, q = ⟨none, c :: waiting, q.data⟩ := by
  obtain ⟨k, hk, heq⟩ := (h.spins c _).mp hpc
  obtain ⟨holder, waiting, data⟩ := q
  have hzero : holder.toList.length = 0 ∧ k = 0 := by
    dsimp only at heq
    omega
  obtain ⟨hholder, rfl⟩ := hzero
  obtain rfl : holder = none := Option.toList_eq_nil_iff.mp (List.length_eq_zero_iff.mp hholder)
  cases waiting with
  | nil => cases hk
  | cons first waiting =>
    obtain rfl := Option.some.inj hk
    exact ⟨waiting, rfl⟩

/-- Who is given a guard is inside, and waits no more. -/
theorem Queued.enter {waiting : List κ} {data : α} (h : Queued s l n ⟨none, c :: waiting, data⟩)
    (hpc : (s.core c).pc = .spin l (s.mutex l).nextServing) :
    Queued (s.give c ⟨l, (s.mutex l).nextServing⟩) l (n + 1) ⟨some c, waiting, data⟩ := by
  have hgive : s.give c ⟨l, (s.mutex l).nextServing⟩ =
      (s.setMutex l (s.mutex l)).give c ⟨l, (s.mutex l).nextServing⟩ := by
    rw [setMutex_self]
  rw [hgive]
  -- a CPU waits at one place at most
  have honce : ∀ k, waiting[k]? ≠ some c := fun k hk ↦ by
    have hspin := (h.spins c _).mpr ⟨k + 1, hk, rfl⟩
    rw [hpc] at hspin
    have := (TicketPc.spin.inj hspin).2
    dsimp only [Option.toList_none, List.length_nil] at this
    omega
  refine queued_setCore h.data_eq ?_ (h.next_le.trans n.le_succ) ?_ ?_ ?_ ?_ nofun
    fun c' _ ↦ h.swaps c'
  · rw [h.next_eq]
    rfl
  · intro ticket
    refine (List.mem_cons.trans (or_iff_left ((h.held c ticket).not.mpr (by simp)))).trans ?_
    rw [TicketMutexGuard.mk.injEq, and_iff_right rfl, and_iff_right rfl]
  · intro c' hc' ticket
    exact iff_of_false ((h.held c' ticket).not.mpr (by simp))
      fun hin ↦ hc' (Option.some.inj hin.1).symm
  · intro ticket
    refine iff_of_false nofun ?_
    rintro ⟨k, hk, -⟩
    exact honce k hk
  · intro c' hc' ticket
    rw [h.spins]
    constructor
    · rintro ⟨k, hk, rfl⟩
      cases k with
      | zero => exact absurd (Option.some.inj hk).symm hc'
      | succ k => exact ⟨k, hk, by simp [Nat.add_assoc, Nat.add_comm]⟩
    · rintro ⟨k, hk, rfl⟩
      exact ⟨k + 1, hk, by simp [Nat.add_assoc, Nat.add_comm]⟩

/-- A ticket that is swapped in is served at once: nobody was at the lock. -/
theorem Queued.swap (h : Queued s l n q) (hn : n + 1 < 2 ^ 64)
    (hpc : (s.core c).pc = .swap l (s.mutex l).nextTicket) :
    q = ⟨none, [], q.data⟩ ∧
      Queued ((s.setMutex l { s.mutex l with nextTicket := nextWord (s.mutex l).nextTicket }).give c
        ⟨l, (s.mutex l).nextTicket⟩) l (n + 1) ⟨some c, [], q.data⟩ := by
  have hle := h.next_le
  have hword : nextWord (s.mutex l).nextTicket = (s.mutex l).nextTicket + 1 :=
    Nat.mod_eq_of_lt (by omega)
  -- the ticket was served when it was looked at, so that no other one is out
  have hempty : q.queue = [] := by
    have hserved := h.swaps c _ hpc
    have hnext := h.next_eq
    exact List.length_eq_zero_iff.mp (by omega)
  have hserving : (s.mutex l).nextTicket = (s.mutex l).nextServing := by
    rw [h.next_eq, hempty]
    rfl
  obtain ⟨hholder, hwaiting⟩ := List.append_eq_nil_iff.mp hempty
  obtain ⟨holder, waiting, data⟩ := q
  obtain rfl : waiting = [] := hwaiting
  obtain rfl : holder = none := Option.toList_eq_nil_iff.mp hholder
  refine ⟨rfl, queued_setCore h.data_eq ?_ ?_ ?_ ?_ ?_ ?_ nofun fun c' _ ↦ h.swaps c'⟩
  · dsimp only
    rw [hword, hserving]
    rfl
  · dsimp only
    rw [hword]
    omega
  · intro ticket
    refine (List.mem_cons.trans (or_iff_left ((h.held c ticket).not.mpr (by simp)))).trans ?_
    rw [TicketMutexGuard.mk.injEq, and_iff_right rfl, and_iff_right rfl, hserving]
  · intro c' hc' ticket
    exact iff_of_false ((h.held c' ticket).not.mpr (by simp))
      fun hin ↦ hc' (Option.some.inj hin.1).symm
  · exact fun ticket ↦ iff_of_false nofun (by simp)
  · exact fun c' _ ticket ↦ (h.spins c' ticket).trans (by simp)

/-- Who drops a guard was inside, and the next ticket is served. -/
theorem Queued.drop (h : Queued s l n q) (hn : n + 1 < 2 ^ 64) (hpc : (s.core c).pc = .out)
    (hnodup : (s.core c).guards.Nodup) (hg : ⟨l, ticket⟩ ∈ (s.core c).guards) :
    q.holder = some c ∧
      Queued ((s.setMutex l { s.mutex l with nextServing := nextWord ticket }).setCore c
        { s.core c with guards := (s.core c).guards.erase ⟨l, ticket⟩, pc := .leaving }) l (n + 1)
        { q with holder := none } := by
  obtain ⟨hholder, rfl⟩ := (h.held c ticket).mp hg
  obtain ⟨holder, waiting, data⟩ := q
  obtain rfl : holder = some c := hholder
  have hle := h.next_le
  have hnext : (s.mutex l).nextTicket = (s.mutex l).nextServing + (waiting.length + 1) := h.next_eq
  have hword : nextWord (s.mutex l).nextServing = (s.mutex l).nextServing + 1 :=
    Nat.mod_eq_of_lt (by omega)
  refine ⟨rfl, queued_setCore h.data_eq ?_ (hle.trans n.le_succ) ?_ ?_ ?_ ?_ nofun ?_⟩
  · dsimp only
    rw [hword, hnext, Nat.add_assoc, Nat.add_comm waiting.length]
    rfl
  · intro ticket
    refine iff_of_false (fun hmem ↦ ?_) (by simp)
    rw [hnodup.mem_erase_iff] at hmem
    exact hmem.1 (congrArg _ ((h.held c ticket).mp hmem.2).2)
  · intro c' hc' ticket
    refine iff_of_false ((h.held c' ticket).not.mpr ?_) (by simp)
    exact fun hin ↦ hc' (Option.some.inj hin.1).symm
  · intro ticket
    refine iff_of_false nofun ?_
    rintro ⟨k, hk, -⟩
    have hspin := (h.spins c _).mpr ⟨k, hk, rfl⟩
    rw [hpc] at hspin
    cases hspin
  · intro c' _ ticket
    rw [h.spins]
    dsimp only
    rw [hword]
    rfl
  · intro c' _ ticket hswap
    have hserved := h.swaps c' ticket hswap
    dsimp only
    omega

omit [DecidableEq κ] in
/-- What a change of the data does -/
theorem Queued.change (h : Queued s l n q) (f : α → α) :
    Queued (s.setMutex l { s.mutex l with data := f (s.mutex l).data }) l (n + 1)
      { q with data := f q.data } := by
  have hm : (s.setMutex l { s.mutex l with data := f (s.mutex l).data }).mutex l =
      { s.mutex l with data := f (s.mutex l).data } := Function.update_self ..
  refine ⟨?_, ?_, ?_, ?_, ?_, ?_⟩ <;> rw [hm]
  · exact congrArg f h.data_eq
  · exact h.next_eq
  · exact h.next_le.trans n.le_succ
  · exact h.held
  · exact h.spins
  · exact h.swaps

/-! ## Runs -/

/-- An access of a CPU that is in a function on a lock, at which something happens. -/
theorem Sim.at_lock (h : Sim s n Q) {e : TicketEvent κ ι α}
    (hstep : s.step e = some ((s.setMutex l m).setCore c core))
    (hok : core.Ok) (hpc : (s.core c).pc.lock = some l)
    (hpc' : core.pc.lock = some l ∨ core.pc.lock = none)
    (hguards : ∀ l' ≠ l, ∀ ticket, ⟨l', ticket⟩ ∈ core.guards ↔ ⟨l', ticket⟩ ∈ (s.core c).guards)
    (hnone : ∀ l' ≠ l, happens l' s e = []) (hrun : (Q l).Run (happens l s e) q)
    (hq : Queued ((s.setMutex l m).setCore c core) l (n + 1) q) : Follows s n Q e := by
  refine h.at hstep hok (fun l' hl' ↦ .of_lock (hguards l' hl') ?_ ?_) hnone hrun hq
  · rw [hpc]
    exact fun heq ↦ hl' (Option.some.inj heq).symm
  · rcases hpc' with hpc' | hpc' <;> rw [hpc']
    · exact fun heq ↦ hl' (Option.some.inj heq).symm
    · exact nofun

/-- Who draws a ticket arrives. -/
theorem Sim.draw (h : Sim s n Q) (hn : n + 1 < 2 ^ 64) (hpc : (s.core c).pc = .draw l)
    (weak : Bool) :
    Follows s n Q (.access c weak) := by
  have hok := h.ok c
  refine h.at_lock (q := (Q l).join c) ?_
    (hok.goto (.spin l (s.mutex l).nextTicket) (by rw [hpc]; rfl)) (by rw [hpc]; rfl)
    (.inl rfl) (fun _ _ _ ↦ Iff.rfl) ?_ ?_ ((h.queued l).draw hn hpc)
  · rw [step, access, hpc]
    rfl
  · intro l' hl'
    rw [happens, hpc]
    exact if_neg hl'.symm
  · rw [happens, hpc]
    dsimp only
    rw [if_pos rfl]
    exact .single (.arrive _ _)

/-- Who finds the ticket served enters. -/
theorem Sim.spin (h : Sim s n Q) (hpc : (s.core c).pc = .spin l ticket) (weak : Bool) :
    Follows s n Q (.access c weak) := by
  have hok := h.ok c
  by_cases hserved : (s.mutex l).nextServing = ticket
  · subst hserved
    obtain ⟨waiting, hq⟩ := (h.queued l).first hpc
    have hqueued := hq ▸ h.queued l
    have hfree : ⟨l, (s.mutex l).nextServing⟩ ∉ (s.core c).guards :=
      (hqueued.held c _).not.mpr (by simp)
    refine h.at_lock (m := s.mutex l) ?_ (hok.give (by rw [hpc]; rfl) hfree) (by rw [hpc]; rfl)
      (.inr rfl) ?_ ?_ ?_ (by rw [setMutex_self]; exact hqueued.enter hpc)
    · rw [step, access, hpc, setMutex_self]
      dsimp only
      rw [if_pos rfl]
      rfl
    · exact fun l' hl' ticket ↦ mem_cons_guard hl'
    · intro l' hl'
      rw [happens, hpc]
      exact if_neg fun hat ↦ hl' hat.1.symm
    · rw [happens, hpc]
      dsimp only
      rw [if_pos ⟨rfl, rfl⟩, hq]
      exact .single (.enter _ _ _)
  · refine h.stay ?_ fun l' ↦ ?_
    · rw [step, access, hpc]
      dsimp only
      rw [if_neg hserved]
    · rw [happens, hpc]
      refine if_neg ?_
      rintro ⟨rfl, hat⟩
      exact hserved hat

theorem Sim.load (h : Sim s n Q) (hpc : (s.core c).pc = .load l) (weak : Bool) :
    Follows s n Q (.access c weak) := by
  have hok := h.ok c
  refine h.still ?_ (hok.goto (.check l (s.mutex l).nextTicket) (by rw [hpc]; rfl))
    (fun l' ↦ ⟨fun _ ↦ Iff.rfl, fun _ ↦ ?_, nofun⟩) fun l' ↦ ?_
  · rw [step, access, hpc]
    rfl
  · rw [hpc]
    exact iff_of_false nofun nofun
  · rw [happens, hpc]

theorem Sim.check (h : Sim s n Q) (hpc : (s.core c).pc = .check l ticket) (weak : Bool) :
    Follows s n Q (.access c weak) := by
  have hok := h.ok c
  have hnone : ∀ l', happens l' s (.access c weak) = [] := fun l' ↦ by rw [happens, hpc]
  by_cases hserved : (s.mutex l).nextServing = ticket
  · subst hserved
    refine h.at_lock (m := s.mutex l) ?_
      (hok.goto (.swap l (s.mutex l).nextServing) (by rw [hpc]; rfl)) (by rw [hpc]; rfl)
      (.inl rfl) (fun _ _ _ ↦ Iff.rfl) (fun l' _ ↦ hnone l') ?_ ((h.queued l).look hpc)
    · rw [step, access, hpc, setMutex_self]
      dsimp only
      rw [if_pos rfl]
      rfl
    · rw [hnone]
      exact .nil
  · refine h.still ?_ (hok.goto .leaving (by rw [hpc]; rfl))
      (fun l' ↦ ⟨fun _ ↦ Iff.rfl, fun _ ↦ ?_, nofun⟩) hnone
    · rw [step, access, hpc]
      dsimp only
      rw [if_neg hserved]
      rfl
    · rw [hpc]
      exact iff_of_false nofun nofun

/-- Who swaps the next ticket in arrives and enters. -/
theorem Sim.swap (h : Sim s n Q) (hn : n + 1 < 2 ^ 64) (hpc : (s.core c).pc = .swap l ticket)
    (weak : Bool) :
    Follows s n Q (.access c weak) := by
  have hok := h.ok c
  by_cases hswap : (s.mutex l).nextTicket = ticket ∧ weak = false
  · obtain ⟨rfl, rfl⟩ := hswap
    obtain ⟨hq, hqueued⟩ := (h.queued l).swap hn hpc
    have hfree : ⟨l, (s.mutex l).nextTicket⟩ ∉ (s.core c).guards :=
      ((h.queued l).held c _).not.mpr (by rw [hq]; simp)
    refine h.at_lock ?_ (hok.give (by rw [hpc]; rfl) hfree) (by rw [hpc]; rfl) (.inr rfl) ?_ ?_ ?_
      hqueued
    · rw [step, access, hpc]
      dsimp only
      rw [if_pos ⟨rfl, rfl⟩]
      rfl
    · exact fun l' hl' ticket ↦ mem_cons_guard hl'
    · intro l' hl'
      rw [happens, hpc]
      exact if_neg fun hat ↦ hl' hat.1.symm
    · rw [happens, hpc]
      dsimp only
      rw [if_pos ⟨rfl, rfl, rfl⟩, hq]
      exact FifoLock.Run.append (.single (.arrive _ c)) (.single (.enter _ _ _))
  · refine h.still ?_ (hok.goto (.check l (s.mutex l).nextTicket) (by rw [hpc]; rfl))
      (fun l' ↦ ⟨fun _ ↦ Iff.rfl, fun _ ↦ ?_, nofun⟩) fun l' ↦ ?_
    · rw [step, access, hpc]
      dsimp only
      rw [if_neg hswap]
      rfl
    · rw [hpc]
      exact iff_of_false nofun nofun
    · rw [happens, hpc]
      refine if_neg ?_
      rintro ⟨rfl, hat⟩
      exact hswap hat

theorem Sim.leaving (h : Sim s n Q) (hpc : (s.core c).pc = .leaving) (weak : Bool) :
    Follows s n Q (.access c weak) := by
  have hok := h.ok c
  obtain ⟨hart, hpop, -, hok'⟩ := hok.exists_popOff hpc
  refine h.still ?_ hok' (fun l' ↦ ⟨fun _ ↦ Iff.rfl, fun _ ↦ ?_, nofun⟩) fun l' ↦ ?_
  · rw [step, access, hpc]
    dsimp only
    rw [hpop]
    rfl
  · rw [hpc]
    exact iff_of_false nofun nofun
  · rw [happens, hpc]

/-- Every access goes on as it should. -/
theorem Sim.access (h : Sim s n Q) (hn : n + 1 < 2 ^ 64) (c : κ) (weak : Bool) :
    Follows s n Q (.access c weak) := by
  cases hpc : (s.core c).pc with
  | out =>
    refine h.stay ?_ fun l ↦ ?_
    · rw [step, TicketSys.access, hpc]
    · rw [happens, hpc]
  | draw l => exact h.draw hn hpc weak
  | spin l ticket => exact h.spin hpc weak
  | load l => exact h.load hpc weak
  | check l ticket => exact h.check hpc weak
  | swap l ticket => exact h.swap hn hpc weak
  | leaving => exact h.leaving hpc weak

/-- A function begins. -/
theorem Sim.begin (h : Sim s n Q) (pc : TicketPc ι) (hdepth : pc.depth = 1)
    (hspin : ∀ l ticket, pc ≠ .spin l ticket) (hswap : ∀ l ticket, pc ≠ .swap l ticket)
    (hstep : s.step e = some (if (s.core c).pc = .out then
      s.setCore c { s.core c with hart := (s.core c).hart.pushOff, pc } else s))
    (hnone : ∀ l, happens l s e = []) : Follows s n Q e := by
  by_cases hpc : (s.core c).pc = .out
  · rw [if_pos hpc] at hstep
    refine h.still hstep ((h.ok c).pushOff hpc hdepth) (fun l' ↦ ⟨fun _ ↦ Iff.rfl, fun _ ↦ ?_, ?_⟩)
      hnone
    · rw [hpc]
      exact iff_of_false (hspin l' _) nofun
    · exact fun ticket hat ↦ absurd hat (hswap l' ticket)
  · rw [if_neg hpc] at hstep
    exact h.stay hstep hnone

theorem Sim.update (h : Sim s n Q) (c : κ) (g : TicketMutexGuard ι) (f : α → α) :
    Follows s n Q (.update c g f) := by
  by_cases hg : (s.core c).pc = .out ∧ g ∈ (s.core c).guards
  · have hholder := (((h.queued g.lock).held c g.ticket).mp hg.2).1
    have hself : (s.setMutex g.lock
        { s.mutex g.lock with data := f (s.mutex g.lock).data }).setCore c (s.core c) =
        s.setMutex g.lock { s.mutex g.lock with data := f (s.mutex g.lock).data } := by
      rw [setCore]
      exact congrArg (TicketSys.mk _) (Function.update_eq_self c s.core)
    refine h.at (l := g.lock) ?_ (h.ok c) (fun l' _ ↦ .refl l' _) ?_ ?_
      (hself ▸ (h.queued g.lock).change f)
    · rw [step, if_pos hg, hself]
    · intro l' hl'
      exact if_neg fun hat ↦ hl' hat.2.2.symm
    · rw [happens, if_pos ⟨hg.1, hg.2, rfl⟩]
      exact .single (.change hholder f)
  · refine h.stay ?_ fun l ↦ ?_
    · rw [step, if_neg hg]
    · exact if_neg fun hat ↦ hg ⟨hat.1, hat.2.1⟩

theorem Sim.drop (h : Sim s n Q) (hn : n + 1 < 2 ^ 64) (c : κ) (g : TicketMutexGuard ι) :
    Follows s n Q (.drop c g) := by
  by_cases hg : (s.core c).pc = .out ∧ g ∈ (s.core c).guards
  · obtain ⟨hholder, hqueued⟩ := (h.queued g.lock).drop hn hg.1 (h.ok c).nodup hg.2
    refine h.at (l := g.lock) ?_ ((h.ok c).drop hg.1 hg.2) ?_ ?_ ?_ hqueued
    · rw [step, if_pos hg]
    · intro l' hl'
      refine .of_lock (fun ticket ↦ List.mem_erase_of_ne fun heq ↦ hl' ?_) ?_ nofun
      · exact congrArg TicketMutexGuard.lock heq
      · rw [hg.1]
        exact nofun
    · intro l' hl'
      exact if_neg fun hat ↦ hl' hat.2.2.symm
    · rw [happens, if_pos ⟨hg.1, hg.2, rfl⟩]
      exact .single (.exit hholder)
  · refine h.stay ?_ fun l ↦ ?_
    · rw [step, if_neg hg]
    · exact if_neg fun hat ↦ hg ⟨hat.1, hat.2.1⟩

theorem Sim.setSie (h : Sim s n Q) (c : κ) (sie : Bool) : Follows s n Q (.setSie c sie) := by
  by_cases hc : (s.core c).pc = .out ∧ (s.core c).guards = []
  · have hnested := (h.ok c).nested
    rw [hc.1, hc.2] at hnested
    have hok : { s.core c with hart := { (s.core c).hart with sie } }.Ok := by
      refine ⟨?_, (h.ok c).nodup⟩
      dsimp only
      rw [hc.1, hc.2]
      exact ⟨hnested.noff_eq, fun hpos ↦ absurd hpos (lt_irrefl 0)⟩
    refine h.still ?_ hok (fun l' ↦ ⟨fun _ ↦ Iff.rfl, fun _ ↦ Iff.rfl, fun _ ↦ id⟩) fun _ ↦ rfl
    rw [step, if_pos hc]
  · refine h.stay ?_ fun _ ↦ rfl
    rw [step, if_neg hc]

/-- **Each event is an event of the locks**, and none panics. -/
theorem Sim.follows (h : Sim s n Q) (hn : n + 1 < 2 ^ 64) (e : TicketEvent κ ι α) :
    Follows s n Q e := by
  cases e with
  | lock c l => exact h.begin (.draw l) rfl (fun _ _ ↦ nofun) (fun _ _ ↦ nofun) rfl fun _ ↦ rfl
  | tryLock c l => exact h.begin (.load l) rfl (fun _ _ ↦ nofun) (fun _ _ ↦ nofun) rfl fun _ ↦ rfl
  | update c g f => exact h.update c g f
  | drop c g => exact h.drop hn c g
  | setSie c sie => exact h.setSie c sie
  | access c weak => exact h.access hn c weak

omit [DecidableEq κ] [DecidableEq ι] in
theorem sim_new (data : ι → α) (sie : κ → Bool) :
    Sim (new data sie) 0 fun l ↦ FifoLock.new (data l) := by
  refine ⟨fun c ↦ ⟨Hart.nested_fresh _, List.nodup_nil⟩, fun l ↦ ⟨rfl, rfl, le_rfl, ?_, ?_, nofun⟩⟩
  · exact fun c ticket ↦ iff_of_false List.not_mem_nil nofun
  · refine fun c ticket ↦ iff_of_false nofun ?_
    rintro ⟨k, hk, -⟩
    cases hk

/-- A run does not panic, and its locks run as they should. -/
theorem Sim.run (h : Sim s n Q) (events : List (TicketEvent κ ι α))
    (hlen : n + events.length < 2 ^ 64) :
    ∃ s' Q', s.run events = some s' ∧ Sim s' (n + events.length) Q' ∧
      ∀ l, (Q l).Run (trace l s events) (Q' l) := by
  induction events generalizing s n Q with
  | nil => exact ⟨s, Q, rfl, h, fun _ ↦ .nil⟩
  | cons e events ih =>
    rw [List.length_cons] at hlen
    obtain ⟨s₁, Q₁, hstep, hsim, hevent⟩ := h.follows (by omega) e
    obtain ⟨s', Q', hrun, hsim', hruns⟩ := ih hsim (by omega)
    refine ⟨s', Q', ?_, ?_, fun l ↦ ?_⟩
    · rw [TicketSys.run, List.foldlM_cons, hstep]
      exact hrun
    · rw [List.length_cons, ← Nat.add_assoc, Nat.add_right_comm]
      exact hsim'
    · rw [trace, hstep]
      exact (hevent l).append (hruns l)

/-- **The ticket lock is a lock that is taken in the order of arrival**: in a run of fewer than 2^64
events, whatever their order, no CPU panics, and at each lock what happens is a run of it. -/
theorem exists_run (data : ι → α) (sie : κ → Bool) (hlen : events.length < 2 ^ 64) :
    ∃ s, (new data sie).run events = some s ∧ ∀ l, ∃ q,
      (FifoLock.new (data l)).Run (trace l (new data sie) events) q ∧
        Queued s l events.length q := by
  obtain ⟨s, Q, hrun, hsim, hruns⟩ :=
    (sim_new data sie).run events ((Nat.zero_add _).symm ▸ hlen)
  rw [Nat.zero_add] at hsim
  exact ⟨s, hrun, fun l ↦ ⟨Q l, hruns l, hsim.queued l⟩⟩

end

end TicketSys

end Maturin.KernelSync
