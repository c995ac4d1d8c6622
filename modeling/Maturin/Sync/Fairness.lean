import Maturin.Sync.Ticket

/-!
# What the ticket lock gives

The lock is given in the order of the tickets, to one CPU at a time, and to the next one as soon as
it is free. `try_lock` fails only when somebody else was at the lock in the meantime. The interrupts
of a CPU are off while it has a guard or waits for one, and come back as they were.
-/

open FifoLock

namespace Maturin.KernelSync.TicketSys

variable {κ ι α : Type} [DecidableEq κ] [DecidableEq ι] {s s' : TicketSys κ ι α} {c c' : κ}
  {l : ι} {n : ℕ} {q : FifoLock κ α} {Q : ι → FifoLock κ α} {g g' : TicketMutexGuard ι}
  {ticket ticket' : ℕ} {e : TicketEvent κ ι α} {events : List (TicketEvent κ ι α)} {data : ι → α}
  {sie : κ → Bool}

/-- One CPU takes a lock and changes what it protects, while the other one draws a ticket. -/
def contention : List (TicketEvent Bool Unit ℕ) :=
  [.lock false (), .access false false, .access false false, .lock true (), .access true false,
    .update false ⟨(), 0⟩ (· + 5), .drop false ⟨(), 0⟩, .access true false, .access false false]

/-! ## Order -/

omit [DecidableEq κ] [DecidableEq ι] in
theorem Queued.mem_waiting (h : Queued s l n q) :
    c ∈ q.waiting ↔ ∃ ticket, (s.core c).pc = .spin l ticket := by
  rw [List.mem_iff_getElem?]
  constructor
  · rintro ⟨k, hk⟩
    exact ⟨_, (h.spins c _).mpr ⟨k, hk, rfl⟩⟩
  · rintro ⟨ticket, hpc⟩
    obtain ⟨k, hk, -⟩ := (h.spins c ticket).mp hpc
    exact ⟨k, hk⟩

omit [DecidableEq κ] [DecidableEq ι] in
theorem Queued.holder_iff (h : Queued s l n q) :
    q.holder = some c ↔ ∃ g ∈ (s.core c).guards, g.lock = l := by
  constructor
  · exact fun hin ↦ ⟨⟨l, _⟩, (h.held c _).mpr ⟨hin, rfl⟩, rfl⟩
  · rintro ⟨⟨l, ticket⟩, hg, rfl⟩
    exact ((h.held c ticket).mp hg).1

omit [DecidableEq κ] [DecidableEq ι] in
theorem Queued.guard_unique (h : Queued s l n q) (hg : g ∈ (s.core c).guards)
    (hg' : g' ∈ (s.core c').guards) (hl : g.lock = l) (hl' : g'.lock = l) : c = c' ∧ g = g' := by
  obtain ⟨l₁, ticket⟩ := g
  obtain ⟨l₂, ticket'⟩ := g'
  obtain rfl : l₁ = l := hl
  obtain rfl : l₂ = l₁ := hl'
  obtain ⟨hin, hserved⟩ := (h.held c ticket).mp hg
  obtain ⟨hin', hserved'⟩ := (h.held c' ticket').mp hg'
  exact ⟨Option.some.inj (hin.symm.trans hin'), by rw [hserved, hserved']⟩

/-- What an event may do to the interrupts of its CPU. -/
inductive HartStep (e : TicketEvent κ ι α) (core : TicketCore ι) : Hart → Prop
  | same : HartStep e core core.hart
  | pushOff (hpc : core.pc = .out) : HartStep e core core.hart.pushOff
  | popOff {hart : Hart} (hpc : core.pc = .leaving) (h : core.hart.popOff = some hart) :
    HartStep e core hart
  | setSie (c : κ) (sie : Bool) (he : e = .setSie c sie) :
    HartStep e core { core.hart with sie }

/-- An event changes its CPU only. -/
theorem step_core (h : s.step e = some s') :
    ∃ core, s'.core = Function.update s.core e.cpu core ∧
      HartStep e (s.core e.cpu) core.hart := by
  have hsame : ∃ core, s.core = Function.update s.core e.cpu core ∧
      HartStep e (s.core e.cpu) core.hart :=
    ⟨_, (Function.update_eq_self ..).symm, .same⟩
  cases e with
  | lock c l | tryLock c l =>
    obtain rfl := Option.some.inj h
    split_ifs with hpc
    · exact ⟨_, rfl, .pushOff hpc⟩
    · exact hsame
  | update c g f =>
    obtain rfl := Option.some.inj h
    split_ifs <;> exact hsame
  | drop c g =>
    obtain rfl := Option.some.inj h
    split_ifs
    · exact ⟨_, rfl, .same⟩
    · exact hsame
  | setSie c sie =>
    obtain rfl := Option.some.inj h
    split_ifs
    · exact ⟨_, rfl, .setSie c sie rfl⟩
    · exact hsame
  | access c weak =>
    rw [step, access] at h
    cases hpc : (s.core c).pc <;> rw [hpc] at h
    case out =>
      rw [← Option.some.inj h]
      exact hsame
    case draw | load | check =>
      rw [← Option.some.inj h]
      exact ⟨_, rfl, .same⟩
    case spin | swap =>
      obtain rfl := Option.some.inj h
      split_ifs
      · exact ⟨_, rfl, .same⟩
      · first | exact hsame | exact ⟨_, rfl, .same⟩
    case leaving =>
      obtain ⟨hart, hpop, rfl⟩ := Option.map_eq_some_iff.mp h
      exact ⟨_, rfl, .popOff hpc hpop⟩

/-- An event leaves the other CPUs alone. -/
theorem step_core_of_ne (h : s.step e = some s') (hc : c ≠ e.cpu) : s'.core c = s.core c := by
  obtain ⟨core, hcore, -⟩ := step_core h
  rw [hcore, Function.update_of_ne hc]

/-- A CPU that is in a function goes on with its next access only. -/
theorem step_of_ne_out (hpc : (s.core e.cpu).pc ≠ .out) (he : ∀ weak, e ≠ .access e.cpu weak) :
    s.step e = some s := by
  cases e with
  | access c weak => exact absurd rfl (he weak)
  | lock | tryLock => exact congrArg some (if_neg hpc)
  | update | drop | setSie => exact congrArg some (if_neg fun hc ↦ hpc hc.1)

/-! ## A lock that is locked twice -/

omit [DecidableEq κ] [DecidableEq ι] in
/-- A CPU that spins on a lock of which there is a guard finds its ticket not served. -/
theorem Queued.not_served (h : Queued s l n q) (hg : ⟨l, ticket'⟩ ∈ (s.core c').guards)
    (hpc : (s.core c).pc = .spin l ticket) : (s.mutex l).nextServing ≠ ticket := by
  obtain ⟨k, -, rfl⟩ := (h.spins c ticket).mp hpc
  rw [((h.held c' ticket').mp hg).1, Option.toList_some, List.length_singleton]
  omega

theorem Sim.stuck_step (h : Sim s n Q) (hg : g ∈ (s.core c).guards)
    (hpc : (s.core c).pc = .spin g.lock ticket) (hstep : s.step e = some s') :
    s'.core c = s.core c := by
  by_cases hc : c = e.cpu
  · have hsame : s.step e = some s := by
      by_cases he : ∃ weak, e = .access c weak
      · obtain ⟨weak, rfl⟩ := he
        rw [step, TicketSys.access, hpc]
        exact congrArg some (if_neg ((h.queued g.lock).not_served hg hpc))
      · subst hc
        refine step_of_ne_out (by rw [hpc]; exact fun h ↦ by cases h) fun weak hw ↦ he ⟨weak, hw⟩
    rw [Option.some.inj (hstep.symm.trans hsame)]
  · exact step_core_of_ne hstep hc

/-- **A CPU that locks a lock of which it has a guard spins for good**, whatever the others do. -/
theorem Sim.stuck (h : Sim s n Q) (events : List (TicketEvent κ ι α))
    (hg : g ∈ (s.core c).guards) (hpc : (s.core c).pc = .spin g.lock ticket)
    (hlen : n + events.length < 2 ^ 64) :
    ∃ s', s.run events = some s' ∧ s'.core c = s.core c := by
  induction events generalizing s n Q with
  | nil => exact ⟨s, rfl, rfl⟩
  | cons e events ih =>
    rw [List.length_cons] at hlen
    obtain ⟨s₁, Q₁, hstep, hsim, -⟩ := h.follows (by omega) e
    have hcore := h.stuck_step hg hpc hstep
    obtain ⟨s', hrun, hrest⟩ := ih hsim (hcore ▸ hg) (hcore ▸ hpc) (by omega)
    refine ⟨s', ?_, hrest.trans hcore⟩
    rw [TicketSys.run, List.foldlM_cons, hstep]
    exact hrun

/-- Is every ticket that was drawn served and done with? -/
def Free (s : TicketSys κ ι α) (l : ι) : Prop := (s.mutex l).nextServing = (s.mutex l).nextTicket

omit [DecidableEq κ] [DecidableEq ι] in
theorem Queued.lock_ne_of_free (h : Queued s l n q) (hfree : s.Free l) :
    ∀ c, ∀ g ∈ (s.core c).guards, g.lock ≠ l := by
  intro c g hg hl
  have hnext := h.next_eq
  rw [FifoLock.length_queue, h.holder_iff.mpr ⟨g, hg, hl⟩, Option.toList_some,
    List.length_singleton] at hnext
  rw [Free] at hfree
  omega

theorem access_serving {weak : Bool} (h : s.access c weak = some s') :
    (s'.mutex l).nextServing = (s.mutex l).nextServing := by
  have hset : ∀ l' ticket,
      ((s.setMutex l' { s.mutex l' with nextTicket := ticket }).mutex l).nextServing =
        (s.mutex l).nextServing := fun l' ticket ↦ by
    rw [setMutex]
    dsimp only
    by_cases hl : l = l'
    · rw [hl, Function.update_self]
    · rw [Function.update_of_ne hl]
  rw [access] at h
  cases hpc : (s.core c).pc <;> rw [hpc] at h
  case out => rw [← Option.some.inj h]
  case draw =>
    rw [← Option.some.inj h]
    exact hset _ _
  case load | check =>
    rw [← Option.some.inj h]
    rfl
  case spin =>
    obtain rfl := Option.some.inj h
    split_ifs <;> rfl
  case swap =>
    obtain rfl := Option.some.inj h
    split_ifs
    · exact hset _ _
    · rfl
  case leaving =>
    obtain ⟨hart, -, rfl⟩ := Option.map_eq_some_iff.mp h
    rfl

/-- Only who drops a guard has the next ticket served. -/
theorem step_serving (h : s.step e = some s') (hno : ∀ c, ∀ g ∈ (s.core c).guards, g.lock ≠ l) :
    (s'.mutex l).nextServing = (s.mutex l).nextServing := by
  cases e with
  | access c weak => exact access_serving h
  | lock c l' | tryLock c l' | setSie c sie =>
    obtain rfl := Option.some.inj h
    split_ifs <;> rfl
  | update c g f | drop c g =>
    obtain rfl := Option.some.inj h
    split_ifs with hg
    · exact congrArg TicketMutex.nextServing (Function.update_of_ne (hno c g hg.2).symm ..)
    · rfl

/-- The first event of a run and the others -/
theorem Sim.run_cons (h : Sim s n Q) (hlen : n + (e :: events).length < 2 ^ 64)
    (hrun : s.run (e :: events) = some s') :
    ∃ s₁ Q₁, s.step e = some s₁ ∧ Sim s₁ (n + 1) Q₁ ∧ n + 1 + events.length < 2 ^ 64 ∧
      s₁.run events = some s' := by
  rw [List.length_cons] at hlen
  obtain ⟨s₁, Q₁, hstep, hsim, -⟩ := h.follows (by omega) e
  rw [TicketSys.run, List.foldlM_cons, hstep] at hrun
  exact ⟨s₁, Q₁, hstep, hsim, by omega, hrun⟩

/-- While a lock is free at every moment, the same ticket is served. -/
theorem Sim.serving_of_free (h : Sim s n Q) (hlen : n + events.length < 2 ^ 64)
    (hfree : ∀ front s₁, front <+: events → s.run front = some s₁ → s₁.Free l)
    (hrun : s.run events = some s') : (s'.mutex l).nextServing = (s.mutex l).nextServing := by
  induction events generalizing s n Q with
  | nil => rw [Option.some.inj hrun]
  | cons e events ih =>
    obtain ⟨s₁, Q₁, hstep, hsim, hlen₁, hrun₁⟩ := h.run_cons hlen hrun
    have hnow : s.Free l := hfree [] s List.nil_prefix rfl
    have hrest := ih hsim hlen₁ (fun front s₂ hfront hrun₂ ↦ ?_) hrun₁
    · rw [hrest, step_serving hstep ((h.queued l).lock_ne_of_free hnow)]
    · refine hfree (e :: front) s₂ (List.cons_prefix_cons.mpr ⟨rfl, hfront⟩) ?_
      rw [TicketSys.run, List.foldlM_cons, hstep]
      exact hrun₂

/-- Only `setSie` changes whether interrupts are on outside of all pairs. -/
theorem Sim.outside_step (h : Sim s n Q) (hstep : s.step e = some s')
    (hsie : ∀ sie, e ≠ .setSie c sie) :
    (s'.core c).hart.outside = (s.core c).hart.outside := by
  by_cases hc : c = e.cpu
  · obtain ⟨core, hcore, hhart⟩ := step_core hstep
    rw [hcore, ← hc, Function.update_self]
    rw [← hc] at hhart
    have hok := h.ok c
    generalize core.hart = hart at hhart ⊢
    cases hhart with
    | same => rfl
    | pushOff hpc => exact Hart.outside_pushOff hok.nested
    | popOff hpc hpop =>
      obtain ⟨hart', hpop', houtside, -⟩ := hok.exists_popOff hpc
      rwa [Option.some.inj (hpop.symm.trans hpop')]
    | setSie c' sie he =>
      subst he
      exact absurd (congrArg (TicketEvent.setSie · sie) hc.symm) (hsie sie)
  · rw [step_core_of_ne hstep hc]

theorem Sim.outside_run (h : Sim s n Q) (hlen : n + events.length < 2 ^ 64)
    (hsie : ∀ sie, TicketEvent.setSie c sie ∉ events) (hrun : s.run events = some s') :
    (s'.core c).hart.outside = (s.core c).hart.outside := by
  induction events generalizing s n Q with
  | nil => rw [Option.some.inj hrun]
  | cons e events ih =>
    obtain ⟨s₁, Q₁, hstep, hsim, hlen₁, hrun₁⟩ := h.run_cons hlen hrun
    rw [ih hsim hlen₁ (fun sie hmem ↦ hsie sie (List.mem_cons_of_mem e hmem)) hrun₁,
      h.outside_step hstep fun sie he ↦ hsie sie (he ▸ List.mem_cons_self)]

end Maturin.KernelSync.TicketSys
