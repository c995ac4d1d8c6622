import Mathlib.Data.List.Infix
import Mathlib.Tactic.Common

/-!
# Locks that are taken in the order of arrival

Whoever wants the lock waits in a queue. The first of the queue enters when nobody is inside, may
change what the lock protects, and leaves. Nobody overtakes, and what the lock protects is what it
would be if every visit were made in one go, one after the other in the order of arrival.
-/

variable {κ α : Type*}

/-- What happens at a lock. -/
inductive LockEvent (κ α : Type*)
  | arrive (c : κ)
  | enter (c : κ)
  | update (c : κ) (f : α → α)
  | leave (c : κ)

/-- Who is inside, who waits in the order of arrival, and what the lock protects. -/
structure FifoLock (κ α : Type*) where
  holder : Option κ
  waiting : List κ
  data : α

namespace FifoLock

/-- The lock as it is made. -/
def new (data : α) : FifoLock κ α := ⟨none, [], data⟩

/-- Everybody at the lock, in the order of arrival. -/
def queue (q : FifoLock κ α) : List κ := q.holder.toList ++ q.waiting

/-- The lock after one more has come. -/
def join (q : FifoLock κ α) (c : κ) : FifoLock κ α := { q with waiting := q.waiting ++ [c] }

theorem length_queue (q : FifoLock κ α) :
    q.queue.length = q.holder.toList.length + q.waiting.length := List.length_append

theorem length_queue_join (q : FifoLock κ α) (c : κ) :
    (q.join c).queue.length = q.queue.length + 1 := by
  rw [length_queue, length_queue, Nat.add_assoc]
  exact congrArg (_ + ·) List.length_append

/-- Somebody waits at a place after one more has come. -/
theorem getElem?_concat_eq_some {l : List κ} {c c' : κ} {k : ℕ} :
    (l ++ [c])[k]? = some c' ↔ l[k]? = some c' ∨ k = l.length ∧ c = c' := by
  rcases lt_trichotomy k l.length with hk | rfl | hk
  · rw [List.getElem?_append_left hk]
    exact (or_iff_left fun h ↦ hk.ne h.1).symm
  · rw [List.getElem?_concat_length, List.getElem?_eq_none (le_refl _), Option.some.injEq]
    simp
  · rw [List.getElem?_eq_none (by rw [List.length_append]; exact hk),
      List.getElem?_eq_none hk.le]
    simp [hk.ne']

/-- What an event does to a lock, where it may happen. -/
inductive Step : FifoLock κ α → LockEvent κ α → FifoLock κ α → Prop
  | arrive (q : FifoLock κ α) (c : κ) : Step q (.arrive c) (q.join c)
  | enter (waiting : List κ) (data : α) (c : κ) :
    Step ⟨none, c :: waiting, data⟩ (.enter c) ⟨some c, waiting, data⟩
  | update (waiting : List κ) (data : α) (c : κ) (f : α → α) :
    Step ⟨some c, waiting, data⟩ (.update c f) ⟨some c, waiting, f data⟩
  | leave (waiting : List κ) (data : α) (c : κ) :
    Step ⟨some c, waiting, data⟩ (.leave c) ⟨none, waiting, data⟩

/-- A run: the lock after the events. -/
inductive Run (q : FifoLock κ α) : List (LockEvent κ α) → FifoLock κ α → Prop
  | nil : Run q [] q
  | snoc {q' q'' : FifoLock κ α} {e : LockEvent κ α} {events : List (LockEvent κ α)}
    (hrun : Run q events q') (h : Step q' e q'') : Run q (events ++ [e]) q''

/-- Those who arrive, in their order. -/
def arrivals (events : List (LockEvent κ α)) : List κ :=
  events.filterMap fun
    | .arrive c => some c
    | _ => none

/-- Those who enter, in their order. -/
def admissions (events : List (LockEvent κ α)) : List κ :=
  events.filterMap fun
    | .enter c => some c
    | _ => none

variable {q q' q'' : FifoLock κ α} {events events' : List (LockEvent κ α)} {e : LockEvent κ α}
  {c c' : κ} {f : α → α}

theorem Step.change (h : q.holder = some c) (f : α → α) :
    Step q (.update c f) { q with data := f q.data } := by
  obtain ⟨holder, waiting, data⟩ := q
  subst h
  exact .update waiting data c f

theorem Step.exit (h : q.holder = some c) : Step q (.leave c) { q with holder := none } := by
  obtain ⟨holder, waiting, data⟩ := q
  subst h
  exact .leave waiting data c

theorem Run.single (h : Step q e q') : Run q [e] q' := .snoc .nil h

theorem Run.append (h : Run q events q') (h' : Run q' events' q'') :
    Run q (events ++ events') q'' := by
  induction h' with
  | nil => rwa [List.append_nil]
  | snoc _ hstep ih =>
    rw [← List.append_assoc]
    exact .snoc ih hstep

theorem arrivals_append (events events' : List (LockEvent κ α)) :
    arrivals (events ++ events') = arrivals events ++ arrivals events' := List.filterMap_append

theorem entries_append (events events' : List (LockEvent κ α)) :
    admissions (events ++ events') = admissions events ++ admissions events' :=
  List.filterMap_append

/-! ## The order of entry -/

theorem Step.waiting_eq (h : Step q e q') :
    q.waiting ++ arrivals [e] = admissions [e] ++ q'.waiting := by
  cases h <;> first | rfl | exact List.append_nil _

/-- **Nobody overtakes**: those who were waiting and those who arrived, in their order, are those
who entered and those who are waiting still. -/
theorem Run.fifo (h : Run q events q') :
    q.waiting ++ arrivals events = admissions events ++ q'.waiting := by
  induction h with
  | nil => exact List.append_nil _
  | @snoc q' q'' e events _ hstep ih =>
    rw [arrivals_append, entries_append, ← List.append_assoc, ih, List.append_assoc,
      hstep.waiting_eq, List.append_assoc]

/-! ## Visits -/

/-- A visit: who makes it, and the changes. -/
abbrev Visit (κ α : Type*) : Type _ := κ × List (α → α)

/-- The changes, one after the other. -/
def applyAll (fs : List (α → α)) (a : α) : α := fs.foldl (fun a f ↦ f a) a

/-- The events of a visit up to its last change. -/
def begun (v : Visit κ α) : List (LockEvent κ α) := .enter v.1 :: v.2.map (.update v.1)

/-- The events of a visit. -/
def whole (v : Visit κ α) : List (LockEvent κ α) := begun v ++ [.leave v.1]

/-- The events but for the arrivals. -/
def inner (events : List (LockEvent κ α)) : List (LockEvent κ α) :=
  events.filter fun
    | .arrive _ => false
    | _ => true

/-- After the events these visits were made, and the last one is not over. -/
structure Serial (events : List (LockEvent κ α)) (q : FifoLock κ α) (done : List (Visit κ α))
    (last : Option (Visit κ α)) (a : α) : Prop where
  inner_eq : inner events = done.flatMap whole ++ last.toList.flatMap begun
  holder_eq : q.holder = last.map Prod.fst
  admissions_eq : admissions events = (done ++ last.toList).map Prod.fst
  data_eq : q.data = applyAll ((done ++ last.toList).flatMap Prod.snd) a

theorem inner_append (events events' : List (LockEvent κ α)) :
    inner (events ++ events') = inner events ++ inner events' := List.filter_append ..

theorem applyAll_append (fs gs : List (α → α)) (a : α) :
    applyAll (fs ++ gs) a = applyAll gs (applyAll fs a) := List.foldl_append

theorem begun_snoc (c : κ) (fs : List (α → α)) (f : α → α) :
    begun (c, fs ++ [f]) = begun (c, fs) ++ [.update c f] := by
  rw [begun, List.map_append]
  rfl

/-- A step adds to the visits: it begins one, goes on with the last one or ends it. -/
theorem Serial.snoc {done : List (Visit κ α)} {last : Option (Visit κ α)} {a : α}
    (hs : Serial events q done last a) (h : Step q e q') :
    ∃ done' last', Serial (events ++ [e]) q' done' last' a := by
  cases h with
  | arrive _ c =>
    refine ⟨done, last, ?_, hs.holder_eq, ?_, hs.data_eq⟩
    · rw [inner_append, hs.inner_eq]
      exact List.append_nil _
    · rw [entries_append, hs.admissions_eq]
      exact List.append_nil _
  | enter waiting data c =>
    obtain rfl : last = none := Option.map_eq_none_iff.mp hs.holder_eq.symm
    refine ⟨done, some (c, []), ?_, rfl, ?_, ?_⟩
    · rw [inner_append, hs.inner_eq]
      exact congrArg (· ++ _) (List.append_nil _)
    · rw [entries_append, hs.admissions_eq, List.map_append, List.map_append]
      exact congrArg (· ++ _) (List.append_nil _)
    · rw [List.flatMap_append, applyAll_append, ← List.append_nil done]
      exact hs.data_eq
  | update waiting data c f =>
    obtain ⟨⟨c, fs⟩, rfl, rfl⟩ := Option.map_eq_some_iff.mp hs.holder_eq.symm
    refine ⟨done, some (c, fs ++ [f]), ?_, rfl, ?_, ?_⟩
    · rw [inner_append, hs.inner_eq, List.append_assoc]
      change _ ++ (([(c, fs)].flatMap begun) ++ [LockEvent.update c f]) = _
      rw [List.flatMap_singleton, ← begun_snoc, Option.toList_some, List.flatMap_singleton]
    · rw [entries_append, hs.admissions_eq, List.map_append, List.map_append]
      exact List.append_nil _
    · have hchanges : (done ++ [(c, fs ++ [f])]).flatMap Prod.snd =
          (done ++ [(c, fs)]).flatMap Prod.snd ++ [f] := by
        simp only [List.flatMap_append, List.flatMap_singleton, List.append_assoc]
      change f data = _
      rw [Option.toList_some, hchanges, applyAll_append]
      exact congrArg f hs.data_eq
  | leave waiting data c =>
    obtain ⟨⟨c, fs⟩, rfl, rfl⟩ := Option.map_eq_some_iff.mp hs.holder_eq.symm
    refine ⟨done ++ [(c, fs)], none, ?_, rfl, ?_, ?_⟩
    · rw [inner_append, hs.inner_eq, List.append_assoc, List.flatMap_append]
      change _ = (_ ++ _) ++ []
      rw [List.append_nil, Option.toList_some, List.flatMap_singleton, List.flatMap_singleton]
      rfl
    · rw [entries_append, hs.admissions_eq, Option.toList_none, List.append_nil]
      exact List.append_nil _
    · rw [Option.toList_none, List.append_nil]
      exact hs.data_eq

/-- **The visits are one after the other**, and what the lock protects is what comes out when each
of them is made in one go. -/
theorem Run.serial {a : α} (h : Run (new a) events q) :
    ∃ done last, Serial events q done last a := by
  induction h with
  | nil => exact ⟨[], none, rfl, rfl, rfl, rfl⟩
  | snoc _ hstep ih =>
    obtain ⟨done, last, hs⟩ := ih
    exact hs.snoc hstep

end FifoLock
