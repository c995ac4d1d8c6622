import Maturin.Lib.Exec
import Maturin.Poll.Epoll
import Mathlib.Order.WellFoundedSet

/-!
# Epoll files in epoll files

An epoll file can be read when a request in its list is reported. A request may stand for an epoll
file again, so that the test calls itself on the files that are waited for. It takes the lock of the
list and the lock of the table of files, and gives each back before it goes on.

The recursion follows the requests for reading from one epoll file to the next. It does not follow
those behind a request that is reported whatever the other files are like: an epoll file can always
be written. Nothing keeps a user from registering an epoll file in itself.
-/

open Exec Relation

namespace Maturin

/-! ## The code -/

/-- The locks that the test takes -/
inductive ReadyLock (Γ : Type)
  | fdManager
  | inner (epoll : Γ)
  deriving DecidableEq

/-- Why a test does not return -/
inductive ReadyFault (Γ : Type)
  | outOfFuel
  | held (lock : ReadyLock Γ)
  deriving DecidableEq

/-- Programs that take locks; the state are the locks that are held. -/
abbrev Locking (Γ : Type) := EStateM (ReadyFault Γ) (List (ReadyLock Γ))

variable {Γ α : Type}

/-- The program runs under the lock. One that takes a lock which is held already never goes on. -/
def withLock [DecidableEq Γ] (lock : ReadyLock Γ) (x : Locking Γ α) : Locking Γ α := do
  if lock ∈ (← get) then throw (.held lock)
  else
    modify (lock :: ·)
    let a ← x
    modify (·.erase lock)
    pure a

namespace EpollSystem

section Code

variable [DecidableEq Γ]

/-- `get_file` of the task -/
def getFile (s : EpollSystem Γ) (fd : ℕ) : Locking Γ (Option Γ) :=
  withLock .fdManager (pure (s.files fd))

/-- `EpollFile::get_epoll_events` -/
def getEpollEvents (epoll : Γ) (list : InterestList) : Locking Γ (List EpollEvent) :=
  withLock (.inner epoll) (pure list.getEpollEvents)

/-- What a file answers. An epoll file has an answer of its own for reading only; the others are the
defaults of `File`. -/
def answers (s : EpollSystem Γ) (readyToRead : Bool) (file : Γ) : FileStatus :=
  match s.inner file with
  | none => { s.status file with readyToRead }
  | some _ => ⟨false, false, readyToRead, true⟩

/-- `poll`, which asks whether the file can be read only if the events contain `EPOLLIN`. -/
def pollFile (s : EpollSystem Γ) (readyToRead : Γ → Locking Γ Bool) (file : Γ)
    (events : EpollEventType) : Locking Γ EpollEventType := do
  let ready ← if events.contains .EPOLLIN then readyToRead file else pure false
  pure (poll (s.answers ready file) events)

/-- The loop of `ready_to_read` -/
def anyReported (s : EpollSystem Γ) (readyToRead : Γ → Locking Γ Bool) :
    List EpollEvent → Locking Γ Bool
  | [] => pure false
  | request :: requests => do
    match ← s.getFile request.data with
    | some file =>
      let revents ← s.pollFile readyToRead file request.events
      if revents ≠ 0 then pure true else anyReported s readyToRead requests
    | none => anyReported s readyToRead requests

/-- `ready_to_read` of a file -/
def readyToRead (s : EpollSystem Γ) : ℕ → Γ → Locking Γ Bool
  | 0, _ => throw .outOfFuel
  | fuel + 1, file =>
    match s.inner file with
    | none => pure (s.status file).readyToRead
    | some list => do
      let epollEvents ← getEpollEvents file list
      s.anyReported (readyToRead s fuel) epollEvents

end Code

/-! ## The answer without the locks -/

/-- Is the request reported? -/
def testReports (s : EpollSystem Γ) (ready : Γ → Option Bool) (request : EpollEvent) :
    Option Bool :=
  match s.files request.data with
  | none => some false
  | some file =>
    (if request.events.contains .EPOLLIN then ready file else some false).map fun b ↦
      poll (s.answers b file) request.events != 0

/-- Is one of the requests reported? -/
def anyReports (s : EpollSystem Γ) (ready : Γ → Option Bool) : List EpollEvent → Option Bool
  | [] => some false
  | request :: requests =>
    (s.testReports ready request).bind fun b ↦ if b then some true else anyReports s ready requests

/-- Can the file be read? There is no answer if the fuel is used up. -/
def isReady (s : EpollSystem Γ) : ℕ → Γ → Option Bool
  | 0, _ => none
  | fuel + 1, file =>
    match s.inner file with
    | none => some (s.status file).readyToRead
    | some list => s.anyReports (isReady s fuel) list.getEpollEvents

end EpollSystem

/-- What a test that holds no locks does if this is its answer -/
def answered (answer : Option α) : EStateM.Result (ReadyFault Γ) (List (ReadyLock Γ)) α :=
  match answer with
  | some a => .ok a []
  | none => .error .outOfFuel []

theorem run_withLock [DecidableEq Γ] {lock : ReadyLock Γ} {a : α} :
    (withLock lock (pure a)).run [] = .ok a [] := by
  have hget : (get : Locking Γ _).run [] = .ok [] [] := rfl
  rw [withLock, run_bind_of_ok hget, if_neg List.not_mem_nil]
  change EStateM.Result.ok a ([lock].erase lock) = _
  rw [List.erase_cons_head]

namespace EpollSystem

variable {s : EpollSystem Γ} {fuel : ℕ} {f g file : Γ} {request : EpollEvent}
  {requests pre : List EpollEvent} {list : InterestList} {b : Bool}

section Locks

variable {ready : Γ → Locking Γ Bool} {answer : Γ → Option Bool}

theorem run_pollFile {events : EpollEventType} (h : ∀ f, (ready f).run [] = answered (answer f)) :
    (s.pollFile ready file events).run [] =
      answered ((if events.contains .EPOLLIN then answer file else some false).map fun b ↦
        poll (s.answers b file) events) := by
  rw [pollFile]
  by_cases hin : events.contains .EPOLLIN = true
  · rw [if_pos hin, if_pos hin]
    have hready := h file
    cases hanswer : answer file with
    | none =>
      rw [hanswer] at hready
      exact run_bind_of_error hready
    | some b =>
      rw [hanswer] at hready
      exact run_bind_of_ok hready
  · rw [if_neg hin, if_neg hin]
    rfl

theorem run_anyReported [DecidableEq Γ] (h : ∀ f, (ready f).run [] = answered (answer f)) :
    (s.anyReported ready requests).run [] = answered (s.anyReports answer requests) := by
  induction requests with
  | nil => rfl
  | cons request requests ih =>
    rw [anyReported, anyReports, testReports, getFile, run_bind_of_ok run_withLock]
    cases s.files request.data with
    | none => exact ih
    | some file =>
      have hpoll : (s.pollFile ready file request.events).run [] =
          answered ((if request.events.contains .EPOLLIN then answer file else some false).map
            fun b ↦ poll (s.answers b file) request.events) := run_pollFile h
      dsimp only
      cases hanswer : (if request.events.contains .EPOLLIN then answer file else some false) with
      | none =>
        rw [hanswer] at hpoll
        exact run_bind_of_error hpoll
      | some b =>
        rw [hanswer] at hpoll
        rw [run_bind_of_ok hpoll]
        simp only [Option.map_some, Option.bind_some, bne_iff_ne]
        split_ifs
        · rfl
        · exact ih

/-- **The locks are free when they are taken.** What a test does is its answer. -/
theorem run_readyToRead [DecidableEq Γ] :
    (s.readyToRead fuel file).run [] = answered (s.isReady fuel file) := by
  induction fuel generalizing file with
  | zero => rfl
  | succ fuel ih =>
    rw [readyToRead, isReady]
    cases s.inner file with
    | none => rfl
    | some list =>
      dsimp only
      rw [getEpollEvents, run_bind_of_ok run_withLock]
      exact run_anyReported fun _ ↦ ih

end Locks

theorem poll_ne_zero_iff {file : FileStatus} {events : EpollEventType} : poll file events ≠ 0 ↔
    file.inExceptionalConditions = true ∨ file.isHangUp = true ∨
      (events.contains .EPOLLIN = true ∧ file.readyToRead = true) ∨
        events.contains .EPOLLOUT = true ∧ file.readyToWrite = true := by
  obtain ⟨err, hup, readable, writable⟩ := file
  rw [poll]
  generalize events.contains .EPOLLIN = wantsIn
  generalize events.contains .EPOLLOUT = wantsOut
  revert err hup readable writable wantsIn wantsOut
  decide

/-! ## The requests that are followed -/

/-- The file that the request stands for is an epoll file. -/
def Stands (s : EpollSystem Γ) (request : EpollEvent) (epoll : Γ) : Prop :=
  s.files request.data = some epoll ∧ (s.inner epoll).isSome = true

/-- A request of `f` that asks for one of the events stands for the epoll file `g`. -/
def Asks (s : EpollSystem Γ) (event : EpollEventType) (f g : Γ) : Prop :=
  ∃ list, s.inner f = some list ∧ ∃ request ∈ list.getEpollEvents,
    s.Stands request g ∧ request.events.contains event = true

/-- The epoll file can be read whatever files that are no epoll files are like: it leads to one that
asks whether an epoll file can be written. -/
def AlwaysReady (s : EpollSystem Γ) (f : Γ) : Prop :=
  ∃ g h, ReflTransGen (s.Asks .EPOLLIN) f g ∧ s.Asks .EPOLLOUT g h

/-- The request is reported whatever files that are no epoll files are like. -/
def AlwaysReports (s : EpollSystem Γ) (request : EpollEvent) : Prop :=
  ∃ g, s.Stands request g ∧ (request.events.contains .EPOLLOUT = true ∨
    request.events.contains .EPOLLIN = true ∧ s.AlwaysReady g)

/-- `f` asks `g` whether it can be read, unless one of the requests before is reported. None of them
is always reported. -/
def Watches (s : EpollSystem Γ) (f g : Γ) : Prop :=
  ∃ list pre request post, s.inner f = some list ∧
    list.getEpollEvents = pre ++ request :: post ∧ (∀ r ∈ pre, ¬ s.AlwaysReports r) ∧
    s.Stands request g ∧ request.events.contains .EPOLLIN = true

/-- Every test of an epoll file returns, whatever the other files are like. -/
def TestsReturn [DecidableEq Γ] (s : EpollSystem Γ) : Prop :=
  ∀ (status : Γ → FileStatus) (file : Γ),
    ∃ fuel b, ({ s with status }.readyToRead fuel file).run [] = .ok b []

theorem alwaysReady_iff : s.AlwaysReady f ↔
    ∃ list, s.inner f = some list ∧ ∃ r ∈ list.getEpollEvents, s.AlwaysReports r := by
  constructor
  · rintro ⟨g, h, hleads, hout⟩
    rcases hleads.cases_head with rfl | ⟨c, ⟨list, hlist, r, hmem, hstands, hin⟩, hrest⟩
    · obtain ⟨list, hlist, r, hmem, hstands, hout⟩ := hout
      exact ⟨list, hlist, r, hmem, h, hstands, Or.inl hout⟩
    · exact ⟨list, hlist, r, hmem, c, hstands, Or.inr ⟨hin, g, h, hrest, hout⟩⟩
  · rintro ⟨list, hlist, r, hmem, g, hstands, hout | ⟨hin, g', h, hrest, hout⟩⟩
    · exact ⟨f, g, .refl, list, hlist, r, hmem, hstands, hout⟩
    · exact ⟨g', h, .head ⟨list, hlist, r, hmem, hstands, hin⟩ hrest, hout⟩

/-! ## Lists of requests -/

section Requests

variable {ready : Γ → Option Bool}

/-- A request that is not reported if it has an answer, and one without an answer after it -/
theorem anyReports_eq_none (hpre : ∀ r ∈ pre, s.testReports ready r ≠ some true)
    (h : s.testReports ready request = none) :
    s.anyReports ready (pre ++ request :: requests) = none := by
  induction pre with
  | nil => rw [List.nil_append, anyReports, h, Option.bind_none]
  | cons r pre ih =>
    rw [List.cons_append, anyReports]
    cases hr : s.testReports ready r with
    | none => rfl
    | some b =>
      cases b with
      | true => exact absurd hr (hpre r List.mem_cons_self)
      | false => exact ih fun r' hr' ↦ hpre r' (List.mem_cons_of_mem r hr')

theorem exists_reports (h : s.anyReports ready requests = some true) :
    ∃ r ∈ requests, s.testReports ready r = some true := by
  induction requests with
  | nil => cases h
  | cons r requests ih =>
    rw [anyReports] at h
    cases hr : s.testReports ready r with
    | none =>
      rw [hr] at h
      cases h
    | some b =>
      cases b with
      | true => exact ⟨r, List.mem_cons_self, hr⟩
      | false =>
        rw [hr] at h
        obtain ⟨r', hr', hreports⟩ := ih h
        exact ⟨r', List.mem_cons_of_mem r hr', hreports⟩

theorem reports_of_not_anyReports (h : s.anyReports ready requests = some false) :
    ∀ r ∈ requests, s.testReports ready r = some false := by
  induction requests with
  | nil => exact fun r hr ↦ absurd hr List.not_mem_nil
  | cons r requests ih =>
    rw [anyReports] at h
    cases hr : s.testReports ready r with
    | none =>
      rw [hr] at h
      cases h
    | some b =>
      rw [hr] at h
      cases b with
      | true => cases h
      | false => exact List.forall_mem_cons.mpr ⟨hr, ih h⟩

/-- If no file that is always ready is denied, no request that is always reported is. -/
theorem AlwaysReports.reports_ne (h : s.AlwaysReports request)
    (hready : ∀ g, s.AlwaysReady g → ready g ≠ some false) :
    s.testReports ready request ≠ some false := by
  obtain ⟨g, ⟨hfile, hepoll⟩, hevents⟩ := h
  obtain ⟨list, hlist⟩ := Option.isSome_iff_exists.mp hepoll
  rw [testReports, hfile]
  intro heq
  obtain ⟨b, hb, hpoll⟩ := Option.map_eq_some_iff.mp heq
  rw [answers, hlist, bne_eq_false_iff_eq] at hpoll
  refine absurd hpoll (poll_ne_zero_iff.mpr (Or.inr (Or.inr ?_)))
  rcases hevents with hout | ⟨hin, halways⟩
  · exact Or.inr ⟨hout, rfl⟩
  · rw [if_pos hin] at hb
    cases b with
    | true => exact Or.inl ⟨hin, rfl⟩
    | false => exact absurd hb (hready g halways)

/-- No file is ready, apart from epoll files. -/
def Quiet (s : EpollSystem Γ) : Prop := ∀ file, s.status file = ⟨false, false, false, false⟩

theorem Quiet.alwaysReports (hquiet : s.Quiet) (hready : ∀ g, ready g = some true → s.AlwaysReady g)
    (h : s.testReports ready request = some true) : s.AlwaysReports request := by
  rw [testReports] at h
  cases hfile : s.files request.data with
  | none =>
    rw [hfile] at h
    cases h
  | some g =>
    rw [hfile] at h
    obtain ⟨b, hb, hpoll⟩ := Option.map_eq_some_iff.mp h
    rw [bne_iff_ne, poll_ne_zero_iff] at hpoll
    have hin : request.events.contains .EPOLLIN = true → b = true → s.AlwaysReady g := by
      intro hin htrue
      rw [if_pos hin, htrue] at hb
      exact hready g hb
    cases hlist : s.inner g with
    | none =>
      -- only an answer for reading can be positive, and the file has no list
      rw [answers, hlist, hquiet g] at hpoll
      simp only [Bool.false_eq_true, and_false, or_false, false_or] at hpoll
      obtain ⟨list, hlist', -⟩ := alwaysReady_iff.mp (hin hpoll.1 hpoll.2)
      rw [hlist] at hlist'
      cases hlist'
    | some list =>
      rw [answers, hlist] at hpoll
      simp only [Bool.false_eq_true, and_true, false_or] at hpoll
      refine ⟨g, ⟨hfile, by rw [hlist]; rfl⟩, ?_⟩
      exact hpoll.symm.imp id fun hp ↦ ⟨hp.1, hin hp.1 hp.2⟩

end Requests

/-! ## When the recursion ends -/

theorem AlwaysReady.isReady_ne (h : s.AlwaysReady f) : s.isReady fuel f ≠ some false := by
  induction fuel generalizing f with
  | zero => exact fun hf ↦ nomatch hf
  | succ fuel ih =>
    obtain ⟨list, hlist, r, hmem, hr⟩ := alwaysReady_iff.mp h
    rw [isReady, hlist]
    intro hfalse
    exact hr.reports_ne (fun _ ↦ ih) (reports_of_not_anyReports hfalse r hmem)

theorem Quiet.alwaysReady (hquiet : s.Quiet) (h : s.isReady fuel f = some true) :
    s.AlwaysReady f := by
  induction fuel generalizing f with
  | zero => cases h
  | succ fuel ih =>
    rw [isReady] at h
    cases hlist : s.inner f with
    | none =>
      rw [hlist, hquiet f] at h
      cases h
    | some list =>
      rw [hlist] at h
      obtain ⟨r, hmem, hr⟩ := exists_reports h
      exact alwaysReady_iff.mpr ⟨list, hlist, r, hmem, hquiet.alwaysReports (fun _ ↦ ih) hr⟩

/-- A request has an answer if the epoll file has one that it asks for reading. -/
theorem exists_isSome_reports (h : ∀ g, s.Stands request g →
      request.events.contains .EPOLLIN = true → ∃ n, ∀ fuel ≥ n, (s.isReady fuel g).isSome = true) :
    ∃ n, ∀ fuel ≥ n, (s.testReports (s.isReady fuel) request).isSome = true := by
  simp only [testReports]
  cases hfile : s.files request.data with
  | none => exact ⟨0, fun _ _ ↦ rfl⟩
  | some g =>
    simp only [Option.isSome_map]
    by_cases hin : request.events.contains .EPOLLIN = true
    · simp only [if_pos hin]
      cases hlist : s.inner g with
      | none =>
        refine ⟨1, fun fuel hfuel ↦ ?_⟩
        obtain ⟨k, rfl⟩ := Nat.exists_eq_add_of_le' hfuel
        rw [isReady, hlist]
        rfl
      | some list => exact h g ⟨hfile, by rw [hlist]; rfl⟩ hin
    · simp only [if_neg hin]
      exact ⟨0, fun _ _ ↦ rfl⟩

/-- A list has an answer if the requests have one up to the first that is always reported. -/
theorem exists_isSome_anyReports (h : ∀ pre r post, requests = pre ++ r :: post →
      (∀ p ∈ pre, ¬ s.AlwaysReports p) →
        ∃ n, ∀ fuel ≥ n, (s.testReports (s.isReady fuel) r).isSome = true) :
    ∃ n, ∀ fuel ≥ n, (s.anyReports (s.isReady fuel) requests).isSome = true := by
  induction requests with
  | nil => exact ⟨0, fun _ _ ↦ rfl⟩
  | cons r requests ih =>
    obtain ⟨n, hn⟩ := h [] r requests rfl fun p hp ↦ absurd hp List.not_mem_nil
    by_cases halways : s.AlwaysReports r
    · refine ⟨n, fun fuel hfuel ↦ ?_⟩
      obtain ⟨b, hb⟩ := Option.isSome_iff_exists.mp (hn fuel hfuel)
      rw [anyReports, hb]
      cases b with
      | true => rfl
      | false => exact absurd hb (halways.reports_ne fun _ hg ↦ hg.isReady_ne)
    · obtain ⟨m, hm⟩ := ih fun pre r' post heq hpre ↦
        h (r :: pre) r' post (congrArg (r :: ·) heq) (List.forall_mem_cons.mpr ⟨halways, hpre⟩)
      refine ⟨max n m, fun fuel hfuel ↦ ?_⟩
      obtain ⟨b, hb⟩ := Option.isSome_iff_exists.mp (hn fuel ((le_max_left n m).trans hfuel))
      rw [anyReports, hb]
      cases b with
      | true => rfl
      | false => exact hm fuel ((le_max_right n m).trans hfuel)

theorem exists_isSome_of_acc (h : Acc (Function.swap s.Watches) f) :
    ∃ n, ∀ fuel ≥ n, (s.isReady fuel f).isSome = true := by
  induction h with
  | intro f _ ih =>
    suffices ∃ n, ∀ fuel ≥ n, (s.isReady (fuel + 1) f).isSome = true by
      obtain ⟨n, hn⟩ := this
      refine ⟨n + 1, fun fuel hfuel ↦ ?_⟩
      obtain ⟨k, rfl⟩ := Nat.exists_eq_add_of_le' (Nat.le_of_add_left_le hfuel)
      exact hn k (by omega)
    simp only [isReady]
    cases hlist : s.inner f with
    | none => exact ⟨0, fun _ _ ↦ rfl⟩
    | some list =>
      apply exists_isSome_anyReports
      intro pre r post heq hpre
      apply exists_isSome_reports
      exact fun g hstands hin ↦ ih g ⟨list, pre, r, post, hlist, heq, hpre, hstands, hin⟩

/-- If no file is ready, a test of an epoll file from which there is an endless way does not
return. -/
theorem Quiet.isReady_eq_none (hquiet : s.Quiet) (h : ¬ Acc (Function.swap s.Watches) f) :
    s.isReady fuel f = none := by
  induction fuel generalizing f with
  | zero => rfl
  | succ fuel ih =>
    obtain ⟨g, hwatches, hg⟩ : ∃ g, s.Watches f g ∧ ¬ Acc (Function.swap s.Watches) g := by
      by_contra hall
      push Not at hall
      exact h ⟨f, hall⟩
    obtain ⟨list, pre, r, post, hlist, heq, hpre, hstands, hin⟩ := hwatches
    rw [isReady, hlist]
    dsimp only
    rw [heq]
    apply anyReports_eq_none
    · exact fun p hp hreports ↦
        hpre p hp (hquiet.alwaysReports (fun _ ↦ hquiet.alwaysReady) hreports)
    · rw [testReports, hstands.1]
      dsimp only
      rw [if_pos hin, ih hg, Option.map_none]

theorem testsReturn_iff [DecidableEq Γ] :
    s.TestsReturn ↔ WellFounded (Function.swap s.Watches) := by
  constructor
  · refine fun h ↦ ⟨fun f ↦ ?_⟩
    by_contra hf
    let quiet : EpollSystem Γ := { s with status := fun _ ↦ ⟨false, false, false, false⟩ }
    have hquiet : quiet.Quiet := fun _ ↦ rfl
    obtain ⟨fuel, b, hrun⟩ := h quiet.status f
    rw [run_readyToRead, hquiet.isReady_eq_none hf] at hrun
    cases hrun
  · intro h status file
    obtain ⟨n, hn⟩ := exists_isSome_of_acc (s := { s with status }) (h.apply file)
    obtain ⟨b, hb⟩ := Option.isSome_iff_exists.mp (hn n le_rfl)
    refine ⟨n, b, ?_⟩
    rw [run_readyToRead, hb]
    rfl

/-! ## Runs -/

/-- No epoll file asks itself, through others or at once. -/
def Acyclic (s : EpollSystem Γ) : Prop := ∀ f, ¬ TransGen s.Watches f f

/-- The epoll files of the system -/
def epollFiles (s : EpollSystem Γ) : Set Γ := {f | (s.inner f).isSome = true}

/-- Among finitely many epoll files an endless way comes back to where it was. -/
theorem acyclic_iff (hfin : s.epollFiles.Finite) :
    s.Acyclic ↔ WellFounded (Function.swap s.Watches) := by
  constructor
  · intro h
    let r : Γ → Γ → Prop := Function.swap (TransGen s.Watches)
    have : IsStrictOrder Γ r := { irrefl := h, trans := fun _ _ _ hab hbc ↦ hbc.trans hab }
    refine Subrelation.wf ?_ (Set.wellFoundedOn_iff.mp (hfin.wellFoundedOn (r := r)))
    rintro g f hwatches
    obtain ⟨list, _, _, _, hlist, -, -, hstands, -⟩ := id hwatches
    exact ⟨.single hwatches, hstands.2, Option.isSome_iff_exists.mpr ⟨list, hlist⟩⟩
  · intro h f hcycle
    have hirrefl := h.transGen.irrefl.irrefl f
    exact hirrefl (transGen_swap.mpr hcycle)

variable [DecidableEq Γ] {a : EpollStep Γ} {hist : List (EpollSystem Γ × Γ × EpollEvent)}

/-- A step makes at most one file an epoll file. -/
theorem finite_run (h : s.epollFiles.Finite) : (a.run s).epollFiles.Finite := by
  -- one file more has a list at most
  have hupdate : ∀ epoll list,
      {f | (Function.update s.inner epoll (some list) f).isSome = true}.Finite := by
    refine fun epoll list ↦ (h.insert epoll).subset fun f hf ↦ ?_
    change (Function.update s.inner epoll (some list) f).isSome = true at hf
    rcases eq_or_ne f epoll with rfl | hne
    · exact Set.mem_insert _ _
    · rw [Function.update_of_ne hne] at hf
      exact Set.mem_insert_of_mem _ hf
  cases a with
  | create epoll fd => exact hupdate epoll .empty
  | setFile | setStatus => exact h
  | ctl epfd op fd event =>
    rw [EpollStep.run]
    rcases sysEpollCtl_cases epfd op fd event s with heq |
      ⟨operator, evt, epoll, list, list', file, -, -, heq⟩
    · rw [heq]
      exact h
    · rw [heq]
      exact hupdate epoll list'
  | startWait thread epfd =>
    rw [EpollStep.run, startWait]
    split
    · exact h
    · split
      · exact h
      · exact h
  | scan thread expired =>
    rw [EpollStep.run]
    split
    · split_ifs
      · exact h
      · exact h
    · exact h

/-- The step leaves no cycle of requests that are followed. -/
def ClosesNoCycle (s : EpollSystem Γ) (a : EpollStep Γ) : Prop :=
  (a.run s).Acyclic

variable {ok : EpollSystem Γ → EpollStep Γ → Prop}

theorem Reached.finite (h : Reached ok s hist) : s.epollFiles.Finite := by
  induction h with
  | start hinner =>
    rw [epollFiles, hinner]
    exact Set.finite_empty.subset fun f hf ↦ absurd hf (by simp)
  | step _ _ _ ih => exact finite_run ih

theorem Reached.acyclic (h : Reached ok s hist) (hok : ∀ t a, ok t a → ClosesNoCycle t a) :
    s.Acyclic := by
  cases h with
  | start hinner =>
    intro f hcycle
    obtain ⟨g, ⟨list, _, _, _, hlist, -⟩, -⟩ := TransGen.head'_iff.mp hcycle
    rw [hinner] at hlist
    cases hlist
  | step _ _ hstep => exact hok _ _ hstep

/-- **When nested tests return.** After any run, the tests of all files return, whatever files that
are no epoll files are like, if and only if no epoll file asks itself. So they return after a run
whose steps close no cycle. A lock that is held is never taken. -/
theorem nested_tests_return (h : Reached ok s hist) :
    (s.TestsReturn ↔ s.Acyclic) ∧
    ((∀ t a, ok t a → ClosesNoCycle t a) → s.TestsReturn) ∧
    ∀ (status : Γ → FileStatus) (fuel : ℕ) (file : Γ) (lock : ReadyLock Γ)
      (held : List (ReadyLock Γ)),
      ({ s with status }.readyToRead fuel file).run [] ≠ .error (.held lock) held := by
  have hiff : s.TestsReturn ↔ s.Acyclic := testsReturn_iff.trans (acyclic_iff h.finite).symm
  refine ⟨hiff, fun hok ↦ hiff.mpr (h.acyclic hok), fun status fuel file lock held heq ↦ ?_⟩
  rw [run_readyToRead] at heq
  cases hanswer : { s with status }.isReady fuel file with
  | none =>
    rw [hanswer] at heq
    cases heq
  | some b =>
    rw [hanswer] at heq
    cases heq

/-! ## Two epoll files -/

/-- Epoll files 100 and 101 are descriptors 0 and 1, and the second is registered in the first. -/
def nested : EpollSystem ℕ :=
  (closed 7).after [.create 100 0, .create 101 1, .ctl 0 1 1 (some ⟨.EPOLLIN, 1⟩)]

theorem watches_nested {f g : ℕ} (h : nested.Watches f g) : f = 100 ∧ g = 101 := by
  obtain ⟨list, pre, request, post, hlist, hevents, -, hstands, -⟩ := h
  have h100 : (nested.inner 100).map InterestList.getEpollEvents = some [⟨.EPOLLIN, 1⟩] := by
    decide +kernel
  have h101 : (nested.inner 101).map InterestList.getEpollEvents = some [] := by decide +kernel
  have hmem : request ∈ list.getEpollEvents := by
    rw [hevents]
    exact List.mem_append_right pre List.mem_cons_self
  by_cases hf : f = 100
  · subst hf
    rw [hlist] at h100
    rw [Option.some.inj h100] at hmem
    obtain rfl := List.mem_singleton.mp hmem
    exact ⟨rfl, (Option.some.inj hstands.1).symm⟩
  · by_cases hf' : f = 101
    · subst hf'
      rw [hlist] at h101
      rw [Option.some.inj h101] at hmem
      exact absurd hmem List.not_mem_nil
    · obtain ⟨l, hl⟩ : ∃ l, nested.inner = Function.update (Function.update (Function.update
          (fun _ ↦ none) 100 (some .empty)) 101 (some .empty)) 100 (some l) := ⟨_, rfl⟩
      rw [hl, Function.update_of_ne hf, Function.update_of_ne hf',
        Function.update_of_ne hf] at hlist
      cases hlist

theorem nested_tests_return_nested : nested.TestsReturn := by
  have hstart : Reached (fun _ _ ↦ True) (closed 7) [] := .start rfl rfl rfl
  have hsteps : proceeds [.create 100 0, .create 101 1, .ctl 0 1 1 (some ⟨.EPOLLIN, 1⟩)]
      (closed 7) = true := by decide +kernel
  obtain ⟨hist, h⟩ := hstart.of_steps hsteps
  refine (nested_tests_return h).1.mpr fun f hcycle ↦ ?_
  -- the first file on the way is 100, and the last is 101
  obtain ⟨g, hfirst, -⟩ := TransGen.head'_iff.mp hcycle
  obtain ⟨g', -, hlast⟩ := TransGen.tail'_iff.mp hcycle
  have heq := (watches_nested hfirst).1.symm.trans (watches_nested hlast).2
  exact absurd heq (by decide)

/-- Epoll file 100 is descriptor 0, and is registered in itself. -/
def selfNested : EpollSystem ℕ :=
  (closed 7).after [.create 100 0, .ctl 0 1 0 (some ⟨.EPOLLIN, 0⟩)]

/-- The registration succeeds, and no fuel is enough for the test. -/
theorem selfNested_test : (((closed 7).after [.create 100 0]).sysEpollCtl 0 1 0
      (some ⟨.EPOLLIN, 0⟩)).2 = .ok 0 ∧
    (∃ hist, Reached (fun _ _ ↦ True) selfNested hist) ∧
    (∀ fuel, (selfNested.readyToRead fuel 100).run [] = .error .outOfFuel []) ∧
    ¬ selfNested.TestsReturn := by
  have hstart : Reached (fun _ _ ↦ True) (closed 7) [] := .start rfl rfl rfl
  have htest : ∀ fuel, selfNested.isReady fuel 100 = none := by
    intro fuel
    induction fuel with
    | zero => rfl
    | succ fuel ih =>
      -- the file asks itself, with one step less
      change selfNested.anyReports (selfNested.isReady fuel) [⟨.EPOLLIN, 0⟩] = none
      have hfile : selfNested.files 0 = some 100 := rfl
      rw [anyReports, testReports, hfile]
      dsimp only
      rw [if_pos (by decide), ih]
      rfl
  refine ⟨by decide +kernel, hstart.of_steps (by decide +kernel), fun fuel ↦ ?_, fun h ↦ ?_⟩
  · rw [run_readyToRead, htest]
    rfl
  · obtain ⟨fuel, b, hrun⟩ := h selfNested.status 100
    rw [run_readyToRead] at hrun
    have hanswer : answered (selfNested.isReady fuel 100) = .ok b [] := hrun
    rw [htest] at hanswer
    cases hanswer

end EpollSystem

end Maturin
