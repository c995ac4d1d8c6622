import Maturin.Base.Error
import Maturin.Lib.OrdMap
import Mathlib.Data.BitVec
import Mathlib.Logic.Function.Basic

/-!
# Epoll

An `EpollFile` keeps the events that are waited for by descriptor. `epoll_wait` takes the list of
them, with the descriptor in the place of the user's data, and resolves every descriptor anew in
each scan. Between two scans the task is suspended, and other threads may change the list and the
table of open files.

An event that is reported is right if its descriptor is still registered, stands for the file that
was registered, and is the data that was given with it. Beside the interest lists the model keeps
what was registered, with the file that the descriptor stood for.
-/

namespace Maturin

/-- `EpollEventType` -/
abbrev EpollEventType := BitVec 32

namespace EpollEventType

def EPOLLIN : EpollEventType := 0x001
def EPOLLOUT : EpollEventType := 0x004
def EPOLLERR : EpollEventType := 0x008
def EPOLLHUP : EpollEventType := 0x010

def contains (self other : EpollEventType) : Bool := self &&& other == other

end EpollEventType

/-- `EpollEvent` -/
structure EpollEvent where
  events : EpollEventType
  data : ℕ
  deriving DecidableEq

/-- `EpollCtl` -/
inductive EpollCtl
  | ADD
  | DEL
  | MOD
  deriving DecidableEq

/-- `try_from` of `EpollCtl` -/
def EpollCtl.tryFrom (op : ℤ) : Option EpollCtl :=
  if op = 1 then some ADD else if op = 2 then some DEL else if op = 3 then some MOD else none

/-- What a file answers about its readiness. -/
structure FileStatus where
  inExceptionalConditions : Bool
  isHangUp : Bool
  readyToRead : Bool
  readyToWrite : Bool
  deriving DecidableEq

open EpollEventType in
/-- `poll`: of the events, those that happen at the file, and errors. -/
def poll (file : FileStatus) (events : EpollEventType) : EpollEventType :=
  (if file.inExceptionalConditions then EPOLLERR else 0) |||
  (if file.isHangUp then EPOLLHUP else 0) |||
  (if events.contains EPOLLIN && file.readyToRead then EPOLLIN else 0) |||
  (if events.contains EPOLLOUT && file.readyToWrite then EPOLLOUT else 0)

/-- The conditions that the events name hold of the file. -/
structure FileStatus.Shows (file : FileStatus) (events : EpollEventType) : Prop where
  err : events.contains .EPOLLERR = true → file.inExceptionalConditions = true
  hup : events.contains .EPOLLHUP = true → file.isHangUp = true
  epollin : events.contains .EPOLLIN = true → file.readyToRead = true
  out : events.contains .EPOLLOUT = true → file.readyToWrite = true
  only : events &&& ~~~(.EPOLLIN ||| .EPOLLOUT ||| .EPOLLERR ||| .EPOLLHUP) = 0

/-! ## Interest lists -/

/-- The list of the descriptors that are waited for. -/
abbrev InterestList := OrdMap ℕ EpollEvent

namespace InterestList

/-- `EpollFile::epoll_ctl` -/
def epollCtl (op : EpollCtl) (fd : ℕ) (event : EpollEvent) (list : InterestList) :
    Except ErrorNo InterestList :=
  match op with
  | .ADD => if (list.get fd).isSome then .error .EEXIST else .ok (list.insert fd event)
  | .MOD => if (list.get fd).isSome then .ok (list.insert fd event) else .error .ENOENT
  | .DEL => if (list.get fd).isNone then .error .ENOENT else .ok (list.remove fd)

/-- `get_epoll_events`, which replaces the data by the descriptor. -/
def getEpollEvents (list : InterestList) : List EpollEvent :=
  list.entries.map fun entry ↦
    if entry.1 ≠ entry.2.data then { entry.2 with data := entry.1 } else entry.2

/-- The data of an event is the descriptor under which it is in the list. -/
theorem mem_getEpollEvents {list : InterestList} {event : EpollEvent} :
    event ∈ list.getEpollEvents ↔
      ∃ evt, list.get event.data = some evt ∧ evt.events = event.events := by
  rw [getEpollEvents, List.mem_map]
  constructor
  · rintro ⟨⟨fd, evt⟩, hmem, rfl⟩
    dsimp only
    split_ifs with hne
    · exact ⟨evt, OrdMap.get_eq_some.mpr hmem, rfl⟩
    · rw [not_not] at hne
      exact ⟨evt, OrdMap.get_eq_some.mpr (hne ▸ hmem), rfl⟩
  · rintro ⟨evt, hget, hevents⟩
    refine ⟨(event.data, evt), OrdMap.get_eq_some.mp hget, ?_⟩
    obtain ⟨events, data⟩ := event
    obtain ⟨events', data'⟩ := evt
    dsimp only at hevents ⊢
    subst hevents
    split_ifs with hne
    · rfl
    · rw [not_not.mp hne]

end InterestList

/-! ## The system -/

/-- What was given to `epoll_ctl` for a descriptor, and the file that it stood for when it was
added. -/
structure Registration (Γ : Type) where
  file : Γ
  event : EpollEvent

/-- The open files of a process with its epoll files; `Γ` are the files. -/
structure EpollSystem (Γ : Type) where
  /-- The table of descriptors. -/
  files : ℕ → Option Γ
  status : Γ → FileStatus
  /-- The interest list, if the file is an `EpollFile`. -/
  inner : Γ → Option InterestList
  /-- The calls of `epoll_wait` that have not returned, by thread: the epoll file and its events. -/
  waits : ℕ → Option (Γ × List EpollEvent)
  /-- What is registered at an epoll file for a descriptor. No function reads it. -/
  registered : Γ → ℕ → Option (Registration Γ)

variable {Γ : Type} [DecidableEq Γ]

namespace EpollSystem

/-- One round of the loop of `epoll_wait`: the events that happen, and an error for each descriptor
that is closed. -/
def scan (s : EpollSystem Γ) (events : List EpollEvent) : List EpollEvent :=
  events.filterMap fun request ↦
    match s.files request.data with
    | some file =>
      let revents := poll (s.status file) request.events
      if revents ≠ 0 then some ⟨revents, request.data⟩ else none
    | none => some ⟨.EPOLLERR, request.data⟩

/-- What an `epoll_ctl` that succeeds leaves registered for the descriptor. -/
def register (op : EpollCtl) (file : Γ) (event : EpollEvent) (r : Option (Registration Γ)) :
    Option (Registration Γ) :=
  match op with
  | .ADD => some ⟨file, event⟩
  | .MOD => r.map ({ · with event })
  | .DEL => none

/-- `sys_epoll_ctl`; `event` is what the user's pointer points to, if the address is the user's. -/
def sysEpollCtl (epfd : ℕ) (op : ℤ) (fd : ℕ) (event : Option EpollEvent) (s : EpollSystem Γ) :
    EpollSystem Γ × Except ErrorNo ℕ :=
  match event with
  | none => (s, .error .EFAULT)
  | some event =>
    match EpollCtl.tryFrom op with
    | none => (s, .error .EINVAL)
    | some operator =>
      match s.files epfd with
      | none => (s, .error .EBADF)
      | some epoll =>
        match s.inner epoll with
        | none => (s, .error .EBADF)
        | some list =>
          match s.files fd with
          | none => (s, .error .EBADF)
          | some file =>
            match list.epollCtl operator fd event with
            | .error e => (s, .error e)
            | .ok list =>
              ({ s with
                inner := Function.update s.inner epoll (some list)
                registered := Function.update s.registered epoll
                  (Function.update (s.registered epoll) fd
                    (register operator file event (s.registered epoll fd))) }, .ok 0)

/-- The start of `sys_epoll_wait`: the thread takes the events of the epoll file. -/
def startWait (thread epfd : ℕ) (s : EpollSystem Γ) : EpollSystem Γ :=
  match s.files epfd with
  | none => s
  | some epoll =>
    match s.inner epoll with
    | none => s
    | some list =>
      { s with waits := Function.update s.waits thread (some (epoll, list.getEpollEvents)) }

end EpollSystem

/-- What happens to the files of a process. -/
inductive EpollStep (Γ : Type)
  /-- `sys_epoll_create` makes a new file and gives it a descriptor. -/
  | create (epoll : Γ) (fd : ℕ)
  /-- A descriptor is opened or closed, or made a duplicate of another. -/
  | setFile (fd : ℕ) (file : Option Γ)
  | setStatus (status : Γ → FileStatus)
  | ctl (epfd : ℕ) (op : ℤ) (fd : ℕ) (event : Option EpollEvent)
  | startWait (thread epfd : ℕ)
  /-- A thread that waits scans; a call that finds nothing returns if its time is over. -/
  | scan (thread : ℕ) (expired : Bool)

namespace EpollStep

open EpollSystem

/-- The events that the step returns to a thread, with the epoll file. -/
def returned (s : EpollSystem Γ) : EpollStep Γ → List (Γ × EpollEvent)
  | scan thread _ =>
    match s.waits thread with
    | some (epoll, events) => (s.scan events).map (epoll, ·)
    | none => []
  | _ => []

/-- The system after the step. -/
def run (s : EpollSystem Γ) : EpollStep Γ → EpollSystem Γ
  | create epoll fd =>
    { s with
      files := Function.update s.files fd (some epoll)
      inner := Function.update s.inner epoll (some .empty) }
  | setFile fd file => { s with files := Function.update s.files fd file }
  | setStatus status => { s with status }
  | ctl epfd op fd event => (s.sysEpollCtl epfd op fd event).1
  | startWait thread epfd => s.startWait thread epfd
  | scan thread expired =>
    match s.waits thread with
    | some (_, events) =>
      if s.scan events ≠ [] ∨ expired then { s with waits := Function.update s.waits thread none }
      else s
    | none => s

/-- A new epoll file is no epoll file already, and a thread waits once at a time. -/
def Enabled (s : EpollSystem Γ) : EpollStep Γ → Prop
  | create epoll _ => s.inner epoll = none
  | startWait thread _ => s.waits thread = none
  | _ => True

end EpollStep

variable {s t : EpollSystem Γ} {a : EpollStep Γ} {epoll : Γ} {event request : EpollEvent}
  {events : List EpollEvent} {fd thread : ℕ} {hist : List (EpollSystem Γ × Γ × EpollEvent)}

namespace EpollSystem

/-- The event is of a file that is registered at the epoll file, shows what holds of that file, and
carries the data that was given for it. -/
def Right (s : EpollSystem Γ) (epoll : Γ) (event : EpollEvent) : Prop :=
  ∃ r, s.registered epoll event.data = some r ∧
    (∀ file, s.files event.data = some file → file = r.file) ∧
    (s.status r.file).Shows event.events ∧ r.event.data = event.data

/-- The descriptor is registered and was given as its own data, and it still stands for the file
that was registered; or it is closed, and that file is in an exceptional condition. -/
def Current (s : EpollSystem Γ) (epoll : Γ) (fd : ℕ) : Prop :=
  ∃ r, s.registered epoll fd = some r ∧ r.event.data = fd ∧
    (s.files fd = some r.file ∨
      s.files fd = none ∧ (s.status r.file).inExceptionalConditions = true)

/-- A scan has something to report for the request. -/
def Reported (s : EpollSystem Γ) (request : EpollEvent) : Prop :=
  ∀ file, s.files request.data = some file → poll (s.status file) request.events ≠ 0

end EpollSystem

/-- What the step reports is current. -/
def EpollStep.ReportsCurrent (s : EpollSystem Γ) : EpollStep Γ → Prop
  | scan thread _ => ∀ epoll events, s.waits thread = some (epoll, events) →
      ∀ request ∈ events, s.Reported request → s.Current epoll request.data
  | _ => True

namespace EpollSystem

/-- The states of a system that began without epoll files, with the events that were returned and
the state each was returned in, as long as the steps satisfy `ok`. -/
inductive Reached (ok : EpollSystem Γ → EpollStep Γ → Prop) :
    EpollSystem Γ → List (EpollSystem Γ × Γ × EpollEvent) → Prop
  | start {s : EpollSystem Γ} (hinner : s.inner = fun _ ↦ none) (hwaits : s.waits = fun _ ↦ none)
      (hregistered : s.registered = fun _ _ ↦ none) : Reached ok s []
  | step {s : EpollSystem Γ} {hist : List (EpollSystem Γ × Γ × EpollEvent)} {a : EpollStep Γ}
      (h : Reached ok s hist) (ha : a.Enabled s) (hok : ok s a) :
      Reached ok (a.run s) (hist ++ (a.returned s).map (s, ·))

/-! ## One scan -/

/-- A file shows the events that `poll` finds at it. -/
theorem shows_poll (file : FileStatus) (events : EpollEventType) :
    file.Shows (poll file events) := by
  obtain ⟨err, hup, readable, writable⟩ := file
  rw [poll]
  generalize events.contains .EPOLLIN = wantsIn
  generalize events.contains .EPOLLOUT = wantsOut
  constructor
  all_goals
    revert err hup readable writable wantsIn wantsOut
    decide

theorem shows_err_iff {file : FileStatus} :
    file.Shows .EPOLLERR ↔ file.inExceptionalConditions = true := by
  constructor
  · exact fun h ↦ h.err (by decide)
  · intro herr
    constructor
    · exact fun _ ↦ herr
    · exact fun h ↦ absurd h (by decide)
    · exact fun h ↦ absurd h (by decide)
    · exact fun h ↦ absurd h (by decide)
    · decide

/-- What a scan that reports the request says of it. -/
def revents (s : EpollSystem Γ) (request : EpollEvent) : EpollEventType :=
  match s.files request.data with
  | some file => poll (s.status file) request.events
  | none => .EPOLLERR

omit [DecidableEq Γ] in
theorem mem_scan : event ∈ s.scan events ↔
    ∃ request ∈ events, s.Reported request ∧ event = ⟨s.revents request, request.data⟩ := by
  rw [scan, List.mem_filterMap]
  refine exists_congr fun request ↦ and_congr_right fun _ ↦ ?_
  rw [Reported, revents]
  cases s.files request.data with
  | none =>
    rw [Option.some.injEq, eq_comm]
    exact (and_iff_right fun file h ↦ absurd h (by simp)).symm
  | some file =>
    dsimp only
    split_ifs with hne
    · rw [Option.some.injEq, eq_comm]
      exact (and_iff_right fun file' h ↦ Option.some.inj h ▸ hne).symm
    · refine iff_of_false (by simp) fun h ↦ hne (h.1 file rfl)

omit [DecidableEq Γ] in
/-- What is reported for a request is right if and only if its descriptor is current. -/
theorem right_iff_current :
    s.Right epoll ⟨s.revents request, request.data⟩ ↔ s.Current epoll request.data := by
  rw [Right, Current, revents]
  refine exists_congr fun r ↦ and_congr_right fun _ ↦ ?_
  dsimp only
  cases s.files request.data with
  | none =>
    rw [shows_err_iff]
    constructor
    · rintro ⟨-, herr, hdata⟩
      exact ⟨hdata, Or.inr ⟨rfl, herr⟩⟩
    · rintro ⟨hdata, hsome | ⟨-, herr⟩⟩
      · exact absurd hsome (by simp)
      · exact ⟨fun file h ↦ absurd h (by simp), herr, hdata⟩
  | some file =>
    constructor
    · rintro ⟨hfile, -, hdata⟩
      exact ⟨hdata, Or.inl (congrArg some (hfile file rfl))⟩
    · rintro ⟨hdata, hsome | ⟨hnone, -⟩⟩
      · obtain rfl := Option.some.inj hsome
        exact ⟨fun file h ↦ (Option.some.inj h).symm, shows_poll _ _, hdata⟩
      · exact absurd hnone (by simp)

omit [DecidableEq Γ] in
/-- A step returns right events only, if and only if what it reports is current. -/
theorem returned_right_iff :
    (∀ p ∈ a.returned s, s.Right p.1 p.2) ↔ a.ReportsCurrent s := by
  cases a with
  | scan thread expired =>
    rw [EpollStep.returned, EpollStep.ReportsCurrent]
    cases s.waits thread with
    | none => simp
    | some wait =>
      obtain ⟨epoll, events⟩ := wait
      constructor
      · intro hall epoll' events' hsome request hrequest hreported
        obtain ⟨rfl, rfl⟩ := Prod.mk.inj (Option.some.inj hsome)
        refine right_iff_current.mp (hall (epoll, ⟨s.revents request, request.data⟩) ?_)
        exact List.mem_map_of_mem (mem_scan.mpr ⟨request, hrequest, hreported, rfl⟩)
      · intro hcurrent p hp
        obtain ⟨event, hevent, rfl⟩ := List.mem_map.mp hp
        obtain ⟨request, hrequest, hreported, rfl⟩ := mem_scan.mp hevent
        exact right_iff_current.mpr (hcurrent epoll events rfl request hrequest hreported)
  | create | setFile | setStatus | ctl | startWait =>
    simp [EpollStep.returned, EpollStep.ReportsCurrent]

/-! ## Runs -/

/-- The interest lists hold what is registered. -/
structure Tracked (s : EpollSystem Γ) : Prop where
  get_eq : ∀ epoll list, s.inner epoll = some list →
    ∀ fd, list.get fd = (s.registered epoll fd).map (·.event)
  eq_none : ∀ epoll, s.inner epoll = none → ∀ fd, s.registered epoll fd = none

omit [DecidableEq Γ] in
/-- An `epoll_ctl` that succeeds changes the list as it changes what is registered. -/
theorem get_epollCtl {list list' : InterestList} {op : EpollCtl} (file : Γ)
    {r : Option (Registration Γ)} (hget : list.get fd = r.map (·.event))
    (hctl : list.epollCtl op fd event = .ok list') :
    list'.get fd = (register op file event r).map (·.event) ∧
      ∀ fd' ≠ fd, list'.get fd' = list.get fd' := by
  cases op with
  | ADD =>
    rw [InterestList.epollCtl] at hctl
    split_ifs at hctl
    obtain rfl := Except.ok.inj hctl
    exact ⟨OrdMap.get_insert_self, fun fd' hne ↦ OrdMap.get_insert_of_ne hne⟩
  | MOD =>
    rw [InterestList.epollCtl] at hctl
    split_ifs at hctl with hsome
    obtain rfl := Except.ok.inj hctl
    rw [hget, Option.isSome_map] at hsome
    obtain ⟨r, rfl⟩ := Option.isSome_iff_exists.mp hsome
    exact ⟨OrdMap.get_insert_self, fun fd' hne ↦ OrdMap.get_insert_of_ne hne⟩
  | DEL =>
    rw [InterestList.epollCtl] at hctl
    split_ifs at hctl
    obtain rfl := Except.ok.inj hctl
    exact ⟨OrdMap.get_remove_self, fun fd' hne ↦ OrdMap.get_remove_of_ne hne⟩

/-- A system call that fails changes nothing; one that succeeds changes one list, and what is
registered there for the descriptor. -/
theorem sysEpollCtl_cases (epfd : ℕ) (op : ℤ) (fd : ℕ) (event : Option EpollEvent)
    (s : EpollSystem Γ) : (s.sysEpollCtl epfd op fd event).1 = s ∨
      ∃ operator evt epoll list list' file, s.inner epoll = some list ∧
        InterestList.epollCtl operator fd evt list = .ok list' ∧
        (s.sysEpollCtl epfd op fd event).1 = { s with
          inner := Function.update s.inner epoll (some list')
          registered := Function.update s.registered epoll
            (Function.update (s.registered epoll) fd
              (register operator file evt (s.registered epoll fd))) } := by
  rw [sysEpollCtl.eq_def]
  rcases event with _ | evt
  · exact Or.inl rfl
  dsimp only
  rcases EpollCtl.tryFrom op with _ | operator
  · exact Or.inl rfl
  dsimp only
  rcases s.files epfd with _ | epoll
  · exact Or.inl rfl
  dsimp only
  cases hinner : s.inner epoll with
  | none => exact Or.inl rfl
  | some list =>
    dsimp only
    rcases s.files fd with _ | file
    · exact Or.inl rfl
    dsimp only
    cases hctl : InterestList.epollCtl operator fd evt list with
    | error e => exact Or.inl rfl
    | ok list' => exact Or.inr ⟨operator, evt, epoll, list, list', file, hinner, hctl, rfl⟩

theorem Tracked.create (h : s.Tracked) (hnone : s.inner epoll = none) :
    ((EpollStep.create epoll fd).run s).Tracked := by
  constructor
  · intro epoll' list hlist fd'
    change Function.update s.inner epoll (some .empty) epoll' = some list at hlist
    rcases eq_or_ne epoll' epoll with rfl | hne
    · rw [Function.update_self] at hlist
      rw [← Option.some.inj hlist, OrdMap.get_empty]
      exact (congrArg (Option.map _) (h.eq_none epoll' hnone fd')).symm
    · rw [Function.update_of_ne hne] at hlist
      exact h.get_eq epoll' list hlist fd'
  · intro epoll' hlist fd'
    change Function.update s.inner epoll (some .empty) epoll' = none at hlist
    rcases eq_or_ne epoll' epoll with rfl | hne
    · rw [Function.update_self] at hlist
      exact absurd hlist (by simp)
    · rw [Function.update_of_ne hne] at hlist
      exact h.eq_none epoll' hlist fd'

theorem Tracked.ctl (h : s.Tracked) {epfd : ℕ} {op : ℤ} {event : Option EpollEvent} :
    (s.sysEpollCtl epfd op fd event).1.Tracked := by
  rcases sysEpollCtl_cases epfd op fd event s with heq |
    ⟨operator, evt, epoll, list, list', file, hinner, hctl, heq⟩
  · rw [heq]
    exact h
  rw [heq]
  -- the list and what is registered change alike, at `fd` alone
  obtain ⟨hself, hother⟩ := get_epollCtl file (h.get_eq epoll list hinner fd) hctl
  constructor
  · intro epoll' l hl fd'
    change Function.update s.inner epoll (some list') epoll' = some l at hl
    rcases eq_or_ne epoll' epoll with rfl | hne
    · rw [Function.update_self] at hl
      obtain rfl := Option.some.inj hl
      dsimp only
      rw [Function.update_self]
      rcases eq_or_ne fd' fd with rfl | hfd
      · rw [Function.update_self]
        exact hself
      · rw [Function.update_of_ne hfd, hother fd' hfd]
        exact h.get_eq epoll' list hinner fd'
    · rw [Function.update_of_ne hne] at hl
      dsimp only
      rw [Function.update_of_ne hne]
      exact h.get_eq epoll' l hl fd'
  · intro epoll' hl fd'
    change Function.update s.inner epoll (some list') epoll' = none at hl
    rcases eq_or_ne epoll' epoll with rfl | hne
    · rw [Function.update_self] at hl
      exact absurd hl (by simp)
    · rw [Function.update_of_ne hne] at hl
      dsimp only
      rw [Function.update_of_ne hne]
      exact h.eq_none epoll' hl fd'

omit [DecidableEq Γ] in
/-- The interest lists and what is registered depend on no other part of the system. -/
theorem Tracked.congr (h : s.Tracked) (hinner : t.inner = s.inner)
    (hregistered : t.registered = s.registered) : t.Tracked where
  get_eq := by
    rw [hinner, hregistered]
    exact h.get_eq
  eq_none := by
    rw [hinner, hregistered]
    exact h.eq_none

theorem Tracked.run (h : s.Tracked) (ha : a.Enabled s) : (a.run s).Tracked := by
  cases a with
  | create epoll fd => exact h.create ha
  | setFile fd file => exact h.congr rfl rfl
  | setStatus status => exact h.congr rfl rfl
  | ctl epfd op fd event => exact h.ctl
  | startWait thread epfd =>
    rw [EpollStep.run, startWait]
    rcases s.files epfd with _ | epoll
    · exact h
    dsimp only
    cases hinner : s.inner epoll with
    | none => exact h
    | some list => exact h.congr rfl rfl
  | scan thread expired =>
    rw [EpollStep.run]
    rcases s.waits thread with _ | ⟨epoll, events⟩
    · exact h
    dsimp only
    split_ifs
    · exact h.congr rfl rfl
    · exact h

theorem Reached.tracked {ok : EpollSystem Γ → EpollStep Γ → Prop} (h : Reached ok s hist) :
    s.Tracked := by
  induction h with
  | start hinner hwaits hregistered =>
    constructor
    · intro epoll list hlist
      rw [hinner] at hlist
      exact absurd hlist (by simp)
    · intro epoll _ fd
      rw [hregistered]
  | step _ ha _ ih => exact ih.run ha

theorem Reached.right (h : Reached EpollStep.ReportsCurrent s hist) :
    ∀ p ∈ hist, p.1.Right p.2.1 p.2.2 := by
  induction h with
  | start => exact fun p hp ↦ absurd hp List.not_mem_nil
  | step _ _ hok ih =>
    intro p hp
    rcases List.mem_append.mp hp with hp | hp
    · exact ih p hp
    · obtain ⟨q, hq, rfl⟩ := List.mem_map.mp hp
      exact returned_right_iff.mpr hok q hq

/-- **Every event that is returned is right** in a run whose scans report current descriptors only:
it is of a file that is registered, shows what holds of it, and carries the data that was given. The
next step returns right events if and only if what it reports is current. -/
theorem events_right (h : Reached EpollStep.ReportsCurrent s hist) :
    (∀ p ∈ hist, p.1.Right p.2.1 p.2.2) ∧
    (∀ a : EpollStep Γ, (∀ p ∈ a.returned s, s.Right p.1 p.2) ↔ a.ReportsCurrent s) ∧
    ∀ epoll list, s.inner epoll = some list →
      ∀ fd, list.get fd = (s.registered epoll fd).map (·.event) :=
  ⟨h.right, fun _ ↦ returned_right_iff, h.tracked.get_eq⟩

/-! ## Runs of given steps -/

instance (s : EpollSystem Γ) : (a : EpollStep Γ) → Decidable (a.Enabled s)
  | .create epoll _ => inferInstanceAs (Decidable (s.inner epoll = none))
  | .startWait thread _ => inferInstanceAs (Decidable (s.waits thread = none))
  | .setFile .. | .setStatus _ | .ctl .. | .scan .. => inferInstanceAs (Decidable True)

/-- The system after the steps. -/
def after (s : EpollSystem Γ) (steps : List (EpollStep Γ)) : EpollSystem Γ :=
  steps.foldl (fun s a ↦ a.run s) s

/-- Each step can happen after the ones before it. -/
def proceeds : List (EpollStep Γ) → EpollSystem Γ → Bool
  | [], _ => true
  | a :: steps, s => decide (a.Enabled s) && proceeds steps (a.run s)

theorem Reached.of_steps {steps : List (EpollStep Γ)} (h : Reached (fun _ _ ↦ True) s hist)
    (hsteps : proceeds steps s = true) :
    ∃ hist', Reached (fun _ _ ↦ True) (s.after steps) hist' := by
  induction steps generalizing s hist with
  | nil => exact ⟨hist, h⟩
  | cons a steps ih =>
    rw [proceeds, Bool.and_eq_true, decide_eq_true_eq] at hsteps
    exact ih (h.step hsteps.1 trivial) hsteps.2

/-- No file is open, and one of them is ready to read. -/
def closed (readable : ℕ) : EpollSystem ℕ where
  files := fun _ ↦ none
  status := fun file ↦ ⟨false, false, file == readable, false⟩
  inner := fun _ ↦ none
  waits := fun _ ↦ none
  registered := fun _ _ ↦ none

/-- File 7 is opened as descriptor 5 and registered with the data, and a thread waits for it. -/
def watchFive (data : ℕ) : List (EpollStep ℕ) :=
  [.create 100 0, .setFile 5 (some 7), .ctl 0 1 5 (some ⟨.EPOLLIN, data⟩), .startWait 1 0]

/-- The file that is waited for is ready. -/
theorem events_right_watchFive : ∃ hist : List (EpollSystem ℕ × ℕ × EpollEvent), hist ≠ [] ∧
    ∀ p ∈ hist, p.1.Right p.2.1 p.2.2 := by
  let s := (closed 7).after (watchFive 5)
  have hstart : Reached EpollStep.ReportsCurrent (closed 7) [] := .start rfl rfl rfl
  have hwaiting : Reached EpollStep.ReportsCurrent s [] :=
    (((hstart.step (a := .create 100 0) rfl trivial).step
      (a := .setFile 5 (some 7)) trivial trivial).step
      (a := .ctl 0 1 5 (some ⟨.EPOLLIN, 5⟩)) trivial trivial).step (a := .startWait 1 0) rfl trivial
  have hcurrent : (EpollStep.scan 1 false).ReportsCurrent s := by
    intro epoll events hwaits request hrequest _
    have hwait : s.waits 1 = some (100, [⟨.EPOLLIN, 5⟩]) := by decide +kernel
    obtain ⟨rfl, rfl⟩ := Prod.mk.inj (Option.some.inj (hwait.symm.trans hwaits))
    obtain rfl := List.mem_singleton.mp hrequest
    exact ⟨⟨7, ⟨.EPOLLIN, 5⟩⟩, rfl, rfl, Or.inl rfl⟩
  have hscan := hwaiting.step (a := .scan 1 false) trivial hcurrent
  exact ⟨_, by decide +kernel, (events_right hscan).1⟩

/-- Descriptor 5 is closed while the thread waits, and opened again as file 8. When this can be
read, the event is returned under the registration of file 7, which cannot. And if the data that was
given is not the descriptor, another is returned even for file 7. -/
theorem event_of_other_file :
    let s := (closed 8).after (watchFive 5 ++ [.setFile 5 none, .setFile 5 (some 8)])
    let s' := (closed 7).after (watchFive 42)
    ((∃ hist, Reached (fun _ _ ↦ True) s hist) ∧
      (100, ⟨.EPOLLIN, 5⟩) ∈ (EpollStep.scan 1 false).returned s ∧
      (s.status 7).readyToRead = false ∧ ¬ s.Right 100 ⟨.EPOLLIN, 5⟩) ∧
    (∃ hist, Reached (fun _ _ ↦ True) s' hist) ∧
      (100, ⟨.EPOLLIN, 5⟩) ∈ (EpollStep.scan 1 false).returned s' ∧
      ¬ s'.Right 100 ⟨.EPOLLIN, 5⟩ := by
  have hstart : ∀ readable, Reached (fun _ _ ↦ True) (closed readable) [] := fun _ ↦
    .start rfl rfl rfl
  refine ⟨⟨(hstart 8).of_steps (by decide +kernel), by decide +kernel, by decide +kernel, ?_⟩,
    (hstart 7).of_steps (by decide +kernel), by decide +kernel, ?_⟩
  · rintro ⟨r, hr, hfile, -, -⟩
    obtain rfl := Option.some.inj hr
    exact absurd (hfile 8 rfl) (by decide)
  · rintro ⟨r, hr, -, -, hdata⟩
    obtain rfl := Option.some.inj hr
    exact absurd hdata (by decide)

end EpollSystem

end Maturin
