import Maturin.Base.Addr
import Maturin.Lib.Bytes
import Maturin.Lib.Exec
import Maturin.Poll.Epoll

/-!
# The buffer of `epoll_wait`

`sys_epoll_wait` checks that the first slot of the user's array is mapped, waits, and writes all the
events that a scan found, one slot each. It does not look at `maxevents`.
-/

open Exec

namespace Maturin

/-- The two fields, which are all that is written of the 16 bytes of a slot; `data` is a `u64`. -/
def EpollEvent.write (self : EpollEvent) (addr : ℕ) (mem : ByteMem) : ByteMem :=
  ByteMem.store 8 (addr + 8) (self.data % 2 ^ 64) (ByteMem.store 4 addr self.events.toNat mem)

/-- The events in consecutive slots -/
def writeEvents (addr : ℕ) : List EpollEvent → ByteMem → ByteMem
  | [], mem => mem
  | event :: events, mem => writeEvents (addr + 16) events (event.write addr mem)

namespace EpollSystem

variable {Γ : Type}

/-- The loop of `epoll_wait` with the number of the scan that ended it; `none` if no scan does
within the fuel. A scan finds the system in a new state, and the clock after it shows
milliseconds. -/
def epollWait (events : List EpollEvent) (expireTime : ℕ) (scans : ℕ → EpollSystem Γ × ℕ) :
    ℕ → ℕ → Option (List EpollEvent × ℕ)
  | 0, _ => none
  | fuel + 1, i =>
    let retEvents := (scans i).1.scan events
    if retEvents ≠ [] then some (retEvents, i)
    else if expireTime < (scans i).2 then some ([], i)
    else epollWait events expireTime scans fuel (i + 1)

/-- `sys_epoll_wait`, called in the state `s` when the clock shows `now`. -/
def sysEpollWait (isUser : ℕ → ℕ → Bool) (s : EpollSystem Γ) (epfd event _maxevents : ℕ)
    (timeout : ℤ) (now : ℕ) (scans : ℕ → EpollSystem Γ × ℕ) (fuel : ℕ) :
    EStateM ErrorNo ByteMem (Option (ℕ × ℕ)) :=
  if !isUser event (event + 15) then throw .EFAULT
  else match (s.files epfd).bind s.inner with
    | none => throw .EBADF
    | some list => do
      let expireTime := if 0 ≤ timeout then wadd now timeout.toNat else 2 ^ 64 - 1
      match epollWait list.getEpollEvents expireTime scans fuel 0 with
      | some (retEvents, i) =>
        modify (writeEvents event retEvents)
        pure (some (retEvents.length, i))
      | none => pure none

end EpollSystem

/-! ## What is written -/

variable {addr x : ℕ} {mem mem' : ByteMem} {event : EpollEvent} {events : List EpollEvent}

theorem EpollEvent.write_of_notMem (hx : x < addr ∨ addr + 16 ≤ x) :
    event.write addr mem x = mem x := by
  rw [EpollEvent.write, ByteMem.store_of_notMem (by omega), ByteMem.store_of_notMem (by omega)]

theorem writeEvents_of_notMem (hx : x < addr ∨ addr + 16 * events.length ≤ x) :
    writeEvents addr events mem x = mem x := by
  induction events generalizing addr mem with
  | nil => rfl
  | cons event events ih =>
    rw [List.length_cons] at hx
    rw [writeEvents, ih (by omega), EpollEvent.write_of_notMem (by omega)]

/-- The slot holds the event. -/
def EpollEvent.At (event : EpollEvent) (addr : ℕ) (mem : ByteMem) : Prop :=
  mem.load 4 addr = event.events.toNat ∧ mem.load 8 (addr + 8) = event.data % 2 ^ 64

theorem EpollEvent.at_write : event.At addr (event.write addr mem) := by
  constructor
  · rw [EpollEvent.write, ByteMem.load_store_of_disjoint (by omega), ByteMem.load_store]
    exact event.events.isLt
  · rw [EpollEvent.write, ByteMem.load_store]
    exact Nat.mod_lt _ (by norm_num)

theorem EpollEvent.At.congr (h : event.At addr mem)
    (heq : ∀ x, addr ≤ x → x < addr + 16 → mem' x = mem x) : event.At addr mem' := by
  constructor
  · rw [ByteMem.load_congr fun x hl hr ↦ heq x hl (by omega)]
    exact h.1
  · rw [ByteMem.load_congr fun x hl hr ↦ heq x (by omega) (by omega)]
    exact h.2

/-- Each slot holds its event. -/
theorem at_writeEvents {k : ℕ} (h : events[k]? = some event) :
    event.At (addr + 16 * k) (writeEvents addr events mem) := by
  induction events generalizing addr mem k with
  | nil => cases h
  | cons first events ih =>
    rw [writeEvents]
    cases k with
    | zero =>
      cases h
      apply EpollEvent.at_write.congr
      exact fun x _ hx ↦ writeEvents_of_notMem (Or.inl hx)
    | succ k =>
      rw [show addr + 16 * (k + 1) = addr + 16 + 16 * k from by omega]
      exact ih h

/-- The last byte that is written does not depend on the memory. -/
theorem writeEvents_last (hne : events ≠ []) :
    writeEvents addr events mem (addr + 16 * events.length - 1) =
      writeEvents addr events mem' (addr + 16 * events.length - 1) := by
  induction events generalizing addr mem mem' with
  | nil => exact absurd rfl hne
  | cons event events ih =>
    rw [writeEvents, writeEvents]
    cases events with
    | nil =>
      apply ByteMem.store_congr
      rw [List.length_singleton]
      omega
    | cons next events =>
      have hlast : writeEvents (addr + 16) (next :: events) (event.write addr mem)
            (addr + 16 + 16 * (next :: events).length - 1) =
          writeEvents (addr + 16) (next :: events) (event.write addr mem')
            (addr + 16 + 16 * (next :: events).length - 1) := ih (List.cons_ne_nil _ _)
      rw [List.length_cons] at hlast ⊢
      rwa [show addr + 16 * ((next :: events).length + 1) - 1 =
        addr + 16 + 16 * (events.length + 1) - 1 from by rw [List.length_cons]; omega]

/-! ## The call -/

/-- The check of the slot at `event` covers the pages that it meets. -/
def CheckedSlot (event x : ℕ) : Prop :=
  event / PAGE_SIZE ≤ x / PAGE_SIZE ∧ x / PAGE_SIZE ≤ (event + 15) / PAGE_SIZE

/-- The call returns the number of the events, no more than `maxevents`, and writes them to the
slots from `event` on; what it changes is in these slots, in the user's array, and on checked
pages. -/
structure WritesEvents (event maxevents n : ℕ) (events : List EpollEvent) (mem mem' : ByteMem) :
    Prop where
  count : n = events.length
  le_maxevents : n ≤ maxevents
  slots : ∀ (k : ℕ) (evt : EpollEvent), events[k]? = some evt → evt.At (event + 16 * k) mem'
  only : ∀ x, mem' x ≠ mem x → event ≤ x ∧ x < event + 16 * n
  inArray : ∀ x, mem' x ≠ mem x → x < event + 16 * maxevents
  checked : ∀ x, mem' x ≠ mem x → CheckedSlot event x

namespace EpollSystem

variable {Γ : Type} {isUser : ℕ → ℕ → Bool} {s : EpollSystem Γ} {list : InterestList}
  {scans : ℕ → EpollSystem Γ × ℕ} {events evs : List EpollEvent}
  {epfd event maxevents now expireTime fuel n i j : ℕ} {timeout : ℤ} {mem mem' : ByteMem}

/-- The deadline of a call -/
def deadline (timeout : ℤ) (now : ℕ) : ℕ :=
  if 0 ≤ timeout then wadd now timeout.toNat else 2 ^ 64 - 1

/-- However long it takes and whatever is in memory, a call that returns writes the events of its
last scan. -/
def RespectsBuffer (isUser : ℕ → ℕ → Bool) (s : EpollSystem Γ) (epfd event maxevents : ℕ)
    (timeout : ℤ) (now : ℕ) (scans : ℕ → EpollSystem Γ × ℕ) : Prop :=
  ∀ fuel n i mem mem',
    (sysEpollWait isUser s epfd event maxevents timeout now scans fuel).run mem =
        .ok (some (n, i)) mem' →
      ∀ list, (s.files epfd).bind s.inner = some list →
        WritesEvents event maxevents n ((scans i).1.scan list.getEpollEvents) mem mem'

/-- The descriptor of the request is closed, or an event happens that it asks for. -/
def reports (s : EpollSystem Γ) (request : EpollEvent) : Bool :=
  match s.files request.data with
  | some file => poll (s.status file) request.events != 0
  | none => true

/-- The scans before do not end the loop. -/
def Waits (events : List EpollEvent) (expireTime : ℕ) (scans : ℕ → EpollSystem Γ × ℕ) (i : ℕ) :
    Prop :=
  ∀ j < i, events.countP (scans j).1.reports = 0 ∧ (scans j).2 ≤ expireTime

theorem length_scan : (s.scan events).length = events.countP s.reports := by
  rw [scan, List.length_filterMap_eq_countP]
  refine List.countP_congr fun request _ ↦ ?_
  rw [reports]
  cases s.files request.data with
  | none => rfl
  | some file =>
    dsimp only
    split_ifs with h
    · simpa using h
    · simpa using h

theorem scan_eq_nil_iff : s.scan events = [] ↔ events.countP s.reports = 0 := by
  rw [← length_scan, List.length_eq_zero_iff]

/-- The loop ends with the events of a scan that it reaches. -/
theorem eq_scan_of_epollWait (h : epollWait events expireTime scans fuel j = some (evs, i)) :
    evs = (scans i).1.scan events ∧ j ≤ i ∧
      ∀ k, j ≤ k → k < i → events.countP (scans k).1.reports = 0 ∧ (scans k).2 ≤ expireTime := by
  induction fuel generalizing j with
  | zero => cases h
  | succ fuel ih =>
    rw [epollWait] at h
    split_ifs at h with hsome hexpired
    · cases h
      exact ⟨rfl, le_rfl, fun k hk hlt ↦ absurd hk (Nat.not_le.mpr hlt)⟩
    · cases h
      exact ⟨(not_not.mp hsome).symm, le_rfl, fun k hk hlt ↦ absurd hk (Nat.not_le.mpr hlt)⟩
    · obtain ⟨hevs, hle, hwaits⟩ := ih h
      refine ⟨hevs, by omega, fun k hk hlt ↦ ?_⟩
      rcases eq_or_ne k j with rfl | hne
      · exact ⟨scan_eq_nil_iff.mp (not_not.mp hsome), Nat.le_of_not_lt hexpired⟩
      · exact hwaits k (by omega) hlt

/-- A scan that reports something ends the loop if the loop reaches it. -/
theorem epollWait_of_waits (hle : j ≤ i)
    (hwaits : ∀ k, j ≤ k → k < i → events.countP (scans k).1.reports = 0 ∧
      (scans k).2 ≤ expireTime) (hcount : events.countP (scans i).1.reports ≠ 0) :
    ∃ fuel, epollWait events expireTime scans fuel j = some ((scans i).1.scan events, i) := by
  obtain ⟨d, rfl⟩ := Nat.exists_eq_add_of_le hle
  induction d generalizing j with
  | zero =>
    refine ⟨1, ?_⟩
    rw [epollWait, Nat.add_zero]
    exact if_pos fun hnil ↦ hcount (scan_eq_nil_iff.mp hnil)
  | succ d ih =>
    obtain ⟨hzero, hlt⟩ := hwaits j le_rfl (by omega)
    have hnext : j + (d + 1) = j + 1 + d := by omega
    rw [hnext] at hwaits hcount ⊢
    obtain ⟨fuel, hfuel⟩ := ih (by omega) (fun k hk ↦ hwaits k (by omega)) hcount
    refine ⟨fuel + 1, ?_⟩
    rw [epollWait, if_neg (not_not.mpr (scan_eq_nil_iff.mpr hzero)), if_neg (Nat.not_lt.mpr hlt),
      hfuel]

/-- What a call that returns has done -/
theorem sysEpollWait_eq_ok : (sysEpollWait isUser s epfd event maxevents timeout now scans fuel).run
      mem = .ok (some (n, i)) mem' ↔
    isUser event (event + 15) = true ∧ ∃ list, (s.files epfd).bind s.inner = some list ∧
      ∃ evs, epollWait list.getEpollEvents (deadline timeout now) scans fuel 0 = some (evs, i) ∧
        n = evs.length ∧ mem' = writeEvents event evs mem := by
  rw [sysEpollWait]
  cases isUser event (event + 15) with
  | false => exact iff_of_false (fun h ↦ nomatch h) (by simp)
  | true =>
    rw [if_neg (by simp), and_iff_right rfl]
    cases (s.files epfd).bind s.inner with
    | none => exact iff_of_false (fun h ↦ nomatch h) (by simp)
    | some list =>
      simp only [Option.some.injEq, exists_eq_left']
      rw [deadline]
      cases epollWait list.getEpollEvents (if 0 ≤ timeout then wadd now timeout.toNat
          else 2 ^ 64 - 1) scans fuel 0 with
      | none => exact iff_of_false (fun h ↦ nomatch h) (by simp)
      | some r =>
        obtain ⟨evs, j⟩ := r
        constructor
        · intro h
          cases h
          exact ⟨evs, rfl, rfl, rfl⟩
        · rintro ⟨_, hr, rfl, rfl⟩
          cases hr
          rfl

/-- **When the buffer is respected.** The scan that ends the call, if its first slot is the user's,
reports at most `maxevents` requests, and their slots end on the page where the first slot ends. -/
theorem epollWait_respectsBuffer_iff :
    RespectsBuffer isUser s epfd event maxevents timeout now scans ↔
    (isUser event (event + 15) = true → ∀ list, (s.files epfd).bind s.inner = some list → ∀ i,
      Waits list.getEpollEvents (deadline timeout now) scans i →
        list.getEpollEvents.countP (scans i).1.reports ≤ maxevents ∧
          (event + 16 * list.getEpollEvents.countP (scans i).1.reports - 1) / PAGE_SIZE ≤
            (event + 15) / PAGE_SIZE) := by
  constructor
  · intro h huser list hlist i hwaits
    rcases eq_or_ne (list.getEpollEvents.countP (scans i).1.reports) 0 with hzero | hcount
    · rw [hzero]
      exact ⟨Nat.zero_le _, Nat.div_le_div_right (by omega)⟩
    obtain ⟨fuel, hrun⟩ := epollWait_of_waits (Nat.zero_le i) (fun k _ hk ↦ hwaits k hk) hcount
    have hne : (scans i).1.scan list.getEpollEvents ≠ [] := fun hnil ↦
      hcount (scan_eq_nil_iff.mp hnil)
    rw [← length_scan]
    generalize (scans i).1.scan list.getEpollEvents = evs at hrun hne
    -- memory in which the last byte of the last slot is changed
    let last := writeEvents event evs (fun _ ↦ 0) (event + 16 * evs.length - 1)
    have hwritten := h fuel evs.length i (fun _ ↦ last + 1) _
      (sysEpollWait_eq_ok.mpr ⟨huser, list, hlist, evs, hrun, rfl, rfl⟩) list hlist
    refine ⟨hwritten.le_maxevents, (hwritten.checked (event + 16 * evs.length - 1) ?_).2⟩
    have hlast : writeEvents event evs (fun _ ↦ last + 1) (event + 16 * evs.length - 1) = last :=
      writeEvents_last hne
    rw [hlast]
    exact fun heq ↦ absurd (UInt8.left_eq_add.mp heq) (by decide)
  · intro h fuel n i mem mem' hrun list hlist
    obtain ⟨huser, list', hlist', evs, hwait, rfl, rfl⟩ := sysEpollWait_eq_ok.mp hrun
    obtain rfl := Option.some.inj (hlist.symm.trans hlist')
    obtain ⟨rfl, -, hwaits⟩ := eq_scan_of_epollWait hwait
    obtain ⟨hmax, hpage⟩ := h huser list hlist i fun k hk ↦ hwaits k (Nat.zero_le k) hk
    rw [← length_scan] at hmax hpage
    generalize (scans i).1.scan list.getEpollEvents = evs at hmax hpage
    have honly : ∀ x, writeEvents event evs mem x ≠ mem x →
        event ≤ x ∧ x < event + 16 * evs.length := by
      intro x hx
      by_contra hout
      exact hx (writeEvents_of_notMem (by omega))
    constructor
    · rfl
    · exact hmax
    · exact fun k evt hk ↦ at_writeEvents hk
    · exact honly
    · intro x hx
      have hin := honly x hx
      omega
    · intro x hx
      have hin := honly x hx
      exact ⟨Nat.div_le_div_right hin.1, (Nat.div_le_div_right (by omega)).trans hpage⟩

/-! ## Two ready files -/

/-- Epoll file 100 is descriptor 0, and both descriptors that are registered in it are ready. -/
def twoReady : EpollSystem ℕ :=
  (closed 7).after [.create 100 0, .setFile 5 (some 7), .setFile 6 (some 7),
    .ctl 0 1 5 (some ⟨.EPOLLIN, 5⟩), .ctl 0 1 6 (some ⟨.EPOLLIN, 6⟩)]

/-- The array of the user is the last slot of a page. The call returns two events where one was
asked for, and the second is written to a page that is not mapped. -/
theorem not_respectsBuffer :
    returns (sysEpollWait (fun first last ↦ first / PAGE_SIZE == 1 && last / PAGE_SIZE == 1)
      twoReady 0 0x1ff0 1 0 0 (fun _ ↦ (twoReady, 0)) 1) (fun _ ↦ 0)
      (fun r mem ↦ r == some (2, 0) && mem 0x2000 == 1) = true ∧
    ¬ RespectsBuffer (fun first last ↦ first / PAGE_SIZE == 1 && last / PAGE_SIZE == 1) twoReady
      0 0x1ff0 1 0 0 (fun _ ↦ (twoReady, 0)) := by
  refine ⟨by decide +kernel, fun h ↦ ?_⟩
  obtain ⟨r, mem', hrun, hr⟩ := exists_of_returns (show returns (sysEpollWait
    (fun first last ↦ first / PAGE_SIZE == 1 && last / PAGE_SIZE == 1) twoReady
      0 0x1ff0 1 0 0 (fun _ ↦ (twoReady, 0)) 1) (fun _ ↦ 0) (fun r _ ↦ r == some (2, 0)) = true
    by decide +kernel)
  rw [beq_iff_eq] at hr
  subst hr
  have hle := (h _ _ _ _ _ hrun _ rfl).le_maxevents
  exact absurd hle (by decide)

end EpollSystem

end Maturin
