import Maturin.Poll.Epoll
import Maturin.Poll.Select
import Mathlib.Data.Rat.Cast.Order
import Mathlib.Tactic.FieldSimp

/-!
# Timeouts

`sys_ppoll` of `modules/poll` and `sys_pselect6` add the timeout, in ticks, to the clock, and
return zero when the clock has passed the sum. The conversion rounds down and the clock must have
gone past, so this is never early, as long as the sum fits into 64 bits. Otherwise it wraps to the
past, and every return of zero is early.
-/

open Exec

namespace Maturin

/-! ## `ppoll` -/

/-- `PollEvents` -/
abbrev PollEvents := BitVec 16

namespace PollEvents

def IN : PollEvents := 0x0001
def OUT : PollEvents := 0x0004
def ERR : PollEvents := 0x0008
def HUP : PollEvents := 0x0010

def contains (self other : PollEvents) : Bool := self &&& other == other

/-- `poll` of `modules/poll` -/
def poll (file : FileStatus) (events : PollEvents) : PollEvents :=
  (if file.inExceptionalConditions then ERR else 0) |||
  (if file.isHangUp then HUP else 0) |||
  (if events.contains IN && file.readyToRead then IN else 0) |||
  (if events.contains OUT && file.readyToWrite then OUT else 0)

end PollEvents

/-- `PollFd`; the descriptor is an `i32`. -/
structure PollFd where
  fd : BitVec 32
  events : PollEvents
  revents : PollEvents
  deriving DecidableEq

namespace PollFd

/-- `size_of::<PollFd>()` -/
abbrev SIZE : ℕ := 8

def read (mem : ByteMem) (addr : ℕ) : PollFd :=
  ⟨BitVec.ofNat 32 (mem.load 4 addr), BitVec.ofNat 16 (mem.load 2 (addr + 4)),
    BitVec.ofNat 16 (mem.load 2 (addr + 6))⟩

def write (self : PollFd) (addr : ℕ) (mem : ByteMem) : ByteMem :=
  ByteMem.store 2 (addr + 6) self.revents.toNat (ByteMem.store 2 (addr + 4) self.events.toNat
    (ByteMem.store 4 addr self.fd.toNat mem))

/-- What a scan makes of a request, where `files` are the open files. -/
def request (files : ℕ → Option FileStatus) (self : PollFd) : PollFd :=
  match files (self.fd.signExtend 64).toNat with
  | some file => { self with revents := PollEvents.poll file self.events }
  | none => { self with revents := PollEvents.ERR }

end PollFd

/-- The open files in a scan of `ppoll`, and the clock after it. -/
structure PpollScan where
  files : ℕ → Option FileStatus
  now : ℕ

/-- `ppoll`, with the number of the scan that ended it; `none` if no scan does within the fuel. -/
def ppoll (expireTime : ℕ) (scans : ℕ → PpollScan) :
    ℕ → ℕ → List PollFd → Option (ℕ × List PollFd × ℕ)
  | 0, _, _ => none
  | fuel + 1, i, fds =>
    let fds := fds.map (PollFd.request (scans i).files)
    let set := (fds.filter fun fd ↦ fd.revents != 0).length
    if 0 < set then some (set, fds, i)
    else if expireTime < (scans i).now then some (0, fds, i)
    else ppoll expireTime scans fuel (i + 1) fds

/-- The timeout at an address -/
def TimeSpec.read (mem : ByteMem) (addr : ℕ) : TimeSpec := ⟨mem.load 8 addr, mem.load 8 (addr + 8)⟩

/-- `sys_ppoll`, called when the clock shows `now`. -/
def sysPpoll (isUser : ℕ → ℕ → Bool) (ufds nfds timeout now : ℕ) (scans : ℕ → PpollScan)
    (fuel : ℕ) : EStateM ErrorNo ByteMem (Option (ℕ × ℕ)) := do
  if !isUser ufds (wsub (wadd ufds (nfds * PollFd.SIZE)) 1) then throw .EFAULT
  else
    let mem ← get
    let fds := (List.range nfds).map fun i ↦ PollFd.read mem (ufds + i * PollFd.SIZE)
    if timeout ≠ 0 ∧ !isUser timeout (timeout + 15) then throw .EFAULT
    else
      let expireTime :=
        if timeout ≠ 0 then wadd now (TimeSpec.read mem timeout).getTicks else 2 ^ 64 - 1
      match ppoll expireTime scans fuel 0 fds with
      | some (set, fds, i) =>
        modify fun mem ↦ fds.zipIdx.foldl (fun mem p ↦ p.1.write (ufds + p.2 * PollFd.SIZE) mem) mem
        pure (some (set, i))
      | none => pure none

/-! ## Deadlines -/

namespace TimeSpec

/-- The time in ticks, which need not be a whole number. -/
def ticks (self : TimeSpec) : ℚ := self.tvSec * CLOCK_FREQ + self.tvNsec * CLOCK_FREQ / NSEC_PER_SEC

/-- At `t` the time has passed since `t₀`. -/
def Passed (self : TimeSpec) (t₀ t : ℕ) : Prop := t₀ + self.ticks ≤ t

/-- The deadline for a call at `t₀` is a number of 64 bits. -/
def Fits (self : TimeSpec) (t₀ : ℕ) : Prop :=
  t₀ + (self.tvSec * CLOCK_FREQ + self.tvNsec / NSEC_PER_MACHINE_TICKS) < 2 ^ 64

variable {self : TimeSpec} {t₀ t : ℕ}

theorem passed_iff : self.Passed t₀ t ↔
    (t₀ + self.tvSec * CLOCK_FREQ) * NSEC_PER_MACHINE_TICKS + self.tvNsec ≤
      t * NSEC_PER_MACHINE_TICKS := by
  have hticks : self.ticks = (self.tvSec * CLOCK_FREQ * NSEC_PER_MACHINE_TICKS + self.tvNsec : ℕ) /
      (NSEC_PER_MACHINE_TICKS : ℕ) := by
    rw [ticks]
    push_cast
    field_simp
    norm_num
    ring
  have hpos : (0 : ℚ) < (NSEC_PER_MACHINE_TICKS : ℕ) := by norm_num
  rw [Passed, hticks, ← le_sub_iff_add_le', div_le_iff₀ hpos, sub_mul, le_sub_iff_add_le',
    ← Nat.cast_mul, ← Nat.cast_mul, ← Nat.cast_add, Nat.cast_le]
  rw [Nat.add_mul, Nat.add_assoc]

/-- A clock that has gone past the deadline shows that the time has passed if and only if the
deadline fits. -/
theorem passed_iff_fits (hpast : wadd t₀ self.getTicks < t) (ht : t < 2 ^ 64) :
    self.Passed t₀ t ↔ self.Fits t₀ := by
  rw [passed_iff, Fits]
  rw [wadd, getTicks, Nat.add_mod_mod] at hpast
  -- what rounding cuts off is less than a tick
  have htick : NSEC_PER_MACHINE_TICKS = 80 := rfl
  rw [htick] at hpast ⊢
  generalize self.tvSec * CLOCK_FREQ = seconds at hpast ⊢
  constructor
  · intro hpassed
    omega
  · intro hfits
    rw [Nat.mod_eq_of_lt hfits] at hpast
    omega

end TimeSpec

/-! ## Runs -/

variable {Γ : Type} {getFile : ℕ → Option Γ} {isUser : ℕ → ℕ → Bool} {addr : PollFor → ℕ}
  {nfds ufds timeout now fuel expireTime i : ℕ} {scans : ℕ → Scan Γ} {mem mem' : ByteMem}

/-- The loop returns zero when the clock has passed the deadline. -/
theorem wp_pselectLoop_zero {r w e : List (ℕ × Γ) × ShadowBitset} :
    wp (pselectLoop r w e expireTime scans fuel i)
      (fun res _ ↦ ∀ j, res = some (0, j) → expireTime < (scans j).now) anyPanic mem := by
  induction fuel generalizing i mem with
  | zero => exact fun j h ↦ by cases h
  | succ fuel ih =>
    rw [pselectLoop]
    refine wp_bind_of_forall fun set₁ mem₁ ↦ ?_
    refine wp_bind_of_forall fun set₂ mem₂ ↦ ?_
    refine wp_bind_of_forall fun set₃ mem₃ ↦ ?_
    split_ifs with hpos hexpired
    · intro j h
      cases h
      exact absurd hpos (lt_irrefl 0)
    · intro j h
      cases h
      exact hexpired
    · exact ih

/-- What a call of `pselect` that returns zero has seen: there is a timeout, and the clock has gone
past it. -/
theorem wp_sysPselect6_zero : wp (sysPselect6 getFile isUser nfds addr timeout now scans fuel)
    (fun res _ ↦ ∀ j, res = some (0, j) → (scans j).now < 2 ^ 64 → timeout ≠ 0 ∧
      wadd now (TimeSpec.read (cleared addr nfds mem) timeout).getTicks < (scans j).now)
    anyPanic mem := by
  refine wp_sysPselect6_of_loop fun sets _ _ ↦
    wp_imp wp_pselectLoop_zero fun res _ h j hres hlt ↦ ?_
  have hpast := h j hres
  rw [selectDeadline] at hpast
  split_ifs at hpast with hzero
  · -- no clock goes past the largest number
    omega
  · exact ⟨hzero, hpast⟩

theorem ppoll_zero {scans : ℕ → PpollScan} {fds fds' : List PollFd} {j : ℕ}
    (h : ppoll expireTime scans fuel i fds = some (0, fds', j)) : expireTime < (scans j).now := by
  induction fuel generalizing i fds with
  | zero => cases h
  | succ fuel ih =>
    rw [ppoll] at h
    split_ifs at h with hpos hexpired
    · rw [Option.some.injEq, Prod.mk.injEq] at h
      rw [h.1] at hpos
      exact absurd hpos (lt_irrefl 0)
    · cases h
      exact hexpired
    · exact ih h

/-- What a call of `ppoll` that returns zero has seen -/
theorem wp_sysPpoll_zero {scans : ℕ → PpollScan} :
    wp (sysPpoll isUser ufds nfds timeout now scans fuel)
      (fun res _ ↦ ∀ j, res = some (0, j) → (scans j).now < 2 ^ 64 → timeout ≠ 0 ∧
        wadd now (TimeSpec.read mem timeout).getTicks < (scans j).now) anyPanic mem := by
  rw [sysPpoll]
  by_cases huser : (!isUser ufds (wsub (wadd ufds (nfds * PollFd.SIZE)) 1)) = true
  · rw [if_pos huser]
    trivial
  rw [if_neg huser, wp_bind, wp_get]
  by_cases htimeout : timeout ≠ 0 ∧ (!isUser timeout (timeout + 15)) = true
  · rw [if_pos htimeout]
    trivial
  rw [if_neg htimeout]
  dsimp only
  generalize (List.range nfds).map (fun i ↦ PollFd.read mem (ufds + i * PollFd.SIZE)) = fds
  cases hrun : ppoll (if timeout ≠ 0 then wadd now (TimeSpec.read mem timeout).getTicks
      else 2 ^ 64 - 1) scans fuel 0 fds with
  | none => exact fun j h ↦ by cases h
  | some r =>
    intro j hres hlt
    obtain ⟨set, fds', i⟩ := r
    obtain ⟨rfl, rfl⟩ := Prod.mk.inj (Option.some.inj hres)
    have hpast := ppoll_zero hrun
    split_ifs at hpast with hne
    · exact ⟨hne, hpast⟩
    · dsimp only at hlt
      -- no clock goes past the largest number
      omega

/-- **Which timeouts are waited for.** A call of `pselect` or `ppoll` that returns zero has a
timeout, and returns when it has passed if and only if the deadline fits into 64 bits. The timeout
of `pselect` is read after the arrays were cleared. -/
theorem timeouts_pass_iff :
    (∀ (getFile : ℕ → Option Γ) (isUser : ℕ → ℕ → Bool) (nfds : ℕ) (addr : PollFor → ℕ)
      (timeout now : ℕ) (scans : ℕ → Scan Γ) (fuel i : ℕ) (mem mem' : ByteMem),
      (sysPselect6 getFile isUser nfds addr timeout now scans fuel).run mem =
          .ok (some (0, i)) mem' → (scans i).now < 2 ^ 64 →
        timeout ≠ 0 ∧ ((TimeSpec.read (cleared addr nfds mem) timeout).Passed now (scans i).now ↔
          (TimeSpec.read (cleared addr nfds mem) timeout).Fits now)) ∧
    ∀ (isUser : ℕ → ℕ → Bool) (ufds nfds timeout now : ℕ) (scans : ℕ → PpollScan) (fuel i : ℕ)
      (mem mem' : ByteMem),
      (sysPpoll isUser ufds nfds timeout now scans fuel).run mem = .ok (some (0, i)) mem' →
        (scans i).now < 2 ^ 64 →
        timeout ≠ 0 ∧ ((TimeSpec.read mem timeout).Passed now (scans i).now ↔
          (TimeSpec.read mem timeout).Fits now) := by
  constructor
  · intro getFile isUser nfds addr timeout now scans fuel i mem mem' hrun hlt
    obtain ⟨hne, hpast⟩ := wp_ok wp_sysPselect6_zero hrun i rfl hlt
    exact ⟨hne, TimeSpec.passed_iff_fits hpast hlt⟩
  · intro isUser ufds nfds timeout now scans fuel i mem mem' hrun hlt
    obtain ⟨hne, hpast⟩ := wp_ok wp_sysPpoll_zero hrun i rfl hlt
    exact ⟨hne, TimeSpec.passed_iff_fits hpast hlt⟩

/-! ## Two timeouts -/

/-- A timeout of some seconds -/
def sleepFor (seconds : ℕ) : ByteMem := ByteMem.store 8 0x3000 seconds fun _ ↦ 0

/-- One scan of no files, until `t`. -/
def idleUntil (t : ℕ) : (ℕ → Scan Unit) × (ℕ → PpollScan) :=
  (fun _ ↦ ⟨fun _ _ _ ↦ false, t⟩, fun _ ↦ ⟨fun _ ↦ none, t⟩)

/-- A second has passed when both return. -/
theorem timeouts_pass_second :
    (TimeSpec.read (cleared (fun _ ↦ 0) 0 (sleepFor 1)) 0x3000).Passed 0 20000000 ∧
      (TimeSpec.read (sleepFor 1) 0x3000).Passed 0 20000000 := by
  obtain ⟨r, mem', hselect, hr⟩ := exists_of_returns (show returns (sysPselect6
    (fun _ ↦ (none : Option Unit)) (fun _ _ ↦ true) 0 (fun _ ↦ 0) 0x3000 0 (idleUntil 20000000).1 1)
      (sleepFor 1) (fun r _ ↦ r == some (0, 0)) = true by decide +kernel)
  obtain ⟨r', mem'', hpoll, hr'⟩ := exists_of_returns (show returns (sysPpoll
    (fun _ _ ↦ true) 0x1000 0 0x3000 0 (idleUntil 20000000).2 1) (sleepFor 1)
      (fun r _ ↦ r == some (0, 0)) = true by decide +kernel)
  rw [beq_iff_eq] at hr hr'
  subst hr hr'
  have hfits : (TimeSpec.read (sleepFor 1) 0x3000).Fits 0 := by
    rw [TimeSpec.Fits]
    decide +kernel
  exact ⟨((timeouts_pass_iff.1 _ _ _ _ _ _ _ _ _ _ _ hselect (by decide)).2).mpr hfits,
    ((timeouts_pass_iff (Γ := Unit)).2 _ _ _ _ _ _ _ _ _ _ hpoll (by decide)).2.mpr hfits⟩

/-- The deadline of more than 40000 years wraps, and both return within a quarter of a second. -/
theorem timeouts_wrap : (sleepFor 1475739525897).load 8 0x3000 = 1475739525897 ∧
    returns (sysPselect6 (fun _ ↦ (none : Option Unit)) (fun _ _ ↦ true) 0 (fun _ ↦ 0) 0x3000 0
      (idleUntil 3000000).1 1) (sleepFor 1475739525897) (fun r _ ↦ r == some (0, 0)) = true ∧
    returns (sysPpoll (fun _ _ ↦ true) 0x1000 0 0x3000 0 (idleUntil 3000000).2 1)
      (sleepFor 1475739525897) (fun r _ ↦ r == some (0, 0)) = true ∧
    ¬ (TimeSpec.read (sleepFor 1475739525897) 0x3000).Passed 0 3000000 := by
  refine ⟨by decide +kernel, by decide +kernel, by decide +kernel, fun h ↦ ?_⟩
  rw [TimeSpec.passed_iff] at h
  exact absurd h (by decide +kernel)

end Maturin
