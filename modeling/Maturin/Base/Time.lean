import Mathlib.Algebra.Order.Group.Nat
import Mathlib.Data.Nat.Notation
import Mathlib.Tactic.Common

/-!
# Times

The formats in which the user gives a time, from `modules/timer`. The kernel counts microseconds or
ticks of the machine's clock in a `usize`, and conversions wrap.
-/

namespace Maturin

/-- Ticks of the machine's clock in a second. -/
abbrev CLOCK_FREQ : ℕ := 12500000

/-- Microseconds in a second. -/
abbrev USEC_PER_SEC : ℕ := 1000000

/-- Nanoseconds in a second. -/
abbrev NSEC_PER_SEC : ℕ := 1000000000

/-- Nanoseconds in a tick. -/
abbrev NSEC_PER_MACHINE_TICKS : ℕ := NSEC_PER_SEC / CLOCK_FREQ

/-- Ticks of the machine's clock in a microsecond: not exact, as `CLOCK_FREQ` is no multiple. -/
abbrev MACHINE_TICKS_PER_USEC : ℕ := CLOCK_FREQ / USEC_PER_SEC

/-- `TimeVal` -/
structure TimeVal where
  sec : ℕ
  usec : ℕ
  deriving DecidableEq, Repr

/-- `TimeSpec` -/
structure TimeSpec where
  tvSec : ℕ
  tvNsec : ℕ
  deriving DecidableEq, Repr

namespace TimeVal

/-- `From<usize>` -/
def ofUsize (usec : ℕ) : TimeVal := ⟨usec / USEC_PER_SEC, usec % USEC_PER_SEC⟩

/-- `Into<usize>`, where the product and the sum wrap. -/
def toUsize (self : TimeVal) : ℕ := (self.sec * USEC_PER_SEC + self.usec) % 2 ^ 64

/-- `From<TimeSpec>`, which takes the nanoseconds for thousands of them. -/
def ofTimeSpec (spec : TimeSpec) : TimeVal := ⟨spec.tvSec, spec.tvNsec / USEC_PER_SEC⟩

theorem toUsize_of_lt {self : TimeVal} (h : self.sec * USEC_PER_SEC + self.usec < 2 ^ 64) :
    self.toUsize = self.sec * USEC_PER_SEC + self.usec := Nat.mod_eq_of_lt h

end TimeVal

/-- `get_time_us` when the machine's clock shows `now`. -/
def getTimeUs (now : ℕ) : ℕ := now / MACHINE_TICKS_PER_USEC

/-- `get_ticks` -/
def TimeSpec.getTicks (self : TimeSpec) : ℕ :=
  (self.tvSec * CLOCK_FREQ + self.tvNsec / NSEC_PER_MACHINE_TICKS) % 2 ^ 64

/-- `ITimerVal` -/
structure ITimerVal where
  itInterval : TimeVal
  itValue : TimeVal
  deriving DecidableEq, Repr

end Maturin
