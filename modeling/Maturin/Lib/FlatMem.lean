import Maturin.Lib.Bytes

/-!
# Runs of a flat memory

A run is a list of accesses, each with the bytes that it read or wrote. In a flat memory a read
returns, for every address, the byte that was written there last, and the initial one where nothing
was written. So what a run reads depends on its writes alone.
-/

/-- An access to a range of bytes, with the bytes that were read or written. -/
inductive MemEvent
  | read (start : ℕ) (bytes : List UInt8)
  | write (start : ℕ) (bytes : List UInt8)

namespace MemEvent

/-- The byte that the access writes at an address. -/
def writes : MemEvent → ℕ → Option UInt8
  | read _ _, _ => none
  | write start bytes, x => if start ≤ x then bytes[x - start]? else none

/-- The memory after the access. -/
def apply : MemEvent → ByteMem → ByteMem
  | read _ _, m => m
  | write start bytes, m => m.writeBytes start bytes

/-- A read returns what the memory holds. -/
def Agrees : MemEvent → ByteMem → Prop
  | read start bytes, m => bytes = m.readBytes start bytes.length
  | write _ _, _ => True

theorem apply_eq (e : MemEvent) (m : ByteMem) (x : ℕ) : e.apply m x = (e.writes x).getD (m x) := by
  cases e with
  | read start bytes => rfl
  | write start bytes =>
    rw [apply, ByteMem.writeBytes, writes]
    split_ifs <;> rfl

end MemEvent

/-- The accesses lead from the first memory to the second one. -/
inductive FlatRun : ByteMem → List MemEvent → ByteMem → Prop
  | nil (m : ByteMem) : FlatRun m [] m
  | cons {m m' : ByteMem} {e : MemEvent} {events : List MemEvent} :
      e.Agrees m → FlatRun (e.apply m) events m' → FlatRun m (e :: events) m'

/-- The byte that was written last at an address. -/
def lastWrite : List MemEvent → ℕ → Option UInt8
  | [], _ => none
  | e :: events, x => (lastWrite events x).or (e.writes x)

/-- Every read returns what was written last, and where nothing was written the byte of `m`. -/
def ReadsLast (m : ByteMem) (events : List MemEvent) : Prop :=
  ∀ before start bytes after, events = before ++ .read start bytes :: after →
    ∀ i (h : i < bytes.length), bytes[i] = (lastWrite before (start + i)).getD (m (start + i))

namespace FlatRun

variable {m m' : ByteMem} {e : MemEvent} {events events' : List MemEvent}

/-- What a run leaves behind. -/
theorem eq_lastWrite (h : FlatRun m events m') (x : ℕ) :
    m' x = (lastWrite events x).getD (m x) := by
  induction h with
  | nil m => rfl
  | @cons m m' e events _ _ ih =>
    rw [ih, e.apply_eq, lastWrite]
    cases lastWrite events x <;> rfl

theorem exists_of_append (h : FlatRun m (events ++ events') m') :
    ∃ m₁, FlatRun m events m₁ ∧ FlatRun m₁ events' m' := by
  induction events generalizing m with
  | nil => exact ⟨m, .nil m, h⟩
  | cons e events ih =>
    cases h with
    | cons he hrest =>
      obtain ⟨m₁, h₁, h₁'⟩ := ih hrest
      exact ⟨m₁, .cons he h₁, h₁'⟩

/-- **The reads of a run depend on its writes alone.** -/
theorem readsLast (h : FlatRun m events m') : ReadsLast m events := by
  rintro before start bytes after rfl i hi
  obtain ⟨m₁, hbefore, hread⟩ := h.exists_of_append
  cases hread with
  | cons hagrees _ =>
    rw [← hbefore.eq_lastWrite]
    have hbyte := congrArg (·[i]?) hagrees
    simpa [ByteMem.readBytes, hi] using hbyte

end FlatRun
