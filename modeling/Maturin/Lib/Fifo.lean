import Maturin.Lib.Machine
import Mathlib.Data.List.Infix

/-!
# Bounded queues

A queue that takes at most `limit` elements. A write puts in as much of its buffer as there is room
for, and fails where that is nothing. A read takes out as much as its buffer takes, and fails where
nothing is in the queue. So at any time what was read and what is left in the queue is what was
written.
-/

/-- A call on a queue -/
inductive FifoCall (α : Type*)
  | write (buf : List α)
  | read (buf : List α)
  | canWrite
  | canRead

namespace Fifo

variable {α : Type*} {limit : ℕ} {q : List α} {c : FifoCall α} {calls : List (FifoCall α)}

/-- The answer to a call: a number of elements, and the buffer after it. -/
abbrev Answer (α : Type*) : Type _ := Option ℕ × List α

/-- The number, if there is one. -/
def positive (n : ℕ) : Option ℕ := if n = 0 then none else some n

/-- What a call does. -/
def step (limit : ℕ) (c : FifoCall α) (q : List α) : Answer α × List α :=
  match c with
  | .write buf =>
    let n := min (limit - q.length) buf.length
    ((positive n, buf), q ++ buf.take n)
  | .read buf =>
    if q = [] then ((none, buf), q)
    else ((some (min q.length buf.length), q.take buf.length ++ buf.drop q.length),
      q.drop buf.length)
  | .canWrite => ((positive (limit - q.length), []), q)
  | .canRead => ((positive q.length, []), q)

/-- The elements that a call wrote. -/
def written : FifoCall α × Answer α → List α
  | (.write buf, (some n, _)) => buf.take n
  | _ => []

/-- The elements that a call read. -/
def got : FifoCall α × Answer α → List α
  | (.read _, (some n, buf)) => buf.take n
  | _ => []

theorem positive_eq_some {n m : ℕ} : positive n = some m ↔ 0 < m ∧ n = m := by
  rw [positive]
  split_ifs with h
  · refine iff_of_false (by simp) fun ⟨hpos, heq⟩ ↦ ?_
    omega
  · rw [Option.some.injEq]
    exact ⟨fun heq ↦ ⟨heq ▸ Nat.pos_of_ne_zero h, heq⟩, fun heq ↦ heq.2⟩

/-- A call takes what it read from the front, and puts what it wrote at the end. -/
theorem got_append_step (limit : ℕ) (c : FifoCall α) (q : List α) :
    got (c, (step limit c q).1) ++ (step limit c q).2 = q ++ written (c, (step limit c q).1) := by
  cases c with
  | write buf =>
    rw [step]
    dsimp only
    generalize min (limit - q.length) buf.length = n
    rw [positive]
    split_ifs with hn
    · rw [hn, List.take_zero, List.append_nil]
      exact (List.append_nil q).symm
    · rfl
  | read buf =>
    rw [step]
    split_ifs with hq
    · rw [hq]
      rfl
    · have hfront : (q.take buf.length ++ buf.drop q.length).take (min q.length buf.length) =
          q.take buf.length := List.take_left' (List.length_take.trans (min_comm _ _))
      dsimp only [got, written]
      rw [hfront, List.take_append_drop, List.append_nil]
  | canWrite | canRead => exact (List.append_nil q).symm

theorem length_step_le (c : FifoCall α) (h : q.length ≤ limit) :
    (step limit c q).2.length ≤ limit := by
  cases c with
  | write buf =>
    rw [step]
    dsimp only
    rw [List.length_append, List.length_take]
    omega
  | read buf =>
    rw [step]
    split_ifs
    · exact h
    · dsimp only
      rw [List.length_drop]
      omega
  | canWrite | canRead => exact h

open Machine

/-- **Nothing is lost or reordered.** -/
theorem got_append_after (limit : ℕ) (calls : List (FifoCall α)) (q : List α) :
    (trace (step limit) calls q).flatMap got ++ after (step limit) calls q
      = q ++ (trace (step limit) calls q).flatMap written := by
  induction calls generalizing q with
  | nil => exact (List.append_nil q).symm
  | cons c calls ih =>
    rw [trace, after_cons, List.flatMap_cons, List.flatMap_cons, List.append_assoc, ih,
      ← List.append_assoc, got_append_step, List.append_assoc]

theorem length_after_le (h : q.length ≤ limit) (calls : List (FifoCall α)) :
    (after (step limit) calls q).length ≤ limit :=
  after_induction (I := fun q : List α ↦ q.length ≤ limit) (fun c _ ↦ length_step_le c) h calls

end Fifo
