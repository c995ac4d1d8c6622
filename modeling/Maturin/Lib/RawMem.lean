import Mathlib.Algebra.Order.Group.Nat
import Mathlib.Data.List.Basic
import Mathlib.Logic.Function.Basic
import Mathlib.Tactic.Common

/-!
# Memory behind raw pointers

A memory of which only some bytes may be accessed. An access of any other byte faults, so that an
access that does not fault has stayed within the bytes that are there.
-/

/-- A memory, with the bytes that may be accessed. -/
abbrev RawMem : Type := ℕ → Option UInt8

namespace RawMem

variable {m : RawMem} {start i n : ℕ} {b : UInt8} {bytes bs : List UInt8}

/-- The `n` bytes from an address on. -/
def load (m : RawMem) : ℕ → ℕ → Option (List UInt8)
  | _, 0 => some []
  | a, n + 1 => do
    let b ← m a
    let bs ← load m (a + 1) n
    pure (b :: bs)

/-- Put bytes at an address. -/
def store (m : RawMem) : ℕ → List UInt8 → Option RawMem
  | _, [] => some m
  | a, b :: bs => if (m a).isSome then store (Function.update m a (some b)) (a + 1) bs else none

/-- The memory that has the given bytes from `start` on, and no others. -/
def ofBytes (start : ℕ) (bytes : List UInt8) : RawMem :=
  fun a ↦ if start ≤ a then bytes[a - start]? else none

theorem ofBytes_add (i : ℕ) : ofBytes start bytes (start + i) = bytes[i]? := by
  rw [ofBytes, if_pos (Nat.le_add_right _ _), Nat.add_sub_cancel_left]

theorem load_ofBytes (h : i + n ≤ bytes.length) :
    load (ofBytes start bytes) (start + i) n = some ((bytes.drop i).take n) := by
  induction n generalizing i with
  | zero => rfl
  | succ n ih =>
    have hi : i < bytes.length := by omega
    rw [load, ofBytes_add, List.getElem?_eq_getElem hi, Nat.add_assoc, ih (by omega),
      List.drop_eq_getElem_cons hi]
    rfl

theorem update_ofBytes (h : i < bytes.length) :
    Function.update (ofBytes start bytes) (start + i) (some b) = ofBytes start (bytes.set i b) := by
  funext a
  by_cases ha : a = start + i
  · subst ha
    rw [Function.update_self, ofBytes_add, List.getElem?_set_self h]
  · rw [Function.update_of_ne ha, ofBytes, ofBytes]
    split_ifs with hle
    · rw [List.getElem?_set_ne (by omega)]
    · rfl

theorem store_ofBytes (h : i + bs.length ≤ bytes.length) :
    store (ofBytes start bytes) (start + i) bs
      = some (ofBytes start (bytes.take i ++ bs ++ bytes.drop (i + bs.length))) := by
  induction bs generalizing i bytes with
  | nil =>
    rw [List.append_nil, List.length_nil, Nat.add_zero, List.take_append_drop]
    rfl
  | cons b bs ih =>
    rw [List.length_cons] at h ⊢
    have hi : i < bytes.length := by omega
    rw [store, ofBytes_add, List.getElem?_eq_getElem hi, if_pos Option.isSome_some,
      update_ofBytes hi, Nat.add_assoc, ih (by rw [List.length_set]; omega)]
    have hset : (bytes.set i b).take (i + 1) = bytes.take i ++ [b] := by
      rw [List.take_add_one, List.take_set_of_le le_rfl, List.getElem?_set_self hi]
      rfl
    rw [hset, List.drop_set_of_lt (by omega), List.append_assoc (bytes.take i),
      List.singleton_append, Nat.add_assoc, Nat.add_comm 1]

end RawMem
