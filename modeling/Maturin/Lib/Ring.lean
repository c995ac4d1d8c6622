import Mathlib.Data.List.Basic
import Mathlib.Algebra.Order.Group.Nat
import Mathlib.Tactic.Common

/-!
# Circular buffers

A queue of `len` elements lies in the cells of a circular buffer from the cell `head` on, and goes
on at cell 0 after the last one. `head` may also be the capacity, which is another name for 0.

Taking elements out at the front moves `head`; putting elements in at the back writes cells that
hold nothing of the queue.
-/

namespace Ring

variable {α : Type} {cells cells' : ℕ → α} {cap head len n i : ℕ}

/-- The cell at which a walk along the buffer arrives. -/
def wrap (cap i : ℕ) : ℕ := if i < cap then i else i - cap

/-- `n` cells on from `i`, where the capacity itself may be the result. -/
def advance (cap i n : ℕ) : ℕ := if i + n ≤ cap then i + n else i + n - cap

/-- The queue in the buffer. -/
def contents (cells : ℕ → α) (cap head len : ℕ) : List α :=
  (List.range len).map fun i ↦ cells (wrap cap (head + i))

@[simp] theorem length_contents : (contents cells cap head len).length = len := by
  rw [contents, List.length_map, List.length_range]

@[simp] theorem getElem_contents (h : i < (contents cells cap head len).length) :
    (contents cells cap head len)[i] = cells (wrap cap (head + i)) := by
  simp [contents]

theorem wrap_advance (h : head + n + i < 2 * cap) :
    wrap cap (advance cap head n + i) = wrap cap (head + n + i) := by
  rw [advance]
  split_ifs with hle
  · rfl
  · rw [wrap, wrap, if_pos (by omega), if_neg (by omega)]
    omega

theorem advance_advance (hhead : head ≤ cap) (hlen : len ≤ cap) (hn : n ≤ len) :
    advance cap (advance cap head n) (len - n) = advance cap head len := by
  rw [advance, advance, advance]
  split_ifs <;> omega

theorem advance_add (hhead : head ≤ cap) (hn : len + n ≤ cap) :
    advance cap (advance cap head len) n = advance cap head (len + n) := by
  have h := advance_advance hhead hn (Nat.le_add_right len n)
  rwa [Nat.add_sub_cancel_left] at h

theorem contents_congr (h : ∀ i < len, cells (wrap cap (head + i)) = cells' (wrap cap (head + i))) :
    contents cells cap head len = contents cells' cap head len :=
  List.map_congr_left fun i hi ↦ h i (List.mem_range.mp hi)

/-- The queue without a wrap. -/
theorem contents_of_le (h : head + len ≤ cap) :
    contents cells cap head len = (List.range len).map fun i ↦ cells (head + i) := by
  refine List.map_congr_left fun i hi ↦ ?_
  rw [List.mem_range] at hi
  rw [wrap, if_pos (by omega)]

/-- The queue with a wrap: the cells up to the last one, and then those from 0 on. -/
theorem contents_of_gt (hhead : head ≤ cap) (h : cap < head + len) :
    contents cells cap head len = ((List.range (cap - head)).map fun i ↦ cells (head + i)) ++
      (List.range (len - (cap - head))).map cells := by
  have hsplit : len = (cap - head) + (len - (cap - head)) := by omega
  rw [contents, hsplit, List.range_add, List.map_append, List.map_map, Nat.add_sub_cancel_left]
  congr 1
  · refine List.map_congr_left fun i hi ↦ ?_
    rw [List.mem_range] at hi
    rw [wrap, if_pos (by omega)]
  · refine List.map_congr_left fun i hi ↦ ?_
    rw [List.mem_range] at hi
    rw [Function.comp_apply, wrap, if_neg (by omega)]
    congr 1
    omega

theorem take_contents (h : n ≤ len) :
    (contents cells cap head len).take n = contents cells cap head n := by
  rw [contents, ← List.map_take, List.take_range, min_eq_left h, contents]

/-- Taking `n` elements out at the front. -/
theorem drop_contents (hhead : head ≤ cap) (hlen : len ≤ cap) (hn : n ≤ len) :
    (contents cells cap head len).drop n = contents cells cap (advance cap head n) (len - n) := by
  refine List.ext_getElem (by simp) fun i hi hi' ↦ ?_
  rw [length_contents] at hi'
  rw [List.getElem_drop, getElem_contents, getElem_contents, wrap_advance (by omega), Nat.add_assoc]

/-- Putting elements in at the back. -/
theorem contents_append {l : List α} (hhead : head ≤ cap) (hlen : len + l.length ≤ cap)
    (hold : ∀ i < len, cells' (wrap cap (head + i)) = cells (wrap cap (head + i)))
    (hnew : ∀ i (h : i < l.length), cells' (wrap cap (advance cap head len + i)) = l[i]) :
    contents cells' cap head (len + l.length) = contents cells cap head len ++ l := by
  refine List.ext_getElem (by simp) fun i hi hi' ↦ ?_
  rw [length_contents] at hi
  rcases Nat.lt_or_ge i len with hlt | hge
  · rw [List.getElem_append_left (by simpa using hlt)]
    rw [getElem_contents, getElem_contents]
    exact hold i hlt
  · have hi'' : i - len < l.length := by omega
    rw [List.getElem_append_right (by simpa using hge)]
    have hpos : head + len + (i - len) = head + i := by omega
    have hcell := hnew (i - len) hi''
    rw [wrap_advance (by omega), hpos] at hcell
    simp only [getElem_contents, length_contents, hcell]

end Ring
