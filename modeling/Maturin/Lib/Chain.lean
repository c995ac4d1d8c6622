import Mathlib.Data.List.Nodup
import Mathlib.Data.List.TakeDrop
import Mathlib.Logic.Function.Basic
import Mathlib.Tactic.Common

/-!
# Chains in a table of successors

A table gives a place its successor, if it has one. A chain is a list of places each of which has
the next one as its successor, and the last one has none. A chain meets no place twice. It is made
longer by a new place behind its last one, and shorter by cutting the link of one of its places.
-/

variable {K : Type}

/-- The places are a chain of the table. -/
def Linked (next : K → Option K) (places : List K) : Prop :=
  ∀ i (h : i < places.length), next places[i] = places[i + 1]?

namespace Linked

variable {next next' : K → Option K} {places : List K} {a b : K} {i j k : ℕ}

theorem nil (next : K → Option K) : Linked next [] := fun _ h ↦ absurd h (Nat.not_lt_zero _)

theorem singleton (h : next a = none) : Linked next [a] := by
  intro i hi
  obtain rfl : i = 0 := by rw [List.length_singleton] at hi; omega
  exact h

/-- A chain depends on its places alone. -/
theorem congr (h : Linked next places) (hsame : ∀ a ∈ places, next' a = next a) :
    Linked next' places := fun i hi ↦ (hsame _ (List.getElem_mem hi)).trans (h i hi)

theorem cons_iff : Linked next (a :: places) ↔ next a = places.head? ∧ Linked next places := by
  constructor
  · intro h
    refine ⟨(h 0 (Nat.zero_lt_succ _)).trans List.head?_eq_getElem?.symm, fun i hi ↦ ?_⟩
    exact h (i + 1) (Nat.succ_lt_succ hi)
  · rintro ⟨hhead, htail⟩ i hi
    cases i with
    | zero => exact hhead.trans List.head?_eq_getElem?
    | succ i => exact htail i (Nat.lt_of_succ_lt_succ hi)

theorem next_getElem? (h : Linked next places) (hi : places[i]? = some a) :
    next a = places[i + 1]? := by
  obtain ⟨hlt, rfl⟩ := List.getElem?_eq_some_iff.mp hi
  exact h i hlt

/-- What comes behind a place depends on the place alone. -/
theorem getElem?_add (h : Linked next places) (hi : places[i]? = some a)
    (hj : places[j]? = some a) (k : ℕ) : places[i + k]? = places[j + k]? := by
  induction k with
  | zero => exact hi.trans hj.symm
  | succ k ih =>
    cases hik : places[i + k]? with
    | none =>
      have hjk := ih.symm.trans hik
      rw [List.getElem?_eq_none_iff] at hik hjk
      rw [List.getElem?_eq_none (by omega), List.getElem?_eq_none (by omega)]
    | some b =>
      exact (h.next_getElem? hik).symm.trans (h.next_getElem? (ih.symm.trans hik))

/-- **A chain meets no place twice**: from the second time on it would go on without an end. -/
theorem nodup (h : Linked next places) : places.Nodup := by
  have key : ∀ i j (hi : i < places.length) (hj : j < places.length), i < j →
      places[i] ≠ places[j] := fun i j hi hj hlt heq ↦ by
    have hend := h.getElem?_add (List.getElem?_eq_getElem hi)
      ((List.getElem?_eq_getElem hj).trans (congrArg some heq.symm)) (places.length - j)
    rw [List.getElem?_eq_none (i := j + _) (by omega), List.getElem?_eq_none_iff] at hend
    omega
  exact List.nodup_iff_pairwise_ne.mpr (List.pairwise_iff_getElem.mpr key)

theorem drop (h : Linked next places) (k : ℕ) : Linked next (places.drop k) := by
  intro i hi
  rw [List.length_drop] at hi
  rw [List.getElem_drop, List.getElem?_drop]
  exact h (k + i) (by omega)

/-- A place is not met again behind it. -/
theorem notMem_drop (h : Linked next places) (hi : places[i]? = some a) :
    a ∉ places.drop (i + 1) := by
  intro hmem
  obtain ⟨j, hj⟩ := List.mem_iff_getElem?.mp hmem
  rw [List.getElem?_drop] at hj
  have heq := (List.getElem?_inj (List.getElem?_eq_some_iff.mp hi).1 h.nodup).mp (hi.trans hj.symm)
  omega

variable [DecidableEq K]

/-- A chain is cut behind one of its places. -/
theorem take (h : Linked next places) (hk : places[k]? = some a) :
    Linked (Function.update next a none) (places.take (k + 1)) := by
  obtain ⟨hlt, rfl⟩ := List.getElem?_eq_some_iff.mp hk
  intro i hi
  have hle : i ≤ k := by rw [List.length_take] at hi; omega
  rw [List.getElem_take, List.getElem?_take]
  split_ifs with hlast
  · have hne : places[i] ≠ places[k] := fun heq ↦ by
      have := (h.nodup.getElem_inj_iff).mp heq
      omega
    rw [Function.update_of_ne hne]
    exact h i (by omega)
  · obtain rfl : i = k := by omega
    exact Function.update_self ..

/-- A chain that goes on at a new place. -/
theorem concat (h : Linked next places) (hlast : places.getLast? = some a) (hb : b ∉ places) :
    Linked (Function.update (Function.update next b none) a (some b)) (places ++ [b]) := by
  have hab : b ≠ a := fun hab ↦ hb (hab ▸ List.mem_of_getLast? hlast)
  intro i hi
  rw [List.length_append, List.length_singleton] at hi
  rcases Nat.lt_or_ge i places.length with hlt | hge
  · rw [List.getElem_append_left hlt]
    have hne : places[i] ≠ b := fun heq ↦ hb (heq ▸ List.getElem_mem hlt)
    rcases Nat.lt_or_ge (i + 1) places.length with hlt' | hge'
    · have hnot : places[i] ≠ a := fun heq ↦ by
        rw [List.getLast?_eq_getElem?] at hlast
        have hnone := h.getElem?_add (List.getElem?_eq_getElem hlt |>.trans (congrArg some heq))
          hlast 1
        rw [List.getElem?_eq_getElem hlt', List.getElem?_eq_none (by omega)] at hnone
        cases hnone
      rw [Function.update_of_ne hnot, Function.update_of_ne hne, h i hlt,
        List.getElem?_append_left hlt']
    · obtain rfl : a = places[i] := by
        rw [List.getLast?_eq_getElem?, show places.length - 1 = i by omega,
          List.getElem?_eq_getElem hlt] at hlast
        exact (Option.some.inj hlast).symm
      rw [Function.update_self, show i + 1 = places.length by omega,
        List.getElem?_append_right (Nat.le_refl _), Nat.sub_self]
      rfl
  · obtain rfl : i = places.length := by omega
    have hself : (places ++ [b])[places.length] = b := List.getElem_concat_length rfl _
    rw [hself, Function.update_of_ne hab, Function.update_self, List.getElem?_eq_none]
    exact Nat.le_of_eq List.length_append

end Linked
