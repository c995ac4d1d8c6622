import Mathlib.Data.BitVec
import Mathlib.Data.List.Basic
import Mathlib.Data.Set.Function

/-!
# Tables of bits

A table of words of `w` bits keeps a set of positions. Every position has a place, a word and a bit
of it, and is in the set if the bit at its place is set. Looking at a place and setting its bit fail
if the table does not have the word.

The positions below `n` are kept if and only if their places are in the table and no two of them
share a place (`keepsSet_iff`).
-/

variable {σ : Type} {w k n : ℕ}

/-! ## Keeping a set -/

/-- In the states of `I`, `check` and `set` are those of a set of positions below `n`, and do not
fail. -/
structure KeepsSet (n : ℕ) (I : σ → Prop) (check : ℕ → σ → Option Bool)
    (set : ℕ → σ → Option σ) : Prop where
  exists_check : ∀ s, I s → ∀ p < n, ∃ b, check p s = some b
  exists_set : ∀ s, I s → ∀ p < n, ∃ s', set p s = some s' ∧ I s' ∧ check p s' = some true ∧
    ∀ q < n, q ≠ p → check q s' = check q s

/-- Operations that do the same at the positions below `n` keep the same set. -/
theorem KeepsSet.of_eq {I : σ → Prop} {check check' : ℕ → σ → Option Bool}
    {set set' : ℕ → σ → Option σ} (h : KeepsSet n I check set)
    (hcheck : ∀ s, ∀ p < n, check' p s = check p s) (hset : ∀ s, ∀ p < n, set' p s = set p s) :
    KeepsSet n I check' set' where
  exists_check s hs p hp := by
    rw [hcheck s p hp]
    exact h.exists_check s hs p hp
  exists_set s hs p hp := by
    obtain ⟨s', hrun, hs', hself, hother⟩ := h.exists_set s hs p hp
    refine ⟨s', (hset s p hp).trans hrun, hs', (hcheck s' p hp).trans hself, fun q hq hne ↦ ?_⟩
    rw [hcheck s' q hq, hcheck s q hq, hother q hq hne]

/-- Setting positions one after the other adds them to the set. -/
theorem KeepsSet.foldlM {I : σ → Prop} {check : ℕ → σ → Option Bool} {set : ℕ → σ → Option σ}
    (h : KeepsSet n I check set) {s : σ} (hs : I s) {ps : List ℕ} (hps : ∀ p ∈ ps, p < n) :
    ∃ s', ps.foldlM (fun s p ↦ set p s) s = some s' ∧ I s' ∧
      ∀ q < n, check q s' = if q ∈ ps then some true else check q s := by
  induction ps generalizing s with
  | nil => exact ⟨s, rfl, hs, fun q _ ↦ by simp⟩
  | cons p ps ih =>
    obtain ⟨s₁, hset, hs₁, hself, hother⟩ := h.exists_set s hs p (hps p List.mem_cons_self)
    obtain ⟨s', hrun, hs', hcheck⟩ := ih hs₁ fun q hq ↦ hps q (List.mem_cons_of_mem p hq)
    refine ⟨s', ?_, hs', fun q hq ↦ ?_⟩
    · rw [List.foldlM_cons, hset]
      exact hrun
    · rw [hcheck q hq]
      by_cases hmem : q ∈ ps
      · rw [if_pos hmem, if_pos (List.mem_cons_of_mem p hmem)]
      · rw [if_neg hmem]
        rcases eq_or_ne q p with rfl | hne
        · rw [hself, if_pos List.mem_cons_self]
        · rw [hother q hq hne, if_neg (by simp [hmem, hne])]

namespace BitTable

/-- The bit at a place. -/
def test (place : ℕ × ℕ) (t : List (BitVec w)) : Option Bool :=
  t[place.1]?.map (·.getLsbD place.2)

/-- Set the bit at a place. -/
def put (place : ℕ × ℕ) (t : List (BitVec w)) : Option (List (BitVec w)) :=
  t[place.1]?.map fun b ↦ t.set place.1 (b ||| BitVec.twoPow w place.2)

variable {t : List (BitVec w)} {place place' : ℕ × ℕ} {f : ℕ → ℕ × ℕ}

/-! ## One place -/

theorem test_of_lt (h : place.1 < t.length) : ∃ b, test place t = some b := by
  rw [test, List.getElem?_eq_getElem h]
  exact ⟨_, rfl⟩

theorem put_of_lt (h : place.1 < t.length) : ∃ t', put place t = some t' := by
  rw [put, List.getElem?_eq_getElem h]
  exact ⟨_, rfl⟩

theorem lt_of_test {b : Bool} (h : test place t = some b) : place.1 < t.length := by
  obtain ⟨word, hword, -⟩ := Option.map_eq_some_iff.mp h
  exact (List.getElem?_eq_some_iff.mp hword).1

theorem length_put {t' : List (BitVec w)} (h : put place t = some t') : t'.length = t.length := by
  obtain ⟨word, -, rfl⟩ := Option.map_eq_some_iff.mp h
  exact List.length_set

/-- What is looked up after a bit was set. -/
theorem test_put {t' : List (BitVec w)} (h : put place t = some t') (hbit : place.2 < w) :
    test place' t' = if place' = place then some true else test place' t := by
  obtain ⟨word, hword, rfl⟩ := Option.map_eq_some_iff.mp h
  have hlt := (List.getElem?_eq_some_iff.mp hword).1
  obtain ⟨i, b⟩ := place
  obtain ⟨i', b'⟩ := place'
  dsimp only at hbit hword hlt ⊢
  rw [test, test]
  dsimp only
  by_cases hi : i = i'
  · subst hi
    rw [List.getElem?_set_self hlt, hword, Option.map_some, Option.map_some, BitVec.getLsbD_or,
      BitVec.getLsbD_twoPow, decide_eq_true hbit, Bool.true_and]
    by_cases hb : b = b'
    · subst hb
      simp
    · rw [if_neg (by simp [Ne.symm hb]), decide_eq_false hb, Bool.or_false]
  · rw [List.getElem?_set_ne hi, if_neg (by simp [Ne.symm hi])]

theorem test_replicate_zero (h : place.1 < k) :
    test place (List.replicate k (0 : BitVec w)) = some false := by
  rw [test, List.getElem?_replicate, if_pos h]
  simp

/-! ## Many positions -/

/-- Tables of `k` words keep the positions below `n` if and only if they have their places, and
these are different. -/
theorem keepsSet_iff (hbit : ∀ p < n, (f p).2 < w) :
    KeepsSet n (fun t : List (BitVec w) ↦ t.length = k) (fun p ↦ test (f p)) (fun p ↦ put (f p)) ↔
      (∀ p < n, (f p).1 < k) ∧ Set.InjOn f (Set.Iio n) := by
  constructor
  · intro h
    -- the table without a bit shows both
    have hlen : (List.replicate k (0 : BitVec w)).length = k := List.length_replicate
    have hplace : ∀ p < n, (f p).1 < k := by
      intro p hp
      obtain ⟨b, hb⟩ := h.exists_check _ hlen p hp
      exact hlen ▸ lt_of_test hb
    refine ⟨hplace, fun p hp q hq heq ↦ ?_⟩
    by_contra hne
    obtain ⟨t', hput, -, -, hother⟩ := h.exists_set _ hlen p hp
    have hq' := hother q hq (Ne.symm hne)
    rw [test_put hput (hbit p hp), if_pos heq.symm, test_replicate_zero (hplace q hq)] at hq'
    exact absurd hq' (by simp)
  · rintro ⟨hplace, hinj⟩
    constructor
    · rintro t rfl p hp
      exact test_of_lt (hplace p hp)
    · rintro t rfl p hp
      obtain ⟨t', hput⟩ := put_of_lt (hplace p hp)
      refine ⟨t', hput, length_put hput, ?_, fun q hq hne ↦ ?_⟩
      · rw [test_put hput (hbit p hp), if_pos rfl]
      · rw [test_put hput (hbit p hp), if_neg fun heq ↦ hne (hinj hq hp heq)]

end BitTable
