import Mathlib.Data.Set.Basic
import Mathlib.Data.Set.Insert
import Mathlib.Logic.Function.Basic
import Mathlib.Tactic.Common

/-!
# Pointwise operations on partial functions

A partial function `f : α → Option β` is erased, updated or overwritten on a set of points. These
are the meanings of operations on maps whose keys are grouped into intervals or blocks, so sets of
points combine: erasing on two sets in turn is erasing on their union, and only the points of the
domain of `f` matter.
-/

universe u v

namespace PointMap

variable {α : Type u} {β : Type v} {I J : Set α} {f g : α → Option β} {x : α}

open Classical in
/-- Forget the values on `I`. -/
noncomputable def erase (I : Set α) (f : α → Option β) : α → Option β :=
  fun x ↦ if x ∈ I then none else f x

open Classical in
/-- Change the values on `I`. -/
noncomputable def update (I : Set α) (h : β → β) (f : α → Option β) : α → Option β :=
  fun x ↦ if x ∈ I then (f x).map h else f x

open Classical in
/-- Take the values of `v` on `I`. -/
noncomputable def overwrite (I : Set α) (v f : α → Option β) : α → Option β :=
  fun x ↦ if x ∈ I then v x else f x

theorem erase_of_mem (h : x ∈ I) : erase I f x = none := if_pos h

theorem erase_of_notMem (h : x ∉ I) : erase I f x = f x := if_neg h

theorem update_of_mem {k : β → β} (h : x ∈ I) : update I k f x = (f x).map k := if_pos h

theorem update_of_notMem {k : β → β} (h : x ∉ I) : update I k f x = f x := if_neg h

theorem overwrite_of_mem {v : α → Option β} (h : x ∈ I) : overwrite I v f x = v x := if_pos h

theorem overwrite_of_notMem {v : α → Option β} (h : x ∉ I) : overwrite I v f x = f x := if_neg h

@[simp] theorem erase_empty : erase ∅ f = f :=
  funext fun x ↦ erase_of_notMem (Set.notMem_empty x)

@[simp] theorem update_empty {k : β → β} : update ∅ k f = f :=
  funext fun x ↦ update_of_notMem (Set.notMem_empty x)

theorem erase_erase : erase I (erase J f) = erase (I ∪ J) f := by
  funext x
  by_cases hI : x ∈ I
  · rw [erase_of_mem hI, erase_of_mem (Set.mem_union_left J hI)]
  · rw [erase_of_notMem hI]
    by_cases hJ : x ∈ J
    · rw [erase_of_mem hJ, erase_of_mem (Set.mem_union_right I hJ)]
    · rw [erase_of_notMem hJ, erase_of_notMem (fun h ↦ h.elim hI hJ)]

/-- Only points of the domain matter for what is erased. -/
theorem erase_congr (h : ∀ x, (f x).isSome → (x ∈ I ↔ x ∈ J)) : erase I f = erase J f := by
  funext x
  cases hx : f x with
  | none => by_cases hI : x ∈ I <;> by_cases hJ : x ∈ J <;> simp [erase, hI, hJ, hx]
  | some b =>
    have := h x (by rw [hx]; rfl)
    by_cases hI : x ∈ I
    · rw [erase_of_mem hI, erase_of_mem (this.mp hI)]
    · rw [erase_of_notMem hI, erase_of_notMem (fun hJ ↦ hI (this.mpr hJ))]

theorem isSome_of_isSome_erase (h : (erase I f x).isSome) : (f x).isSome := by
  by_cases hI : x ∈ I
  · rw [erase_of_mem hI] at h
    exact absurd h (by simp)
  · rwa [erase_of_notMem hI] at h

/-- Updating on two sets that do not meet is updating on their union. -/
theorem update_update {k : β → β} (h : ∀ x ∈ I, x ∉ J) :
    update I k (update J k f) = update (I ∪ J) k f := by
  funext x
  by_cases hI : x ∈ I
  · rw [update_of_mem hI, update_of_notMem (h x hI), update_of_mem (Set.mem_union_left J hI)]
  · rw [update_of_notMem hI]
    by_cases hJ : x ∈ J
    · rw [update_of_mem hJ, update_of_mem (Set.mem_union_right I hJ)]
    · rw [update_of_notMem hJ, update_of_notMem (fun h ↦ h.elim hI hJ)]

theorem update_congr {k : β → β} (h : ∀ x, (f x).isSome → (x ∈ I ↔ x ∈ J)) :
    update I k f = update J k f := by
  funext x
  cases hx : f x with
  | none => by_cases hI : x ∈ I <;> by_cases hJ : x ∈ J <;> simp [update, hI, hJ, hx]
  | some b =>
    have := h x (by rw [hx]; rfl)
    by_cases hI : x ∈ I
    · rw [update_of_mem hI, update_of_mem (this.mp hI)]
    · rw [update_of_notMem hI, update_of_notMem (fun hJ ↦ hI (this.mpr hJ))]

@[simp] theorem isSome_update {k : β → β} : (update I k f x).isSome = (f x).isSome := by
  by_cases hI : x ∈ I
  · rw [update_of_mem hI, Option.isSome_map]
  · rw [update_of_notMem hI]

/-- What is overwritten need not be erased first. -/
@[simp] theorem overwrite_erase {v : α → Option β} :
    overwrite I v (erase I f) = overwrite I v f := by
  funext x
  by_cases hI : x ∈ I
  · rw [overwrite_of_mem hI, overwrite_of_mem hI]
  · rw [overwrite_of_notMem hI, overwrite_of_notMem hI, erase_of_notMem hI]

/-! ## Blocks

A partial function that is constant on blocks is a function of the blocks. -/

section comp

variable {γ : Type*} {b : γ → α} {K : Set γ}

theorem erase_comp (h : ∀ y, y ∈ K ↔ b y ∈ I) : erase K (f ∘ b) = erase I f ∘ b := by
  funext y
  rw [Function.comp_apply]
  by_cases hy : y ∈ K
  · rw [erase_of_mem hy, erase_of_mem ((h y).mp hy)]
  · rw [erase_of_notMem hy, erase_of_notMem fun hI ↦ hy ((h y).mpr hI), Function.comp_apply]

theorem update_comp {k : β → β} (h : ∀ y, y ∈ K ↔ b y ∈ I) :
    update K k (f ∘ b) = update I k f ∘ b := by
  funext y
  rw [Function.comp_apply]
  by_cases hy : y ∈ K
  · rw [update_of_mem hy, update_of_mem ((h y).mp hy), Function.comp_apply]
  · rw [update_of_notMem hy, update_of_notMem fun hI ↦ hy ((h y).mpr hI), Function.comp_apply]

end comp

/-! ## One more point

Loops treat one point after another. -/

section point

variable [DecidableEq α]

theorem erase_insert : erase (insert x I) f = Function.update (erase I f) x none := by
  funext y
  by_cases hy : y = x
  · rw [hy, Function.update_self, erase_of_mem (Set.mem_insert x I)]
  · rw [Function.update_of_ne hy]
    by_cases hI : y ∈ I
    · rw [erase_of_mem hI, erase_of_mem (Set.mem_insert_of_mem x hI)]
    · rw [erase_of_notMem hI, erase_of_notMem fun h ↦ h.elim hy hI]

theorem update_insert {k : β → β} :
    update (insert x I) k f = Function.update (update I k f) x ((f x).map k) := by
  funext y
  by_cases hy : y = x
  · rw [hy, Function.update_self, update_of_mem (Set.mem_insert x I)]
  · rw [Function.update_of_ne hy]
    by_cases hI : y ∈ I
    · rw [update_of_mem hI, update_of_mem (Set.mem_insert_of_mem x hI)]
    · rw [update_of_notMem hI, update_of_notMem fun h ↦ h.elim hy hI]

end point

end PointMap
