import Maturin.RangeActionMap.Laws
import Mathlib.Order.Bounds.Basic
import Mathlib.Order.Interval.Set.Disjoint

/-!
# First fit

`mmap_anywhere` walks the areas in the order of their starts and takes the first gap that is long
enough. As long as there is one, no sum on the way to it wraps, so what is taken is the least place
of all. When there is none the last sum wraps: the comparison with the greatest address holds for
every sum of 64 bits, and the map takes an interval that is not free.
-/

namespace Maturin

namespace RangeActionMap

variable {S : Type} {m : RangeActionMap S} {hint len s t : ℕ}

/-- The addresses of the areas. -/
def covered (m : RangeActionMap S) : Set ℕ := {x | ∃ a ∈ m.areas, x ∈ Set.Ico a.start a.end_}

/-- The areas are not empty, lie apart and within the limits, and each is stored at its start. -/
structure Wf (m : RangeActionMap S) : Prop where
  keyed : SegmentLaws.KeyedByStart m.segments
  lt : ∀ a ∈ m.areas, a.start < a.end_
  bounds : ∀ a ∈ m.areas, LOWER_LIMIT ≤ a.start ∧ a.end_ ≤ UPPER_LIMIT
  disjoint : m.areas.Pairwise fun a b ↦ a.end_ ≤ b.start ∨ b.end_ ≤ a.start

/-- An interval at `t` is free. -/
structure Fits (m : RangeActionMap S) (hint len t : ℕ) : Prop where
  low : max hint LOWER_LIMIT ≤ t
  high : t + len ≤ UPPER_LIMIT
  free : Disjoint (Set.Ico t (t + len)) m.covered

/-- The least free interval is added, with the segment that `f` makes for its start, and without one
nothing happens. -/
def ExactAnywhere (m : RangeActionMap S) (hint len : ℕ) : Prop :=
  ∀ (σ : Type) (f : ℕ → EStateM Panic σ S),
    (∀ s, IsLeast {t | m.Fits hint len t} s →
      (m.mmapAnywhere hint len f = do
        let segment ← f s
        pure (some s, m.insertRaw s (s + len) segment)) ∧
      ∀ segment, (m.insertRaw s (s + len) segment).areas.Perm (⟨s, s + len, segment⟩ :: m.areas)) ∧
    ((∀ t, ¬m.Fits hint len t) → m.mmapAnywhere hint len f = pure (none, m))

/-! ## The search -/

/-- An interval is free if each area is behind it or before it. -/
theorem disjoint_covered_iff (hlt : ∀ a ∈ m.areas, a.start < a.end_) (hlen : 1 ≤ len) :
    Disjoint (Set.Ico t (t + len)) m.covered ↔
      ∀ a ∈ m.areas, t + len ≤ a.start ∨ a.end_ ≤ t := by
  rw [Set.disjoint_left]
  constructor
  · intro h a ha
    have hpos := hlt a ha
    by_contra hmeet
    rw [not_or, not_le, not_le] at hmeet
    exact h (a := max t a.start) ⟨le_max_left _ _, max_lt (by omega) hmeet.1⟩
      ⟨a, ha, le_max_right _ _, max_lt hmeet.2 hpos⟩
  · rintro h x ⟨hl, hr⟩ ⟨a, ha, hal, har⟩
    rcases h a ha with hle | hle <;> omega

/-- The last comparison always holds. -/
theorem exists_findFreeLoop (entries : List (ℕ × RangeArea S)) (last : ℕ) :
    ∃ s, findFreeLoop len entries last = some s := by
  induction entries generalizing last with
  | nil =>
    have hle : wadd last len ≤ UPPER_LIMIT := Nat.le_pred_of_lt (wadd_lt _ _)
    exact ⟨last, by rw [findFreeLoop, if_pos hle]⟩
  | cons x entries ih =>
    rw [findFreeLoop]
    split_ifs
    · exact ⟨last, rfl⟩
    · exact ih _

/-- The loop stops at the latest at a free interval. -/
theorem findFreeLoop_le {entries : List (ℕ × RangeArea S)} {last : ℕ} (hlast : last ≤ t)
    (hhigh : t + len ≤ UPPER_LIMIT) (hfree : ∀ x ∈ entries, t + len ≤ x.1 ∨ x.2.end_ ≤ t)
    (h : findFreeLoop len entries last = some s) : s ≤ t := by
  induction entries generalizing last with
  | nil =>
    rw [findFreeLoop] at h
    split_ifs at h
    exact Option.some.inj h ▸ hlast
  | cons x entries ih =>
    rw [findFreeLoop] at h
    split_ifs at h with hgap
    · exact Option.some.inj h ▸ hlast
    · -- up to the free interval nothing wraps
      rw [wadd_of_lt (by simp only [UPPER_LIMIT] at hhigh; omega)] at hgap
      have hx : x.2.end_ ≤ t := (hfree x List.mem_cons_self).resolve_left (by omega)
      exact ih (max_le hlast hx) (fun y hy ↦ hfree y (List.mem_cons_of_mem x hy)) h

/-- What is found is free, if it does not end behind the last address. -/
theorem fits_of_findFreeArea (hkey : SegmentLaws.KeyedByStart m.segments)
    (hlt : ∀ a ∈ m.areas, a.start < a.end_) (hlen : 1 ≤ len)
    (hs : m.findFreeArea hint len = some s) (hhigh : s + len ≤ UPPER_LIMIT) :
    m.Fits hint len s := by
  obtain ⟨hlow, -, hgap⟩ := findFreeArea_spec hkey hs (by simp only [UPPER_LIMIT] at hhigh; omega)
  exact ⟨hlow, hhigh, (disjoint_covered_iff hlt hlen).mpr hgap⟩

/-- If there is a free interval, the least one is found. -/
theorem isLeast_of_findFreeArea (hkey : SegmentLaws.KeyedByStart m.segments)
    (hlt : ∀ a ∈ m.areas, a.start < a.end_) (hlen : 1 ≤ len) (ht : m.Fits hint len t)
    (hs : m.findFreeArea hint len = some s) : IsLeast {t | m.Fits hint len t} s := by
  have hle : ∀ {t}, m.Fits hint len t → s ≤ t := by
    intro t ht
    refine findFreeLoop_le ht.low ht.high (fun x hx ↦ ?_) hs
    have hfree := (disjoint_covered_iff hlt hlen).mp ht.free x.2 (OrdMap.mem_values.mpr ⟨x.1, hx⟩)
    rwa [← hkey x hx] at hfree
  have hhigh : s + len ≤ UPPER_LIMIT := (Nat.add_le_add_right (hle ht) len).trans ht.high
  exact ⟨fits_of_findFreeArea hkey hlt hlen hs hhigh, fun t ht ↦ hle ht⟩

/-- A free interval becomes one more area. -/
theorem Wf.perm_insertRaw (h : m.Wf) (hlen : 1 ≤ len) (hs : m.Fits hint len s) (segment : S) :
    (m.insertRaw s (s + len) segment).areas.Perm (⟨s, s + len, segment⟩ :: m.areas) := by
  refine OrdMap.perm_values_insert fun x hx hkey ↦ ?_
  have ha : x.2 ∈ m.areas := OrdMap.mem_values.mpr ⟨x.1, hx⟩
  have hlt := h.lt x.2 ha
  have hstart := h.keyed x hx
  rcases (disjoint_covered_iff h.lt hlen).mp hs.free x.2 ha with hle | hle <;> omega

/-- A map that takes an interval when none is free calls the closure. -/
theorem not_exactAnywhere (hnone : ∀ t, ¬m.Fits hint len t)
    (hs : m.findFreeArea hint len = some s) : ¬m.ExactAnywhere hint len := by
  intro hexact
  have heq := (hexact Unit fun _ ↦ throw .assertFailed).2 hnone
  rw [mmapAnywhere, hs] at heq
  have hrun := congrArg (fun x ↦ x.run ()) heq
  cases hrun

/-- **`mmap_anywhere` is exact if and only if something is free.** It takes the least free interval
if there is one, and never finds that there is none. -/
theorem exactAnywhere_iff (h : m.Wf) (hlen : 1 ≤ len) :
    m.ExactAnywhere hint len ↔ ∃ t, m.Fits hint len t := by
  obtain ⟨s, hs⟩ : ∃ s, m.findFreeArea hint len = some s := exists_findFreeLoop _ _
  constructor
  · intro hexact
    by_contra hnone
    exact not_exactAnywhere (not_exists.mp hnone) hs hexact
  · rintro ⟨t, ht⟩ σ f
    refine ⟨fun t' ht' ↦ ?_, fun hnone ↦ absurd ht (hnone t)⟩
    have hleast := isLeast_of_findFreeArea h.keyed h.lt hlen ht hs
    obtain rfl := hleast.unique ht'
    have hhigh := hleast.1.high
    refine ⟨?_, h.perm_insertRaw hlen hleast.1⟩
    rw [mmapAnywhere, hs]
    dsimp only
    rw [wadd_of_lt (by simp only [UPPER_LIMIT] at hhigh; omega)]

/-! ## A full space -/

/-- A map of one area. -/
def single (start end_ : ℕ) : RangeActionMap Unit :=
  (RangeActionMap.new 0).insertRaw start end_ ()

theorem wf_single (hlt : s < t) (hlow : LOWER_LIMIT ≤ s) (hhigh : t ≤ UPPER_LIMIT) :
    (single s t).Wf := by
  have hareas : (single s t).areas = [⟨s, t, ()⟩] := rfl
  refine ⟨fun x hx ↦ ?_, fun a ha ↦ ?_, fun a ha ↦ ?_, List.pairwise_singleton _ _⟩
  · rw [List.mem_singleton.mp hx]
  · rw [List.mem_singleton.mp ha]
    exact hlt
  · rw [List.mem_singleton.mp ha]
    exact ⟨hlow, hhigh⟩

/-- Behind one area there is room. -/
theorem exactAnywhere_single : (single 0x1000 0x3000).ExactAnywhere 0x2000 0x1000 := by
  refine (exactAnywhere_iff (wf_single (by decide) (by decide) (by decide)) (by decide)).mpr
    ⟨0x3000, by decide, by decide, ?_⟩
  rw [disjoint_covered_iff (fun a ha ↦ ?_) (by decide)]
  · intro a ha
    rw [List.mem_singleton.mp ha]
    exact Or.inr le_rfl
  · rw [List.mem_singleton.mp ha]
    decide

/-- In a full space `mmap_anywhere` takes the greatest address and what follows it. -/
theorem not_exactAnywhere_single : (single LOWER_LIMIT UPPER_LIMIT).Wf ∧
    (∀ t, ¬(single LOWER_LIMIT UPPER_LIMIT).Fits 0 0x1000 t) ∧
    (single LOWER_LIMIT UPPER_LIMIT).findFreeArea 0 0x1000 = some UPPER_LIMIT ∧
    ¬(single LOWER_LIMIT UPPER_LIMIT).ExactAnywhere 0 0x1000 := by
  have hwf : (single LOWER_LIMIT UPPER_LIMIT).Wf := wf_single (by decide) le_rfl le_rfl
  have hnone : ∀ t, ¬(single LOWER_LIMIT UPPER_LIMIT).Fits 0 0x1000 t := by
    rintro t ⟨hlow, hhigh, hfree⟩
    rw [disjoint_covered_iff hwf.lt (by decide)] at hfree
    have hmeet := hfree _ List.mem_cons_self
    simp only [LOWER_LIMIT, UPPER_LIMIT] at hlow hhigh hmeet
    omega
  exact ⟨hwf, hnone, by decide, not_exactAnywhere hnone (s := UPPER_LIMIT) (by decide)⟩

end RangeActionMap

end Maturin
