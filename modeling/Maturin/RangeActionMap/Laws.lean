import Maturin.Lib.PointMap
import Maturin.RangeActionMap.Map
import Mathlib.Data.List.Pairwise
import Mathlib.Order.Interval.Set.Basic

/-!
# What the range map does to a collection of segments

`SegmentLaws` states what is needed of a segment type: an invariant `Good` of a whole collection of
areas together with the state, relative to the partial function `f` that the collection stands for.
Cutting an area in two keeps `f`, removing one erases `f` on it and modifying one updates `f` on
it. The laws are about a collection rather than a single segment, because the segments of a kernel
share a page table and a frame allocator.

From the laws of the three required methods follow those of the default methods, then those of one
area cut by a range, then those of the loops: `unmap` erases `f` on the range and `mprotect`
updates `f` on it.
-/

open Exec

namespace Maturin

namespace RangeArea

variable {S : Type}

/-- The addresses of the area. -/
def range (a : RangeArea S) : Set ℕ := Set.Ico a.start a.end_

@[simp] theorem mem_range {a : RangeArea S} {x : ℕ} :
    x ∈ a.range ↔ a.start ≤ x ∧ x < a.end_ := Iff.rfl

/-- One of the areas ends before the other starts. -/
def Apart (a b : RangeArea S) : Prop := a.end_ ≤ b.start ∨ b.end_ ≤ a.start

theorem Apart.symm {a b : RangeArea S} (h : a.Apart b) : b.Apart a := Or.symm h

instance : Std.Symm (@Apart S) := ⟨fun _ _ ↦ Apart.symm⟩

theorem Apart.notMem {a b : RangeArea S} (h : a.Apart b) {x : ℕ} (hx : x ∈ a.range) :
    x ∉ b.range := by
  rw [mem_range] at hx ⊢
  rcases h with h | h <;> omega

end RangeArea

/-- The behaviour of a segment type, as a whole collection sees it. -/
structure SegmentLaws (S σ β : Type) [Segment S σ] (args : ArgsType) where
  /-- The collection `L` in state `s` stands for the partial function `f`. -/
  Good : (ℕ → Option β) → List (RangeArea S) → σ → Prop
  /-- The positions at which a segment may be cut. -/
  Cut : ℕ → Prop
  /-- The values at which a segment may be removed or modified. -/
  Free : β → Prop
  /-- What a change of attribute does to the value at an address. -/
  setFlag : IdentType → β → β
  perm : ∀ {f L L' s}, L.Perm L' → Good f L s → Good f L' s
  nonempty : ∀ {f L s}, Good f L s → ∀ a ∈ L, a.start < a.end_
  apart : ∀ {f L s}, Good f L s → L.Pairwise RangeArea.Apart
  cover : ∀ {f L s}, Good f L s → ∀ x, (f x).isSome → ∃ a ∈ L, x ∈ a.range
  split : ∀ {f a L s pos}, Good f (a :: L) s → a.start < pos → pos < a.end_ → Cut pos →
    wp (Segment.split a.segment pos args) (fun r t ↦
      Good f (⟨a.start, pos, r.1⟩ :: ⟨pos, a.end_, r.2⟩ :: L) t) noPanic s
  remove : ∀ {f a L s}, Good f (a :: L) s → (∀ x ∈ a.range, ∀ v ∈ f x, Free v) →
    wp (Segment.remove a.segment args) (fun _ t ↦ Good (PointMap.erase a.range f) L t) noPanic s
  modify : ∀ {f a L s flag}, Good f (a :: L) s → (∀ x ∈ a.range, ∀ v ∈ f x, Free v) →
    wp (Segment.modify a.segment flag args) (fun seg t ↦
      Good (PointMap.update a.range (setFlag flag) f) (⟨a.start, a.end_, seg⟩ :: L) t) noPanic s

namespace SegmentLaws

variable {S σ β : Type} [Segment S σ] {args : ArgsType} (laws : SegmentLaws S σ β args)
variable {f : ℕ → Option β} {a : RangeArea S} {L : List (RangeArea S)} {s : σ} {pos : ℕ}
variable {start end_ : ℕ} {flag : IdentType}

/-! ## The default methods -/

theorem wp_shrinkToLeft (h : laws.Good f (a :: L) s) (hl : a.start < pos) (hr : pos < a.end_)
    (hcut : laws.Cut pos) (hfree : ∀ x ∈ Set.Ico pos a.end_, ∀ v ∈ f x, laws.Free v) :
    wp (Segment.shrinkToLeft a.segment pos args) (fun seg t ↦
      laws.Good (PointMap.erase (Set.Ico pos a.end_) f) (⟨a.start, pos, seg⟩ :: L) t)
      noPanic s := by
  rw [Segment.shrinkToLeft, wp_bind]
  refine wp_imp (laws.split h hl hr hcut) fun r t ht ↦ ?_
  rw [wp_bind]
  exact wp_imp (laws.remove (laws.perm (List.Perm.swap _ _ _) ht) hfree) fun _ t ht ↦ ht

theorem wp_shrinkToRight (h : laws.Good f (a :: L) s) (hl : a.start < pos) (hr : pos < a.end_)
    (hcut : laws.Cut pos) (hfree : ∀ x ∈ Set.Ico a.start pos, ∀ v ∈ f x, laws.Free v) :
    wp (Segment.shrinkToRight a.segment pos args) (fun seg t ↦
      laws.Good (PointMap.erase (Set.Ico a.start pos) f) (⟨pos, a.end_, seg⟩ :: L) t)
      noPanic s := by
  rw [Segment.shrinkToRight, wp_bind]
  refine wp_imp (laws.split h hl hr hcut) fun r t ht ↦ ?_
  rw [wp_bind]
  exact wp_imp (laws.remove ht hfree) fun _ t ht ↦ ht

theorem wp_splitAndRemoveMiddle (h : laws.Good f (a :: L) s) (hl : a.start < start)
    (hlt : start < end_) (hr : end_ < a.end_) (hs : laws.Cut start) (he : laws.Cut end_)
    (hfree : ∀ x ∈ Set.Ico start end_, ∀ v ∈ f x, laws.Free v) :
    wp (Segment.splitAndRemoveMiddle a.segment start end_ args) (fun r t ↦
      laws.Good (PointMap.erase (Set.Ico start end_) f)
        (⟨a.start, start, r.1⟩ :: ⟨end_, a.end_, r.2⟩ :: L) t) noPanic s := by
  rw [Segment.splitAndRemoveMiddle, wp_bind]
  refine wp_imp (laws.split h (hl.trans hlt) hr he) fun r t ht ↦ ?_
  rw [wp_bind]
  refine wp_imp (laws.split ht hl hlt hs) fun r' t ht ↦ ?_
  rw [wp_bind]
  exact wp_imp (laws.remove (laws.perm (List.Perm.swap _ _ _) ht) hfree) fun _ t ht ↦ ht

theorem wp_modifyLeft (h : laws.Good f (a :: L) s) (hl : a.start < pos) (hr : pos < a.end_)
    (hcut : laws.Cut pos) (hfree : ∀ x ∈ Set.Ico a.start pos, ∀ v ∈ f x, laws.Free v) :
    wp (Segment.modifyLeft a.segment pos flag args) (fun r t ↦
      laws.Good (PointMap.update (Set.Ico a.start pos) (laws.setFlag flag) f)
        (⟨a.start, pos, r.1⟩ :: ⟨pos, a.end_, r.2⟩ :: L) t) noPanic s := by
  rw [Segment.modifyLeft, wp_bind]
  refine wp_imp (laws.split h hl hr hcut) fun r t ht ↦ ?_
  rw [wp_bind]
  exact wp_imp (laws.modify ht hfree) fun _ t ht ↦ ht

theorem wp_modifyRight (h : laws.Good f (a :: L) s) (hl : a.start < pos) (hr : pos < a.end_)
    (hcut : laws.Cut pos) (hfree : ∀ x ∈ Set.Ico pos a.end_, ∀ v ∈ f x, laws.Free v) :
    wp (Segment.modifyRight a.segment pos flag args) (fun r t ↦
      laws.Good (PointMap.update (Set.Ico pos a.end_) (laws.setFlag flag) f)
        (⟨a.start, pos, r.1⟩ :: ⟨pos, a.end_, r.2⟩ :: L) t) noPanic s := by
  rw [Segment.modifyRight, wp_bind]
  refine wp_imp (laws.split h hl hr hcut) fun r t ht ↦ ?_
  rw [wp_bind]
  exact wp_imp (laws.modify (laws.perm (List.Perm.swap _ _ _) ht) hfree) fun _ t ht ↦
    laws.perm (List.Perm.swap _ _ _) ht

theorem wp_modifyMiddle (h : laws.Good f (a :: L) s) (hl : a.start < start)
    (hlt : start < end_) (hr : end_ < a.end_) (hs : laws.Cut start) (he : laws.Cut end_)
    (hfree : ∀ x ∈ Set.Ico start end_, ∀ v ∈ f x, laws.Free v) :
    wp (Segment.modifyMiddle a.segment start end_ flag args) (fun r t ↦
      laws.Good (PointMap.update (Set.Ico start end_) (laws.setFlag flag) f)
        (⟨a.start, start, r.1⟩ :: ⟨start, end_, r.2.1⟩ :: ⟨end_, a.end_, r.2.2⟩ :: L) t)
      noPanic s := by
  rw [Segment.modifyMiddle, wp_bind]
  refine wp_imp (laws.split h (hl.trans hlt) hr he) fun r t ht ↦ ?_
  rw [wp_bind]
  refine wp_imp (laws.split ht hl hlt hs) fun r' t ht ↦ ?_
  rw [wp_bind]
  exact wp_imp (laws.modify (laws.perm (List.Perm.swap _ _ _) ht) hfree) fun _ t ht ↦
    laws.perm (List.Perm.swap _ _ _) ht

/-! ## Putting a piece back -/

/-- Every area is stored under its own start. -/
def KeyedByStart (segments : OrdMap ℕ (RangeArea S)) : Prop :=
  ∀ x ∈ segments, x.1 = x.2.start

theorem KeyedByStart.insert {segments : OrdMap ℕ (RangeArea S)} (h : KeyedByStart segments)
    (a : RangeArea S) : KeyedByStart (segments.insert a.start a) := by
  intro x hx
  rcases OrdMap.mem_insert.mp hx with rfl | ⟨hx, -⟩
  · rfl
  · exact h x hx

/-- A piece that belongs to the collection replaces nothing when it is stored. -/
theorem good_insert {segments : OrdMap ℕ (RangeArea S)} (hkey : KeyedByStart segments)
    (h : laws.Good f (a :: (segments.values ++ L)) s) :
    laws.Good f ((segments.insert a.start a).values ++ L) s := by
  refine laws.perm (List.Perm.append_right L (OrdMap.perm_values_insert fun x hx ↦ ?_).symm) h
  have hmem : x.2 ∈ segments.values := OrdMap.mem_values.mpr ⟨x.1, hx⟩
  have hapart := (List.pairwise_cons.mp (laws.apart h)).1 x.2 (List.mem_append_left L hmem)
  have ha := laws.nonempty h a List.mem_cons_self
  have hx' := laws.nonempty h x.2 (List.mem_cons_of_mem a (List.mem_append_left L hmem))
  rw [hkey x hx]
  rcases hapart with hapart | hapart <;> omega

/-! ## One area -/

/-- The cuts that the range makes in the area are at allowed positions, and what it cuts out is
free. -/
structure CutsAllowed (f : ℕ → Option β) (start end_ : ℕ) (a : RangeArea S) : Prop where
  cut_start : a.start < start → start < a.end_ → laws.Cut start
  cut_end : a.start < end_ → end_ < a.end_ → laws.Cut end_
  free : ∀ x ∈ Set.Ico start end_ ∩ a.range, ∀ v ∈ f x, laws.Free v

variable {laws} in
theorem CutsAllowed.erase (h : laws.CutsAllowed f start end_ a) (I : Set ℕ) :
    laws.CutsAllowed (PointMap.erase I f) start end_ a where
  cut_start := h.cut_start
  cut_end := h.cut_end
  free x hx v hv := by
    by_cases hI : x ∈ I
    · rw [PointMap.erase_of_mem hI] at hv
      exact absurd hv (by simp)
    · rw [PointMap.erase_of_notMem hI] at hv
      exact h.free x hx v hv

variable {laws} in
theorem CutsAllowed.update (h : laws.CutsAllowed f start end_ a) {I : Set ℕ} {k : β → β}
    (hI : ∀ x ∈ a.range, x ∉ I) : laws.CutsAllowed (PointMap.update I k f) start end_ a where
  cut_start := h.cut_start
  cut_end := h.cut_end
  free x hx v hv := by
    rw [PointMap.update_of_notMem (hI x hx.2)] at hv
    exact h.free x hx v hv

variable {segments : OrdMap ℕ (RangeArea S)}

theorem wp_unmapArea (hkey : KeyedByStart segments)
    (h : laws.Good f (a :: (segments.values ++ L)) s) (hlt : start < end_)
    (hover : a.isOverlapWith start end_ = true) (hcut : laws.CutsAllowed f start end_ a) :
    wp (RangeActionMap.unmapArea start end_ args segments a) (fun segments' t ↦
      KeyedByStart segments' ∧
        laws.Good (PointMap.erase (Set.Ico start end_ ∩ a.range) f) (segments'.values ++ L) t)
      noPanic s := by
  obtain ⟨hl, hr⟩ := RangeArea.isOverlapWith_iff.mp hover
  have hset : ∀ x y : ℕ, (max start a.start = x) → (min end_ a.end_ = y) →
      Set.Ico start end_ ∩ a.range = Set.Ico x y := by
    rintro x y rfl rfl
    rw [RangeArea.range, Set.Ico_inter_Ico]
  rw [RangeActionMap.unmapArea, wp_bind, RangeArea.shrinkOrSplitIfOverlap, if_neg (by omega)]
  split_ifs with hin hmid hleft hright
  · -- the area lies inside the range
    have hfree := hcut.free
    rw [hset a.start a.end_ (by omega) (by omega)] at hfree ⊢
    rw [wp_bind]
    exact wp_imp (laws.remove h hfree) fun _ t ht ↦ ⟨hkey, ht⟩
  · -- the range lies inside the area
    have hfree := hcut.free
    rw [hset start end_ (by omega) (by omega)] at hfree ⊢
    rw [wp_bind]
    refine wp_imp (laws.wp_splitAndRemoveMiddle h hmid.1 hlt hmid.2 (hcut.cut_start hmid.1 hl)
      (hcut.cut_end hr hmid.2) hfree) fun r t ht ↦ ?_
    have ht' := laws.good_insert (L := ⟨end_, a.end_, r.2⟩ :: L) hkey
      (laws.perm (List.Perm.cons _ List.perm_middle.symm) ht)
    exact ⟨(hkey.insert _).insert _,
      laws.good_insert (hkey.insert _) (laws.perm List.perm_middle ht')⟩
  · -- the range covers the left part of the area
    have hfree := hcut.free
    rw [hset a.start end_ (by omega) (by omega)] at hfree ⊢
    rw [wp_bind]
    refine wp_imp (laws.wp_shrinkToRight h hr hleft (hcut.cut_end hr hleft) hfree) fun r t ht ↦ ?_
    exact ⟨hkey.insert _, laws.good_insert hkey ht⟩
  · -- the range covers the right part of the area
    have hfree := hcut.free
    rw [hset start a.end_ (by omega) (by omega)] at hfree ⊢
    rw [wp_bind]
    refine wp_imp (laws.wp_shrinkToLeft h hright hl (hcut.cut_start hright hl) hfree)
      fun r t ht ↦ ?_
    exact ⟨hkey.insert _, laws.good_insert hkey ht⟩
  · omega

theorem wp_mprotectArea (hkey : KeyedByStart segments)
    (h : laws.Good f (a :: (segments.values ++ L)) s) (hlt : start < end_)
    (hover : a.isOverlapWith start end_ = true) (hcut : laws.CutsAllowed f start end_ a) :
    wp (RangeActionMap.mprotectArea start end_ flag args segments a) (fun segments' t ↦
      KeyedByStart segments' ∧
        laws.Good (PointMap.update (Set.Ico start end_ ∩ a.range) (laws.setFlag flag) f)
          (segments'.values ++ L) t)
      noPanic s := by
  obtain ⟨hl, hr⟩ := RangeArea.isOverlapWith_iff.mp hover
  have hset : ∀ x y : ℕ, (max start a.start = x) → (min end_ a.end_ = y) →
      Set.Ico start end_ ∩ a.range = Set.Ico x y := by
    rintro x y rfl rfl
    rw [RangeArea.range, Set.Ico_inter_Ico]
  rw [RangeActionMap.mprotectArea, wp_bind, RangeArea.splitAndModifyIfOverlap, if_neg (by omega)]
  split_ifs with hin hmid hleft hright
  · -- the area lies inside the range
    have hfree := hcut.free
    rw [hset a.start a.end_ (by omega) (by omega)] at hfree ⊢
    rw [wp_bind]
    refine wp_imp (laws.modify h hfree) fun r t ht ↦ ?_
    exact ⟨hkey.insert _, laws.good_insert hkey ht⟩
  · -- the range lies inside the area
    have hfree := hcut.free
    rw [hset start end_ (by omega) (by omega)] at hfree ⊢
    rw [wp_bind]
    refine wp_imp (laws.wp_modifyMiddle h hmid.1 hlt hmid.2 (hcut.cut_start hmid.1 hl)
      (hcut.cut_end hr hmid.2) hfree) fun r t ht ↦ ?_
    have ht₁ := laws.good_insert (L := ⟨start, end_, r.2.1⟩ :: ⟨end_, a.end_, r.2.2⟩ :: L) hkey
      (laws.perm (List.Perm.cons _ ((List.Perm.cons _ List.perm_middle.symm).trans
        List.perm_middle.symm)) ht)
    have ht₂ := laws.good_insert (L := ⟨end_, a.end_, r.2.2⟩ :: L) (hkey.insert _)
      (laws.perm List.perm_middle ht₁)
    exact ⟨((hkey.insert _).insert _).insert _,
      laws.good_insert ((hkey.insert _).insert _) (laws.perm List.perm_middle ht₂)⟩
  · -- the range covers the left part of the area
    have hfree := hcut.free
    rw [hset a.start end_ (by omega) (by omega)] at hfree ⊢
    rw [wp_bind]
    refine wp_imp (laws.wp_modifyLeft h hr hleft (hcut.cut_end hr hleft) hfree) fun r t ht ↦ ?_
    have ht' := laws.good_insert (L := ⟨end_, a.end_, r.2⟩ :: L) hkey
      (laws.perm (List.Perm.cons _ List.perm_middle.symm) ht)
    exact ⟨(hkey.insert _).insert _,
      laws.good_insert (hkey.insert _) (laws.perm List.perm_middle ht')⟩
  · -- the range covers the right part of the area
    have hfree := hcut.free
    rw [hset start a.end_ (by omega) (by omega)] at hfree ⊢
    rw [wp_bind]
    refine wp_imp (laws.wp_modifyRight h hright hl (hcut.cut_start hright hl) hfree)
      fun r t ht ↦ ?_
    have ht' := laws.good_insert (L := ⟨start, a.end_, r.2⟩ :: L) hkey
      (laws.perm (List.Perm.cons _ List.perm_middle.symm) ht)
    exact ⟨(hkey.insert _).insert _,
      laws.good_insert (hkey.insert _) (laws.perm List.perm_middle ht')⟩
  · omega

/-! ## The loops

The areas that meet the range were taken out of the map, which leaves `segments`; `pending` are
those not cut yet. What the loop still has to change is the part of the range covered by
`pending`. -/

/-- The addresses of the areas of a list. -/
def ranges (L : List (RangeArea S)) : Set ℕ := {x | ∃ a ∈ L, x ∈ a.range}

theorem ranges_cons (a : RangeArea S) (L : List (RangeArea S)) :
    ranges (a :: L) = a.range ∪ ranges L := by
  ext x
  simp [ranges]

theorem wp_foldlM_unmapArea (hlt : start < end_) {pending : List (RangeArea S)}
    (hover : ∀ a ∈ pending, a.isOverlapWith start end_ = true)
    (hcut : ∀ a ∈ pending, laws.CutsAllowed f start end_ a) (hkey : KeyedByStart segments)
    (h : laws.Good f (segments.values ++ pending) s) :
    wp (pending.foldlM (RangeActionMap.unmapArea start end_ args) segments) (fun segments' t ↦
      KeyedByStart segments' ∧
        laws.Good (PointMap.erase (Set.Ico start end_ ∩ ranges pending) f) segments'.values t)
      noPanic s := by
  induction pending generalizing segments f s with
  | nil =>
    have hset : Set.Ico start end_ ∩ ranges ([] : List (RangeArea S)) = ∅ := by simp [ranges]
    rw [List.append_nil] at h
    rw [List.foldlM_nil, wp_pure, hset, PointMap.erase_empty]
    exact ⟨hkey, h⟩
  | cons a pending ih =>
    rw [List.foldlM_cons, wp_bind]
    refine wp_imp (laws.wp_unmapArea hkey (laws.perm List.perm_middle h) hlt
      (hover a List.mem_cons_self) (hcut a List.mem_cons_self)) fun segments' t ht ↦ ?_
    refine wp_imp (ih (fun b hb ↦ hover b (List.mem_cons_of_mem a hb))
      (fun b hb ↦ (hcut b (List.mem_cons_of_mem a hb)).erase _) ht.1 ht.2)
      fun segments'' t' ht' ↦ ?_
    rw [PointMap.erase_erase, ← Set.inter_union_distrib_left, Set.union_comm,
      ← ranges_cons] at ht'
    exact ht'

theorem wp_foldlM_mprotectArea (hlt : start < end_) {pending : List (RangeArea S)}
    (hover : ∀ a ∈ pending, a.isOverlapWith start end_ = true)
    (hcut : ∀ a ∈ pending, laws.CutsAllowed f start end_ a) (hkey : KeyedByStart segments)
    (hapart : pending.Pairwise RangeArea.Apart)
    (h : laws.Good f (segments.values ++ pending) s) :
    wp (pending.foldlM (RangeActionMap.mprotectArea start end_ flag args) segments)
      (fun segments' t ↦ KeyedByStart segments' ∧
        laws.Good (PointMap.update (Set.Ico start end_ ∩ ranges pending) (laws.setFlag flag) f)
          segments'.values t)
      noPanic s := by
  induction pending generalizing segments f s with
  | nil =>
    have hset : Set.Ico start end_ ∩ ranges ([] : List (RangeArea S)) = ∅ := by simp [ranges]
    rw [List.append_nil] at h
    rw [List.foldlM_nil, wp_pure, hset, PointMap.update_empty]
    exact ⟨hkey, h⟩
  | cons a pending ih =>
    obtain ⟨ha, hpending⟩ := List.pairwise_cons.mp hapart
    rw [List.foldlM_cons, wp_bind]
    refine wp_imp (laws.wp_mprotectArea hkey (laws.perm List.perm_middle h) hlt
      (hover a List.mem_cons_self) (hcut a List.mem_cons_self)) fun segments' t ht ↦ ?_
    refine wp_imp (ih (fun b hb ↦ hover b (List.mem_cons_of_mem a hb))
      (fun b hb ↦ (hcut b (List.mem_cons_of_mem a hb)).update
        fun x hx hin ↦ (ha b hb).symm.notMem hx hin.2) ht.1 hpending ht.2)
      fun segments'' t' ht' ↦ ?_
    rw [PointMap.update_update, ← Set.inter_union_distrib_left, Set.union_comm,
      ← ranges_cons] at ht'
    · exact ht'
    · -- the areas are apart, so no address is updated twice
      rintro x ⟨-, b, hb, hx⟩ ⟨-, hxa⟩
      exact (ha b hb).notMem hxa hx

/-! ## The map -/

/-- The map stands for `f`: its areas do, and each is stored under its own start. -/
structure Represents (f : ℕ → Option β) (m : RangeActionMap S) (s : σ) : Prop where
  keyed : KeyedByStart m.segments
  good : laws.Good f m.areas s
  args_eq : m.args = args

variable {m : RangeActionMap S}

/-- The areas of a map split into those that meet a range and the others. -/
theorem perm_drain (m : RangeActionMap S) (start end_ : ℕ) :
    ((m.segments.drainFilter fun x ↦ x.2.isOverlapWith start end_).2.values ++
      (m.segments.drainFilter fun x ↦ x.2.isOverlapWith start end_).1.map Prod.snd).Perm
        m.areas := by
  refine List.perm_append_comm.trans ?_
  rw [OrdMap.values, ← List.map_append]
  exact (OrdMap.perm_drainFilter m.segments _).map Prod.snd

/-- On the domain of `f` the range is covered by the areas that meet it. -/
theorem mem_range_iff_of_good (h : laws.Good f m.areas s) (x : ℕ) (hx : (f x).isSome) :
    x ∈ Set.Ico start end_ ∩
        ranges ((m.segments.drainFilter fun x ↦ x.2.isOverlapWith start end_).1.map Prod.snd) ↔
      x ∈ Set.Ico start end_ := by
  refine ⟨And.left, fun hmem ↦ ⟨hmem, ?_⟩⟩
  obtain ⟨a, ha, hxa⟩ := laws.cover h x hx
  obtain ⟨k, hk⟩ := OrdMap.mem_values.mp ha
  have hover : a.isOverlapWith start end_ = true := by
    rw [RangeArea.isOverlapWith_iff]
    rw [Set.mem_Ico] at hmem
    rw [RangeArea.mem_range] at hxa
    omega
  exact ⟨a, List.mem_map.mpr ⟨(k, a), OrdMap.mem_drainFilter_fst.mpr ⟨hk, hover⟩, rfl⟩, hxa⟩

private theorem drained_spec (x : RangeArea S)
    (hx : x ∈ (m.segments.drainFilter fun x ↦ x.2.isOverlapWith start end_).1.map Prod.snd) :
    x ∈ m.areas ∧ x.isOverlapWith start end_ = true := by
  obtain ⟨y, hy, rfl⟩ := List.mem_map.mp hx
  obtain ⟨hy, hover⟩ := OrdMap.mem_drainFilter_fst.mp hy
  exact ⟨OrdMap.mem_values.mpr ⟨y.1, hy⟩, hover⟩

/-- **`unmap` erases the range.** -/
theorem wp_unmap (h : laws.Represents f m s) (hlt : start < end_)
    (hcut : ∀ a ∈ m.areas, laws.CutsAllowed f start end_ a) :
    wp (m.unmap start end_) (fun m' t ↦
      laws.Represents (PointMap.erase (Set.Ico start end_) f) m' t) noPanic s := by
  rw [RangeActionMap.unmap, h.args_eq, wp_bind]
  refine wp_imp (laws.wp_foldlM_unmapArea hlt (fun a ha ↦ (drained_spec a ha).2)
    (fun a ha ↦ hcut a (drained_spec a ha).1)
    (fun x hx ↦ h.keyed x (OrdMap.mem_drainFilter_snd.mp hx).1)
    (laws.perm (perm_drain m start end_).symm h.good)) fun segments' t ht ↦ ⟨ht.1, ?_, rfl⟩
  rw [PointMap.erase_congr (laws.mem_range_iff_of_good h.good)] at ht
  exact ht.2

/-- **`mprotect` updates the range.** -/
theorem wp_mprotect (h : laws.Represents f m s) (hlt : start < end_)
    (hcut : ∀ a ∈ m.areas, laws.CutsAllowed f start end_ a) :
    wp (m.mprotect start end_ flag) (fun m' t ↦
      laws.Represents (PointMap.update (Set.Ico start end_) (laws.setFlag flag) f) m' t)
      noPanic s := by
  have hgood := laws.perm (perm_drain m start end_).symm h.good
  rw [RangeActionMap.mprotect, h.args_eq, wp_bind]
  refine wp_imp (laws.wp_foldlM_mprotectArea hlt (fun a ha ↦ (drained_spec a ha).2)
    (fun a ha ↦ hcut a (drained_spec a ha).1)
    (fun x hx ↦ h.keyed x (OrdMap.mem_drainFilter_snd.mp hx).1)
    (List.pairwise_append.mp (laws.apart hgood)).2.1 hgood) fun segments' t ht ↦ ⟨ht.1, ?_, rfl⟩
  rw [PointMap.update_congr (laws.mem_range_iff_of_good h.good)] at ht
  exact ht.2

/-- Storing a new area that belongs to the collection. -/
theorem represents_insertRaw (hkey : KeyedByStart m.segments) (hargs : m.args = args)
    {segment : S} (h : laws.Good f (⟨start, end_, segment⟩ :: m.areas) s) :
    laws.Represents f (m.insertRaw start end_ segment) s where
  keyed := hkey.insert ⟨start, end_, segment⟩
  good := by
    have := laws.good_insert (L := []) hkey (by rwa [List.append_nil])
    rwa [List.append_nil] at this
  args_eq := hargs

/-- `mmap_fixed` within the limits runs `f` on the erased range and adds the area it makes. -/
theorem wp_mmapFixed {mk : EStateM Panic σ S} {Q : Option ℕ × RangeActionMap S → σ → Prop}
    {E : Panic → σ → Prop} (h : laws.Represents f m s) (hlt : start < end_)
    (hlow : LOWER_LIMIT ≤ start) (hup : end_ ≤ UPPER_LIMIT)
    (hcut : ∀ a ∈ m.areas, laws.CutsAllowed f start end_ a)
    (hmk : ∀ m' t, laws.Represents (PointMap.erase (Set.Ico start end_) f) m' t →
      wp mk (fun seg t' ↦ Q (some start, m'.insertRaw start end_ seg) t') E t) :
    wp (m.mmapFixed start end_ mk) Q E s := by
  rw [RangeActionMap.mmapFixed, if_neg (by omega), wp_bind]
  refine wp_mono (laws.wp_unmap h hlt hcut) (fun m' t ht ↦ ?_) fun _ _ h ↦ h.elim
  rw [wp_bind]
  exact wp_imp (hmk m' t ht) fun seg t' ht' ↦ ht'

/-! ## Lookup -/

/-- The areas are not empty and lie apart, and each is stored under its own start. -/
structure Separated (m : RangeActionMap S) : Prop where
  keyed : KeyedByStart m.segments
  lt : ∀ a ∈ m.areas, a.start < a.end_
  apart : m.areas.Pairwise RangeArea.Apart

namespace Separated

/-- The search by address ends at the area that contains it. -/
theorem findLE_of_mem_range (h : Separated m) (ha : a ∈ m.areas) (hpos : pos ∈ a.range) :
    m.segments.findLE pos = some (a.start, a) := by
  obtain ⟨k, hk⟩ := OrdMap.mem_values.mp ha
  have hka : k = a.start := h.keyed _ hk
  subst hka
  refine OrdMap.findLE_eq_some.mpr ⟨hk, hpos.1, fun y hy hypos ↦ ?_⟩
  -- an area that starts after `a` but not after the address would share it with `a`
  by_contra hlt
  have hya : y.2 ∈ m.areas := OrdMap.mem_values.mpr ⟨y.1, hy⟩
  have hkey : y.1 = y.2.start := h.keyed _ hy
  have hne : y.2 ≠ a := by
    rintro rfl
    exact hlt hkey.le
  have hapart := h.apart.forall hya ha hne
  have hy2 := h.lt _ hya
  rw [RangeArea.mem_range] at hpos
  rcases hapart with hapart | hapart <;> omega

/-- `find` returns the segment of the area that contains the address. -/
theorem find_eq_some_iff (h : Separated m) {seg : S} :
    m.find pos = some seg ↔ ∃ a ∈ m.areas, pos ∈ a.range ∧ a.segment = seg := by
  rw [RangeActionMap.find]
  constructor
  · intro hsome
    cases hfind : m.segments.findLE pos with
    | none =>
      rw [hfind] at hsome
      exact absurd hsome (by simp)
    | some x =>
      rw [hfind] at hsome
      dsimp only at hsome
      split at hsome
      case isTrue hin =>
        have hxa : x.2 ∈ m.areas := OrdMap.mem_values.mpr ⟨x.1, (OrdMap.findLE_eq_some.mp hfind).1⟩
        exact ⟨x.2, hxa, RangeArea.contains_iff.mp hin, Option.some.inj hsome⟩
      case isFalse => exact absurd hsome (by simp)
  · rintro ⟨a, ha, hpos, rfl⟩
    rw [h.findLE_of_mem_range ha hpos]
    exact if_pos (RangeArea.contains_iff.mpr hpos)

/-- Changing a segment in place replaces its area. -/
theorem exists_perm_setSegment (h : Separated m) (ha : a ∈ m.areas) (hpos : pos ∈ a.range) :
    ∃ L, m.areas.Perm (a :: L) ∧ ∀ seg, KeyedByStart (m.setSegment pos seg).segments ∧
      (m.setSegment pos seg).areas.Perm (⟨a.start, a.end_, seg⟩ :: L) ∧
      (m.setSegment pos seg).args = m.args := by
  have hfind := h.findLE_of_mem_range ha hpos
  obtain ⟨L, hL, hinsert⟩ := OrdMap.exists_perm_values (OrdMap.findLE_eq_some.mp hfind).1
  refine ⟨L, hL, fun seg ↦ ?_⟩
  rw [RangeActionMap.setSegment, hfind]
  exact ⟨h.keyed.insert ⟨a.start, a.end_, seg⟩, hinsert _, rfl⟩

end Separated

theorem Represents.separated (h : laws.Represents f m s) : Separated m :=
  ⟨h.keyed, laws.nonempty h.good, laws.apart h.good⟩

/-- Two areas of a collection that share an address are the same. -/
theorem eq_of_mem_range (h : laws.Good f L s) {b : RangeArea S} (ha : a ∈ L) (hb : b ∈ L)
    {x : ℕ} (hxa : x ∈ a.range) (hxb : x ∈ b.range) : a = b := by
  by_contra hne
  exact ((laws.apart h).forall ha hb hne).notMem hxa hxb

/-- `find` returns the segment of the area that contains the address. -/
theorem find_eq_some_iff (h : laws.Represents f m s) {pos : ℕ} {seg : S} :
    m.find pos = some seg ↔ ∃ a ∈ m.areas, pos ∈ a.range ∧ a.segment = seg :=
  (Represents.separated laws h).find_eq_some_iff

/-- Changing a segment in place replaces its area. -/
theorem exists_represents_setSegment (h : laws.Represents f m s) (ha : a ∈ m.areas)
    (hpos : pos ∈ a.range) :
    ∃ L, m.areas.Perm (a :: L) ∧ ∀ seg f' s', laws.Good f' (⟨a.start, a.end_, seg⟩ :: L) s' →
      laws.Represents f' (m.setSegment pos seg) s' := by
  obtain ⟨L, hL, hset⟩ := (Represents.separated laws h).exists_perm_setSegment ha hpos
  refine ⟨L, hL, fun seg f' s' hgood ↦ ?_⟩
  exact ⟨(hset seg).1, laws.perm (hset seg).2.1.symm hgood, (hset seg).2.2.trans h.args_eq⟩

/-! ## Empty ranges

A range whose end is not after its start meets an area only inside it. The first such area is cut
outside of its left part, which a segment need not survive. -/

theorem drainFilter_of_forall_not {m : RangeActionMap S}
    (h : ∀ a ∈ m.areas, a.isOverlapWith start end_ = false) :
    m.segments.drainFilter (fun x ↦ x.2.isOverlapWith start end_) = ([], m.segments) := by
  have hall : ∀ x ∈ m.segments.entries, x.2.isOverlapWith start end_ = false := fun x hx ↦
    h x.2 (OrdMap.mem_values.mpr ⟨x.1, hx⟩)
  rw [OrdMap.drainFilter, Prod.mk.injEq, List.filter_eq_nil_iff]
  refine ⟨fun x hx ↦ by rw [hall x hx]; decide, ?_⟩
  congr 1
  exact List.filter_eq_self.mpr fun x hx ↦ by rw [hall x hx]; decide

variable {E : Panic → σ → Prop}

/-- A range that meets no area is left alone. -/
theorem wp_unmap_of_forall_not (h : ∀ a ∈ m.areas, a.isOverlapWith start end_ = false) :
    wp (m.unmap start end_) (fun m' t ↦ m' = m ∧ t = s) E s := by
  rw [RangeActionMap.unmap, drainFilter_of_forall_not h]
  exact ⟨rfl, rfl⟩

theorem wp_mprotect_of_forall_not (h : ∀ a ∈ m.areas, a.isOverlapWith start end_ = false) :
    wp (m.mprotect start end_ flag) (fun m' t ↦ m' = m ∧ t = s) E s := by
  rw [RangeActionMap.mprotect, drainFilter_of_forall_not h]
  exact ⟨rfl, rfl⟩

/-- The first area that meets a range. -/
theorem exists_drained (h : laws.Represents f m s)
    (hmeet : ¬ ∀ a ∈ m.areas, a.isOverlapWith start end_ = false) :
    ∃ a pending L segments, m.segments.drainFilter (fun x ↦ x.2.isOverlapWith start end_)
        = ((a.start, a) :: pending, segments) ∧ a.isOverlapWith start end_ = true ∧
      laws.Good f (a :: L) s := by
  cases hdrain : m.segments.drainFilter (fun x ↦ x.2.isOverlapWith start end_) with
  | mk drained segments =>
    cases drained with
    | nil =>
      refine absurd (fun a ha ↦ ?_) hmeet
      obtain ⟨k, hk⟩ := OrdMap.mem_values.mp ha
      by_contra hover
      have hover' : a.isOverlapWith start end_ = true := (Bool.not_eq_false _).mp hover
      have : (k, a) ∈ (m.segments.drainFilter fun x ↦ x.2.isOverlapWith start end_).1 :=
        OrdMap.mem_drainFilter_fst.mpr ⟨hk, hover'⟩
      rw [hdrain] at this
      exact absurd this List.not_mem_nil
    | cons x pending =>
      have hx : x ∈ (m.segments.drainFilter fun x ↦ x.2.isOverlapWith start end_).1 := by
        rw [hdrain]
        exact List.mem_cons_self
      obtain ⟨hmem, hover⟩ := OrdMap.mem_drainFilter_fst.mp hx
      obtain ⟨L, hL, -⟩ := OrdMap.exists_perm_values (k := x.1) (a := x.2) hmem
      refine ⟨x.2, pending, L, segments, ?_, hover, laws.perm hL h.good⟩
      rw [← h.keyed x hmem]

/-- With an end not after its start, a range either meets no area or fails. -/
theorem wp_unmap_of_le (h : laws.Represents f m s) (hle : end_ ≤ start)
    (hcut : ∀ a L, laws.Good f (a :: L) s → a.start < end_ → start < a.end_ →
      wp (Segment.splitAndRemoveMiddle a.segment start end_ args) (fun _ _ ↦ False) E s) :
    wp (m.unmap start end_) (fun m' t ↦ m' = m ∧ t = s) E s := by
  by_cases hmeet : ∀ a ∈ m.areas, a.isOverlapWith start end_ = false
  · exact wp_unmap_of_forall_not hmeet
  · obtain ⟨a, pending, L, segments, hdrain, hover, hgood⟩ := laws.exists_drained h hmeet
    obtain ⟨hl, hr⟩ := RangeArea.isOverlapWith_iff.mp hover
    rw [RangeActionMap.unmap, hdrain, h.args_eq]
    dsimp only
    rw [List.map_cons, List.foldlM_cons]
    dsimp only
    rw [wp_bind, wp_bind, RangeActionMap.unmapArea, wp_bind, RangeArea.shrinkOrSplitIfOverlap,
      if_neg (by omega), if_neg (by omega), if_pos (by omega), wp_bind]
    exact wp_imp (hcut a L hgood hr hl) fun _ _ h ↦ h.elim

theorem wp_mprotect_of_le (h : laws.Represents f m s) (hle : end_ ≤ start)
    (hcut : ∀ a L, laws.Good f (a :: L) s → a.start < end_ → start < a.end_ →
      wp (Segment.modifyMiddle a.segment start end_ flag args) (fun _ _ ↦ False) E s) :
    wp (m.mprotect start end_ flag) (fun m' t ↦ m' = m ∧ t = s) E s := by
  by_cases hmeet : ∀ a ∈ m.areas, a.isOverlapWith start end_ = false
  · exact wp_mprotect_of_forall_not hmeet
  · obtain ⟨a, pending, L, segments, hdrain, hover, hgood⟩ := laws.exists_drained h hmeet
    obtain ⟨hl, hr⟩ := RangeArea.isOverlapWith_iff.mp hover
    rw [RangeActionMap.mprotect, hdrain, h.args_eq]
    dsimp only
    rw [List.map_cons, List.foldlM_cons]
    dsimp only
    rw [wp_bind, wp_bind, RangeActionMap.mprotectArea, wp_bind, RangeArea.splitAndModifyIfOverlap,
      if_neg (by omega), if_neg (by omega), if_pos (by omega), wp_bind]
    exact wp_imp (hcut a L hgood hr hl) fun _ _ h ↦ h.elim

end SegmentLaws

/-! ## Free areas -/

namespace RangeActionMap

variable {S : Type} {m : RangeActionMap S} {len hint start : ℕ}

/-- The loop returns a gap, unless the end of the gap wraps. -/
theorem findFreeLoop_spec {entries : List (ℕ × RangeArea S)} {last : ℕ}
    (hsort : entries.Pairwise fun x y ↦ x.1 < y.1)
    (h : findFreeLoop len entries last = some start) (hlt : start + len < 2 ^ 64) :
    last ≤ start ∧ (start = last ∨ ∃ x ∈ entries, start = x.2.end_) ∧
      ∀ x ∈ entries, start + len ≤ x.1 ∨ x.2.end_ ≤ start := by
  induction entries generalizing last with
  | nil =>
    rw [findFreeLoop] at h
    split_ifs at h
    rw [Option.some.injEq] at h
    exact ⟨h.le, Or.inl h.symm, fun x hx ↦ absurd hx List.not_mem_nil⟩
  | cons x entries ih =>
    obtain ⟨hx, hsort⟩ := List.pairwise_cons.mp hsort
    rw [findFreeLoop] at h
    split_ifs at h with hgap
    · rw [Option.some.injEq] at h
      subst h
      rw [wadd_of_lt hlt] at hgap
      refine ⟨le_rfl, Or.inl rfl, fun y hy ↦ Or.inl ?_⟩
      rcases List.mem_cons.mp hy with rfl | hy
      · exact hgap
      · exact hgap.trans (hx y hy).le
    · obtain ⟨hle, hfrom, hrest⟩ := ih hsort h
      refine ⟨(le_max_left _ _).trans hle, ?_, fun y hy ↦ ?_⟩
      · rcases hfrom with hfrom | ⟨y, hy, hfrom⟩
        · rcases max_choice last x.2.end_ with hmax | hmax
          · exact Or.inl (hfrom.trans hmax)
          · exact Or.inr ⟨x, List.mem_cons_self, hfrom.trans hmax⟩
        · exact Or.inr ⟨y, List.mem_cons_of_mem x hy, hfrom⟩
      · rcases List.mem_cons.mp hy with rfl | hy
        · exact Or.inr ((le_max_right _ _).trans hle)
        · exact hrest y hy

/-- What `find_free_area` returns meets no area, unless its end wraps. -/
theorem findFreeArea_spec (hkey : SegmentLaws.KeyedByStart m.segments)
    (h : m.findFreeArea hint len = some start) (hlt : start + len < 2 ^ 64) :
    max hint LOWER_LIMIT ≤ start ∧
      (start = max hint LOWER_LIMIT ∨ ∃ a ∈ m.areas, start = a.end_) ∧
      ∀ a ∈ m.areas, start + len ≤ a.start ∨ a.end_ ≤ start := by
  obtain ⟨hle, hfrom, hgap⟩ := findFreeLoop_spec m.segments.sorted h hlt
  refine ⟨hle, ?_, fun a ha ↦ ?_⟩
  · rcases hfrom with hfrom | ⟨x, hx, hfrom⟩
    · exact Or.inl hfrom
    · exact Or.inr ⟨x.2, OrdMap.mem_values.mpr ⟨x.1, hx⟩, hfrom⟩
  · obtain ⟨k, hk⟩ := OrdMap.mem_values.mp ha
    have hka : k = a.start := hkey _ hk
    rw [← hka]
    exact hgap (k, a) hk

end RangeActionMap

end Maturin
