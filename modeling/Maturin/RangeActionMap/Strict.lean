import Maturin.RangeActionMap.Laws

/-!
# What cannot be removed is not removed silently

The laws of a segment type say what happens where its values are free. For a type whose `remove`
does not return from an area that is not free, no operation that removes a part of the map returns
when there is a value in that part which is not free: the pieces are cut off first, and what is left
is removed as a whole.
-/

open Exec

namespace Maturin

namespace SegmentLaws

variable {S σ β : Type} [Segment S σ] {args : ArgsType} {laws : SegmentLaws S σ β args}
variable {f : ℕ → Option β} {a : RangeArea S} {L : List (RangeArea S)} {s : σ} {pos : ℕ}
variable {start end_ : ℕ} {segments : OrdMap ℕ (RangeArea S)} {m : RangeActionMap S}

variable (laws) in
/-- Removing an area that is not free does not return. -/
structure Strict : Prop where
  remove : ∀ {f a L s}, laws.Good f (a :: L) s → (¬∀ x ∈ a.range, ∀ v ∈ f x, laws.Free v) →
    wp (Segment.remove a.segment args) (fun _ _ ↦ False) anyPanic s

namespace Strict

/-! ## One area -/

theorem wp_shrinkToLeft (hstrict : laws.Strict) (h : laws.Good f (a :: L) s) (hl : a.start < pos)
    (hr : pos < a.end_) (hcut : laws.Cut pos)
    (hnot : ¬∀ x ∈ Set.Ico pos a.end_, ∀ v ∈ f x, laws.Free v) :
    wp (Segment.shrinkToLeft a.segment pos args) (fun _ _ ↦ False) anyPanic s := by
  rw [Segment.shrinkToLeft, wp_bind]
  refine wp_mono (laws.split h hl hr hcut) (fun r t ht ↦ ?_) fun _ _ h ↦ h.elim
  rw [wp_bind]
  exact wp_imp (hstrict.remove (laws.perm (List.Perm.swap _ _ _) ht) hnot) fun _ _ h ↦ h.elim

theorem wp_shrinkToRight (hstrict : laws.Strict) (h : laws.Good f (a :: L) s) (hl : a.start < pos)
    (hr : pos < a.end_) (hcut : laws.Cut pos)
    (hnot : ¬∀ x ∈ Set.Ico a.start pos, ∀ v ∈ f x, laws.Free v) :
    wp (Segment.shrinkToRight a.segment pos args) (fun _ _ ↦ False) anyPanic s := by
  rw [Segment.shrinkToRight, wp_bind]
  refine wp_mono (laws.split h hl hr hcut) (fun r t ht ↦ ?_) fun _ _ h ↦ h.elim
  rw [wp_bind]
  exact wp_imp (hstrict.remove ht hnot) fun _ _ h ↦ h.elim

theorem wp_splitAndRemoveMiddle (hstrict : laws.Strict) (h : laws.Good f (a :: L) s)
    (hl : a.start < start) (hlt : start < end_) (hr : end_ < a.end_) (hs : laws.Cut start)
    (he : laws.Cut end_) (hnot : ¬∀ x ∈ Set.Ico start end_, ∀ v ∈ f x, laws.Free v) :
    wp (Segment.splitAndRemoveMiddle a.segment start end_ args) (fun _ _ ↦ False) anyPanic s := by
  rw [Segment.splitAndRemoveMiddle, wp_bind]
  refine wp_mono (laws.split h (hl.trans hlt) hr he) (fun r t ht ↦ ?_) fun _ _ h ↦ h.elim
  rw [wp_bind]
  refine wp_mono (laws.split ht hl hlt hs) (fun r' t ht ↦ ?_) fun _ _ h ↦ h.elim
  rw [wp_bind]
  exact wp_imp (hstrict.remove (laws.perm (List.Perm.swap _ _ _) ht) hnot) fun _ _ h ↦ h.elim

theorem wp_unmapArea (hstrict : laws.Strict) (h : laws.Good f (a :: L) s) (hlt : start < end_)
    (hover : a.isOverlapWith start end_ = true) (hs : laws.Cut start) (he : laws.Cut end_)
    (hnot : ¬∀ x ∈ Set.Ico start end_ ∩ a.range, ∀ v ∈ f x, laws.Free v) :
    wp (RangeActionMap.unmapArea start end_ args segments a) (fun _ _ ↦ False) anyPanic s := by
  obtain ⟨hl, hr⟩ := RangeArea.isOverlapWith_iff.mp hover
  rw [RangeArea.range, Set.Ico_inter_Ico] at hnot
  rw [RangeActionMap.unmapArea, wp_bind, RangeArea.shrinkOrSplitIfOverlap, if_neg (by omega)]
  split_ifs with hin hmid hleft hright
  · rw [sup_eq_right.mpr hin.1, inf_eq_right.mpr hin.2] at hnot
    rw [wp_bind]
    exact wp_imp (hstrict.remove h hnot) fun _ _ h ↦ h.elim
  · rw [sup_eq_left.mpr hmid.1.le, inf_eq_left.mpr hmid.2.le] at hnot
    rw [wp_bind]
    exact wp_imp (hstrict.wp_splitAndRemoveMiddle h hmid.1 hlt hmid.2 hs he hnot)
      fun _ _ h ↦ h.elim
  · rw [sup_eq_right.mpr (by omega), inf_eq_left.mpr hleft.le] at hnot
    rw [wp_bind]
    exact wp_imp (hstrict.wp_shrinkToRight h hr hleft he hnot) fun _ _ h ↦ h.elim
  · rw [sup_eq_left.mpr hright.le, inf_eq_right.mpr (by omega)] at hnot
    rw [wp_bind]
    exact wp_imp (hstrict.wp_shrinkToLeft h hright hl hs hnot) fun _ _ h ↦ h.elim
  · omega

/-! ## The map -/

/-- The loop stops at the latest at the first area that is not free in the range; until then it
removed nothing of the others. -/
theorem wp_foldlM_unmapArea (hstrict : laws.Strict) (hlt : start < end_) (hs : laws.Cut start)
    (he : laws.Cut end_) {pending : List (RangeArea S)}
    (hover : ∀ a ∈ pending, a.isOverlapWith start end_ = true) (hkey : KeyedByStart segments)
    (hapart : pending.Pairwise RangeArea.Apart) (h : laws.Good f (segments.values ++ pending) s)
    (hnot : ¬∀ x ∈ Set.Ico start end_ ∩ ranges pending, ∀ v ∈ f x, laws.Free v) :
    wp (pending.foldlM (RangeActionMap.unmapArea start end_ args) segments) (fun _ _ ↦ False)
      anyPanic s := by
  induction pending generalizing segments f s with
  | nil =>
    refine absurd (fun x hx ↦ ?_) hnot
    obtain ⟨a, ha, -⟩ := hx.2
    exact absurd ha List.not_mem_nil
  | cons a pending ih =>
    obtain ⟨ha, hpending⟩ := List.pairwise_cons.mp hapart
    have hgood := laws.perm List.perm_middle h
    have hover' := hover a List.mem_cons_self
    rw [List.foldlM_cons, wp_bind]
    by_cases hfree : ∀ x ∈ Set.Ico start end_ ∩ a.range, ∀ v ∈ f x, laws.Free v
    · refine wp_mono (laws.wp_unmapArea hkey hgood hlt hover' ⟨fun _ _ ↦ hs, fun _ _ ↦ he, hfree⟩)
        (fun segments' t ht ↦ ?_) fun _ _ h ↦ h.elim
      refine ih (fun b hb ↦ hover b (List.mem_cons_of_mem a hb)) ht.1 hpending ht.2
        fun hall ↦ hnot fun x hx v hv ↦ ?_
      by_cases hxa : x ∈ a.range
      · exact hfree x ⟨hx.1, hxa⟩ v hv
      · -- what was removed so far leaves the value alone
        rw [ranges_cons] at hx
        refine hall x ⟨hx.1, hx.2.resolve_left hxa⟩ v ?_
        rwa [PointMap.erase_of_notMem fun hmem ↦ hxa hmem.2]
    · exact wp_imp (hstrict.wp_unmapArea hgood hlt hover' hs he hfree) fun _ _ h ↦ h.elim

/-- `unmap` of a range that is not free does not return. -/
theorem wp_unmap (hstrict : laws.Strict) (h : laws.Represents f m s) (hlt : start < end_)
    (hs : laws.Cut start) (he : laws.Cut end_)
    (hnot : ¬∀ x ∈ Set.Ico start end_, ∀ v ∈ f x, laws.Free v) :
    wp (m.unmap start end_) (fun _ _ ↦ False) anyPanic s := by
  have hgood := laws.perm (perm_drain m start end_).symm h.good
  rw [RangeActionMap.unmap, h.args_eq, wp_bind]
  refine wp_imp (hstrict.wp_foldlM_unmapArea hlt hs he (fun a ha ↦ ?_)
    (fun x hx ↦ h.keyed x (OrdMap.mem_drainFilter_snd.mp hx).1)
    (List.pairwise_append.mp (laws.apart hgood)).2.1 hgood fun hall ↦ hnot fun x hx v hv ↦ ?_)
    fun _ _ h ↦ h.elim
  · obtain ⟨y, hy, rfl⟩ := List.mem_map.mp ha
    exact (OrdMap.mem_drainFilter_fst.mp hy).2
  · have hsome : (f x).isSome := by
      rw [Option.mem_def.mp hv]
      rfl
    exact hall x ((laws.mem_range_iff_of_good h.good x hsome).mpr hx) v hv

/-- `mmap_fixed` at a range that is not free does not return. -/
theorem wp_mmapFixed (hstrict : laws.Strict) (h : laws.Represents f m s) (hlt : start < end_)
    (hlow : LOWER_LIMIT ≤ start) (hup : end_ ≤ UPPER_LIMIT) (hs : laws.Cut start)
    (he : laws.Cut end_) (hnot : ¬∀ x ∈ Set.Ico start end_, ∀ v ∈ f x, laws.Free v)
    (mk : EStateM Panic σ S) : wp (m.mmapFixed start end_ mk) (fun _ _ ↦ False) anyPanic s := by
  rw [RangeActionMap.mmapFixed, if_neg (by omega), wp_bind]
  exact wp_imp (hstrict.wp_unmap h hlt hs he hnot) fun _ _ h ↦ h.elim

end Strict

end SegmentLaws

end Maturin
