import Maturin.Memory.Fault
import Maturin.Memory.MemorySet
import Maturin.Memory.NewArea

/-!
# What the operations of an address space do to its cells

`SpaceOk e g ms w` says that the address space `ms` in the world `w` stands for the cells `g`. Each
method of `MemorySet` gets one specification: the cells it leaves behind. Removing and changing
ranges come from the laws of the range map, faults and new areas from the lemmas about one area.
-/

open Exec

namespace Maturin

variable {σ φ F : Type} [FrameAllocator σ] [FileStore F φ]

/-- The address space stands for the cells. -/
structure SpaceOk (e : PtEnv) (g : ℕ → Option Cell) (ms : MemorySet F) (w : World σ φ) : Prop where
  keyed : SegmentLaws.KeyedByStart ms.areaMap.segments
  coherent : Coherent e g ms.areaMap.areas (ms.pt, w)
  args_eq : ms.areaMap.args = 0
  isUser : ms.isUser = true

/-- The pages that start in a range. -/
def pagesOf (start end_ : ℕ) : Set ℕ := {n | n * PAGE_SIZE ∈ Set.Ico start end_}

/-- The pages that meet a range. -/
def touched (start end_ : ℕ) : Set ℕ := {n | ∃ x ∈ Set.Ico start end_, x / PAGE_SIZE = n}

/-- An area without frames. -/
def VmArea.bare (start end_ : ℕ) (flags : PTEFlags) (backend : Option (BackEndFile F)) : VmArea F :=
  ⟨start, end_, flags, ⟨List.replicate (pageCount (end_ - start)) none, backend⟩⟩

/-- No frame was left for a table of a new area. -/
def NoTableFrame (p : Panic) (w : World σ φ) : Prop :=
  p = .unwrap .pushMapArea .pageTable_frameAllocFailed ∧ w.oom = true

/-- A panic, though not one of tearing down or re-protecting memory. -/
def otherPanic {τ : Type} : Panic → τ → Prop := fun p _ ↦ p.isTeardown = false

variable {e : PtEnv} {g : ℕ → Option Cell} {ms : MemorySet F} {w : World σ φ}
variable {start end_ x : ℕ} {a : RangeArea (VmArea F)}

omit [FrameAllocator σ] [FileStore F φ] in
theorem wp_withPt {α : Type}
    {y : EStateM Panic (PageTable × World σ φ) (α × RangeActionMap (VmArea F))}
    {Q : α × MemorySet F → World σ φ → Prop} {E : Panic → World σ φ → Prop} :
    wp (ms.withPt y) Q E w ↔ wp y (fun r s ↦ Q (r.1, { ms with areaMap := r.2, pt := s.1 }) s.2)
      (fun p s ↦ E p s.2) (ms.pt, w) := by
  rw [MemorySet.withPt, wp_bind, wp_withFst]
  rfl

namespace SpaceOk

/-- In terms of the laws of the range map. -/
theorem represents (h : SpaceOk e g ms w) :
    (areaLaws e 0).Represents (onPages g) ms.areaMap (ms.pt, w) :=
  ⟨h.keyed, ⟨g, rfl, h.coherent⟩, h.args_eq⟩

theorem of_represents {m : RangeActionMap (VmArea F)} {f : ℕ → Option Cell}
    {s : PageTable × World σ φ} (h : SpaceOk e g ms w)
    (hr : (areaLaws e 0).Represents f m s) :
    SpaceOk e (fun n ↦ f (n * PAGE_SIZE)) { ms with areaMap := m, pt := s.1 } s.2 := by
  obtain ⟨g', rfl, hcoh⟩ := hr.good
  have hg : (fun n ↦ onPages g' (n * PAGE_SIZE)) = g' := funext fun n ↦ onPages_page g' n
  rw [hg]
  exact ⟨hr.keyed, hcoh, hr.args_eq, h.isUser⟩

/-! ## Removing and changing a range -/

omit [FrameAllocator σ] [FileStore F φ] in
theorem erase_onPages (g : ℕ → Option Cell) (start end_ : ℕ) :
    (fun n ↦ PointMap.erase (Set.Ico start end_) (onPages g) (n * PAGE_SIZE))
      = PointMap.erase (pagesOf start end_) g := by
  funext n
  by_cases hn : n ∈ pagesOf start end_
  · rw [PointMap.erase_of_mem hn, PointMap.erase_of_mem (I := Set.Ico start end_) hn]
  · rw [PointMap.erase_of_notMem hn, PointMap.erase_of_notMem (I := Set.Ico start end_) hn,
      onPages_page]

omit [FrameAllocator σ] [FileStore F φ] in
theorem update_onPages (g : ℕ → Option Cell) (start end_ : ℕ) (k : Cell → Cell) :
    (fun n ↦ PointMap.update (Set.Ico start end_) k (onPages g) (n * PAGE_SIZE))
      = PointMap.update (pagesOf start end_) k g := by
  funext n
  by_cases hn : n ∈ pagesOf start end_
  · rw [PointMap.update_of_mem hn, PointMap.update_of_mem (I := Set.Ico start end_) hn,
      onPages_page]
  · rw [PointMap.update_of_notMem hn, PointMap.update_of_notMem (I := Set.Ico start end_) hn,
      onPages_page]

/-- What the range cuts out of the areas can be cut: the cuts inside an area are at page boundaries,
and the pages touched are mapped if they have a frame. -/
structure Cuttable (g : ℕ → Option Cell) (start end_ : ℕ) (a : RangeArea (VmArea F)) : Prop where
  cut_start : a.start < start → start < a.end_ → PageAligned start
  cut_end : a.start < end_ → end_ < a.end_ → PageAligned end_
  free : ∀ x ∈ Set.Ico start end_ ∩ a.range, ∀ c ∈ g (x / PAGE_SIZE), c.Free

omit [FrameAllocator σ] [FileStore F φ] in
theorem Cuttable.of_aligned (hs : PageAligned start) (he : PageAligned end_)
    (hfree : ∀ n ∈ touched start end_, ∀ c ∈ g n, c.Free) : Cuttable g start end_ a where
  cut_start _ _ := hs
  cut_end _ _ := he
  free x hx c hc := hfree _ ⟨x, hx.1, rfl⟩ c hc

theorem Cuttable.cutsAllowed (h : Cuttable g start end_ a) :
    (areaLaws (σ := σ) (φ := φ) e 0).CutsAllowed (onPages g) start end_ a :=
  ⟨h.cut_start, h.cut_end, h.free⟩

/-- `munmap` erases the pages of the range. -/
theorem wp_munmap (h : SpaceOk e g ms w) (hlt : start < end_)
    (hcut : ∀ a ∈ ms.areaMap.areas, Cuttable g start end_ a) :
    wp (ms.munmap start end_) (fun r w' ↦
      SpaceOk e (PointMap.erase (pagesOf start end_) g) r.2 w') noPanic w := by
  rw [MemorySet.munmap, wp_withPt, wp_bind]
  refine wp_imp ((areaLaws e 0).wp_unmap h.represents hlt fun a ha ↦ (hcut a ha).cutsAllowed)
    fun m s hm ↦ ?_
  have := h.of_represents hm
  rwa [erase_onPages] at this

/-- `mprotect` changes the flags of the pages of the range. -/
theorem wp_mprotect (h : SpaceOk e g ms w) (hlt : start < end_)
    (hcut : ∀ a ∈ ms.areaMap.areas, Cuttable g start end_ a) (flags : PTEFlags) :
    wp (ms.mprotect start end_ flags) (fun r w' ↦
      SpaceOk e (PointMap.update (pagesOf start end_) (Cell.withFlags flags) g) r.2 w')
      noPanic w := by
  rw [MemorySet.mprotect, wp_withPt, wp_bind]
  refine wp_imp ((areaLaws e 0).wp_mprotect h.represents hlt fun a ha ↦ (hcut a ha).cutsAllowed)
    fun m s hm ↦ ?_
  have := h.of_represents hm
  rwa [update_onPages, areaLaws_setFlag] at this

/-- A range that meets no area changes nothing. -/
theorem wp_munmap_of_forall_not (h : ∀ a ∈ ms.areaMap.areas, a.isOverlapWith start end_ = false)
    {E : Panic → World σ φ → Prop} :
    wp (ms.munmap start end_) (fun r w' ↦ r.2 = ms ∧ w' = w) E w := by
  rw [MemorySet.munmap, wp_withPt, wp_bind]
  refine wp_imp (SegmentLaws.wp_unmap_of_forall_not h) fun m s hm ↦ ?_
  obtain ⟨rfl, rfl⟩ := hm
  exact ⟨rfl, rfl⟩

theorem wp_mprotect_of_forall_not (h : ∀ a ∈ ms.areaMap.areas, a.isOverlapWith start end_ = false)
    {flags : PTEFlags} {E : Panic → World σ φ → Prop} :
    wp (ms.mprotect start end_ flags) (fun r w' ↦ r.2 = ms ∧ w' = w) E w := by
  rw [MemorySet.mprotect, wp_withPt, wp_bind]
  refine wp_imp (SegmentLaws.wp_mprotect_of_forall_not h) fun m s hm ↦ ?_
  obtain ⟨rfl, rfl⟩ := hm
  exact ⟨rfl, rfl⟩

/-- With an end not after its start, an aligned range changes nothing or cannot be cut. -/
theorem wp_unmapMap_of_le (h : SpaceOk e g ms w) (hle : end_ ≤ start) (he : PageAligned end_) :
    wp (ms.areaMap.unmap start end_) (fun m t ↦ m = ms.areaMap ∧ t = (ms.pt, w))
      (fun p _ ↦ p = .unwrap .splitPma .pmArea_splitFailed) (ms.pt, w) :=
  (areaLaws e 0).wp_unmap_of_le h.represents hle fun _ _ hgood hl hr ↦ by
    obtain ⟨g', -, hcoh⟩ := hgood
    exact hcoh.wp_splitAndRemoveMiddle_of_le hl hle hr he

theorem wp_mprotectMap_of_le (h : SpaceOk e g ms w) (hle : end_ ≤ start) (he : PageAligned end_)
    (flag : IdentType) :
    wp (ms.areaMap.mprotect start end_ flag) (fun m t ↦ m = ms.areaMap ∧ t = (ms.pt, w))
      (fun p _ ↦ p = .unwrap .splitPma .pmArea_splitFailed) (ms.pt, w) :=
  (areaLaws e 0).wp_mprotect_of_le h.represents hle fun _ _ hgood hl hr ↦ by
    obtain ⟨g', -, hcoh⟩ := hgood
    exact hcoh.wp_modifyMiddle_of_le hl hle hr he

omit [FrameAllocator σ] [FileStore F φ] in
theorem pagesOf_of_le (hle : end_ ≤ start) : pagesOf start end_ = ∅ :=
  Set.eq_empty_of_forall_notMem fun _ hn ↦ absurd (hn.1.trans_lt hn.2) (not_lt.mpr hle)

/-- Where the range cuts an area in two, it does so at a page boundary. -/
def Cuts (ms : MemorySet F) (start end_ : ℕ) : Prop :=
  ∀ a ∈ ms.areaMap.areas, a.isOverlapWith start end_ = true →
    (a.start < start → PageAligned start) ∧ (end_ < a.end_ → PageAligned end_)

omit [FrameAllocator σ] [FileStore F φ] in
theorem Cuts.of_aligned (hs : PageAligned start) (he : PageAligned end_) : Cuts ms start end_ :=
  fun _ _ _ ↦ ⟨fun _ ↦ hs, fun _ ↦ he⟩

omit [FrameAllocator σ] [FileStore F φ] in
theorem Cuts.cuttable (h : Cuts ms start end_) (hlt : start < end_) (ha : a ∈ ms.areaMap.areas)
    (hfree : ∀ n ∈ touched start end_, ∀ c ∈ g n, c.Free) : Cuttable g start end_ a where
  cut_start hl hr := (h a ha (RangeArea.isOverlapWith_iff.mpr ⟨hr, hl.trans hlt⟩)).1 hl
  cut_end hl hr := (h a ha (RangeArea.isOverlapWith_iff.mpr ⟨hlt.trans hr, hl⟩)).2 hr
  free x hx c hc := hfree _ ⟨x, hx.1, rfl⟩ c hc

omit [FrameAllocator σ] [FileStore F φ] in
/-- A range in the wrong order meets no area, or both of its ends cut one. -/
theorem Cuts.of_le (h : Cuts ms start end_) (hle : end_ ≤ start) :
    (∀ a ∈ ms.areaMap.areas, a.isOverlapWith start end_ = false) ∨ PageAligned end_ := by
  by_cases hmeet : ∀ a ∈ ms.areaMap.areas, a.isOverlapWith start end_ = false
  · exact Or.inl hmeet
  · right
    simp only [not_forall, Bool.not_eq_false] at hmeet
    obtain ⟨a, ha, hover⟩ := hmeet
    have := RangeArea.isOverlapWith_iff.mp hover
    exact (h a ha hover).2 (by omega)

/-- `munmap` of a range in the wrong order changes nothing, or cannot cut an area. -/
theorem wp_munmap_of_le (h : SpaceOk e g ms w) (hcuts : Cuts ms start end_) (hle : end_ ≤ start) :
    wp (ms.munmap start end_) (fun r w' ↦ r.2 = ms ∧ w' = w) otherPanic w := by
  rcases hcuts.of_le hle with hnot | he
  · exact wp_munmap_of_forall_not hnot
  · rw [MemorySet.munmap, wp_withPt, wp_bind]
    refine wp_mono (h.wp_unmapMap_of_le hle he) (fun m t hm ↦ ?_) fun p _ hp ↦ ?_
    · obtain ⟨rfl, rfl⟩ := hm
      exact ⟨rfl, rfl⟩
    · subst hp
      rfl

theorem wp_mprotect_of_le (h : SpaceOk e g ms w) (hcuts : Cuts ms start end_) (hle : end_ ≤ start)
    (flags : PTEFlags) :
    wp (ms.mprotect start end_ flags) (fun r w' ↦ r.2 = ms ∧ w' = w) otherPanic w := by
  rcases hcuts.of_le hle with hnot | he
  · exact wp_mprotect_of_forall_not hnot
  · rw [MemorySet.mprotect, wp_withPt, wp_bind]
    refine wp_mono (h.wp_mprotectMap_of_le hle he _) (fun m t hm ↦ ?_) fun p _ hp ↦ ?_
    · obtain ⟨rfl, rfl⟩ := hm
      exact ⟨rfl, rfl⟩
    · subst hp
      rfl

/-- `munmap` of any range that cuts areas at page boundaries only. -/
theorem wp_munmap_of_cuts (h : SpaceOk e g ms w) (hcuts : Cuts ms start end_)
    (hfree : ∀ n ∈ touched start end_, ∀ c ∈ g n, c.Free) :
    wp (ms.munmap start end_) (fun r w' ↦
      SpaceOk e (PointMap.erase (pagesOf start end_) g) r.2 w') otherPanic w := by
  by_cases hlt : start < end_
  · exact wp_mono (h.wp_munmap hlt fun a ha ↦ hcuts.cuttable hlt ha hfree) (fun _ _ h ↦ h)
      fun _ _ h ↦ h.elim
  · rw [pagesOf_of_le (not_lt.mp hlt), PointMap.erase_empty]
    refine wp_imp (h.wp_munmap_of_le hcuts (not_lt.mp hlt)) fun r w' hr ↦ ?_
    rw [hr.1, hr.2]
    exact h

/-- `mprotect` of any range that cuts areas at page boundaries only. -/
theorem wp_mprotect_of_cuts (h : SpaceOk e g ms w) (hcuts : Cuts ms start end_)
    (hfree : ∀ n ∈ touched start end_, ∀ c ∈ g n, c.Free) (flags : PTEFlags) :
    wp (ms.mprotect start end_ flags) (fun r w' ↦
      SpaceOk e (PointMap.update (pagesOf start end_) (Cell.withFlags flags) g) r.2 w')
      otherPanic w := by
  by_cases hlt : start < end_
  · exact wp_mono (h.wp_mprotect hlt (fun a ha ↦ hcuts.cuttable hlt ha hfree) flags)
      (fun _ _ h ↦ h) fun _ _ h ↦ h.elim
  · rw [pagesOf_of_le (not_lt.mp hlt), PointMap.update_empty]
    refine wp_imp (h.wp_mprotect_of_le hcuts (not_lt.mp hlt) flags) fun r w' hr ↦ ?_
    rw [hr.1, hr.2]
    exact h

/-! ## Looking an address up -/

omit [FileStore F φ] in
/-- An address is in an area exactly if its page has a cell. -/
theorem exists_area_iff (h : SpaceOk e g ms w) (x : ℕ) :
    (∃ a ∈ ms.areaMap.areas, x ∈ a.range) ↔ (g (x / PAGE_SIZE)).isSome := by
  constructor
  · rintro ⟨a, ha, hx⟩
    have hat := h.coherent.layout.area a ha
    obtain ⟨p, hp, -⟩ := hat.ok
    have hmem := (hat.mem_range_iff x).mp hx
    rw [hat.pages_eq hp] at hmem
    obtain ⟨c, hc, -⟩ := hp.cell (x / PAGE_SIZE - p) (by have := hmem.1; have := hmem.2; omega)
    rw [Nat.add_sub_cancel' hmem.1] at hc
    rw [hc]
    rfl
  · intro hsome
    obtain ⟨a, ha, hmem⟩ := h.coherent.layout.cover _ hsome
    exact ⟨a, ha, ((h.coherent.layout.area a ha).mem_range_iff x).mpr hmem⟩

omit [FileStore F φ] in
/-- The flags of the area of an address are those of the cell. -/
theorem flags_eq (h : SpaceOk e g ms w) (ha : a ∈ ms.areaMap.areas) (hx : x ∈ a.range) {c : Cell}
    (hc : g (x / PAGE_SIZE) = some c) : a.segment.flags = c.flags := by
  have hat := h.coherent.layout.area a ha
  obtain ⟨p, hp, hflags⟩ := hat.ok
  have hmem := (hat.mem_range_iff x).mp hx
  rw [hat.pages_eq hp] at hmem
  refine (hflags (x / PAGE_SIZE - p) (by have := hmem.1; have := hmem.2; omega) c ?_).symm
  rw [Nat.add_sub_cancel' hmem.1]
  exact hc

/-- What `find` returns, in terms of the cells. -/
theorem find_eq_none (h : SpaceOk e g ms w) (hg : g (x / PAGE_SIZE) = none) :
    ms.areaMap.find x = none := by
  refine Option.eq_none_iff_forall_ne_some.mpr fun seg hseg ↦ ?_
  obtain ⟨a, ha, hx, -⟩ := ((areaLaws e 0).find_eq_some_iff h.represents).mp hseg
  have := (h.exists_area_iff x).mp ⟨a, ha, hx⟩
  rw [hg] at this
  exact absurd this (by simp)

/-- The area of an address, and what changing it in place means. -/
theorem exists_find (h : SpaceOk e g ms w) {c : Cell} (hg : g (x / PAGE_SIZE) = some c) :
    ∃ a L, x ∈ a.range ∧ ms.areaMap.find x = some a.segment ∧ a.segment.flags = c.flags ∧
      Coherent e g (a :: L) (ms.pt, w) ∧ ∀ area g' (s : PageTable × World σ φ),
        Coherent e g' (⟨a.start, a.end_, area⟩ :: L) s →
        SpaceOk e g' { ms with areaMap := ms.areaMap.setSegment x area, pt := s.1 } s.2 := by
  obtain ⟨a, ha, hx⟩ := (h.exists_area_iff x).mpr (by rw [hg]; rfl)
  obtain ⟨L, hL, hset⟩ := (areaLaws e 0).exists_represents_setSegment h.represents ha hx
  refine ⟨a, L, hx, ((areaLaws e 0).find_eq_some_iff h.represents).mpr ⟨a, ha, hx, rfl⟩,
    h.flags_eq ha hx hg, h.coherent.perm hL, fun area g' s hcoh ↦ ?_⟩
  have := h.of_represents (hset area (onPages g') s ⟨g', rfl, hcoh⟩)
  rwa [funext fun n ↦ onPages_page g' n] at this

/-- Running a method of the area that contains an address. -/
theorem wp_onArea (h : SpaceOk e g ms w) (x : ℕ)
    {f : VmArea F → EStateM Panic (PageTable × World σ φ) (Except OSError Unit × VmArea F)}
    {Q : Except OSError Unit × MemorySet F → World σ φ → Prop} {E : Panic → World σ φ → Prop}
    (hnone : g (x / PAGE_SIZE) = none → Q (.error .pageFaultHandler_unhandled, ms) w)
    (hsome : ∀ a L c, x ∈ a.range → g (x / PAGE_SIZE) = some c → a.segment.flags = c.flags →
      Coherent e g (a :: L) (ms.pt, w) →
      wp (f a.segment) (fun r s ↦ ∀ ms', (∀ g', Coherent e g' (⟨a.start, a.end_, r.2⟩ :: L) s →
        SpaceOk e g' ms' s.2) → Q (r.1, ms') s.2) (fun p s ↦ E p s.2) (ms.pt, w)) :
    wp (ms.onArea x f) Q E w := by
  rw [MemorySet.onArea]
  cases hg : g (x / PAGE_SIZE) with
  | none =>
    rw [h.find_eq_none hg]
    exact hnone hg
  | some c =>
    obtain ⟨a, L, hx, hfind, hflags, hcoh, hset⟩ := h.exists_find hg
    rw [hfind]
    dsimp only
    rw [wp_withPt, wp_bind]
    exact wp_imp (hsome a L c hx hg hflags hcoh) fun r s hr ↦ hr _ fun g' hg' ↦ hset r.2 g' s hg'

/-- A page fault populates the page of the address, or leaves the address space as it is. -/
theorem wp_handlePageFault (h : SpaceOk e g ms w) (x : ℕ) (accessFlags : PTEFlags) :
    wp (ms.handlePageFault x accessFlags) (fun r w' ↦
      (∃ c c', g (x / PAGE_SIZE) = some c ∧ c.Populated c' ∧
        SpaceOk e (Function.update g (x / PAGE_SIZE) (some c')) r.2 w') ∨
      r.1 ≠ .ok () ∧ SpaceOk e g r.2 w') noPanic w := by
  refine h.wp_onArea x (fun _ ↦ Or.inr ⟨by simp, h⟩) fun a L c hx hc _ hcoh ↦ ?_
  refine wp_imp (hcoh.wp_handlePageFault hx hc accessFlags) fun r s hr ms' hms ↦ ?_
  rcases hr with ⟨c', hpop, hr⟩ | hr
  · exact Or.inl ⟨c, c', hc, hpop, hms _ hr⟩
  · exact Or.inr ⟨hr.1, hms _ hr.2⟩

/-- `manually_alloc_page` populates the page of the address, unless the address is in no area or
no frame is left. -/
theorem wp_manuallyAllocPage (h : SpaceOk e g ms w) (x : ℕ) :
    wp (ms.manuallyAllocPage x) (fun r w' ↦
      (∃ c c', r.1 = .ok () ∧ g (x / PAGE_SIZE) = some c ∧ c.Populated c' ∧
        SpaceOk e (Function.update g (x / PAGE_SIZE) (some c')) r.2 w') ∨
      (∃ err, r.1 = .error err ∧ SpaceOk e g r.2 w' ∧
        (g (x / PAGE_SIZE) = none ∧ w' = w ∨ w'.oom = true))) noPanic w := by
  refine h.wp_onArea x (fun hnone ↦ Or.inr ⟨_, rfl, h, Or.inl ⟨hnone, rfl⟩⟩)
    fun a L c hx hc _ hcoh ↦ ?_
  refine wp_imp (hcoh.wp_faultIn hx hc (.ok ())) fun r s hr ms' hms ↦ ?_
  rcases hr with ⟨c', hpop, -, hok, hr⟩ | ⟨herr, -, hr, hoom⟩
  · refine Or.inl ⟨c, c', ?_, hc, hpop, hms _ hr⟩
    rcases hok with hok | ⟨hok, -⟩
    · exact hok
    · exact hok
  · exact Or.inr ⟨_, herr, hms _ hr, Or.inr hoom⟩

/-! ## New areas -/

omit [FileStore F φ] in
theorem protect (h : SpaceOk e g ms w) {N : Set ℕ}
    (hN : ∀ p ∈ N, PageAligned p ∧ p ∈ w.inUse ∧ p ∉ held e g ms.pt) :
    SpaceOk (e.protect N w) g ms w := by
  obtain ⟨T, hb, hT⟩ := h.coherent.backed
  exact ⟨h.keyed, ⟨h.coherent.layout, T, hb.protect hN, hT⟩, h.args_eq, h.isUser⟩

omit [FileStore F φ] in
theorem foreign (h : SpaceOk e g ms w) : ForeignKept e ms.pt w := by
  obtain ⟨T, hb, -⟩ := h.coherent.backed
  exact hb.table.foreign

omit [FileStore F φ] in
theorem oom (h : SpaceOk e g ms w) : e.oom = true → w.oom = true := by
  obtain ⟨T, hb, -⟩ := h.coherent.backed
  exact hb.table.oom

/-- A gap of the range map takes a new area. -/
theorem insertRaw {m : RangeActionMap (VmArea F)} {vma : VmArea F}
    {s : PageTable × World σ φ} (h : SpaceOk e g ms w)
    (hkey : SegmentLaws.KeyedByStart m.segments) (hargs : m.args = 0) {g' : ℕ → Option Cell}
    (hcoh : Coherent e g' (vma.toRange :: m.areas) s) :
    SpaceOk e g' { ms with areaMap := m.insertRaw vma.start vma.end_ vma, pt := s.1 } s.2 := by
  have := h.of_represents ((areaLaws e 0).represents_insertRaw hkey hargs
    (f := onPages g') ⟨g', rfl, hcoh⟩)
  rwa [funext fun n ↦ onPages_page g' n] at this

/-- `push` replaces what was at the place of the new area, unless the tables run out of frames. -/
theorem wp_push (h : SpaceOk e g ms w) {vma : VmArea F} (hwf : vma.Wf e.lim)
    (hlow : LOWER_LIMIT ≤ vma.start) (hnew : NewFrames e g vma (ms.pt, w))
    (hfree : ∀ n ∈ touched vma.start vma.end_, ∀ c ∈ g n, c.Free) :
    wp (ms.push vma) (fun r w' ↦ r.1 = .ok () ∧ SpaceOk e
      (PointMap.overwrite vma.toRange.pages (newCells vma w.mem true) g) r.2 w')
      (fun p w' ↦ p = .unwrap .pushMapArea .pageTable_frameAllocFailed ∧ w'.oom = true) w := by
  have hup : vma.end_ ≤ UPPER_LIMIT := by
    have hle := hwf.le
    have hlim := h.coherent.lim_le
    simp only [UPPER_LIMIT]
    omega
  -- while the old areas are removed, the frames of the new one are protected
  have hp := h.protect (N := {p | ∃ i, vma.pma.frames[i]? = some (some p)}) fun p hp ↦ by
    obtain ⟨i, hi⟩ := hp
    obtain ⟨hal, -, huse, hnot⟩ := hnew.ok hi
    exact ⟨hal, huse, hnot⟩
  rw [MemorySet.push, wp_bind, wp_withPt, wp_bind]
  refine (areaLaws _ 0).wp_mmapFixed hp.represents hwf.lt hlow hup
    (fun a ha ↦ (Cuttable.of_aligned hwf.aligned hwf.aligned_end hfree).cutsAllowed)
    fun m t hm ↦ ?_
  obtain ⟨g₁, hg₁, hcoh⟩ := hm.good
  have hg₁ : g₁ = PointMap.erase vma.toRange.pages g := by
    have := erase_onPages g vma.start vma.end_
    rw [hg₁, funext fun n ↦ onPages_page g₁ n] at this
    exact this
  subst hg₁
  obtain ⟨T, hb, hT⟩ := hcoh.backed
  obtain ⟨hb', hkept⟩ := hb.unprotect h.foreign h.oom
  have hcoh' : Coherent e (PointMap.erase vma.toRange.pages g) m.areas t :=
    ⟨hcoh.layout, T, hb', hT⟩
  have hframe : ∀ {i p : ℕ}, vma.pma.frames[i]? = some (some p) →
      Kept w t.2 p ∧ p ∉ held e (PointMap.erase vma.toRange.pages g) t.1 := by
    intro i p hi
    rcases hkept p ⟨i, hi⟩ with ⟨-, hk, hnot⟩ | hforeign
    · exact ⟨hk, hnot⟩
    · exact absurd (Or.inr (Or.inl hforeign)) (hnew.ok hi).2.2.2
  have hnew' : NewFrames e (PointMap.erase vma.toRange.pages g) vma t :=
    ⟨fun hi ↦ ⟨(hnew.ok hi).1, (hnew.ok hi).2.1, (hframe hi).1.1, (hframe hi).2⟩, hnew.inj,
      hnew.flags⟩
  have hapart := hcoh'.layout.apart_of_eq_none hwf fun n hn ↦ PointMap.erase_of_mem hn
  have hdata : newCells vma t.2.mem true = newCells vma w.mem true := by
    funext n
    rw [newCells, newCells]
    cases hi : (vma.pma.frames[n - vma.start / PAGE_SIZE]?).join with
    | none => rfl
    | some p =>
      rw [Option.map_some, Option.map_some,
        pageData_congr (hframe (Option.join_eq_some_iff.mp hi)).1.2]
  rw [wp_bind, wp_unwrap]
  refine wpe_mono (hcoh'.wpe_mapArea hwf hapart hnew') (fun r s hr ↦ ?_) fun _ _ h ↦ h.elim
  rcases r with err | u
  · exact ⟨by rw [hr.1], hr.2⟩
  · dsimp only
    rw [wp_pure, MemorySet.unwrapStart, hdata, PointMap.overwrite_erase] at *
    exact ⟨rfl, h.insertRaw hm.keyed hm.args_eq hr⟩

/-- A new area without frames, mapped into a gap, unless it has too many pages or the tables run out
of frames. -/
theorem wp_mapNewArea_bare {L : List (RangeArea (VmArea F))} {s : PageTable × World σ φ}
    (hcoh : Coherent e g L s) (hs : PageAligned start) (he : PageAligned end_) (hlt : start < end_)
    (hle : end_ ≤ e.lim * 2 ^ 30) (hnone : ∀ n ∈ pagesOf start end_, g n = none)
    (flags : PTEFlags) (backend : Option (BackEndFile F)) :
    wp (MemorySet.mapNewArea start end_ flags backend) (fun vma t ↦
      pageCount (end_ - start) ≤ pageCount USER_VIRT_ADDR_LIMIT ∧
        vma = .bare start end_ flags backend ∧
        Coherent e (PointMap.overwrite (pagesOf start end_) (fun _ ↦ some ⟨flags, none⟩) g)
          (vma.toRange :: L) t)
      (fun p t ↦ pageCount USER_VIRT_ADDR_LIMIT < pageCount (end_ - start) ∧
          p = .unwrap .pushPma .memory_runOutOfMemory ∨ NoTableFrame p t.2) s := by
  have hend : end_ < 2 ^ 64 := by
    have := hcoh.lim_le
    omega
  have hcount : pageCount (end_ - start) * PAGE_SIZE = end_ - start := by
    simp only [PageAligned, PAGE_SIZE] at hs he
    simp only [pageCount, alignUp, alignDown, wadd, PAGE_SIZE]
    omega
  have hpos : pageCount (end_ - start) ≠ 0 := by
    intro hzero
    rw [hzero] at hcount
    omega
  rw [MemorySet.mapNewArea, wp_bind, wp_unwrap, wpe_mk, wp_pure, wsub_of_le hlt.le hend,
    PmAreaLazy.new, if_neg hpos]
  split_ifs with hbig
  · exact Or.inl ⟨hbig, rfl⟩
  · dsimp only
    rw [wp_bind, wp_unwrap, wpe_mk, wp_pure, VmArea.new_eq hlt hend hs he
      (by rw [PmAreaLazy.size, List.length_replicate, hcount])]
    dsimp only
    have hframes : ∀ i : ℕ, ((List.replicate (pageCount (end_ - start)) (none : Option ℕ))[i]?).join
        = none := by
      intro i
      rw [List.getElem?_replicate]
      split_ifs <;> rfl
    have hno : ∀ i p : ℕ, (List.replicate (pageCount (end_ - start)) (none : Option ℕ))[i]?
        ≠ some (some p) := by
      intro i p hip
      have := hframes i
      rw [hip] at this
      exact absurd this (by simp)
    have hwf : VmArea.Wf e.lim (.bare start end_ flags backend : VmArea F) :=
      ⟨hs, he, hlt, hle, (congrArg (· * PAGE_SIZE) List.length_replicate).trans hcount⟩
    have hcells : newCells (.bare start end_ flags backend : VmArea F) s.2.mem true
        = fun _ ↦ some ⟨flags, none⟩ := by
      funext n
      rw [newCells, VmArea.bare, hframes]
      rfl
    rw [wp_bind, wp_unwrap]
    refine wpe_mono (hcoh.wpe_mapArea hwf (hcoh.layout.apart_of_eq_none hwf hnone)
      ⟨fun hi ↦ absurd hi (hno _ _), fun hi ↦ absurd hi (hno _ _),
        fun hi ↦ absurd hi (hno _ _)⟩) (fun r t hr ↦ ?_) fun _ _ h ↦ h.elim
    rcases r with err | u
    · exact Or.inr ⟨by rw [hr.1], hr.2⟩
    · rw [VmArea.bare] at hcells
      rw [hcells] at hr
      exact ⟨not_lt.mp hbig, rfl, hr⟩

/-- An empty area cannot be made. -/
theorem wp_mapNewArea_of_le {s : PageTable × World σ φ} (hle : end_ ≤ start) (flags : PTEFlags)
    (backend : Option (BackEndFile F)) :
    wp (MemorySet.mapNewArea (σ := σ) (φ := φ) start end_ flags backend) (fun _ _ ↦ False)
      otherPanic s := by
  rw [MemorySet.mapNewArea, wp_bind, wp_unwrap, wpe_mk, wp_pure]
  cases PmAreaLazy.new (pageCount (wsub end_ start)) backend with
  | error err => trivial
  | ok pma =>
    dsimp only
    rw [wp_bind, wp_unwrap, wpe_mk, wp_pure, VmArea.new, if_pos hle]
    trivial

omit [FrameAllocator σ] [FileStore F φ] in
theorem mem_iter_insertRaw {m : RangeActionMap (VmArea F)} {vma : VmArea F} :
    vma ∈ (m.insertRaw start end_ vma).iter :=
  List.mem_map.mpr ⟨⟨start, end_, vma⟩, OrdMap.mem_values.mpr
    ⟨start, OrdMap.mem_insert.mpr (Or.inl rfl)⟩, rfl⟩

/-- `push_with_backend` at a given place in the user's addresses. -/
theorem wp_pushWithBackend_fixed_of_lt (h : SpaceOk e g ms w) (hs : PageAligned start)
    (he : PageAligned end_) (hlim : 4 ≤ e.lim) (hlow : LOWER_LIMIT ≤ start) (hlt : start < end_)
    (hend : end_ < USER_VIRT_ADDR_LIMIT) (hfree : ∀ n ∈ touched start end_, ∀ c ∈ g n, c.Free)
    (flags : PTEFlags) (backend : Option (BackEndFile F)) :
    wp (ms.pushWithBackend start end_ flags backend false) (fun r w' ↦ r.1 = .ok start ∧
      .bare start end_ flags backend ∈ r.2.areaMap.iter ∧
      SpaceOk e (PointMap.overwrite (pagesOf start end_) (fun _ ↦ some ⟨flags, none⟩) g) r.2 w')
      NoTableFrame w := by
  rw [MemorySet.pushWithBackend, if_neg (fun h ↦ hend.not_ge h.2)]
  dsimp only
  rw [if_neg (by decide), wp_withPt, wp_bind]
  have hend' : end_ ≤ e.lim * 2 ^ 30 := by
    simp only [USER_VIRT_ADDR_LIMIT] at hend
    omega
  refine (areaLaws e 0).wp_mmapFixed h.represents hlt hlow ?_
    (fun a ha ↦ (Cuttable.of_aligned hs he hfree).cutsAllowed) fun m t hm ↦ ?_
  · simp only [USER_VIRT_ADDR_LIMIT, UPPER_LIMIT] at hend ⊢
    omega
  · obtain ⟨g₁, hg₁, hcoh⟩ := hm.good
    have hg₁ : g₁ = PointMap.erase (pagesOf start end_) g := by
      have := erase_onPages g start end_
      rw [hg₁, funext fun n ↦ onPages_page g₁ n] at this
      exact this
    subst hg₁
    refine wp_mono (wp_mapNewArea_bare hcoh hs he hlt hend'
      (fun n hn ↦ PointMap.erase_of_mem hn) flags backend) (fun vma s hr ↦ ?_) fun p s hp ↦ ?_
    · obtain ⟨-, rfl, hcoh'⟩ := hr
      rw [PointMap.overwrite_erase] at hcoh'
      exact ⟨rfl, mem_iter_insertRaw, h.insertRaw hm.keyed hm.args_eq hcoh'⟩
    · refine hp.resolve_left fun hbig ↦ ?_
      have hpages := hbig.1
      simp only [pageCount, alignUp, alignDown, wadd, USER_VIRT_ADDR_LIMIT,
        PAGE_SIZE] at hpages hend
      omega

/-- Whatever is removed first, an empty area cannot be made. -/
theorem wp_pushWithBackend_fixed_of_le (h : SpaceOk e g ms w) (he : PageAligned end_)
    (hle : end_ ≤ start) (hend : end_ < USER_VIRT_ADDR_LIMIT) (flags : PTEFlags)
    (backend : Option (BackEndFile F)) :
    wp (ms.pushWithBackend start end_ flags backend false) (fun _ _ ↦ False) otherPanic w := by
  rw [MemorySet.pushWithBackend, if_neg (fun h ↦ hend.not_ge h.2)]
  dsimp only
  rw [if_neg (by decide), wp_withPt, wp_bind, RangeActionMap.mmapFixed]
  split_ifs
  · trivial
  · rw [wp_bind]
    refine wp_mono (h.wp_unmapMap_of_le hle he) (fun m t _ ↦ ?_) fun p _ hp ↦ ?_
    · rw [wp_bind]
      exact wp_imp (wp_mapNewArea_of_le hle flags backend) fun _ _ h ↦ h.elim
    · subst hp
      rfl

/-- `push_with_backend` at a given place. -/
theorem wp_pushWithBackend_fixed (h : SpaceOk e g ms w) (hs : PageAligned start)
    (he : PageAligned end_) (hlim : 4 ≤ e.lim)
    (hfree : ∀ n ∈ touched start end_, ∀ c ∈ g n, c.Free) (flags : PTEFlags)
    (backend : Option (BackEndFile F)) :
    wp (ms.pushWithBackend start end_ flags backend false) (fun r w' ↦
      (∃ err, r.1 = .error err ∧ r.2 = ms ∧ w' = w) ∨
      (LOWER_LIMIT ≤ start ∧ start < end_ ∧ end_ < USER_VIRT_ADDR_LIMIT ∧ r.1 = .ok start ∧
        SpaceOk e (PointMap.overwrite (pagesOf start end_) (fun _ ↦ some ⟨flags, none⟩) g)
          r.2 w')) otherPanic w := by
  by_cases hend : end_ ≥ USER_VIRT_ADDR_LIMIT
  · rw [MemorySet.pushWithBackend, if_pos ⟨rfl, hend⟩]
    exact Or.inl ⟨_, rfl, rfl, rfl⟩
  · by_cases hlow : start < LOWER_LIMIT
    · rw [MemorySet.pushWithBackend, if_neg (fun h ↦ hend h.2)]
      dsimp only
      rw [if_neg (by decide), wp_withPt, wp_bind, RangeActionMap.mmapFixed, if_pos (Or.inl hlow)]
      trivial
    · by_cases hlt : start < end_
      · refine wp_mono (h.wp_pushWithBackend_fixed_of_lt hs he hlim (not_lt.mp hlow) hlt
          (not_le.mp hend) hfree flags backend) (fun r w' hr ↦ ?_) fun p w' hp ↦ ?_
        · exact Or.inr ⟨not_lt.mp hlow, hlt, not_le.mp hend, hr.1, hr.2.2⟩
        · rw [hp.1]
          rfl
      · exact wp_imp (h.wp_pushWithBackend_fixed_of_le he (not_lt.mp hlt) (not_le.mp hend) flags
          backend) fun _ _ h ↦ h.elim

/-- `push_with_backend` at a given place panics if it has to take a frame away that was not
entered. -/
theorem wp_pushWithBackend_of_not_free (h : SpaceOk e g ms w) (hs : PageAligned start)
    (he : PageAligned end_) (hlow : LOWER_LIMIT ≤ start) (hlt : start < end_)
    (hend : end_ < USER_VIRT_ADDR_LIMIT) (hnot : ¬∀ n ∈ touched start end_, ∀ c ∈ g n, c.Free)
    (flags : PTEFlags) (backend : Option (BackEndFile F)) :
    wp (ms.pushWithBackend start end_ flags backend false) (fun _ _ ↦ False) anyPanic w := by
  rw [MemorySet.pushWithBackend, if_neg (fun h ↦ hend.not_ge h.2)]
  dsimp only
  rw [if_neg (by decide), wp_withPt, wp_bind]
  refine wp_imp ((areaLaws_strict e 0).wp_mmapFixed h.represents
    hlt hlow ?_ hs he (fun hall ↦ ?_) _)
    fun _ _ h ↦ h.elim
  · simp only [USER_VIRT_ADDR_LIMIT, UPPER_LIMIT] at hend ⊢
    omega
  · refine hnot fun n hn c hc ↦ ?_
    obtain ⟨x, hx, rfl⟩ := hn
    exact hall x hx c hc

/-- `push_with_backend` anywhere returns what was found. -/
theorem wp_pushWithBackend_found_eq (ms : MemorySet F) (start end_ : ℕ) (flags : PTEFlags)
    (backend : Option (BackEndFile F)) (w : World σ φ) :
    wp (ms.pushWithBackend start end_ flags backend true) (fun r _ ↦
      ∃ p, ms.areaMap.findFreeArea start (wsub end_ start) = some p ∧ r.1 = .ok p) anyPanic w := by
  rw [MemorySet.pushWithBackend, if_neg (by simp)]
  dsimp only
  rw [if_pos rfl, wp_withPt, wp_bind, RangeActionMap.mmapAnywhere]
  cases ms.areaMap.findFreeArea start (wsub end_ start) with
  | none => trivial
  | some p => exact wp_bind_of_forall fun _ _ ↦ ⟨p, rfl, rfl⟩

omit [FileStore F φ] in
/-- A free area starts at a page boundary, not below the limit of the range map. -/
theorem findFreeArea_aligned (h : SpaceOk e g ms w) (hs : PageAligned start) {p len : ℕ}
    (hfind : ms.areaMap.findFreeArea start len = some p) (hlt : p + len < 2 ^ 64) :
    LOWER_LIMIT ≤ p ∧ PageAligned p := by
  obtain ⟨hlow, hfrom, -⟩ := RangeActionMap.findFreeArea_spec h.keyed hfind hlt
  refine ⟨(le_max_right _ _).trans hlow, ?_⟩
  rcases hfrom with rfl | ⟨a, ha, rfl⟩
  · rcases max_choice start LOWER_LIMIT with hmax | hmax
    · rwa [hmax]
    · rw [hmax]
      decide
  · have hat := h.coherent.layout.area a ha
    obtain ⟨q, hq, -⟩ := hat.ok
    rw [hat.end_page hq]
    exact Nat.mul_mod_left _ _

/-- `push_with_backend` anywhere takes what is found, if it lies below the limit of the page
table. -/
theorem wp_pushWithBackend_found (h : SpaceOk e g ms w) (hs : PageAligned start)
    (he : PageAligned end_) {p : ℕ}
    (hfind : ms.areaMap.findFreeArea start (wsub end_ start) = some p)
    (hple : p + wsub end_ start ≤ e.lim * 2 ^ 30) (hpos : 0 < wsub end_ start) (flags : PTEFlags)
    (backend : Option (BackEndFile F)) :
    wp (ms.pushWithBackend start end_ flags backend true) (fun r w' ↦
      pageCount (wsub end_ start) ≤ pageCount USER_VIRT_ADDR_LIMIT ∧ r.1 = .ok p ∧
        LOWER_LIMIT ≤ p ∧ PageAligned p ∧
        .bare p (p + wsub end_ start) flags backend ∈ r.2.areaMap.iter ∧
        SpaceOk e (PointMap.overwrite (pagesOf p (p + wsub end_ start))
          (fun _ ↦ some ⟨flags, none⟩) g) r.2 w')
      (fun p w' ↦ pageCount USER_VIRT_ADDR_LIMIT < pageCount (wsub end_ start) ∧
        p = .unwrap .pushPma .memory_runOutOfMemory ∨ NoTableFrame p w') w := by
  have hlim := h.coherent.lim_le
  have hlen : PageAligned (wsub end_ start) := by
    simp only [PageAligned, PAGE_SIZE] at hs he
    simp only [PageAligned, wsub, PAGE_SIZE]
    omega
  obtain ⟨hlow, -, hgap⟩ := RangeActionMap.findFreeArea_spec h.keyed hfind (by omega)
  obtain ⟨-, hp⟩ := h.findFreeArea_aligned hs hfind (by omega)
  have hadd : wadd (wsub end_ start) p = p + wsub end_ start := by
    rw [wadd_of_lt (by omega), Nat.add_comm]
  have hadd' : wadd p (wsub end_ start) = p + wsub end_ start := wadd_of_lt (by omega)
  have hend : PageAligned (p + wsub end_ start) := by
    simp only [PageAligned, PAGE_SIZE] at hp hlen ⊢
    omega
  have hnone : ∀ n ∈ pagesOf p (p + wsub end_ start), g n = none := by
    intro n hn
    by_contra hne
    obtain ⟨a, ha, hmem⟩ := h.coherent.layout.cover n (Option.isSome_iff_ne_none.mpr hne)
    obtain ⟨hl, hr⟩ := hn
    obtain ⟨hl', hr'⟩ := hmem
    rcases hgap a ha with hgap | hgap <;> omega
  rw [MemorySet.pushWithBackend, if_neg (by simp)]
  dsimp only
  rw [if_pos rfl, wp_withPt, wp_bind, RangeActionMap.mmapAnywhere, hfind]
  dsimp only
  rw [wp_bind, hadd, hadd']
  have hmap := wp_mapNewArea_bare h.coherent hp hend (by omega) hple hnone flags backend
  rw [Nat.add_sub_cancel_left] at hmap
  refine wp_imp hmap fun vma s hr ↦ ?_
  obtain ⟨hcount, rfl, hcoh⟩ := hr
  have hok := h.insertRaw h.keyed h.args_eq hcoh
  exact ⟨hcount, rfl, (le_max_right _ _).trans hlow, hp, mem_iter_insertRaw, hok⟩

/-- `push_with_backend` anywhere. -/
theorem wp_pushWithBackend_anywhere (h : SpaceOk e g ms w) (hs : PageAligned start)
    (he : PageAligned end_)
    (hfit : ∀ p, ms.areaMap.findFreeArea start (wsub end_ start) = some p →
      p + wsub end_ start ≤ e.lim * 2 ^ 30)
    (flags : PTEFlags) (backend : Option (BackEndFile F)) :
    wp (ms.pushWithBackend start end_ flags backend true) (fun r w' ↦
      ∃ p, ms.areaMap.findFreeArea start (wsub end_ start) = some p ∧ r.1 = .ok p ∧
        LOWER_LIMIT ≤ p ∧ 0 < wsub end_ start ∧ PageAligned p ∧
        SpaceOk e (PointMap.overwrite (pagesOf p (p + wsub end_ start))
          (fun _ ↦ some ⟨flags, none⟩) g) r.2 w') otherPanic w := by
  by_cases hpos : 0 < wsub end_ start
  · cases hfind : ms.areaMap.findFreeArea start (wsub end_ start) with
    | none =>
      rw [MemorySet.pushWithBackend, if_neg (by simp)]
      dsimp only
      rw [if_pos rfl, wp_withPt, wp_bind, RangeActionMap.mmapAnywhere, hfind]
      trivial
    | some p =>
      refine wp_mono (h.wp_pushWithBackend_found hs he hfind (hfit p hfind) hpos flags backend)
        (fun r w' hr ↦ ?_) fun q w' hq ↦ ?_
      · obtain ⟨-, hok, hlow, hp, -, hspace⟩ := hr
        exact ⟨p, rfl, hok, hlow, hpos, hp, hspace⟩
      · rcases hq with ⟨-, rfl⟩ | ⟨rfl, -⟩ <;> rfl
  · -- an empty area cannot be made
    rw [MemorySet.pushWithBackend, if_neg (by simp)]
    dsimp only
    rw [if_pos rfl, wp_withPt, wp_bind, RangeActionMap.mmapAnywhere]
    cases hfind : ms.areaMap.findFreeArea start (wsub end_ start) with
    | none => trivial
    | some p =>
      have hple := hfit p hfind
      have hlim := h.coherent.lim_le
      dsimp only
      rw [wp_bind, wadd_of_lt (by omega)]
      exact wp_imp (wp_mapNewArea_of_le (by omega) flags backend) fun _ _ h ↦ h.elim

end SpaceOk

end Maturin
