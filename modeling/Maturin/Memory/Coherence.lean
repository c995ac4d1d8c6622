import Maturin.Memory.Bitmap
import Maturin.Memory.Run

/-!
# The page table and the areas stay coherent

The calls of a user address space other than `write`, all with page-aligned arguments and areas
below the limit of user addresses. In every state reached by them the page table maps a page
exactly if the area of the page has a frame for it.
-/

open Exec

namespace Maturin

variable {σ φ F : Type} [FrameAllocator σ]

/-- Page-aligned calls with areas between `0x1000` and the limit of user addresses. -/
def SpaceCall.User (_ : Set ℕ) (ms : MemorySet F) (w : World σ φ) : SpaceCall F → Prop
  | push vma => PageAligned vma.start ∧ PageAligned vma.end_ ∧ LOWER_LIMIT ≤ vma.start ∧
      vma.start < vma.end_ ∧ vma.end_ ≤ USER_VIRT_ADDR_LIMIT ∧
      vma.pma.size = vma.end_ - vma.start ∧ Fresh ms.frames w vma
  | pushWithBackend start end_ _ _ anywhere => PageAligned start ∧ PageAligned end_ ∧
      (anywhere = true → ∀ p, ms.areaMap.findFreeArea start (wsub end_ start) = some p →
        p + wsub end_ start ≤ USER_VIRT_ADDR_LIMIT)
  | munmap start end_ | mprotect start end_ _ => PageAligned start ∧ PageAligned end_
  | handlePageFault .. | manuallyAllocPage _ => True
  | write .. | clearUserPagesAndSaveKernel => False

variable [FileStore F φ] {kernelRoot : ℕ} {D : Set ℕ} {ms : MemorySet F} {w : World σ φ}

omit [FileStore F φ] in
/-- Without `write` every page with a frame is entered. -/
theorem SpaceCall.User.unentered_eq {c : SpaceCall F} (h : c.User ∅ ms w)
    (r : Except OSError Unit × MemorySet F) : c.unentered ∅ ms r = ∅ := by
  cases c with
  | write start len src accessFlags => exact h.elim
  | clearUserPagesAndSaveKernel => exact h.elim
  | handlePageFault vaddr accessFlags =>
    rw [SpaceCall.unentered]
    split
    · exact Set.empty_sdiff _
    · rfl
  | manuallyAllocPage vaddr =>
    rw [SpaceCall.unentered]
    split
    · exact Set.empty_sdiff _
    · rfl
  | _ => rfl

theorem Reach.eq_empty (h : Reach kernelRoot SpaceCall.User D ms w) : D = ∅ := by
  induction h with
  | new hal huse hrun => rfl
  | call h hc hrun ih =>
    subst ih
    exact hc.unentered_eq _
  | world h hw ih => exact ih

omit [FileStore F φ] in
theorem SpaceCall.User.proper {c : SpaceCall F} (h : c.User ∅ ms w) : c.Proper ∅ ms w := by
  cases c with
  | push vma =>
    obtain ⟨hs, he, hlow, hlt, hlim, hsize, hfresh⟩ := h
    refine ⟨⟨hs, he, hlt, ?_, hsize⟩, hlow, hfresh, Set.disjoint_empty _⟩
    exact hlim.trans (by norm_num)
  | pushWithBackend start end_ flags backend anywhere =>
    obtain ⟨hs, he, hfit⟩ := h
    refine ⟨hs, he, ?_⟩
    split_ifs with hany
    · exact fun p hp ↦ (hfit hany p hp).trans (by norm_num)
    · exact Set.disjoint_empty _
  | munmap start end_ => exact ⟨SpaceOk.Cuts.of_aligned h.1 h.2, Set.disjoint_empty _⟩
  | mprotect start end_ newFlags => exact ⟨SpaceOk.Cuts.of_aligned h.1 h.2, Set.disjoint_empty _⟩
  | handlePageFault vaddr accessFlags => trivial
  | manuallyAllocPage vaddr => trivial
  | write start len src accessFlags => exact h.elim
  | clearUserPagesAndSaveKernel => exact h.elim

/-- The calls of a user address space are proper. -/
theorem Reach.proper (h : Reach kernelRoot SpaceCall.User D ms w) :
    Reach kernelRoot SpaceCall.Proper ∅ ms w := by
  have hempty := h.eq_empty
  subst hempty
  refine h.mono fun hreach hc ↦ ?_
  have hempty := hreach.eq_empty
  subst hempty
  exact hc.proper

/-- **The page table and the areas agree.** A user address has a valid leaf entry exactly if it
lies in an area with a frame for its page; the entry is that frame with the flags of the area.
Distinct pages have distinct frames, and the frames are in use and hold no table. -/
theorem pageTable_coherent (h : Reach kernelRoot SpaceCall.User D ms w) :
    (∀ v < 510 * 2 ^ 30, ∀ p f, PageTable.lookup (ms.pt, w) v = some (p, f) ↔
      ∃ area ∈ ms.areaMap.iter, area.start ≤ v ∧ v < area.end_ ∧
        area.pma.frames[(v - area.start) / PAGE_SIZE]? = some (some p) ∧
        f = area.flags.mapped) ∧
    (∀ v < 510 * 2 ^ 30, ∀ v' < 510 * 2 ^ 30, ∀ p f f',
      PageTable.lookup (ms.pt, w) v = some (p, f) → PageTable.lookup (ms.pt, w) v' = some (p, f') →
        v / PAGE_SIZE = v' / PAGE_SIZE) ∧
    (∀ v < 510 * 2 ^ 30, ∀ p f, PageTable.lookup (ms.pt, w) v = some (p, f) →
      p ∈ w.inUse ∧ p ∉ ms.pt.frames) := by
  obtain ⟨shared, g, hok, hD⟩ := h.proper.inv fun _ hc ↦ hc
  obtain ⟨T, hb, -⟩ := hok.coherent.backed
  -- a valid entry is that of a page with a frame
  have hlookup : ∀ v < 510 * 2 ^ 30, ∀ p f, PageTable.lookup (ms.pt, w) v = some (p, f) ↔
      ∃ c pg, g (v / PAGE_SIZE) = some c ∧ c.page = some pg ∧ pg.paddr = p ∧
        c.flags.mapped = f := by
    intro v hv p f
    rw [hok.lookup_eq hv, entries, Option.bind_eq_some_iff]
    constructor
    · rintro ⟨c, hc, hentry⟩
      obtain ⟨pg, hpg, hif⟩ := Option.bind_eq_some_iff.mp hentry
      rw [if_pos (hD _ c hc (Set.notMem_empty _) pg hpg), Option.some.injEq, Prod.mk.injEq] at hif
      exact ⟨c, pg, hc, hpg, hif⟩
    · rintro ⟨c, pg, hc, hpg, rfl, rfl⟩
      refine ⟨c, hc, ?_⟩
      rw [Cell.entry, hpg, Option.bind_some, if_pos (hD _ c hc (Set.notMem_empty _) pg hpg)]
  refine ⟨fun v hv p f ↦ ?_, fun v hv v' hv' p f f' h h' ↦ ?_, fun v hv p f h ↦ ?_⟩
  · rw [hlookup v hv]
    constructor
    · rintro ⟨c, pg, hc, hpg, rfl, rfl⟩
      have hat : ms.frameAt v = some (pg.paddr, c.flags) := by
        rw [hok.frameAt_eq, hc, Option.bind_some, hpg, Option.map_some]
      obtain ⟨area, harea, hl, hr, hframe, hflags⟩ := hok.frameAt_eq_some_iff.mp hat
      exact ⟨area, harea, hl, hr, hframe, by rw [hflags]⟩
    · rintro ⟨area, harea, hl, hr, hframe, rfl⟩
      have hat := hok.frameAt_eq_some_iff.mpr ⟨area, harea, hl, hr, hframe, rfl⟩
      rw [hok.frameAt_eq, Option.bind_eq_some_iff] at hat
      obtain ⟨c, hc, hpage⟩ := hat
      obtain ⟨pg, hpg, heq⟩ := Option.map_eq_some_iff.mp hpage
      rw [Prod.mk.injEq] at heq
      exact ⟨c, pg, hc, hpg, heq.1, by rw [heq.2]⟩
  · obtain ⟨c, pg, hc, hpg, hp, -⟩ := (hlookup v hv p f).mp h
    obtain ⟨c', pg', hc', hpg', hp', -⟩ := (hlookup v' hv' p f').mp h'
    exact hb.frames.inj (by rw [pageAt, hc]; exact hpg) (by rw [pageAt, hc']; exact hpg')
      (hp.trans hp'.symm)
  · obtain ⟨c, pg, hc, hpg, rfl, -⟩ := (hlookup v hv p f).mp h
    have hpage := hb.frames.ok (n := v / PAGE_SIZE) (by rw [pageAt, hc]; exact hpg)
    exact ⟨hpage.inUse, hpage.notTable⟩

/-- The first page of a new process, mapped and touched. -/
theorem pageTable_coherent_kernel : ∃ (ms : MemorySet Empty) (w : World Bitmap Unit) (p : ℕ)
    (f : PTEFlags), PageTable.lookup (ms.pt, w) 0x1000 = some (p, f) ∧ p ∈ w.inUse ∧
      p ∉ ms.pt.frames := by
  obtain ⟨ms, w, hok, hsome⟩ := exists_of_returns (x := SpaceCall.runNew PHYS_MEMORY_OFFSET
      [.pushWithBackend 0x1000 0x2000 PTEFlags.READ none false, .manuallyAllocPage 0x1000])
    (s := World.kernel)
    (P := fun (ms : MemorySet Empty) w ↦ (PageTable.lookup (ms.pt, w) 0x1000).isSome)
    (by decide +kernel)
  obtain ⟨D, hreach⟩ : ∃ D, Reach PHYS_MEMORY_OFFSET SpaceCall.User D ms w :=
    Reach.runNew (by simp [SpaceCall.User, PageAligned, PAGE_SIZE]) (by decide)
      World.kernel_inUse hok
  obtain ⟨⟨p, f⟩, hlookup⟩ := Option.isSome_iff_exists.mp hsome
  exact ⟨ms, w, p, f, hlookup,
    (pageTable_coherent hreach).2.2 0x1000 (by norm_num) p f hlookup⟩

end Maturin
