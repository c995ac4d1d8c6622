import Maturin.Memory.Coherence

/-!
# Tearing down what `write` has written

A page with a frame that no entry maps is what `MemorySet::write` leaves behind, and removing or
re-protecting such a page panics. As long as no call removes or changes a page that `write` left
unentered, the `unwrap`s in `modify_area_flags`, `Segment::modify` and `Segment::remove` do not
fail.
-/

open Exec

namespace Maturin

variable {σ φ F : Type} [FrameAllocator σ]

/-- Giving frames back does not panic, and allocates nothing. -/
theorem wp_forM_frameDrop (l : List ℕ) {w : World σ φ} :
    wp (l.forM frameDrop) (fun _ w' ↦ w'.oom = w.oom) noPanic w :=
  wp_forM (I := fun w' : World σ φ ↦ w'.oom = w.oom)
    (fun _ _ h ↦ wp_imp wp_frameDrop fun _ _ hw ↦ by rw [hw.2.2, h]) rfl

/-- Dropping an area gives its frames back. -/
theorem PmAreaLazy.wp_drop (pma : PmAreaLazy F) {w : World σ φ} :
    wp pma.drop (fun _ w' ↦ w'.oom = w.oom ∧ w'.mem = w.mem ∧
      ∀ q ∈ w.inUse, some q ∉ pma.frames → q ∈ w'.inUse) noPanic w := by
  rw [PmAreaLazy.drop]
  generalize pma.frames = frames
  induction frames generalizing w with
  | nil => exact ⟨rfl, rfl, fun _ hq _ ↦ hq⟩
  | cons frame frames ih =>
    change wp (_ >>= fun _ ↦ frames.forM _) _ _ _
    rw [wp_bind]
    cases frame with
    | none =>
      dsimp only
      rw [wp_pure]
      exact wp_imp ih fun _ w' hw ↦ ⟨hw.1, hw.2.1, fun q hq hnot ↦
        hw.2.2 q hq fun hmem ↦ hnot (List.mem_cons_of_mem _ hmem)⟩
    | some p =>
      refine wp_imp wp_frameDrop fun _ w₁ hw₁ ↦ wp_imp ih fun _ w' hw ↦ ?_
      obtain ⟨huse, hmem, hoom⟩ := hw₁
      refine ⟨hw.1.trans hoom, hw.2.1.trans hmem, fun q hq hnot ↦ hw.2.2 q ?_ fun hmem ↦
        hnot (List.mem_cons_of_mem _ hmem)⟩
      rw [huse]
      refine ⟨hq, fun heq ↦ hnot ?_⟩
      rw [Set.mem_singleton_iff.mp heq]
      exact List.mem_cons_self

theorem wp_forM_pmaDrop (l : List (VmArea F)) {w : World σ φ} :
    wp (l.forM fun area ↦ area.pma.drop) (fun _ w' ↦ w'.oom = w.oom) noPanic w :=
  wp_forM (I := fun w' : World σ φ ↦ w'.oom = w.oom)
    (fun (area : VmArea F) _ h ↦ wp_imp area.pma.wp_drop fun _ _ hw ↦ by rw [hw.1, h]) rfl

variable [FileStore F φ] {e : PtEnv} {g : ℕ → Option Cell} {ms : MemorySet F} {w : World σ φ}

/-- An address space whose frames are all mapped can be dropped. -/
theorem SpaceOk.wp_drop (h : SpaceOk e g ms w) (hfree : ∀ n c, g n = some c → c.Free) :
    wp ms.drop (fun _ w' ↦ e.oom = true → w'.oom = true) noPanic w := by
  have hcut : ∀ a ∈ ms.areaMap.areas, Cuttable g LOWER_LIMIT UPPER_LIMIT a := by
    intro a ha
    have hat := h.coherent.layout.area a ha
    have hlim := h.coherent.lim_le
    obtain ⟨p, hp, -⟩ := hat.ok
    have hle := hp.le
    have hend := hat.end_page hp
    refine ⟨fun _ _ ↦ by decide, fun _ hr ↦ ?_, fun x _ c hc ↦ hfree _ c hc⟩
    simp only [UPPER_LIMIT, PAGE_SIZE] at hr hend
    omega
  rw [MemorySet.drop, wp_bind, MemorySet.clearUserPages, h.isUser, if_neg (by decide), wp_bind]
  refine wp_imp (h.wp_munmap (by norm_num) hcut) fun r w₁ hr ↦ ?_
  rw [wp_pure, wp_bind]
  refine wp_imp (wp_forM_pmaDrop _) fun _ w₂ hw₂ ↦ wp_imp (wp_forM_frameDrop _) fun _ w₃ hw₃ he ↦ ?_
  rw [hw₃, hw₂, hr.oom he]

variable {kernelRoot : ℕ} {D : Set ℕ}

/-- **Memory that is torn down is mapped.** Along a run of proper calls every frame outside the
unentered pages has a valid entry, the next proper call fails none of the `unwrap`s of tearing down
and re-protecting, and the address space can be dropped once nothing is unentered. -/
theorem teardown_safe (h : Reach kernelRoot SpaceCall.Proper D ms w) :
    (∀ v < 510 * 2 ^ 30, v / PAGE_SIZE ∉ D → (ms.frameAt v).isSome →
      (PageTable.lookup (ms.pt, w) v).isSome) ∧
    (∀ c : SpaceCall F, c.Proper D ms w → wp (c.run ms) (fun _ _ ↦ True) otherPanic w) ∧
    (D = ∅ → wp ms.drop (fun _ _ ↦ True) noPanic w) := by
  obtain ⟨shared, hinv⟩ := h.inv fun _ hc ↦ hc
  obtain ⟨g, hok, hD⟩ := hinv
  refine ⟨fun v hv hn hframe ↦ ?_, fun c hc ↦ ?_, fun hempty ↦ ?_⟩
  · rw [hok.frameAt_eq] at hframe
    rw [hok.lookup_eq hv, entries]
    cases hg : g (v / PAGE_SIZE) with
    | none =>
      rw [hg] at hframe
      exact absurd hframe (by simp)
    | some c =>
      rw [hg, Option.bind_some, Option.isSome_map] at hframe
      obtain ⟨pg, hpg⟩ := Option.isSome_iff_exists.mp hframe
      rw [Option.bind_some, Cell.entry, hpg, Option.bind_some, if_pos (hD _ c hg hn pg hpg)]
      rfl
  · exact wp_imp (SpaceInv.wp_run ⟨g, hok, hD⟩ rfl hc fun _ _ p hp ↦
      absurd hp (Set.notMem_empty p)) fun _ _ _ ↦ trivial
  · subst hempty
    exact wp_imp (hok.wp_drop fun n c hc ↦ hD n c hc (Set.notMem_empty n)) fun _ _ _ ↦ trivial

/-- A page of an area that the loader has pushed, without a frame. -/
def bssPage : VmArea Empty where
  start := 0x1000
  end_ := 0x2000
  flags := PTEFlags.READ ||| PTEFlags.WRITE ||| PTEFlags.USER
  pma := ⟨[none], none⟩

/-- A page that was touched can be unmapped or dropped. -/
theorem teardown_safe_kernel : ∃ (ms : MemorySet Empty) (w : World Bitmap Unit),
    (ms.frameAt 0x1000).isSome ∧
      wp ((SpaceCall.munmap 0x1000 0x2000).run ms) (fun _ _ ↦ True) otherPanic w ∧
      wp ms.drop (fun _ _ ↦ True) noPanic w := by
  obtain ⟨ms, w, hok, hsome⟩ := exists_of_returns (x := SpaceCall.runNew PHYS_MEMORY_OFFSET
      [.pushWithBackend 0x1000 0x2000 bssPage.flags none false, .manuallyAllocPage 0x1000])
    (s := World.kernel) (P := fun (ms : MemorySet Empty) _ ↦ (ms.frameAt 0x1000).isSome)
    (by decide +kernel)
  obtain ⟨D, hreach⟩ : ∃ D, Reach PHYS_MEMORY_OFFSET SpaceCall.User D ms w :=
    Reach.runNew (by simp [SpaceCall.User, PageAligned, PAGE_SIZE]) (by decide)
      World.kernel_inUse hok
  obtain ⟨-, hcall, hdrop⟩ := teardown_safe hreach.proper
  exact ⟨ms, w, hsome, hcall _ ⟨SpaceOk.Cuts.of_aligned (by decide) (by decide),
    Set.disjoint_empty _⟩, hdrop rfl⟩

/-- A relocation in a page without file contents, and then the page is unmapped or re-protected. -/
theorem teardown_panics :
    panicOf (SpaceCall.runNew PHYS_MEMORY_OFFSET [.push bssPage,
      .write 0x1000 8 [1, 2, 3, 4, 5, 6, 7, 8] 0, .munmap 0x1000 0x2000]) World.kernel
        = some (.unwrap .segmentRemove .pageTable_pageNotMapped) ∧
    panicOf (SpaceCall.runNew PHYS_MEMORY_OFFSET [.push bssPage,
      .write 0x1000 8 [1, 2, 3, 4, 5, 6, 7, 8] 0, .mprotect 0x1000 0x2000 PTEFlags.READ])
        World.kernel = some (.unwrap .modifyAreaFlags .pageTable_pageNotMapped) ∧
    panicOf (do
      let ms ← SpaceCall.runNew PHYS_MEMORY_OFFSET [.push bssPage,
        .write 0x1000 8 [1, 2, 3, 4, 5, 6, 7, 8] 0]
      ms.drop) World.kernel = some (.unwrap .segmentRemove .pageTable_pageNotMapped) := by
  refine ⟨?_, ?_, ?_⟩ <;> decide +kernel

end Maturin
