import Maturin.Memory.Teardown

/-!
# Cached translations

The hardware keeps translations that it has found in the page table until `sfence.vma` removes
them. `push_with_backend` flushes all of them, a page that is entered flushes its own, and a switch
of page tables and `exec` flush all; `munmap`, `mprotect`, `push` and
`clear_user_pages_and_save_kernel` flush nothing. So what is cached stays true exactly as long as
the latter remove no page, and take no right from a page, for which a translation is cached.

Only translations of user addresses are considered: the kernel's root slots are shared by all page
tables and do not change.
-/

open Exec

namespace Maturin

variable {σ φ F : Type}

/-- A translation that the hardware has cached. -/
structure Translation where
  page : ℕ
  paddr : ℕ
  flags : PTEFlags

/-- The page goes to the same frame, with at least the rights of the translation. -/
def Translation.Holds (tr : ℕ → Option (ℕ × PTEFlags)) (t : Translation) : Prop :=
  ∃ flags, tr t.page = some (t.paddr, flags) ∧ flags.contains t.flags = true

/-- The translations are of user addresses, and none is stale. -/
def MemorySet.NoStale (ms : MemorySet F) (w : World σ φ) (tlb : Set Translation) : Prop :=
  ∀ t ∈ tlb, t.page < 510 * 2 ^ 18 ∧
    t.Holds fun n ↦ PageTable.lookup (ms.pt, w) (n * PAGE_SIZE)

namespace SpaceCall

/-- The translations that are left when the call has returned `r`. -/
def sfence (ms : MemorySet F) (w : World σ φ) (r : Except OSError Unit × MemorySet F)
    (tlb : Set Translation) : SpaceCall F → Set Translation
  | pushWithBackend .. =>
    match r.1 with
    | .ok () => ∅
    | .error _ => tlb
  | handlePageFault vaddr _ =>
    match r.1 with
    | .ok () => {t ∈ tlb | t.page ≠ vaddr / PAGE_SIZE}
    | .error _ => tlb
  | manuallyAllocPage vaddr =>
    match r.1, PageTable.lookup (ms.pt, w) vaddr with
    | .ok (), none => {t ∈ tlb | t.page ≠ vaddr / PAGE_SIZE}
    | _, _ => tlb
  | push _ | munmap .. | mprotect .. | write .. | clearUserPagesAndSaveKernel => tlb

/-- The call removes no page that has a cached translation, and takes no right from one. -/
def KeepsCached (tlb : Set Translation) : SpaceCall F → Prop
  | push vma => ∀ t ∈ tlb, t.page ∉ pagesOf vma.start vma.end_
  | munmap start end_ => ∀ t ∈ tlb, t.page ∉ pagesOf start end_
  | clearUserPagesAndSaveKernel =>
    ∀ t ∈ tlb, t.page ∉ pagesOf LOWER_LIMIT USER_VIRT_ADDR_LIMIT
  | mprotect start end_ newFlags =>
    ∀ t ∈ tlb, t.page ∈ pagesOf start end_ → newFlags.mapped.contains t.flags = true
  | pushWithBackend .. | handlePageFault .. | manuallyAllocPage _ | write .. => True

/-- Where nothing is cached, every call keeps it. -/
theorem keepsCached_empty (c : SpaceCall F) : c.KeepsCached ∅ := by
  have hnone : ∀ {p : Translation → Prop}, ∀ t ∈ (∅ : Set Translation), p t := fun t ht ↦
    absurd ht (Set.notMem_empty t)
  cases c with
  | push vma => exact hnone
  | munmap start end_ => exact hnone
  | mprotect start end_ newFlags => exact hnone
  | clearUserPagesAndSaveKernel => exact hnone
  | _ => trivial

theorem sfence_subset (ms : MemorySet F) (w : World σ φ) (r : Except OSError Unit × MemorySet F)
    (tlb : Set Translation) (c : SpaceCall F) : c.sfence ms w r tlb ⊆ tlb := by
  intro t ht
  cases c with
  | pushWithBackend start end_ flags backend anywhere =>
    rw [sfence] at ht
    split at ht
    · exact absurd ht (Set.notMem_empty t)
    · exact ht
  | handlePageFault vaddr accessFlags =>
    rw [sfence] at ht
    split at ht
    · exact ht.1
    · exact ht
  | manuallyAllocPage vaddr =>
    rw [sfence] at ht
    split at ht
    · exact ht.1
    · exact ht
  | _ => exact ht

end SpaceCall

/-! ## What a call does to cached translations -/

section cells

variable {g g' : ℕ → Option Cell} {tlb : Set Translation} {t : Translation} {I : Set ℕ}

/-- The frame of a translation that holds is that of the page. -/
theorem Translation.Holds.exists_page (h : t.Holds (entries g)) :
    ∃ c pg, g t.page = some c ∧ c.page = some pg ∧ pg.mapped = true ∧ pg.paddr = t.paddr ∧
      c.flags.mapped.contains t.flags = true := by
  obtain ⟨flags, hentry, hcontains⟩ := h
  obtain ⟨c, pg, hc, hpg, hmapped, heq⟩ := exists_page_of_entries hentry
  obtain ⟨hpaddr, rfl⟩ := Prod.mk.inj heq
  exact ⟨c, pg, hc, hpg, hmapped, hpaddr.symm, hcontains⟩

theorem Translation.holds_of_page {c : Cell} {pg : Page} (hc : g t.page = some c)
    (hpg : c.page = some pg) (hmapped : pg.mapped = true) (hpaddr : pg.paddr = t.paddr)
    (hflags : c.flags.mapped.contains t.flags = true) : t.Holds (entries g) := by
  refine ⟨c.flags.mapped, ?_, hflags⟩
  rw [entries_of_mapped hc hpg hmapped, hpaddr]

/-- Where the pages of `I` lose their frames, the translations of the other pages are left. -/
theorem holds_iff_notMem (h : ∀ t ∈ tlb, t.Holds (entries g)) (hout : ∀ n ∉ I, g' n = g n)
    (hin : ∀ t ∈ tlb, t.page ∈ I → ¬ t.Holds (entries g')) :
    (∀ t ∈ tlb, t.Holds (entries g')) ↔ ∀ t ∈ tlb, t.page ∉ I := by
  refine ⟨fun hall t ht hmem ↦ hin t ht hmem (hall t ht), fun hnot t ht ↦ ?_⟩
  obtain ⟨c, pg, hc, hpg, hmapped, hpaddr, hflags⟩ := (h t ht).exists_page
  exact Translation.holds_of_page ((hout _ (hnot t ht)).trans hc) hpg hmapped hpaddr hflags

theorem holds_erase_iff (h : ∀ t ∈ tlb, t.Holds (entries g)) :
    (∀ t ∈ tlb, t.Holds (entries (PointMap.erase I g))) ↔ ∀ t ∈ tlb, t.page ∉ I := by
  refine holds_iff_notMem h (fun n hn ↦ PointMap.erase_of_notMem hn) fun t _ hmem hholds ↦ ?_
  obtain ⟨c, pg, hc, -⟩ := hholds.exists_page
  rw [PointMap.erase_of_mem hmem] at hc
  exact absurd hc (by simp)

/-- With new flags a translation holds if they grant its rights. -/
theorem holds_update_iff {flags : PTEFlags} (h : ∀ t ∈ tlb, t.Holds (entries g)) :
    (∀ t ∈ tlb, t.Holds (entries (PointMap.update I (Cell.withFlags flags) g))) ↔
      ∀ t ∈ tlb, t.page ∈ I → flags.mapped.contains t.flags = true := by
  constructor
  · intro hall t ht hmem
    obtain ⟨c', pg, hc', -, -, -, hflags⟩ := (hall t ht).exists_page
    rw [PointMap.update_of_mem hmem, Option.map_eq_some_iff] at hc'
    obtain ⟨c, -, rfl⟩ := hc'
    exact hflags
  · intro hrights t ht
    obtain ⟨c, pg, hc, hpg, hmapped, hpaddr, hflags⟩ := (h t ht).exists_page
    by_cases hmem : t.page ∈ I
    · refine Translation.holds_of_page (c := c.withFlags flags) ?_ hpg hmapped hpaddr
        (hrights t ht hmem)
      rw [PointMap.update_of_mem hmem, hc, Option.map_some]
    · refine Translation.holds_of_page ?_ hpg hmapped hpaddr hflags
      rw [PointMap.update_of_notMem hmem, hc]

/-- A page that is populated keeps its translation. -/
theorem Translation.Holds.populated {m : ℕ} {c c' : Cell} (h : t.Holds (entries g))
    (hc : g m = some c) (hpop : c.Populated c') :
    t.Holds (entries (Function.update g m (some c'))) := by
  obtain ⟨c₀, pg, hc₀, hpg, hmapped, hpaddr, hflags⟩ := h.exists_page
  by_cases hm : t.page = m
  · subst hm
    obtain rfl := Option.some.inj (hc₀.symm.trans hc)
    obtain ⟨pg', hpg', hmapped', hold⟩ := hpop.page
    refine Translation.holds_of_page (Function.update_self _ _ _) hpg' hmapped' ?_ ?_
    · rw [← (hold pg hpg).1, hpaddr]
    · rw [hpop.flags_eq]
      exact hflags
  · refine Translation.holds_of_page ?_ hpg hmapped hpaddr hflags
    rw [Function.update_of_ne hm, hc₀]

/-- Writing keeps all translations. -/
theorem Translation.Holds.written (h : t.Holds (entries g)) (hg : Written g g') :
    t.Holds (entries g') := by
  obtain ⟨c, pg, hc, hpg, hmapped, hpaddr, hflags⟩ := h.exists_page
  have hrel := hg t.page
  rw [hc] at hrel
  generalize hc' : g' t.page = x at hrel
  cases hrel with
  | some hwritten =>
    obtain ⟨data, hdata⟩ := hwritten.old pg hpg
    refine Translation.holds_of_page hc' hdata hmapped hpaddr ?_
    rw [hwritten.flags_eq]
    exact hflags

end cells

variable [FrameAllocator σ] [FileStore F φ] {g g' : ℕ → Option Cell} {ms : MemorySet F}
variable {w w' : World σ φ} {tlb : Set Translation} {shared : ℕ → ℕ} {D : Set ℕ} {kernelRoot : ℕ}

namespace SpaceOk

omit [FileStore F φ] in
/-- The page table computes what the cells ask for, so they say which translations are stale. -/
theorem noStale_iff (h : SpaceOk (spaceEnv shared) g ms w) :
    ms.NoStale w tlb ↔ ∀ t ∈ tlb, t.Holds (entries g) := by
  obtain ⟨T, hb, -⟩ := h.coherent.backed
  have hlookup : ∀ t : Translation, t.page < 510 * 2 ^ 18 →
      PageTable.lookup (ms.pt, w) (t.page * PAGE_SIZE) = entries g t.page := by
    intro t hlt
    rw [h.lookup_eq (by simp only [spaceEnv, PAGE_SIZE]; omega),
      Nat.mul_div_cancel _ (by norm_num)]
  constructor
  · intro hall t ht
    obtain ⟨hlt, flags, htr, hcontains⟩ := hall t ht
    exact ⟨flags, (hlookup t hlt).symm.trans htr, hcontains⟩
  · intro hall t ht
    obtain ⟨c, pg, hc, -⟩ := (hall t ht).exists_page
    have hlt : t.page < 510 * 2 ^ 18 := by
      have hbelow := hb.below (n := t.page) (by rw [hc]; rfl)
      simp only [spaceEnv] at hbelow
      omega
    obtain ⟨flags, htr, hcontains⟩ := hall t ht
    exact ⟨hlt, flags, (hlookup t hlt).trans htr, hcontains⟩

omit [FileStore F φ] in
/-- The frames of an area that is pushed are not those that it takes the place of. -/
theorem holds_push_iff (h : SpaceOk (spaceEnv shared) g ms w) {vma : VmArea F}
    (hfresh : SpaceCall.Fresh ms.frames w vma) {mem : ByteMem}
    (hall : ∀ t ∈ tlb, t.Holds (entries g)) :
    (∀ t ∈ tlb, t.Holds (entries (PointMap.overwrite vma.toRange.pages (newCells vma mem true) g)))
      ↔ ∀ t ∈ tlb, t.page ∉ pagesOf vma.start vma.end_ := by
  have hpages : vma.toRange.pages = pagesOf vma.start vma.end_ := rfl
  rw [hpages]
  refine holds_iff_notMem hall (fun n hn ↦ PointMap.overwrite_of_notMem hn)
    fun t ht hmem hholds ↦ ?_
  obtain ⟨c, pg, hc, hpg, -, hpaddr, -⟩ := (hall t ht).exists_page
  obtain ⟨c', pg', hc', hpg', -, hpaddr', -⟩ := hholds.exists_page
  rw [PointMap.overwrite_of_mem hmem] at hc'
  have hnew : vma.pma.frames[t.page - vma.start / PAGE_SIZE]? = some (some pg'.paddr) ∧
      pg'.data = pageData mem pg'.paddr ∧ pg'.mapped = true :=
    newCells_page (by rw [hc']; exact hpg')
  have hheld : pg.paddr ∈ held (spaceEnv shared) g ms.pt :=
    Or.inr (Or.inr ⟨t.page, pg, by rw [pageAt, hc]; exact hpg, rfl⟩)
  rw [h.held_eq] at hheld
  refine (hfresh.ok hnew.1).2.2.2 ?_
  rw [hpaddr', ← hpaddr]
  exact hheld.resolve_right (Set.notMem_empty _)

/-- A mapping that fails changes nothing. -/
theorem wp_pushWithBackend_error (h : SpaceOk (spaceEnv shared) g ms w) {start end_ : ℕ}
    {flags : PTEFlags} {backend : Option (BackEndFile F)} {anywhere : Bool}
    (hD : ∀ n c, g n = some c → n ∉ D → c.Free)
    (hc : (SpaceCall.pushWithBackend start end_ flags backend anywhere).Proper D ms w) :
    wp ((SpaceCall.pushWithBackend start end_ flags backend anywhere).run ms) (fun r w' ↦
      r.1 = .ok () ∨ r.2 = ms ∧ w' = w) otherPanic w := by
  obtain ⟨hs, he, hrest⟩ := hc
  rw [SpaceCall.run, wp_map]
  cases anywhere with
  | true =>
    refine wp_imp (h.wp_pushWithBackend_anywhere hs he hrest flags backend) fun r w' hr ↦ ?_
    obtain ⟨p, -, hok, -⟩ := hr
    exact Or.inl (by rw [hok]; rfl)
  | false =>
    refine wp_imp (h.wp_pushWithBackend_fixed hs he (by norm_num [spaceEnv])
      (SpaceInv.free_of_disjoint hD hrest) flags backend) fun r w' hr ↦ ?_
    rcases hr with ⟨err, -, hms, hw⟩ | ⟨-, -, -, hok, -⟩
    · exact Or.inr ⟨hms, hw⟩
    · exact Or.inl (by rw [hok]; rfl)

/-- When a call returns, no translation is stale if and only if it kept those that are cached. -/
theorem wp_run_noStale (hok : SpaceOk (spaceEnv shared) g ms w)
    (hD : ∀ n c, g n = some c → n ∉ D → c.Free) (h : ms.NoStale w tlb) {c : SpaceCall F}
    (hc : c.Proper D ms w) :
    wp (c.run ms) (fun r w' ↦ r.2.NoStale w' (c.sfence ms w r tlb) ↔ c.KeepsCached tlb)
      otherPanic w := by
  have hall := hok.noStale_iff.mp h
  have heffect := SpaceInv.wp_run_effect hok hD rfl hc fun _ _ p hp ↦
    absurd hp (Set.notMem_empty p)
  -- a page that is populated keeps the translations, of which some may be flushed
  have hfault : ∀ (r : Except OSError Unit × MemorySet F) (w' : World σ φ)
      (g' : ℕ → Option Cell) (m : ℕ) (S : Set Translation), S ⊆ tlb →
      SpaceOk (spaceEnv shared) g' r.2 w' → ((∃ c c', g m = some c ∧ c.Populated c' ∧
        g' = Function.update g m (some c')) ∨ r.1 ≠ .ok () ∧ g' = g) → r.2.NoStale w' S := by
    intro r w' g' m S hsub hok' hg'
    refine hok'.noStale_iff.mpr fun t ht ↦ ?_
    rcases hg' with ⟨c, c', hc, hpop, rfl⟩ | ⟨-, rfl⟩
    · exact (hall t (hsub ht)).populated hc hpop
    · exact hall t (hsub ht)
  cases c with
  | push vma =>
    refine wp_imp heffect fun r w' hr ↦ ?_
    obtain ⟨g', hok', mem, rfl⟩ := hr
    rw [SpaceCall.sfence, hok'.noStale_iff]
    exact hok.holds_push_iff hc.2.2.1 hall
  | pushWithBackend start end_ flags backend anywhere =>
    refine wp_imp (hok.wp_pushWithBackend_error hD hc) fun r w' hr ↦ iff_of_true ?_ trivial
    rw [SpaceCall.sfence]
    rcases hr with hr | ⟨hms, hw⟩
    · rw [hr]
      exact fun t ht ↦ absurd ht (Set.notMem_empty t)
    · rw [hms, hw]
      exact fun t ht ↦ h t (SpaceCall.sfence_subset ms w r tlb
        (.pushWithBackend start end_ flags backend anywhere) ht)
  | munmap start end_ =>
    refine wp_imp heffect fun r w' hr ↦ ?_
    obtain ⟨g', hok', rfl⟩ := hr
    rw [SpaceCall.sfence, hok'.noStale_iff]
    exact holds_erase_iff hall
  | mprotect start end_ newFlags =>
    refine wp_imp heffect fun r w' hr ↦ ?_
    obtain ⟨g', hok', rfl⟩ := hr
    rw [SpaceCall.sfence, hok'.noStale_iff]
    exact holds_update_iff hall
  | handlePageFault vaddr accessFlags =>
    refine wp_imp heffect fun r w' hr ↦ iff_of_true ?_ trivial
    obtain ⟨g', hok', hg'⟩ := hr
    exact hfault r w' g' _ _ (SpaceCall.sfence_subset _ _ _ _ _) hok' hg'
  | manuallyAllocPage vaddr =>
    refine wp_imp heffect fun r w' hr ↦ iff_of_true ?_ trivial
    obtain ⟨g', hok', hg'⟩ := hr
    exact hfault r w' g' _ _ (SpaceCall.sfence_subset _ _ _ _ _) hok' hg'
  | write start len src accessFlags =>
    refine wp_imp heffect fun r w' hr ↦ iff_of_true ?_ trivial
    obtain ⟨g', hok', hg'⟩ := hr
    exact hok'.noStale_iff.mpr fun t ht ↦ (hall t ht).written hg'
  | clearUserPagesAndSaveKernel =>
    refine wp_imp heffect fun r w' hr ↦ ?_
    obtain ⟨g', hok', rfl⟩ := hr
    rw [SpaceCall.sfence, hok'.noStale_iff]
    exact holds_erase_iff hall

end SpaceOk

/-! ## Runs with cached translations -/

/-- A run of an address space with the translations that are cached. At any time the hardware may
cache a translation that the page table has, and everything may be flushed. -/
inductive TlbReach (kernelRoot : ℕ)
    (ok : Set Translation → Set ℕ → MemorySet F → World σ φ → SpaceCall F → Prop) :
    Set Translation → Set ℕ → MemorySet F → World σ φ → Prop
  | new {w₀ w : World σ φ} {ms : MemorySet F} (hal : PageAligned kernelRoot)
      (huse : kernelRoot ∈ w₀.inUse)
      (h : (MemorySet.newMemorySetForTask kernelRoot).run w₀ = .ok ms w) :
      TlbReach kernelRoot ok ∅ ∅ ms w
  | call {tlb : Set Translation} {D : Set ℕ} {ms : MemorySet F} {w w' : World σ φ}
      {c : SpaceCall F} {r : Except OSError Unit × MemorySet F}
      (h : TlbReach kernelRoot ok tlb D ms w) (hc : ok tlb D ms w c)
      (hrun : (c.run ms).run w = .ok r w') :
      TlbReach kernelRoot ok (c.sfence ms w r tlb) (c.unentered D ms r) r.2 w'
  | world {tlb : Set Translation} {D : Set ℕ} {ms : MemorySet F} {w w' : World σ φ}
      (h : TlbReach kernelRoot ok tlb D ms w) (hw : Undisturbed ms w w') :
      TlbReach kernelRoot ok tlb D ms w'
  | fill {tlb : Set Translation} {D : Set ℕ} {ms : MemorySet F} {w : World σ φ}
      {page paddr : ℕ} {flags : PTEFlags} (h : TlbReach kernelRoot ok tlb D ms w)
      (hpage : page < 510 * 2 ^ 18)
      (hlookup : PageTable.lookup (ms.pt, w) (page * PAGE_SIZE) = some (paddr, flags)) :
      TlbReach kernelRoot ok (insert ⟨page, paddr, flags⟩ tlb) D ms w
  | flush {tlb : Set Translation} {D : Set ℕ} {ms : MemorySet F} {w : World σ φ}
      (h : TlbReach kernelRoot ok tlb D ms w) : TlbReach kernelRoot ok ∅ D ms w

variable {ok : Set Translation → Set ℕ → MemorySet F → World σ φ → SpaceCall F → Prop}

/-- Without the cache it is a run of the address space. -/
theorem TlbReach.reach (h : TlbReach kernelRoot ok tlb D ms w) :
    Reach kernelRoot (fun D ms w c ↦ ∃ tlb, ok tlb D ms w c) D ms w := by
  induction h with
  | new hal huse hrun => exact .new hal huse hrun
  | call h hc hrun ih => exact .call ih ⟨_, hc⟩ hrun
  | world h hw ih => exact .world ih hw
  | fill h hpage hlookup ih => exact ih
  | flush h ih => exact ih

/-- Calls without flushes of their own lead on. -/
theorem TlbReach.of_reach
    (h : Reach kernelRoot (fun D ms w c ↦ ok ∅ D ms w c) D ms w) :
    TlbReach kernelRoot ok ∅ D ms w := by
  induction h with
  | new hal huse hrun => exact .new hal huse hrun
  | call h hc hrun ih => exact .flush (.call ih hc hrun)
  | world h hw ih => exact .world ih hw

theorem TlbReach.noStale
    (h : TlbReach kernelRoot (fun tlb D ms w c ↦ c.Proper D ms w ∧ c.KeepsCached tlb) tlb D ms w) :
    ms.NoStale w tlb := by
  induction h with
  | new hal huse hrun => exact fun t ht ↦ absurd ht (Set.notMem_empty t)
  | call h hc hrun ih =>
    obtain ⟨shared, g, hok, hD⟩ := h.reach.inv fun _ ⟨_, hc⟩ ↦ hc.1
    exact (wp_ok (hok.wp_run_noStale hD ih hc.1) hrun).mpr hc.2
  | world h hw ih =>
    obtain ⟨shared, g, hok, hD⟩ := h.reach.inv fun _ ⟨_, hc⟩ ↦ hc.1
    have hok' := hok.of_world hw fun p hp ↦ absurd hp (Set.notMem_empty p)
    rw [hok'.noStale_iff, entries_refresh]
    exact hok.noStale_iff.mp ih
  | fill h hpage hlookup ih =>
    intro t ht
    rcases Set.mem_insert_iff.mp ht with rfl | ht
    · refine ⟨hpage, _, hlookup, ?_⟩
      rw [PTEFlags.contains, BitVec.and_self, beq_self_eq_true]
    · exact ih t ht
  | flush h ih => exact fun t ht ↦ absurd ht (Set.notMem_empty t)

/-- **No stale translation survives** in a run whose calls keep what is cached: every cached
translation is that of the page table, which grants at least its rights, and its frame is in use by
the address space. After any further call this remains so if and only if the call keeps what is
cached. -/
theorem tlb_fresh
    (h : TlbReach kernelRoot (fun tlb D ms w c ↦ c.Proper D ms w ∧ c.KeepsCached tlb) tlb D ms w) :
    ms.NoStale w tlb ∧ (∀ t ∈ tlb, t.paddr ∈ w.inUse ∧ t.paddr ∈ ms.frames) ∧
      ∀ c : SpaceCall F, c.Proper D ms w →
        wp (c.run ms) (fun r w' ↦ r.2.NoStale w' (c.sfence ms w r tlb) ↔ c.KeepsCached tlb)
          otherPanic w := by
  have hfresh := h.noStale
  obtain ⟨shared, g, hok, hD⟩ := h.reach.inv fun _ ⟨_, hc⟩ ↦ hc.1
  refine ⟨hfresh, fun t ht ↦ ?_, fun c hc ↦ hok.wp_run_noStale hD hfresh hc⟩
  obtain ⟨c, pg, hc, hpg, -, hpaddr, -⟩ := (hok.noStale_iff.mp hfresh t ht).exists_page
  obtain ⟨T, hb, -⟩ := hok.coherent.backed
  have hat : pageAt g t.page = some pg := by
    rw [pageAt, hc]
    exact hpg
  have hheld : pg.paddr ∈ held (spaceEnv shared) g ms.pt := Or.inr (Or.inr ⟨_, pg, hat, rfl⟩)
  rw [hok.held_eq] at hheld
  rw [← hpaddr]
  exact ⟨(hb.frames.ok hat).inUse, hheld.resolve_right (Set.notMem_empty _)⟩

/-- A page that was touched and cached. -/
theorem tlb_fresh_kernel : ∃ (ms : MemorySet Empty) (w : World Bitmap Unit) (t : Translation),
    t.page = 1 ∧ ms.NoStale w {t} ∧ t.paddr ∈ ms.frames := by
  obtain ⟨ms, w, hok, hsome⟩ := exists_of_returns (x := SpaceCall.runNew PHYS_MEMORY_OFFSET
      [.pushWithBackend 0x1000 0x2000 bssPage.flags none false, .manuallyAllocPage 0x1000])
    (s := World.kernel)
    (P := fun (ms : MemorySet Empty) w ↦ (PageTable.lookup (ms.pt, w) 0x1000).isSome)
    (by decide +kernel)
  obtain ⟨D, hreach⟩ : ∃ D, Reach PHYS_MEMORY_OFFSET SpaceCall.User D ms w :=
    Reach.runNew (by simp [SpaceCall.User, PageAligned, PAGE_SIZE]) (by decide)
      World.kernel_inUse hok
  obtain ⟨⟨p, f⟩, hlookup⟩ := Option.isSome_iff_exists.mp hsome
  have hkeeps : Reach PHYS_MEMORY_OFFSET
      (fun D ms w (c : SpaceCall Empty) ↦ c.Proper D ms w ∧ c.KeepsCached ∅) ∅ ms w :=
    hreach.proper.mono fun _ hc ↦ ⟨hc, SpaceCall.keepsCached_empty _⟩
  have hstart : TlbReach PHYS_MEMORY_OFFSET
      (fun tlb D ms w (c : SpaceCall Empty) ↦ c.Proper D ms w ∧ c.KeepsCached tlb) ∅ ∅ ms w :=
    .of_reach hkeeps
  have hpage : 1 < 510 * 2 ^ 18 := by norm_num
  have hfill := hstart.fill hpage hlookup
  rw [insert_empty_eq] at hfill
  obtain ⟨hfresh, hframes, -⟩ := tlb_fresh hfill
  exact ⟨ms, w, ⟨1, p, f⟩, rfl, hfresh, (hframes _ rfl).2⟩

/-- The translation of a touched page before and after a call. -/
def lookupsAround (c : SpaceCall Empty) : EStateM Panic (World Bitmap Unit)
    (Option (ℕ × PTEFlags) × Option (ℕ × PTEFlags)) := do
  let ms ← SpaceCall.runNew PHYS_MEMORY_OFFSET
    [.pushWithBackend 0x1000 0x2000 bssPage.flags none false, .manuallyAllocPage 0x1000]
  let w ← get
  let r ← c.run ms
  let w' ← get
  pure (PageTable.lookup (ms.pt, w) 0x1000, PageTable.lookup (r.2.pt, w') 0x1000)

/-- The page is cached, and the call comes with no flush. -/
theorem exists_cached {c : SpaceCall Empty} (hc : ∀ ms (w : World Bitmap Unit), c.User ∅ ms w)
    (hflush : ∀ ms (w : World Bitmap Unit) r tlb, c.sfence ms w r tlb = tlb)
    {P : Option (ℕ × PTEFlags) → Option (ℕ × PTEFlags) → World Bitmap Unit → Bool}
    (h : returns (lookupsAround c) World.kernel
      (fun x w ↦ x.1.isSome && P x.1 x.2 w) = true) :
    ∃ D ms w t, TlbReach PHYS_MEMORY_OFFSET (fun _ D ms w (c : SpaceCall Empty) ↦ c.User D ms w)
      {t} D ms w ∧ t.page = 1 ∧
        P (some (t.paddr, t.flags)) (PageTable.lookup (ms.pt, w) 0x1000) w = true := by
  obtain ⟨x, w', hrun, hx⟩ := exists_of_returns h
  obtain ⟨ms, w, hcalls, hrest⟩ := exists_of_run_bind hrun
  obtain ⟨u, w₁, hget, hrest⟩ := exists_of_run_bind hrest
  obtain ⟨rfl, rfl⟩ := EStateM.Result.ok.inj hget
  obtain ⟨r, w₂, hcall, hrest⟩ := exists_of_run_bind hrest
  obtain ⟨u', w₃, hget', hrest⟩ := exists_of_run_bind hrest
  obtain ⟨rfl, rfl⟩ := EStateM.Result.ok.inj hget'
  obtain ⟨rfl, rfl⟩ := EStateM.Result.ok.inj hrest
  rw [Bool.and_eq_true] at hx
  obtain ⟨⟨p, f⟩, hlookup⟩ := Option.isSome_iff_exists.mp hx.1
  obtain ⟨D, hreach⟩ : ∃ D, Reach PHYS_MEMORY_OFFSET SpaceCall.User D ms w :=
    Reach.runNew (by simp [SpaceCall.User, PageAligned, PAGE_SIZE]) (by decide)
      World.kernel_inUse hcalls
  obtain rfl := hreach.eq_empty
  have hstart : TlbReach PHYS_MEMORY_OFFSET (fun _ D ms w (c : SpaceCall Empty) ↦ c.User D ms w)
      ∅ ∅ ms w := .of_reach hreach
  have hpage : 1 < 510 * 2 ^ 18 := by norm_num
  have hfill := hstart.fill hpage hlookup
  have hstep := hfill.call (hc ms w) hcall
  rw [hflush, insert_empty_eq] at hstep
  refine ⟨_, _, _, _, hstep, rfl, ?_⟩
  rw [← hlookup]
  exact hx.2

/-- After `munmap` the page stays cached, though its frame was given back; after `mprotect` it stays
writable. -/
theorem tlb_stale :
    (∃ D ms w t, TlbReach PHYS_MEMORY_OFFSET (fun _ D ms w (c : SpaceCall Empty) ↦ c.User D ms w)
      {t} D ms (w : World Bitmap Unit) ∧ ¬ ms.NoStale w {t} ∧ t.paddr ∉ w.inUse) ∧
    ∃ D ms w t, TlbReach PHYS_MEMORY_OFFSET (fun _ D ms w (c : SpaceCall Empty) ↦ c.User D ms w)
      {t} D ms (w : World Bitmap Unit) ∧ ¬ ms.NoStale w {t} ∧
        t.flags.contains PTEFlags.WRITE = true := by
  constructor
  · obtain ⟨D, ms, w, t, hreach, hpage, hP⟩ := exists_cached
      (c := .munmap 0x1000 0x2000) (fun _ _ ↦ ⟨by decide, by decide⟩) (fun _ _ _ _ ↦ rfl)
      (P := fun before after w ↦ after.isNone && before.all fun m ↦
        w.alloc.taken.all fun i ↦ Bitmap.frameIdxToPhysAddr i != m.1)
      (by decide +kernel)
    rw [Bool.and_eq_true, Option.isNone_iff_eq_none] at hP
    refine ⟨D, ms, w, t, hreach, fun hfresh ↦ ?_, ?_⟩
    · obtain ⟨-, flags, hlookup, -⟩ := hfresh t rfl
      rw [hpage] at hlookup
      exact absurd (hP.1.symm.trans hlookup) (by simp)
    · rintro ⟨i, hi, heq⟩
      have hne := List.all_eq_true.mp hP.2 i hi
      rw [bne_iff_ne] at hne
      exact hne heq
  · obtain ⟨D, ms, w, t, hreach, hpage, hP⟩ := exists_cached
      (c := .mprotect 0x1000 0x2000 PTEFlags.READ) (fun _ _ ↦ ⟨by decide, by decide⟩)
      (fun _ _ _ _ ↦ rfl)
      (P := fun before after _ ↦ before.all (fun m ↦ m.2.contains PTEFlags.WRITE &&
        after.all fun m' ↦ !m'.2.contains m.2))
      (by decide +kernel)
    rw [Option.all_some, Bool.and_eq_true] at hP
    refine ⟨D, ms, w, t, hreach, fun hfresh ↦ ?_, hP.1⟩
    obtain ⟨-, flags, hlookup, hcontains⟩ := hfresh t rfl
    rw [hpage] at hlookup
    have hafter : PageTable.lookup (ms.pt, w) 0x1000 = some (t.paddr, flags) := hlookup
    have hnot := hP.2
    rw [hafter, Option.all_some, hcontains] at hnot
    exact absurd hnot (by decide)

end Maturin
