import Maturin.Memory.Coherence
import Maturin.Syscall.Mmap

/-!
# Which mapping calls are safe

`sys_munmap` and `sys_mprotect` pass any range of user addresses down to the areas, which assume
page alignment. A call is safe if it cuts no area off a page boundary, and the run stays safe as
long as every call is.
-/

open Exec

namespace Maturin

variable {σ φ F : Type} [FrameAllocator σ] {e : PtEnv} {g : ℕ → Option Cell} {ms : MemorySet F}
variable {w w' : World σ φ}

/-- Every area is made of whole pages, one for each entry of its frame vector, and lies where the
range map says. -/
def MemorySet.AreasOk (ms : MemorySet F) : Prop :=
  ∀ x ∈ ms.areaMap.segments, x.2.segment.start = x.1 ∧ x.2.segment.end_ = x.2.end_ ∧
    PageAligned x.2.segment.start ∧ PageAligned x.2.segment.end_ ∧
    x.2.segment.start < x.2.segment.end_ ∧
    x.2.segment.end_ - x.2.segment.start = x.2.segment.pma.size

theorem SpaceOk.areasOk (h : SpaceOk e g ms w) : ms.AreasOk := by
  intro x hx
  have hat := h.coherent.layout.area x.2 (OrdMap.mem_values.mpr ⟨x.1, hx⟩)
  have hlt := hat.lt
  obtain ⟨p, hp, -⟩ := hat.ok
  refine ⟨hat.start_eq.trans (h.keyed x hx).symm, hat.end_eq, ?_, ?_, ?_, hp.size_eq.symm⟩
  · rw [hp.start_eq]
    exact Nat.mul_mod_left _ _
  · rw [hp.end_eq]
    exact Nat.mul_mod_left _ _
  · rwa [hat.start_eq, hat.end_eq]

/-- Every area that the range meets is cut at page boundaries, at the start before the end, and the
range meets no page of `D`. -/
def SafeRange (D : Set ℕ) (ms : MemorySet F) (start end_ : ℕ) : Prop :=
  (∀ a ∈ ms.areaMap.areas, a.isOverlapWith start end_ = true →
    (a.start < start → PageAligned start) ∧ (end_ < a.end_ → PageAligned end_) ∧
      (a.start < start → end_ < a.end_ → start < end_)) ∧
  Disjoint (touched start end_) D

variable {D : Set ℕ} {start end_ len : ℕ}

omit [FrameAllocator σ] in
theorem SafeRange.cuts (h : SafeRange D ms start end_) : SpaceOk.Cuts ms start end_ :=
  fun a ha hover ↦ ⟨(h.1 a ha hover).1, (h.1 a ha hover).2.1⟩

omit [FrameAllocator σ] in
/-- A safe range in the wrong order meets nothing. -/
theorem SafeRange.of_le (h : SafeRange D ms start end_) (hle : end_ ≤ start) :
    ∀ a ∈ ms.areaMap.areas, a.isOverlapWith start end_ = false := by
  intro a ha
  by_contra hover
  rw [Bool.not_eq_false] at hover
  have hmeet := RangeArea.isOverlapWith_iff.mp hover
  have := (h.1 a ha hover).2.2 (by omega) (by omega)
  omega

variable [FileStore F φ]

namespace SpaceOk

theorem wp_munmap_safe (h : SpaceOk e g ms w) (hD : ∀ n c, g n = some c → n ∉ D → c.Free)
    (hsafe : SafeRange D ms start end_) :
    wp (ms.munmap start end_) (fun r _ ↦ r.1 = true ∧ r.2.AreasOk) noPanic w := by
  have hfst : ∀ E : Panic → World σ φ → Prop, wp (ms.munmap start end_) (fun _ _ ↦ True) E w →
      wp (ms.munmap start end_) (fun r _ ↦ r.1 = true) E w := by
    intro E hwp
    rw [MemorySet.munmap, wp_withPt, wp_bind] at hwp ⊢
    exact wp_imp hwp fun _ _ _ ↦ rfl
  by_cases hlt : start < end_
  · have hwp := h.wp_munmap hlt fun a ha ↦
      hsafe.cuts.cuttable hlt ha (SpaceInv.free_of_disjoint hD hsafe.2)
    refine wp_mono (wp_and (hfst _ (wp_imp hwp fun _ _ _ ↦ trivial)) hwp)
      (fun r w' hr ↦ ⟨hr.1, hr.2.areasOk⟩) fun _ _ hp ↦ hp.1
  · have hwp := wp_munmap_of_forall_not (w := w) (hsafe.of_le (not_lt.mp hlt)) (E := noPanic)
    refine wp_mono (wp_and (hfst _ (wp_imp hwp fun _ _ _ ↦ trivial)) hwp)
      (fun r w' hr ↦ ⟨hr.1, ?_⟩) fun _ _ hp ↦ hp.1
    rw [hr.2.1]
    exact h.areasOk

theorem wp_mprotect_safe (h : SpaceOk e g ms w) (hD : ∀ n c, g n = some c → n ∉ D → c.Free)
    (hsafe : SafeRange D ms start end_) (flags : PTEFlags) :
    wp (ms.mprotect start end_ flags) (fun r _ ↦ r.1 = true ∧ r.2.AreasOk) noPanic w := by
  have hfst : ∀ E : Panic → World σ φ → Prop,
      wp (ms.mprotect start end_ flags) (fun _ _ ↦ True) E w →
      wp (ms.mprotect start end_ flags) (fun r _ ↦ r.1 = true) E w := by
    intro E hwp
    rw [MemorySet.mprotect, wp_withPt, wp_bind] at hwp ⊢
    exact wp_imp hwp fun _ _ _ ↦ rfl
  by_cases hlt : start < end_
  · have hwp := h.wp_mprotect hlt (fun a ha ↦
      hsafe.cuts.cuttable hlt ha (SpaceInv.free_of_disjoint hD hsafe.2)) flags
    refine wp_mono (wp_and (hfst _ (wp_imp hwp fun _ _ _ ↦ trivial)) hwp)
      (fun r w' hr ↦ ⟨hr.1, hr.2.areasOk⟩) fun _ _ hp ↦ hp.1
  · have hwp : wp (ms.mprotect start end_ flags) (fun r w' ↦ r.2 = ms ∧ w' = w) noPanic w :=
      wp_mprotect_of_forall_not (hsafe.of_le (not_lt.mp hlt))
    refine wp_mono (wp_and (hfst _ (wp_imp hwp fun _ _ _ ↦ trivial)) hwp)
      (fun r w' hr ↦ ⟨hr.1, ?_⟩) fun _ _ hp ↦ hp.1
    rw [hr.2.1]
    exact h.areasOk

end SpaceOk

variable {kernelRoot : ℕ}

/-- **Safe ranges never panic.** In every state of a run of proper calls the areas are whole pages,
and `sys_munmap` and `sys_mprotect` of a safe range return and leave them so. -/
theorem sysMunmap_sysMprotect_safe (h : Reach kernelRoot SpaceCall.Proper D ms w) :
    ms.AreasOk ∧ ∀ start len, SafeRange D ms start (wadd start len) →
      wp (sysMunmap ms start len) (fun r _ ↦ r.1 = .ok 0 ∧ r.2.AreasOk) noPanic w ∧
      ∀ prot, wp (sysMprotect ms start len prot) (fun r _ ↦ r.1 = .ok 0 ∧ r.2.AreasOk)
        noPanic w := by
  obtain ⟨shared, g, hok, hD⟩ := h.inv fun _ hc ↦ hc
  refine ⟨hok.areasOk, fun start len hsafe ↦ ⟨?_, fun prot ↦ ?_⟩⟩
  · rw [sysMunmap, wp_bind]
    refine wp_imp (hok.wp_munmap_safe hD hsafe) fun r w' hr ↦ ?_
    rw [wp_pure, hr.1]
    exact ⟨rfl, hr.2⟩
  · rw [sysMprotect, wp_bind]
    refine wp_imp (hok.wp_mprotect_safe hD hsafe _) fun r w' hr ↦ ?_
    rw [wp_pure, hr.1]
    exact ⟨rfl, hr.2⟩

/-- Two pages of a new process that can be unmapped. -/
theorem sysMunmap_sysMprotect_safe_kernel : ∃ (ms : MemorySet Empty) (w : World Bitmap Unit),
    ms.areaMap.areas ≠ [] ∧
      wp (sysMunmap ms 0x1000 0x1000) (fun r _ ↦ r.1 = .ok 0 ∧ r.2.AreasOk) noPanic w := by
  obtain ⟨ms, w, hok, hsome⟩ := exists_of_returns (x := SpaceCall.runNew PHYS_MEMORY_OFFSET
      [.pushWithBackend 0x1000 0x3000 PTEFlags.READ none false, .manuallyAllocPage 0x1000])
    (s := World.kernel) (P := fun (ms : MemorySet Empty) _ ↦ ms.areaMap.areas.length == 1)
    (by decide +kernel)
  obtain ⟨D, hreach⟩ : ∃ D, Reach PHYS_MEMORY_OFFSET SpaceCall.User D ms w :=
    Reach.runNew (by simp [SpaceCall.User, PageAligned, PAGE_SIZE]) (by decide)
      World.kernel_inUse hok
  refine ⟨ms, w, fun hnil ↦ ?_, ((sysMunmap_sysMprotect_safe hreach.proper).2 0x1000 0x1000
    ⟨fun a _ _ ↦ ⟨fun _ ↦ by decide, fun _ ↦ by decide, fun _ _ ↦ by decide⟩,
      Set.disjoint_empty _⟩).1⟩
  rw [hnil] at hsome
  exact absurd hsome (by decide)

/-- Two pages of a new process, and a call on them. -/
def twoPages (call : MemorySet Empty → EStateM Panic (World Bitmap Unit) (Except ErrorNo ℕ ×
    MemorySet Empty)) : EStateM Panic (World Bitmap Unit) (Except ErrorNo ℕ × MemorySet Empty) := do
  let ms ← SpaceCall.runNew PHYS_MEMORY_OFFSET
    [.pushWithBackend 0x1000 0x3000 PTEFlags.READ none false]
  call ms

/-- Unmapping nothing in the middle of an area panics, so does an end inside a page, and a start
inside a page leaves an area that ends there. -/
theorem sysMunmap_unsafe :
    panicOf (twoPages fun ms ↦ sysMunmap ms 0x2000 0) World.kernel
        = some (.unwrap .splitPma .pmArea_splitFailed) ∧
    panicOf (twoPages fun ms ↦ sysMprotect ms 0x2000 0 MMAPPROT.PROT_READ) World.kernel
        = some (.unwrap .splitPma .pmArea_splitFailed) ∧
    panicOf (twoPages fun ms ↦ sysMunmap ms 0x1000 0x1800) World.kernel
        = some .indexOutOfBounds ∧
    returns (twoPages fun ms ↦ sysMunmap ms 0x1800 0x1800) World.kernel
      (fun r _ ↦ r.2.areaMap.areas.any fun a ↦ a.segment.end_ == 0x1800) = true := by
  refine ⟨?_, ?_, ?_, ?_⟩ <;> decide +kernel

/-! ## Mappings stay in user space -/

/-- The pages between `0x1000` and the limit of user addresses. -/
def userPages : Set ℕ :=
  {n | LOWER_LIMIT ≤ n * PAGE_SIZE ∧ (n + 1) * PAGE_SIZE ≤ USER_VIRT_ADDR_LIMIT}

/-- A proper call whose new area lies below the limit of user addresses. -/
def SpaceCall.Below (D : Set ℕ) (ms : MemorySet F) (w : World σ φ) (c : SpaceCall F) : Prop :=
  c.Proper D ms w ∧ c.newPages ms ⊆ userPages

/-- The condition on `sys_mmap`: what is found anywhere ends below the limit, and a fixed place
meets no page of `D`. -/
def MmapFits (D : Set ℕ) (ms : MemorySet F) (start len : ℕ) (flags : MMAPFlags) : Prop :=
  if mmapAnywhere start flags then
    ∀ p, ms.areaMap.findFreeArea (alignDown start) (mmapLen start len) = some p →
      p + mmapLen start len ≤ USER_VIRT_ADDR_LIMIT
  else
    Disjoint (touched (alignDown start) (wadd (alignDown start) (mmapLen start len))) D

/-- All areas lie in user space, no two share a leaf entry, and what the kernel shares with the
address space, or owns by itself, is as before. -/
structure UserSpaceOk (ms : MemorySet F) (w : World σ φ) (ms' : MemorySet F) (w' : World σ φ) :
    Prop where
  bounds : ∀ area ∈ ms'.areaMap.iter, LOWER_LIMIT ≤ area.start ∧ area.start < area.end_ ∧
    area.end_ ≤ USER_VIRT_ADDR_LIMIT
  leaf : ∀ a ∈ ms'.areaMap.iter, ∀ b ∈ ms'.areaMap.iter, ∀ x y, a.start ≤ x → x < a.end_ →
    b.start ≤ y → y < b.end_ → pteIdxOfVirtAddr x = pteIdxOfVirtAddr y → a = b
  root : ∀ i, 510 ≤ i → i < 512 →
    entryAt w'.mem ms'.pt.rootPaddr i = entryAt w.mem ms.pt.rootPaddr i
  kernel : ∀ p, PageAligned p → p ∈ w.inUse → p ∉ ms.frames → Kept w w' p

omit [FileStore F φ] in
theorem SpaceOk.bounds (h : SpaceOk e g ms w) (hU : ∀ n, (g n).isSome → n ∈ userPages) :
    ∀ area ∈ ms.areaMap.iter, LOWER_LIMIT ≤ area.start ∧ area.start < area.end_ ∧
      area.end_ ≤ USER_VIRT_ADDR_LIMIT := by
  intro area harea
  obtain ⟨a, ha, rfl⟩ := List.mem_map.mp harea
  have hat := h.coherent.layout.area a ha
  have hlt := hat.lt
  obtain ⟨p, hp, -⟩ := hat.ok
  have hpos := hp.pos
  have hpage : ∀ i < a.segment.pma.frames.length, p + i ∈ userPages := fun i hi ↦ by
    obtain ⟨c, hc, -⟩ := hp.cell i hi
    exact hU _ (by rw [hc]; rfl)
  obtain ⟨hlow, -⟩ := hpage 0 hpos
  obtain ⟨-, hup⟩ := hpage (a.segment.pma.frames.length - 1) (by omega)
  refine ⟨by rwa [hp.start_eq], by rwa [hat.start_eq, hat.end_eq], ?_⟩
  rw [hp.end_eq]
  rwa [Nat.add_assoc, Nat.sub_add_cancel hpos] at hup

/-- Areas below the kernel's root slots share no leaf entry. -/
theorem SpaceOk.leaf (h : SpaceOk e g ms w) (hlim : e.lim = 510) :
    ∀ a ∈ ms.areaMap.iter, ∀ b ∈ ms.areaMap.iter, ∀ x y, a.start ≤ x → x < a.end_ →
      b.start ≤ y → y < b.end_ → pteIdxOfVirtAddr x = pteIdxOfVirtAddr y → a = b := by
  intro a ha b hb x y hxl hxr hyl hyr hidx
  obtain ⟨a, hma, rfl⟩ := List.mem_map.mp ha
  obtain ⟨b, hmb, rfl⟩ := List.mem_map.mp hb
  have hata := h.coherent.layout.area a hma
  have hatb := h.coherent.layout.area b hmb
  obtain ⟨p, hp, -⟩ := hata.ok
  obtain ⟨q, hq, -⟩ := hatb.ok
  have hpage : x / PAGE_SIZE = y / PAGE_SIZE := by
    have hv := pteIdxOfVirtAddr_eq_iff.mp hidx
    have hple := hp.le
    have hqle := hq.le
    rw [hp.end_eq] at hxr
    rw [hq.end_eq] at hyr
    simp only [vpn, PAGE_SIZE] at hv hxr hyr ⊢
    omega
  have hx : x ∈ a.range := ⟨hata.start_eq ▸ hxl, hata.end_eq ▸ hxr⟩
  have hy : y ∈ b.range := ⟨hatb.start_eq ▸ hyl, hatb.end_eq ▸ hyr⟩
  have hxb : x ∈ b.range := by
    rw [hatb.mem_range_iff, hpage, ← hatb.mem_range_iff]
    exact hy
  rw [(areaLaws e 0).eq_of_mem_range h.represents.good hma hmb hx hxb]

omit [FileStore F φ] in
/-- The root slots above those of the address space. -/
theorem SpaceOk.root_eq (h : SpaceOk e g ms w) {i : ℕ} (hle : e.lim ≤ i) (hi : i < 512) :
    entryAt w.mem ms.pt.rootPaddr i = e.shared i := by
  obtain ⟨T, hb, -⟩ := h.coherent.backed
  exact hb.table.shared i hle hi

/-- Nothing that an address space does not own changes in a call. -/
theorem Reach.wp_userSpace (h : Reach kernelRoot SpaceCall.Below D ms w) {c : SpaceCall F}
    (hc : c.Below D ms w) (hpush : ∀ vma, c ≠ .push vma) :
    wp (c.run ms) (fun r w' ↦ Reach kernelRoot SpaceCall.Below (c.unentered D ms r) r.2 w' ∧
      UserSpaceOk ms w r.2 w') anyPanic w := by
  obtain ⟨shared, g, hok, hD, hU⟩ := h.cells fun _ hc ↦ hc
  have hprot := hok.protect (N := {p | PageAligned p ∧ p ∈ w.inUse ∧ p ∉ ms.frames}) fun p hp ↦ by
    rw [hok.held_eq]
    exact ⟨hp.1, hp.2.1, fun hmem ↦ hmem.elim hp.2.2 (Set.notMem_empty p)⟩
  have hrun := SpaceInv.wp_run_cells hprot hD rfl hc.1 fun vma hvma ↦ absurd hvma (hpush vma)
  refine h.wp_call hc (wp_mono hrun (fun r w' hr ↦ ?_) fun _ _ _ ↦ trivial)
  obtain ⟨g', hok', hD', hU'⟩ := hr
  refine ⟨hok'.bounds fun n hn ↦ (hU' n hn).elim (hU n) fun hmem ↦ hc.2 hmem, hok'.leaf rfl,
    fun i hle hi ↦ ?_, fun p hal huse hnot ↦ ?_⟩
  · rw [hok'.root_eq hle hi, hok.root_eq hle hi]
    rfl
  · obtain ⟨-, huse', -, hsame⟩ := hok'.foreign p (Or.inr ⟨hal, huse, hnot⟩)
    exact ⟨huse', hsame⟩

omit [FileStore F φ] in
/-- What happens to files does not concern an address space. -/
theorem SpaceOk.undisturbed_files (h : SpaceOk e g ms w) (files : φ) :
    Undisturbed ms w { w with files } := by
  have hframe : ∀ p ∈ ms.frames, p ∈ w.inUse := fun p hp ↦ by
    obtain ⟨T, hb, -⟩ := h.coherent.backed
    have hheld : p ∈ held e g ms.pt := by
      rw [h.held_eq]
      exact Or.inl hp
    exact (hb.of_held hheld).1
  exact ⟨fun p hp ↦ ⟨hframe p (Or.inl hp), fun _ _ _ ↦ rfl⟩, hframe, id⟩

/-- An address space that does not change keeps to user space, whatever happens to files. -/
theorem Reach.userSpaceOk (h : Reach kernelRoot SpaceCall.Below D ms w) (files : φ) :
    Reach kernelRoot SpaceCall.Below D ms { w with files } ∧
      UserSpaceOk ms w ms { w with files } := by
  obtain ⟨shared, g, hok, -, hU⟩ := h.cells fun _ hc ↦ hc
  exact ⟨.world h (hok.undisturbed_files files), hok.bounds hU, hok.leaf rfl, fun _ _ _ ↦ rfl,
    fun p _ huse _ ↦ ⟨huse, fun _ _ _ ↦ rfl⟩⟩

omit [FileStore F φ] in
theorem UserSpaceOk.of_files {ms' : MemorySet F} {files : φ}
    (h : UserSpaceOk ms { w with files } ms' w') : UserSpaceOk ms w ms' w' :=
  ⟨h.bounds, h.leaf, h.root, h.kernel⟩

omit [FileStore F φ] in
/-- The call that `sys_mmap` makes. -/
theorem SpaceOk.below (h : SpaceOk e g ms w) {flags : MMAPFlags}
    (hfit : MmapFits D ms start len flags) (hstart : start < 2 ^ 64) (fl : PTEFlags)
    (backend : Option (BackEndFile F)) :
    (SpaceCall.pushWithBackend (alignDown start) (wadd (alignDown start) (mmapLen start len)) fl
      backend (mmapAnywhere start flags)).Below D ms w := by
  have hal : PageAligned (alignDown start) := pageAligned_alignDown start
  have hlenal := pageAligned_mmapLen start len
  have hlen := wsub_wadd_mmapLen hstart len
  have hend := pageAligned_wadd hal hlenal
  rw [MmapFits] at hfit
  cases hany : mmapAnywhere start flags with
  | true =>
    rw [hany, if_pos rfl] at hfit
    refine ⟨⟨hal, hend, ?_⟩, ?_⟩
    · rw [if_pos rfl, hlen]
      exact fun p hp ↦ (hfit p hp).trans (by norm_num)
    · rintro n ⟨p, hp, hl, hr⟩
      rw [hlen] at hp hr
      have hup := hfit p hp
      simp only [USER_VIRT_ADDR_LIMIT] at hup
      obtain ⟨hlow, hpal⟩ := h.findFreeArea_aligned hal hp (by omega)
      refine ⟨hlow.trans hl, ?_⟩
      simp only [PageAligned, USER_VIRT_ADDR_LIMIT, PAGE_SIZE] at hpal hlenal hr ⊢
      omega
  | false =>
    rw [hany, if_neg (by decide)] at hfit
    refine ⟨⟨hal, hend, ?_⟩, ?_⟩
    · rwa [if_neg (by decide)]
    · rintro n ⟨hlow, hup, hl, hr⟩
      refine ⟨hlow.trans hl, ?_⟩
      simp only [PageAligned, USER_VIRT_ADDR_LIMIT, PAGE_SIZE] at hend hup hr ⊢
      omega

theorem Reach.wp_taskMmap (h : Reach kernelRoot SpaceCall.Below D ms w) {flags : MMAPFlags}
    (hfit : MmapFits D ms start len flags) (hstart : start < 2 ^ 64) (fl : PTEFlags)
    (backend : Option (BackEndFile F)) :
    wp (taskMmap ms (alignDown start) (wadd (alignDown start) (mmapLen start len)) fl backend
      (mmapAnywhere start flags)) (fun r w' ↦
        Reach kernelRoot SpaceCall.Below D r.2 w' ∧ UserSpaceOk ms w r.2 w') anyPanic w := by
  obtain ⟨shared, g, hok, -⟩ := h.cells fun _ hc ↦ hc
  have hrun := h.wp_userSpace (hok.below hfit hstart fl backend) fun vma ↦ by simp
  rw [SpaceCall.run, wp_map] at hrun
  rw [taskMmap, wp_bind]
  refine wp_imp hrun fun r w' hr ↦ ?_
  rcases r with ⟨err | p, ms'⟩
  · exact hr
  · exact hr

/-- **Mappings that fit stay in user space.** In every state of a run of calls below the limit,
`sys_mmap` with a fitting place reaches such a state again, with all areas between `0x1000` and the
limit, no leaf entry shared, and nothing of the kernel changed. -/
theorem sysMmap_userSpace (h : Reach kernelRoot SpaceCall.Below D ms w) (fds : ℕ → Option F)
    {flags : MMAPFlags} (hfit : MmapFits D ms start len flags) (hstart : start < 2 ^ 64)
    (prot : MMAPPROT) (fd : BitVec 32) (offset : ℕ) :
    wp (sysMmap fds ms start len prot flags fd offset) (fun r w' ↦
      Reach kernelRoot SpaceCall.Below D r.2 w' ∧ UserSpaceOk ms w r.2 w') anyPanic w := by
  have hsame := h.userSpaceOk w.files
  rw [sysMmap]
  dsimp only
  split_ifs with hzero hanon hfd
  · exact hsame
  · exact h.wp_taskMmap hfit hstart _ _
  · exact hsame
  · cases fds (fd.signExtend 64).toNat with
    | none => exact hsame
    | some file =>
      dsimp only
      rw [wp_bind, Exec.wp_modifyGet]
      obtain ⟨hreach, hok⟩ := h.userSpaceOk (FileStore.seekFromStart file offset w.files).2
      cases (FileStore.seekFromStart file offset w.files).1 with
      | none => exact ⟨hreach, hok⟩
      | some off =>
        refine wp_imp (hreach.wp_taskMmap hfit hstart _ _) fun r w' hr ↦ ?_
        exact ⟨hr.1, hr.2.of_files⟩

/-- A page of a new process, anywhere. -/
theorem sysMmap_userSpace_kernel : ∃ (ms : MemorySet Empty) (w : World Bitmap Unit),
    wp (sysMmap (fun _ ↦ none) ms 0 0x1000 MMAPPROT.PROT_READ MMAPFlags.MAP_ANONYMOUS (-1) 0)
      (fun r w' ↦ UserSpaceOk ms w r.2 w') anyPanic w := by
  obtain ⟨ms, w, hok, hfree⟩ := exists_of_returns
    (x := MemorySet.newMemorySetForTask PHYS_MEMORY_OFFSET) (s := World.kernel)
    (P := fun (ms : MemorySet Empty) _ ↦ ms.areaMap.findFreeArea 0 0x1000 == some 0x1000)
    (by decide +kernel)
  have hreach : Reach PHYS_MEMORY_OFFSET SpaceCall.Below ∅ ms w :=
    .new (by decide) World.kernel_inUse hok
  refine ⟨ms, w, wp_imp (sysMmap_userSpace hreach (fun _ ↦ none) ?_ (by norm_num) _ (-1) 0)
    fun r w' hr ↦ hr.2⟩
  rw [MmapFits, if_pos (by decide)]
  intro p hp
  have heq := beq_iff_eq.mp hfree
  rw [show alignDown 0 = 0 from rfl, show mmapLen 0 0x1000 = 0x1000 from rfl, heq,
    Option.some.injEq] at hp
  rw [← hp]
  decide

/-- A hint near the limit gives an area that ends above it, and a hint above `2 ^ 39` one that
shares its leaf entries with another area. -/
theorem sysMmap_beyond :
    returns (twoPages fun ms ↦ sysMmap (fun _ ↦ none) ms 0xFFFFF000 0x2000 MMAPPROT.PROT_READ
      MMAPFlags.MAP_ANONYMOUS (-1) 0) World.kernel
      (fun r _ ↦ r.2.areaMap.iter.any fun area ↦ decide (USER_VIRT_ADDR_LIMIT < area.end_)) = true ∧
    returns (twoPages fun ms ↦ sysMmap (fun _ ↦ none) ms (2 ^ 39 + 0x1000) 0x1000
      MMAPPROT.PROT_READ MMAPFlags.MAP_ANONYMOUS (-1) 0) World.kernel
      (fun r _ ↦ r.2.areaMap.iter.any fun a ↦ r.2.areaMap.iter.any fun b ↦
        a.start != b.start && pteIdxOfVirtAddr a.start == pteIdxOfVirtAddr b.start) = true := by
  refine ⟨?_, ?_⟩ <;> decide +kernel

end Maturin
