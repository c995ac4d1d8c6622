import Maturin.File.FatFile
import Maturin.Memory.Touch
import Maturin.RangeActionMap.FirstFit
import Maturin.Syscall.MapSafety

/-!
# When a mapping call is clean

`sys_mmap` maps the pages of the request, or refuses it. It refuses some requests by looking at the
arguments and at the file, whose position is set on the way; the others go to `push_with_backend`,
which unwraps all that can fail in it. There are more of these than the arguments were checked for:
an empty range, more pages than user addresses have, a hint behind which no gap is left, and a page
that has a frame but no entry yet in the page table. The length is a sum that wraps, and then fewer
pages are mapped than were asked for.
-/

open Exec

namespace Maturin

variable {σ φ F : Type} [FrameAllocator σ] [FileStore F φ] {e : PtEnv} {g g' : ℕ → Option Cell}
variable {ms ms' : MemorySet F} {w w' : World σ φ} {start end_ len s : ℕ}
variable {fds : ℕ → Option F} {flags : MMAPFlags} {fd : BitVec 32} {offset : ℕ} {prot : MMAPPROT}
variable {fl : PTEFlags} {backend : Option (BackEndFile F)}

/-! ## The request -/

/-- The length of the pages that a request meets; no sum wraps. -/
def mmapSpan (start len : ℕ) : ℕ :=
  (start + len + (PAGE_SIZE - 1)) / PAGE_SIZE * PAGE_SIZE - alignDown start

theorem pageAligned_mmapSpan (start len : ℕ) : PageAligned (mmapSpan start len) := by
  simp only [PageAligned, mmapSpan, alignDown, PAGE_SIZE]
  omega

/-- The code computes the length modulo `2 ^ 64`. -/
theorem mmapLen_eq (hstart : start < 2 ^ 64) (len : ℕ) :
    mmapLen start len = mmapSpan start len % 2 ^ 64 := by
  simp only [mmapLen, mmapSpan, alignUp, alignDown, wadd, wsub, PAGE_SIZE]
  omega

theorem mmapLen_eq_span (hstart : start < 2 ^ 64) (hlt : mmapSpan start len < 2 ^ 64) :
    mmapLen start len = mmapSpan start len :=
  (mmapLen_eq hstart len).trans (Nat.mod_eq_of_lt hlt)

omit [FrameAllocator σ] [FileStore F φ] in
/-- A fixed place is not below the limit of the range map. -/
theorem lowerLimit_le_of_not_anywhere (hany : mmapAnywhere start flags = false) :
    LOWER_LIMIT ≤ alignDown start := by
  have hne : alignDown start ≠ 0 := by
    intro hzero
    rw [mmapAnywhere, hzero] at hany
    exact absurd hany (by simp)
  simp only [alignDown, PAGE_SIZE, LOWER_LIMIT] at hne ⊢
  omega

/-- The file whose position is set. -/
def mmapFile (fds : ℕ → Option F) (start : ℕ) (flags : MMAPFlags) (fd : BitVec 32) : Option F :=
  if alignDown start = 0 ∧ flags.contains MMAPFlags.MAP_FIXED ∨
      flags.contains MMAPFlags.MAP_ANONYMOUS then
    none
  else
    fds (fd.signExtend 64).toNat

/-- The files after the position was set. -/
def mmapFiles (fds : ℕ → Option F) (start : ℕ) (flags : MMAPFlags) (fd : BitVec 32) (offset : ℕ)
    (files : φ) : φ :=
  match mmapFile fds start flags fd with
  | some file => (FileStore.seekFromStart file offset files).2
  | none => files

/-- The file behind the new pages. -/
def mmapBackend (fds : ℕ → Option F) (prot : MMAPPROT) (flags : MMAPFlags) (fd : BitVec 32)
    (offset : ℕ) : Option (BackEndFile F) :=
  if flags.contains MMAPFlags.MAP_ANONYMOUS then
    none
  else
    (fds (fd.signExtend 64).toNat).map fun file ↦ ⟨file, offset, prot.toSyncPolicy⟩

/-- What is answered with an error: a fixed place at zero, an anonymous mapping of a file, a file
that cannot be found or positioned, and a fixed place that ends above user addresses. -/
def MmapRefused (fds : ℕ → Option F) (start len : ℕ) (flags : MMAPFlags) (fd : BitVec 32)
    (offset : ℕ) (files : φ) : Prop :=
  alignDown start = 0 ∧ flags.contains MMAPFlags.MAP_FIXED = true ∨
    flags.contains MMAPFlags.MAP_ANONYMOUS = true ∧ ¬(fd = -1 ∧ offset = 0) ∨
    flags.contains MMAPFlags.MAP_ANONYMOUS = false ∧
      ((fds (fd.signExtend 64).toNat).bind fun file ↦
        (FileStore.seekFromStart file offset files).1) = none ∨
    mmapAnywhere start flags = false ∧
      USER_VIRT_ADDR_LIMIT ≤ wadd (alignDown start) (mmapLen start len)

/-! ## What a clean call does -/

/-- The pages from `s` on are those of one new area, without frames, in the part of the page table
that belongs to the user, and everything else is as before. -/
structure NewPages (ms : MemorySet F) (w : World σ φ) (s len : ℕ) (flags : PTEFlags)
    (backend : Option (BackEndFile F)) (ms' : MemorySet F) (w' : World σ φ) : Prop where
  limit : s + len ≤ 510 * 2 ^ 30
  area : ∀ x ∈ Set.Ico s (s + len), ms'.areaMap.find x = some (.bare s (s + len) flags backend)
  entry : ∀ x ∈ Set.Ico s (s + len), PageTable.lookup (ms'.pt, w') x = none
  area_kept : ∀ x ∉ Set.Ico s (s + len),
    (ms'.areaMap.find x).map VmArea.flags = (ms.areaMap.find x).map VmArea.flags
  frame_kept : ∀ x ∉ Set.Ico s (s + len), ms'.frameAt x = ms.frameAt x
  byte_kept : ∀ x ∉ Set.Ico s (s + len), ms'.byteAt w' x = ms.byteAt w x
  entry_kept : ∀ x ∉ Set.Ico s (s + len), x < 510 * 2 ^ 30 →
    PageTable.lookup (ms'.pt, w') x = PageTable.lookup (ms.pt, w) x

/-- The mapping is where it may be: at its place if that is fixed, and in a gap otherwise. -/
def MmapAt (ms : MemorySet F) (start len : ℕ) (flags : MMAPFlags) (s : ℕ) : Prop :=
  if mmapAnywhere start flags then
    Disjoint (Set.Ico s (s + mmapSpan start len)) ms.areaMap.covered
  else
    s = alignDown start

/-- `sys_mmap` maps the pages of the request and does nothing else, or it answers with an error and
does nothing at all. -/
def MmapClean (fds : ℕ → Option F) (ms : MemorySet F) (start len : ℕ) (prot : MMAPPROT)
    (flags : MMAPFlags) (fd : BitVec 32) (offset : ℕ) (w : World σ φ) : Prop :=
  wp (sysMmap fds ms start len prot flags fd offset) (fun r w' ↦ match r.1 with
    | .ok s => MmapAt ms start len flags s ∧ NewPages ms w s (mmapSpan start len) prot.toPTEFlags
        (mmapBackend fds prot flags fd offset) r.2 w'
    | .error _ => r.2 = ms ∧ w' = w) noPanic w

/-! ## What it takes -/

/-- Every page of the range that has a frame is entered in the page table. -/
def MemorySet.FramesEntered (ms : MemorySet F) (w : World σ φ) (start end_ : ℕ) : Prop :=
  ∀ x ∈ Set.Ico start end_, (ms.frameAt x).isSome → (PageTable.lookup (ms.pt, w) x).isSome

/-- There is a place for the pages: below the limit of user addresses if it is fixed, and otherwise
a gap behind the hint that the page table of the user covers. -/
def MmapPlace (ms : MemorySet F) (w : World σ φ) (start len : ℕ) (flags : MMAPFlags) : Prop :=
  if mmapAnywhere start flags then
    mmapSpan start len ≤ pageCount USER_VIRT_ADDR_LIMIT * PAGE_SIZE ∧
      ∃ t, ms.areaMap.Fits (alignDown start) (mmapSpan start len) t ∧
        t + mmapSpan start len ≤ 510 * 2 ^ 30
  else
    alignDown start + mmapSpan start len < USER_VIRT_ADDR_LIMIT ∧
      ms.FramesEntered w (alignDown start) (alignDown start + mmapSpan start len)

/-- The allocator has a frame for every table of the new pages. -/
def MmapTables (fds : ℕ → Option F) (ms : MemorySet F) (start len : ℕ) (prot : MMAPPROT)
    (flags : MMAPFlags) (fd : BitVec 32) (offset : ℕ) (w : World σ φ) : Prop :=
  wp (sysMmap fds ms start len prot flags fd offset) (fun _ _ ↦ True)
    (fun p _ ↦ p ≠ .unwrap .pushMapArea .pageTable_frameAllocFailed) w

/-- A request that is refused leaves the position of the file alone, and one that is not has pages,
a place for them, and the tables. -/
def MmapSafe (fds : ℕ → Option F) (ms : MemorySet F) (start len : ℕ) (prot : MMAPPROT)
    (flags : MMAPFlags) (fd : BitVec 32) (offset : ℕ) (w : World σ φ) : Prop :=
  (MmapRefused fds start len flags fd offset w.files →
      mmapFiles fds start flags fd offset w.files = w.files) ∧
    (¬MmapRefused fds start len flags fd offset w.files →
      0 < mmapSpan start len ∧ MmapPlace ms w start len flags ∧
        MmapTables fds ms start len prot flags fd offset w)

/-! ## The new pages -/

omit [FrameAllocator σ] [FileStore F φ] in
theorem mem_pagesOf_iff (hs : PageAligned start) (he : PageAligned end_) {x : ℕ} :
    x / PAGE_SIZE ∈ pagesOf start end_ ↔ x ∈ Set.Ico start end_ := by
  simp only [PageAligned, pagesOf, Set.mem_ofPred_eq, Set.mem_Ico, PAGE_SIZE] at hs he ⊢
  omega

namespace SpaceOk

/-- The flags of the area of an address are those of its cell. -/
theorem find_flags (h : SpaceOk e g ms w) (x : ℕ) :
    (ms.areaMap.find x).map VmArea.flags = (g (x / PAGE_SIZE)).map Cell.flags := by
  cases hg : g (x / PAGE_SIZE) with
  | none => rw [h.find_eq_none hg, Option.map_none, Option.map_none]
  | some c =>
    obtain ⟨a, L, -, hfind, hflags, -⟩ := h.exists_find hg
    rw [hfind, Option.map_some, Option.map_some, hflags]

/-- Cells without frames in place of others are new pages. -/
theorem newPages (h : SpaceOk e g ms w) (hlim : e.lim = 510) (hs : PageAligned s)
    (hlen : PageAligned len) (hle : s + len ≤ 510 * 2 ^ 30)
    (h' : SpaceOk e (PointMap.overwrite (pagesOf s (s + len)) (fun _ ↦ some ⟨fl, none⟩) g) ms' w')
    (hmem : .bare s (s + len) fl backend ∈ ms'.areaMap.iter) :
    NewPages ms w s len fl backend ms' w' := by
  have hend : PageAligned (s + len) := by
    simp only [PageAligned, PAGE_SIZE] at hs hlen ⊢
    omega
  have hout : ∀ x ∉ Set.Ico s (s + len),
      PointMap.overwrite (pagesOf s (s + len)) (fun _ ↦ some ⟨fl, none⟩) g (x / PAGE_SIZE)
        = g (x / PAGE_SIZE) := fun x hx ↦
    PointMap.overwrite_of_notMem fun hpage ↦ hx ((mem_pagesOf_iff hs hend).mp hpage)
  refine ⟨hle, fun x hx ↦ h'.find_eq_some_iff.mpr ⟨hmem, hx⟩, fun x hx ↦ ?_, fun x hx ↦ ?_,
    fun x hx ↦ ?_, fun x hx ↦ ?_, fun x hx hxlt ↦ ?_⟩
  · rw [h'.lookup_eq (by rw [hlim]; exact hx.2.trans_le hle), entries,
      PointMap.overwrite_of_mem ((mem_pagesOf_iff hs hend).mpr hx)]
    rfl
  · rw [h'.find_flags, h.find_flags, hout x hx]
  · rw [h'.frameAt_eq, h.frameAt_eq, hout x hx]
  · rw [h'.byteAt_eq, h.byteAt_eq, hout x hx]
  · rw [h'.lookup_eq (by rwa [hlim]), h.lookup_eq (by rwa [hlim]), entries, hout x hx, entries]

/-- The pages of a range are entered if their cells are free. -/
theorem framesEntered_iff (h : SpaceOk e g ms w) (hend : end_ ≤ e.lim * 2 ^ 30) :
    ms.FramesEntered w start end_ ↔ ∀ n ∈ touched start end_, ∀ c ∈ g n, c.Free := by
  constructor
  · rintro hall n ⟨x, hx, rfl⟩ c hc pg hpg
    have hframe : (ms.frameAt x).isSome := by
      rw [h.frameAt_eq, Option.mem_def.mp hc, Option.bind_some, Option.mem_def.mp hpg]
      rfl
    have hentry := hall x hx hframe
    rw [h.lookup_eq (hx.2.trans_le hend), entries, Option.mem_def.mp hc, Option.bind_some,
      Cell.entry, Option.mem_def.mp hpg, Option.bind_some] at hentry
    by_contra hmapped
    rw [if_neg hmapped] at hentry
    exact absurd hentry (by simp)
  · intro hall x hx hframe
    rw [h.frameAt_eq, Option.isSome_iff_exists] at hframe
    obtain ⟨y, hy⟩ := hframe
    obtain ⟨c, hc, hpage⟩ := Option.bind_eq_some_iff.mp hy
    obtain ⟨pg, hpg, -⟩ := Option.map_eq_some_iff.mp hpage
    rw [h.lookup_eq (hx.2.trans_le hend), entries, hc, Option.bind_some, Cell.entry, hpg,
      Option.bind_some, if_pos (hall _ ⟨x, hx, rfl⟩ c hc pg hpg)]
    rfl

/-- A place is taken, unless a table wants for a frame. -/
theorem wp_taskMmap_place (h : SpaceOk e g ms w) (hlim : e.lim = 510) (hstart : start < 2 ^ 64)
    (hpos : 0 < mmapSpan start len) (hplace : MmapPlace ms w start len flags) (fl : PTEFlags)
    (backend : Option (BackEndFile F)) :
    wp (taskMmap ms (alignDown start) (wadd (alignDown start) (mmapLen start len)) fl backend
      (mmapAnywhere start flags)) (fun r w' ↦ ∃ s, r.1 = .ok s ∧ MmapAt ms start len flags s ∧
        NewPages ms w s (mmapSpan start len) fl backend r.2 w') NoTableFrame w := by
  have hal : PageAligned (alignDown start) := pageAligned_alignDown start
  have hend := pageAligned_wadd hal (pageAligned_mmapLen start len)
  have hspan := pageAligned_mmapSpan start len
  rw [taskMmap, wp_bind]
  cases hany : mmapAnywhere start flags with
  | true =>
    rw [MmapPlace, if_pos hany] at hplace
    obtain ⟨hle, t, ht, htop⟩ := hplace
    have hlen : mmapLen start len = mmapSpan start len := mmapLen_eq_span hstart (by omega)
    have hwsub := wsub_wadd_mmapLen hstart len
    rw [hlen] at hwsub hend ⊢
    obtain ⟨p, hp⟩ : ∃ p, ms.areaMap.findFreeArea (alignDown start) (mmapSpan start len) = some p :=
      RangeActionMap.exists_findFreeLoop _ _
    -- the least gap is found
    have hleast := RangeActionMap.isLeast_of_findFreeArea h.keyed
      (fun a ha ↦ (h.coherent.layout.area a ha).lt) hpos ht hp
    have hple : p + mmapSpan start len ≤ 510 * 2 ^ 30 :=
      (Nat.add_le_add_right (hleast.2 ht) _).trans htop
    have hpush := h.wp_pushWithBackend_found hal hend (p := p) (by rw [hwsub]; exact hp)
      (by rw [hwsub, hlim]; exact hple) (by rw [hwsub]; exact hpos) fl backend
    rw [hwsub] at hpush
    refine wp_mono hpush (fun r w' hr ↦ ?_) fun q w' hq ↦ ?_
    · obtain ⟨res, ms'⟩ := r
      obtain ⟨-, rfl, -, hpal, hmem, hspace⟩ := hr
      refine ⟨p, rfl, ?_, h.newPages hlim hpal hspan hple hspace hmem⟩
      rw [MmapAt, if_pos hany]
      exact hleast.1.free
    · refine hq.resolve_left fun hbig ↦ ?_
      have hpages := hbig.1
      simp only [pageCount, alignUp, alignDown, wadd, PAGE_SIZE, PageAligned] at hpages hle hspan
      omega
  | false =>
    rw [MmapPlace, if_neg (by simp [hany])] at hplace
    obtain ⟨htop, hentered⟩ := hplace
    have hlow := lowerLimit_le_of_not_anywhere hany
    have hlen : mmapLen start len = mmapSpan start len :=
      mmapLen_eq_span hstart (by simp only [USER_VIRT_ADDR_LIMIT] at htop; omega)
    rw [hlen, wadd_of_lt (by simp only [USER_VIRT_ADDR_LIMIT] at htop; omega)] at hend ⊢
    have hle : alignDown start + mmapSpan start len ≤ 510 * 2 ^ 30 :=
      htop.le.trans (by norm_num)
    have hfree := (h.framesEntered_iff (by rwa [hlim])).mp hentered
    refine wp_imp (h.wp_pushWithBackend_fixed_of_lt hal hend (by rw [hlim]; norm_num) hlow
      (by omega) htop hfree fl backend) fun r w' hr ↦ ?_
    obtain ⟨res, ms'⟩ := r
    obtain ⟨rfl, hmem, hspace⟩ := hr
    refine ⟨_, rfl, ?_, h.newPages hlim hal hspan hle hspace hmem⟩
    rw [MmapAt, if_neg (by simp [hany])]

/-- What is not refused either panics or succeeds, and where all the pages were mapped there was a
place for them. -/
theorem wp_taskMmap_only (h : SpaceOk e g ms w) (hlim : e.lim = 510) (hstart : start < 2 ^ 64)
    (haccept : ¬(mmapAnywhere start flags = false ∧
      USER_VIRT_ADDR_LIMIT ≤ wadd (alignDown start) (mmapLen start len)))
    (fl : PTEFlags) (backend : Option (BackEndFile F)) :
    wp (taskMmap ms (alignDown start) (wadd (alignDown start) (mmapLen start len)) fl backend
      (mmapAnywhere start flags)) (fun r _ ↦ ∃ s, r.1 = .ok s ∧
        (s + mmapSpan start len ≤ 510 * 2 ^ 30 →
          0 < mmapSpan start len ∧ MmapPlace ms w start len flags)) anyPanic w := by
  have hal : PageAligned (alignDown start) := pageAligned_alignDown start
  have hend := pageAligned_wadd hal (pageAligned_mmapLen start len)
  have hspan := pageAligned_mmapSpan start len
  have hwsub := wsub_wadd_mmapLen hstart len
  -- what the call returns is what `push_with_backend` returns
  have hreturn : ∀ {b : Bool} {P : ℕ → Prop}, wp (ms.pushWithBackend (alignDown start)
      (wadd (alignDown start) (mmapLen start len)) fl backend b)
        (fun r _ ↦ ∃ s, r.1 = .ok s ∧ P s) anyPanic w →
      wp (taskMmap ms (alignDown start) (wadd (alignDown start) (mmapLen start len)) fl backend b)
        (fun r _ ↦ ∃ s, r.1 = .ok s ∧ P s) anyPanic w := by
    intro b P hpush
    rw [taskMmap, wp_bind]
    refine wp_imp hpush fun r w' hr ↦ ?_
    obtain ⟨res, ms'⟩ := r
    obtain ⟨s, rfl, hP⟩ := hr
    exact ⟨s, rfl, hP⟩
  cases hany : mmapAnywhere start flags with
  | true =>
    refine hreturn ?_
    obtain ⟨p, hp⟩ : ∃ p, ms.areaMap.findFreeArea (alignDown start) (mmapLen start len) = some p :=
      RangeActionMap.exists_findFreeLoop _ _
    by_cases hple : p + mmapSpan start len ≤ 510 * 2 ^ 30
    · have hlen : mmapLen start len = mmapSpan start len := mmapLen_eq_span hstart (by omega)
      rw [hlen] at hp hwsub hend ⊢
      by_cases hpos : 0 < mmapSpan start len
      · have hpush := h.wp_pushWithBackend_found hal hend (p := p) (by rw [hwsub]; exact hp)
          (by rw [hwsub, hlim]; exact hple) (by rw [hwsub]; exact hpos) fl backend
        rw [hwsub] at hpush
        refine wp_mono hpush (fun r w' hr ↦ ⟨p, hr.2.1, fun _ ↦ ⟨hpos, ?_⟩⟩) fun _ _ _ ↦ trivial
        have hpages := hr.1
        rw [MmapPlace, if_pos hany]
        refine ⟨?_, p, RangeActionMap.fits_of_findFreeArea h.keyed
          (fun a ha ↦ (h.coherent.layout.area a ha).lt) hpos hp ?_, hple⟩
        · simp only [pageCount, alignUp, alignDown, wadd, PAGE_SIZE, PageAligned] at hpages hspan ⊢
          omega
        · exact hple.trans (by norm_num)
      · refine wp_mono (h.wp_pushWithBackend_anywhere hal hend (fun q hq ↦ ?_) fl backend)
          (fun r w' hr ↦ ?_) fun _ _ _ ↦ trivial
        · rw [hwsub, hp, Option.some.injEq] at hq
          rw [hwsub, hlim, ← hq]
          exact hple
        · obtain ⟨_, -, -, -, hpos', -⟩ := hr
          rw [hwsub] at hpos'
          exact absurd hpos' hpos
    · refine wp_imp (wp_pushWithBackend_found_eq ms _ _ fl backend w) fun r w' hr ↦ ?_
      obtain ⟨q, hq, hok⟩ := hr
      rw [hwsub, hp, Option.some.injEq] at hq
      exact ⟨p, hq ▸ hok, fun hle ↦ absurd hle hple⟩
  | false =>
    refine hreturn ?_
    have htop : wadd (alignDown start) (mmapLen start len) < USER_VIRT_ADDR_LIMIT :=
      not_le.mp fun hle ↦ haccept ⟨hany, hle⟩
    have hlow := lowerLimit_le_of_not_anywhere hany
    by_cases hlt : alignDown start < wadd (alignDown start) (mmapLen start len)
    · by_cases hfree : ∀ n ∈ touched (alignDown start) (wadd (alignDown start) (mmapLen start len)),
        ∀ c ∈ g n, c.Free
      · refine wp_mono (h.wp_pushWithBackend_fixed_of_lt hal hend (by rw [hlim]; norm_num) hlow hlt
          htop hfree fl backend) (fun r w' hr ↦ ⟨_, hr.1, fun hle ↦ ?_⟩) fun _ _ _ ↦ trivial
        have hlen : mmapLen start len = mmapSpan start len := mmapLen_eq_span hstart (by omega)
        rw [hlen, wadd_of_lt (by omega)] at htop hfree hlt
        rw [MmapPlace, if_neg (by simp [hany])]
        exact ⟨by omega, htop, (h.framesEntered_iff (by rwa [hlim])).mpr hfree⟩
      · exact wp_imp (h.wp_pushWithBackend_of_not_free hal hend hlow hlt htop hfree fl backend)
          fun _ _ h ↦ h.elim
    · exact wp_mono (h.wp_pushWithBackend_fixed_of_le hend (not_lt.mp hlt) htop fl backend)
        (fun _ _ h ↦ h.elim) fun _ _ _ ↦ trivial

end SpaceOk

/-! ## The system call -/

theorem wp_taskMmap_rejected {Q : Except ErrorNo ℕ × MemorySet F → World σ φ → Prop}
    {E : Panic → World σ φ → Prop} (hend : USER_VIRT_ADDR_LIMIT ≤ end_)
    (hQ : Q (.error .EINVAL, ms) w) : wp (taskMmap ms start end_ fl backend false) Q E w := by
  rw [taskMmap, MemorySet.pushWithBackend, if_pos ⟨rfl, hend⟩]
  exact hQ

/-- A refused request changes at most the position of a file. -/
theorem wp_sysMmap_refused (h : MmapRefused fds start len flags fd offset w.files) :
    wp (sysMmap fds ms start len prot flags fd offset) (fun r w' ↦
      (∃ err, r.1 = .error err) ∧ r.2 = ms ∧
        w' = { w with files := mmapFiles fds start flags fd offset w.files }) noPanic w := by
  rw [sysMmap]
  dsimp only
  split_ifs with hzero hanon hfd
  · rw [mmapFiles, mmapFile, if_pos (Or.inl hzero)]
    exact ⟨⟨_, rfl⟩, rfl, rfl⟩
  · -- what is left of the reasons is a place that is too high
    obtain ⟨hany, hend⟩ : mmapAnywhere start flags = false ∧
        USER_VIRT_ADDR_LIMIT ≤ wadd (alignDown start) (mmapLen start len) := by
      rcases h with h | h | h | h
      · exact absurd h hzero
      · exact absurd hfd h.2
      · exact absurd (hanon.symm.trans h.1) (by decide)
      · exact h
    rw [hany, mmapFiles, mmapFile, if_pos (Or.inr hanon)]
    exact wp_taskMmap_rejected hend ⟨⟨_, rfl⟩, rfl, rfl⟩
  · rw [mmapFiles, mmapFile, if_pos (Or.inr hanon)]
    exact ⟨⟨_, rfl⟩, rfl, rfl⟩
  · rw [mmapFiles, mmapFile, if_neg (not_or_intro hzero hanon)]
    cases hfile : fds (fd.signExtend 64).toNat with
    | none => exact ⟨⟨_, rfl⟩, rfl, rfl⟩
    | some file =>
      dsimp only
      rw [wp_bind, Exec.wp_modifyGet]
      cases hoff : (FileStore.seekFromStart file offset w.files).1 with
      | none => exact ⟨⟨_, rfl⟩, rfl, rfl⟩
      | some off =>
        -- the file was found, and its position was set
        obtain ⟨hany, hend⟩ : mmapAnywhere start flags = false ∧
            USER_VIRT_ADDR_LIMIT ≤ wadd (alignDown start) (mmapLen start len) := by
          rcases h with h | h | h | h
          · exact absurd h hzero
          · exact absurd h.1 hanon
          · rw [hfile, Option.bind_some, hoff] at h
            exact absurd h.2 (by simp)
          · exact h
        rw [hany]
        exact wp_taskMmap_rejected hend ⟨⟨_, rfl⟩, rfl, rfl⟩

/-- Any other request goes to `push_with_backend`. -/
theorem wp_sysMmap_of_not_refused (h : ¬MmapRefused fds start len flags fd offset w.files)
    {Q : Except ErrorNo ℕ × MemorySet F → World σ φ → Prop} {E : Panic → World σ φ → Prop} :
    wp (sysMmap fds ms start len prot flags fd offset) Q E w ↔
      wp (taskMmap ms (alignDown start) (wadd (alignDown start) (mmapLen start len))
        prot.toPTEFlags (mmapBackend fds prot flags fd offset) (mmapAnywhere start flags)) Q E
        { w with files := mmapFiles fds start flags fd offset w.files } := by
  rw [MmapRefused, not_or, not_or, not_or] at h
  obtain ⟨hzero, hfd, hoff, -⟩ := h
  rw [sysMmap]
  dsimp only
  rw [if_neg hzero]
  by_cases hanon : flags.contains MMAPFlags.MAP_ANONYMOUS = true
  · rw [if_pos hanon, if_pos (not_not.mp fun hnot ↦ hfd ⟨hanon, hnot⟩), mmapFiles, mmapFile,
      if_pos (Or.inr hanon), mmapBackend, if_pos hanon]
  · rw [if_neg hanon, mmapFiles, mmapFile, if_neg (not_or_intro hzero hanon), mmapBackend,
      if_neg hanon]
    rw [Bool.not_eq_true] at hanon
    cases hfile : fds (fd.signExtend 64).toNat with
    | none => exact absurd ⟨hanon, by rw [hfile]; rfl⟩ hoff
    | some file =>
      dsimp only
      rw [wp_bind, Exec.wp_modifyGet]
      cases hseek : (FileStore.seekFromStart file offset w.files).1 with
      | none => exact absurd ⟨hanon, by rw [hfile, Option.bind_some, hseek]⟩ hoff
      | some off => rfl

omit [FrameAllocator σ] [FileStore F φ] in
/-- The page table is in memory, not in files. -/
theorem lookup_files {pt : PageTable} {files : φ} {x : ℕ} :
    PageTable.lookup (pt, { w with files }) x = PageTable.lookup (pt, w) x := by
  rw [lookup_eq_translate, lookup_eq_translate]

omit [FrameAllocator σ] [FileStore F φ] in
theorem mmapPlace_files {files : φ} :
    MmapPlace ms { w with files } start len flags ↔ MmapPlace ms w start len flags := by
  rw [MmapPlace, MmapPlace, MemorySet.FramesEntered, MemorySet.FramesEntered]
  simp only [lookup_files]

omit [FrameAllocator σ] [FileStore F φ] in
theorem NewPages.of_files {files : φ} (h : NewPages ms { w with files } s len fl backend ms' w') :
    NewPages ms w s len fl backend ms' w' :=
  ⟨h.limit, h.area, h.entry, h.area_kept, h.frame_kept, h.byte_kept,
    fun x hx hlt ↦ (h.entry_kept x hx hlt).trans lookup_files⟩

variable {kernelRoot : ℕ} {D : Set ℕ}

/-- A machine on which a file of three bytes is open. -/
def World.withFatFile : World Bitmap FsFile where
  alloc := ⟨[0]⟩
  mem := fun _ ↦ 0
  files := ⟨512, [97, 98, 99], 0, FsFile.cluster_pos, FsFile.abc_size_le, FsFile.abc_offset_le⟩
  oom := false

end Maturin
