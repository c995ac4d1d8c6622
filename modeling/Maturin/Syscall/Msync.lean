import Maturin.File.FatFile
import Maturin.Memory.Image
import Maturin.Syscall.Flags

/-!
# Writing mapped files back

`sys_msync` walks over the areas that a range meets, and over the pages of the range in each of
them; a page of an area with a file behind it is written to its part of the file. The walk takes for
granted that such a page has a frame, but a page gets its frame only when it is touched.

`syncOps ms w n` is what has to be written for page `n`. To see what was written, the files are
watched: `Logged` keeps a record of the operations.
-/

open Exec

namespace Maturin

variable {σ φ F : Type}

/-- Is a range written back, or nothing done? -/
def USE_MSYNC : Bool := true

def MSyncFlags.INVALIDATE : BitVec 32 := 1#32 <<< 1

section code

variable [FileStore F φ]

/-- Write a page back to the file behind the area; a failure is ignored. -/
def PmAreaLazy.syncFrameWithFile (self : PmAreaLazy F) (idx : ℕ) :
    EStateM Panic (World σ φ) Unit :=
  match self.backend with
  | some backend =>
    match self.frames[idx]? with
    | none => throw .indexOutOfBounds
    | some none => throw (.unwrapNone .syncFrame)
    | some (some frame) => do
      let w ← get
      let _ ← backend.writeToOffset (idx * PAGE_SIZE) (w.mem.readBytes frame PAGE_SIZE)
  | none => pure ()

/-- Does the area meet the range? -/
def VmArea.isOverlapWith (self : VmArea F) (start end_ : ℕ) : Bool :=
  !(self.end_ ≤ alignDown start || self.start ≥ alignUp end_)

/-- Write the pages of the range back. -/
def VmArea.msync (self : VmArea F) (start end_ : ℕ) : EStateM Panic (World σ φ) Unit :=
  (pagesIn (max start self.start) (min end_ self.end_)).forM fun vaddr ↦
    self.pma.syncFrameWithFile ((vaddr - self.start) / PAGE_SIZE)

/-- Write the pages of the range back, area by area. It is an error if there is no area. -/
def MemorySet.msyncAreas (self : MemorySet F) (start end_ : ℕ) :
    EStateM Panic (World σ φ) (Except OSError Unit) := do
  let areas := self.areaMap.iter.filter (·.isOverlapWith start end_)
  areas.forM fun seg ↦ seg.msync start end_
  if areas.length > 0 then pure (.ok ()) else pure (.error .memorySet_areaNotMapped)

/-- Write mapped memory back. -/
def sysMsync (self : MemorySet F) (start len : ℕ) (flags : MSyncFlags) :
    EStateM Panic (World σ φ) (Except ErrorNo ℕ) :=
  if !USE_MSYNC then pure (.ok 0)
  else if pageOffset start ≠ 0 ∨ pageOffset (wadd start len) ≠ 0 then pure (.error .EINVAL)
  else if flags.contains MSyncFlags.INVALIDATE then pure (.ok 0)
  else do
    match ← self.msyncAreas start (wadd start len) with
    | .ok () => pure (.ok 0)
    | .error _ => pure (.error .ENOMEM)

end code

/-! ## Watching the files -/

/-- The state of files, and the operations on them so far. -/
structure Logged (F φ : Type) where
  state : φ
  log : List (FileOp F)

instance [FileStore F φ] : FileStore F (Logged F φ) where
  readFromOffset file pos buf s :=
    let r := FileStore.readFromOffset file pos buf s.state
    (r.1, ⟨r.2, s.log ++ [.read file pos]⟩)
  writeToOffset file pos buf s :=
    let r := FileStore.writeToOffset file pos buf s.state
    (r.1, ⟨r.2, s.log ++ [.write file pos buf]⟩)
  seekFromStart file pos s :=
    let r := FileStore.seekFromStart file pos s.state
    (r.1, ⟨r.2, s.log⟩)
  length_read file pos buf s := FileStore.length_read file pos buf s.state

/-- A run adds its operations to the record. -/
theorem FileRun.log_eq [FileStore F φ] {l : List (FileOp F)} {s t : Logged F φ}
    (h : FileRun l s t) : t.log = s.log ++ l := by
  induction h with
  | nil s => rw [List.append_nil]
  | read hlen _ ih =>
    rw [ih, List.append_cons]
    rfl
  | write _ ih =>
    rw [ih, List.append_cons]
    rfl

/-- Files that are the same as before were not touched. -/
theorem FileRun.eq_nil [FileStore F φ] {l : List (FileOp F)} {s : Logged F φ}
    (h : FileRun l s s) : l = [] :=
  List.append_cancel_left (h.log_eq.symm.trans (List.append_nil _).symm)

/-! ## What has to be written -/

/-- The operation that writes the page at an address back, if it has a frame and a file behind. -/
def syncOps (ms : MemorySet F) (w : World σ φ) (vaddr : ℕ) : List (FileOp F) :=
  match ms.frameAt vaddr with
  | some (paddr, _) => writeOps (w.mem.readBytes paddr PAGE_SIZE) (ms.backingAt vaddr)
  | none => []

/-- **Each page of the range that holds a frame was written to its place in the file**, and nothing
else happened: not to the files, not to the memory with the page tables in it. -/
def Synced [FileStore F φ] (ms : MemorySet F) (start end_ : ℕ) (w w' : World σ φ) : Prop :=
  ∃ files, w' = { w with files } ∧
    FileRun ((pagesIn start end_).flatMap (syncOps ms w)) w.files files

/-! ## Writing pages back -/

section pages

variable [FileStore F φ] {w : World σ φ}

/-- Rounds that each run their operations on the files run all of them. -/
theorem wp_forM_fileRun {β : Type} {l : List β} {f : β → EStateM Panic (World σ φ) PUnit}
    (ops : β → List (FileOp F))
    (h : ∀ b ∈ l, ∀ s, wp (f b) (fun _ w' ↦ ∃ t, w' = { w with files := t } ∧ FileRun (ops b) s t)
      noPanic { w with files := s }) (s : φ) :
    wp (l.forM f) (fun _ w' ↦ ∃ t, w' = { w with files := t } ∧ FileRun (l.flatMap ops) s t)
      noPanic { w with files := s } := by
  induction l generalizing s with
  | nil => exact ⟨s, rfl, .nil s⟩
  | cons b l ih =>
    change wp (f b >>= fun _ ↦ l.forM f) _ _ _
    rw [wp_bind]
    refine wp_imp (h b List.mem_cons_self s) fun _ w₁ hw₁ ↦ ?_
    obtain ⟨t, rfl, hrun⟩ := hw₁
    refine wp_imp (ih (fun b hb ↦ h b (List.mem_cons_of_mem _ hb)) t) fun _ w₂ hw₂ ↦ ?_
    obtain ⟨u, rfl, hrest⟩ := hw₂
    exact ⟨u, rfl, hrun.append hrest⟩

/-- Whatever page is written back, nothing but the files changes. -/
theorem wp_syncFrameWithFile_files (pma : PmAreaLazy F) (i : ℕ) (s : φ) :
    wp (pma.syncFrameWithFile i) (fun _ w' ↦ ∃ t, w' = { w with files := t }) anyPanic
      { w with files := s } := by
  rw [PmAreaLazy.syncFrameWithFile]
  cases pma.backend with
  | none => exact ⟨s, rfl⟩
  | some backend =>
    dsimp only
    split
    · trivial
    · trivial
    · rw [wp_bind, wp_get, wp_bind]
      refine wp_mono (wp_writeToOffset_run backend _ _) (fun _ w' hw ↦ ?_) fun _ _ _ ↦ trivial
      obtain ⟨t, rfl, -⟩ := hw
      exact ⟨t, rfl⟩

theorem wp_msync_files (area : VmArea F) (start end_ : ℕ) (s : φ) :
    wp (area.msync start end_) (fun _ w' ↦ ∃ t, w' = { w with files := t }) anyPanic
      { w with files := s } := by
  refine wp_forM (fun w' ↦ ∃ t, w' = { w with files := t }) (fun vaddr w' hw ↦ ?_) ⟨s, rfl⟩
  obtain ⟨t, rfl⟩ := hw
  exact wp_syncFrameWithFile_files area.pma _ t

end pages

section space

variable [FrameAllocator σ] [FileStore F φ] {e : PtEnv} {g : ℕ → Option Cell} {ms : MemorySet F}
variable {w : World σ φ} {start end_ x : ℕ} {area : VmArea F}

/-- What an address space has behind a page, in terms of the area that contains it. -/
structure PageIn (ms : MemorySet F) (area : VmArea F) (x : ℕ) : Prop where
  mem : area ∈ ms.areaMap.iter
  ge : area.start ≤ x
  lt : x < area.end_
  index_lt : (x - area.start) / PAGE_SIZE < area.pma.frames.length
  index_mul : (x - area.start) / PAGE_SIZE * PAGE_SIZE = x - area.start
  frameAt_eq : ms.frameAt x = (area.pma.frames[(x - area.start) / PAGE_SIZE]?).join.map
    fun paddr ↦ (paddr, area.flags)
  backingAt_eq : ms.backingAt x = area.pma.backend.map (·.split (x - area.start))

theorem SpaceOk.pageIn (h : SpaceOk e g ms w) (harea : area ∈ ms.areaMap.iter) (hx : PageAligned x)
    (hl : area.start ≤ x) (hr : x < area.end_) : PageIn ms area x := by
  obtain ⟨a, ha, rfl⟩ := List.mem_map.mp harea
  have hat := h.coherent.layout.area a ha
  obtain ⟨p, hp, -⟩ := hat.ok
  have hfind : ms.areaMap.find x = some a.segment :=
    ((areaLaws e 0).find_eq_some_iff h.represents).mpr
      ⟨a, ha, ⟨hat.start_eq ▸ hl, hat.end_eq ▸ hr⟩, rfl⟩
  have hstart := hp.start_eq
  have hend := hp.end_eq
  refine ⟨harea, hl, hr, ?_, ?_, ?_, ?_⟩
  · simp only [PAGE_SIZE] at hstart hend ⊢
    omega
  · simp only [PageAligned, PAGE_SIZE] at hx hstart ⊢
    omega
  · rw [MemorySet.frameAt, hfind, Option.bind_some]
  · rw [MemorySet.backingAt, hfind, Option.bind_some, alignDown_of_pageAligned hx]

omit [FrameAllocator σ] in
/-- A page that has a frame, or no file behind it, is written back. -/
theorem PageIn.wp_syncFrameWithFile (h : PageIn ms area x)
    (hok : (ms.backingAt x).isSome → (ms.frameAt x).isSome) (s : φ) :
    wp (area.pma.syncFrameWithFile ((x - area.start) / PAGE_SIZE)) (fun _ w' ↦
      ∃ t, w' = { w with files := t } ∧ FileRun (syncOps ms w x) s t) noPanic
      { w with files := s } := by
  rw [h.backingAt_eq, h.frameAt_eq] at hok
  rw [PmAreaLazy.syncFrameWithFile, syncOps, h.backingAt_eq, h.frameAt_eq]
  cases hb : area.pma.backend with
  | none =>
    refine ⟨s, rfl, ?_⟩
    cases (area.pma.frames[(x - area.start) / PAGE_SIZE]?).join with
    | none => exact .nil s
    | some p => exact .nil s
  | some backend =>
    rw [hb, Option.map_some, Option.isSome_map] at hok
    obtain ⟨p, hp⟩ := Option.isSome_iff_exists.mp (hok rfl)
    have hrun := wp_writeToOffset_run (w := { w with files := s }) backend (x - area.start)
      (w.mem.readBytes p PAGE_SIZE)
    rw [Option.join_eq_some_iff.mp hp, Option.map_some, h.index_mul]
    dsimp only
    rw [wp_bind, wp_get, wp_bind]
    exact hrun

omit [FrameAllocator σ] in
/-- A page without a frame cannot be written back. -/
theorem PageIn.not_wp_syncFrameWithFile (h : PageIn ms area x) (hb : (ms.backingAt x).isSome)
    (hframe : ms.frameAt x = none) {Q : PUnit → World σ φ → Prop} (w : World σ φ) :
    ¬wp (area.pma.syncFrameWithFile ((x - area.start) / PAGE_SIZE)) Q noPanic w := by
  rw [h.backingAt_eq, Option.isSome_map] at hb
  obtain ⟨backend, hb⟩ := Option.isSome_iff_exists.mp hb
  rw [h.frameAt_eq, Option.map_eq_none_iff] at hframe
  have hnone : area.pma.frames[(x - area.start) / PAGE_SIZE]? = some none := by
    rw [List.getElem?_eq_getElem h.index_lt] at hframe ⊢
    rw [Option.join_some] at hframe
    rw [hframe]
  rw [PmAreaLazy.syncFrameWithFile, hb, hnone]
  exact id

/-! ## The pages of a range -/

theorem mem_pagesIn (hs : PageAligned start) (he : PageAligned end_) :
    x ∈ pagesIn start end_ ↔ PageAligned x ∧ start ≤ x ∧ x < end_ := by
  simp only [PageAligned, PAGE_SIZE] at hs he ⊢
  rw [pagesIn, List.mem_map]
  constructor
  · rintro ⟨i, hi, rfl⟩
    rw [List.mem_range] at hi
    simp only [PAGE_SIZE] at hi ⊢
    omega
  · rintro ⟨hx, hl, hr⟩
    refine ⟨(x - start) / PAGE_SIZE, List.mem_range.mpr ?_, ?_⟩
    · simp only [PAGE_SIZE]
      omega
    · simp only [PAGE_SIZE]
      omega

theorem pagesIn_pairwise (start end_ : ℕ) : (pagesIn start end_).Pairwise (· < ·) := by
  rw [pagesIn, List.pairwise_map]
  refine List.pairwise_lt_range.imp fun hab ↦ ?_
  simp only [PAGE_SIZE]
  omega

namespace SpaceOk

omit [FileStore F φ] in
/-- The bounds of an area are at page boundaries. -/
theorem aligned_of_mem (h : SpaceOk e g ms w) (harea : area ∈ ms.areaMap.iter) :
    PageAligned area.start ∧ PageAligned area.end_ := by
  obtain ⟨a, ha, rfl⟩ := List.mem_map.mp harea
  obtain ⟨p, hp, -⟩ := (h.coherent.layout.area a ha).ok
  rw [hp.start_eq, hp.end_eq]
  exact ⟨Nat.mul_mod_left _ _, Nat.mul_mod_left _ _⟩

omit [FileStore F φ] in
theorem mem_pagesIn_area (h : SpaceOk e g ms w) (harea : area ∈ ms.areaMap.iter)
    (hs : PageAligned start) (he : PageAligned end_) :
    x ∈ pagesIn (max start area.start) (min end_ area.end_) ↔
      x ∈ pagesIn start end_ ∧ area.start ≤ x ∧ x < area.end_ := by
  obtain ⟨has, hae⟩ := h.aligned_of_mem harea
  rw [mem_pagesIn hs he, mem_pagesIn]
  · rw [max_le_iff, lt_min_iff]
    tauto
  · rcases max_choice start area.start with hmax | hmax <;> rwa [hmax]
  · rcases min_choice end_ area.end_ with hmin | hmin <;> rwa [hmin]

/-- The pages of the areas that a range meets are those of the range, as far as they have frames. -/
theorem flatMap_areas (h : SpaceOk e g ms w) (hs : PageAligned start) (he : PageAligned end_)
    (hlt : end_ < 2 ^ 64) :
    ((ms.areaMap.iter.filter (·.isOverlapWith start end_)).flatMap fun area ↦
        (pagesIn (max start area.start) (min end_ area.end_)).flatMap (syncOps ms w))
      = (pagesIn start end_).flatMap (syncOps ms w) := by
  have hnone : ∀ vaddr, (ms.frameAt vaddr).isSome = false → syncOps ms w vaddr = [] := by
    intro vaddr hframe
    have hframe : ms.frameAt vaddr = none := by
      rwa [← Option.isNone_iff_eq_none, ← Option.not_isSome, Bool.not_eq_true']
    rw [syncOps, hframe]
  rw [← List.flatMap_assoc]
  refine (flatMap_filter fun x _ ↦ hnone x).symm.trans
    (Eq.trans ?_ (flatMap_filter (l := pagesIn start end_) fun x _ ↦ hnone x))
  -- both lists are sorted, and have the pages with a frame
  congr 1
  refine List.Pairwise.eq_of_mem_iff (r := (· < ·)) (List.Pairwise.filter _ ?_)
    ((pagesIn_pairwise start end_).filter _) fun x ↦ ?_
  · rw [List.pairwise_flatMap]
    refine ⟨fun area _ ↦ pagesIn_pairwise _ _, (h.pairwise_iter.filter _).imp_of_mem ?_⟩
    intro area area' harea harea' hle x hx y hy
    have hx := ((h.mem_pagesIn_area (List.mem_of_mem_filter harea) hs he).mp hx).2
    have hy := ((h.mem_pagesIn_area (List.mem_of_mem_filter harea') hs he).mp hy).2
    omega
  · rw [List.mem_filter, List.mem_filter, List.mem_flatMap]
    refine and_congr_left fun hframe ↦ ⟨?_, fun hx ↦ ?_⟩
    · rintro ⟨area, harea, hx⟩
      exact ((h.mem_pagesIn_area (List.mem_of_mem_filter harea) hs he).mp hx).1
    · obtain ⟨⟨p, flags⟩, hp⟩ := Option.isSome_iff_exists.mp hframe
      obtain ⟨area, harea, hl, hr, -⟩ := h.frameAt_eq_some_iff.mp hp
      refine ⟨area, List.mem_filter.mpr ⟨harea, ?_⟩,
        (h.mem_pagesIn_area harea hs he).mpr ⟨hx, hl, hr⟩⟩
      have hx := (mem_pagesIn hs he).mp hx
      rw [VmArea.isOverlapWith, alignDown_of_pageAligned hs, alignUp_of_pageAligned he hlt]
      simp only [ge_iff_le, Bool.not_or, Bool.and_eq_true, Bool.not_eq_true',
        decide_eq_false_iff_not]
      omega

/-- A page with a file behind it is in an area. -/
theorem exists_pageIn (h : SpaceOk e g ms w) (hx : PageAligned x) (hb : (ms.backingAt x).isSome) :
    ∃ area, PageIn ms area x := by
  rw [MemorySet.backingAt] at hb
  cases hfind : ms.areaMap.find x with
  | none =>
    rw [hfind] at hb
    exact absurd hb (by simp)
  | some area =>
    obtain ⟨a, ha, hmem, rfl⟩ := ((areaLaws e 0).find_eq_some_iff h.represents).mp hfind
    have hat := h.coherent.layout.area a ha
    exact ⟨a.segment, h.pageIn (List.mem_map.mpr ⟨a, ha, rfl⟩) hx (hat.start_eq ▸ hmem.1)
      (hat.end_eq ▸ hmem.2)⟩

/-- The pages of a range are written back if each of them has a frame, or no file behind it. -/
theorem wp_msyncAreas (h : SpaceOk e g ms w) (hs : PageAligned start) (he : PageAligned end_)
    (hlt : end_ < 2 ^ 64)
    (hok : ∀ x ∈ pagesIn start end_, (ms.backingAt x).isSome → (ms.frameAt x).isSome) :
    wp (ms.msyncAreas start end_) (fun _ w' ↦ Synced ms start end_ w w') noPanic w := by
  rw [MemorySet.msyncAreas, wp_bind]
  refine wp_imp (wp_forM_fileRun (w := w)
    (fun area ↦ (pagesIn (max start area.start) (min end_ area.end_)).flatMap (syncOps ms w))
    (fun area harea s ↦ ?_) w.files) fun _ w' hw ↦ ?_
  · have harea := List.mem_of_mem_filter harea
    refine wp_forM_fileRun _ (fun x hx s ↦ ?_) s
    have hx := (h.mem_pagesIn_area harea hs he).mp hx
    exact (h.pageIn harea ((mem_pagesIn hs he).mp hx.1).1 hx.2.1
      hx.2.2).wp_syncFrameWithFile (hok x hx.1) s
  · obtain ⟨t, rfl, hrun⟩ := hw
    rw [h.flatMap_areas hs he hlt] at hrun
    split_ifs <;> exact ⟨t, rfl, hrun⟩

/-- A page of the range that has a file behind it but no frame is not survived. -/
theorem not_wp_msyncAreas (h : SpaceOk e g ms w) (hs : PageAligned start) (he : PageAligned end_)
    (hlt : end_ < 2 ^ 64) (hx : x ∈ pagesIn start end_) (hb : (ms.backingAt x).isSome)
    (hframe : ms.frameAt x = none) {Q : Except OSError Unit → World σ φ → Prop} :
    ¬wp (ms.msyncAreas start end_) Q noPanic w := by
  intro hwp
  obtain ⟨hal, hl, hr⟩ := (mem_pagesIn hs he).mp hx
  obtain ⟨area, hin⟩ := h.exists_pageIn hal hb
  have hover : area.isOverlapWith start end_ = true := by
    have := hin.ge
    have := hin.lt
    rw [VmArea.isOverlapWith, alignDown_of_pageAligned hs, alignUp_of_pageAligned he hlt]
    simp only [ge_iff_le, Bool.not_or, Bool.and_eq_true, Bool.not_eq_true', decide_eq_false_iff_not]
    omega
  rw [MemorySet.msyncAreas, wp_bind] at hwp
  -- the loops come to the page, unless they stop before
  obtain ⟨w₁, -, hmsync⟩ := exists_of_wp_forM (fun w' ↦ ∃ t, w' = { w with files := t })
    (fun area w' hw ↦ by
      obtain ⟨t, rfl⟩ := hw
      exact wp_msync_files area start end_ t) ⟨w.files, rfl⟩ hwp area
    (List.mem_filter.mpr ⟨hin.mem, hover⟩)
  rw [VmArea.msync] at hmsync
  obtain ⟨w₂, -, hsync⟩ := exists_of_wp_forM (fun _ ↦ True)
    (fun _ _ _ ↦ wp_mono (wp_true _) (fun _ _ _ ↦ trivial) fun _ _ _ ↦ trivial) trivial hmsync x
    ((h.mem_pagesIn_area hin.mem hs he).mpr ⟨hx, hin.ge, hin.lt⟩)
  exact hin.not_wp_syncFrameWithFile hb hframe w₂ hsync

end SpaceOk

omit [FrameAllocator σ] [FileStore F φ] in
theorem syncOps_eq_nil_iff : syncOps ms w x = [] ↔
    ((ms.frameAt x).isSome → ∀ b ∈ ms.backingAt x, b.policy.writes = false) := by
  rw [syncOps]
  cases ms.frameAt x with
  | none => simp
  | some r =>
    cases hb : ms.backingAt x with
    | none => simp [writeOps]
    | some b => cases hw : b.policy.writes <;> simp [writeOps, hw]

end space

/-! ## When a range is written back -/

/-- Can a range be written back? With `INVALIDATE`, or if the range goes past the last address, the
call does nothing, and there must be nothing to write. Otherwise every page of the range with a file
behind it must have a frame. -/
def Syncable (ms : MemorySet F) (flags : MSyncFlags) (start len : ℕ) : Prop :=
  if flags.contains MSyncFlags.INVALIDATE = true ∨ 2 ^ 64 ≤ start + len then
    ∀ x ∈ pagesIn start (start + len), (ms.frameAt x).isSome →
      ∀ b ∈ ms.backingAt x, b.policy.writes = false
  else ∀ x ∈ pagesIn start (start + len), (ms.backingAt x).isSome → (ms.frameAt x).isSome

section iff

variable [FrameAllocator σ] [FileStore F φ] {e : PtEnv} {g : ℕ → Option Cell} {ms : MemorySet F}
variable {start len : ℕ}

omit [FrameAllocator σ] in
/-- A call that does nothing has written everything if there was nothing to write. -/
theorem synced_self_iff {w : World σ (Logged F φ)} : Synced ms start (start + len) w w ↔
    ∀ x ∈ pagesIn start (start + len), (ms.frameAt x).isSome →
      ∀ b ∈ ms.backingAt x, b.policy.writes = false := by
  simp only [← syncOps_eq_nil_iff (w := w), ← List.flatMap_eq_nil_iff]
  constructor
  · rintro ⟨files, heq, hrun⟩
    obtain rfl : files = w.files := (congrArg World.files heq).symm
    exact hrun.eq_nil
  · intro hnil
    refine ⟨w.files, rfl, ?_⟩
    rw [hnil]
    exact .nil _

/-- **`msync` is safe and complete if and only if the range can be written back.** -/
theorem SpaceOk.msync_iff {w : World σ (Logged F φ)} (h : SpaceOk e g ms w)
    (hs : PageAligned start) (hl : PageAligned len) (hstart : start < 2 ^ 64) (hlen : len < 2 ^ 64)
    (flags : MSyncFlags) :
    wp (sysMsync ms start len flags) (fun _ w' ↦ Synced ms start (start + len) w w') noPanic w ↔
      Syncable ms flags start len := by
  have hend : PageAligned (wadd start len) := by
    simp only [PageAligned, PAGE_SIZE] at hs hl
    simp only [PageAligned, wadd, PAGE_SIZE]
    omega
  have hlt : wadd start len < 2 ^ 64 := wadd_lt start len
  have hoff : ¬(pageOffset start ≠ 0 ∨ pageOffset (wadd start len) ≠ 0) :=
    not_or.mpr ⟨not_not.mpr hs, not_not.mpr hend⟩
  rw [sysMsync, if_neg (by decide), if_neg hoff, Syncable]
  cases hinv : flags.contains MSyncFlags.INVALIDATE with
  | true =>
    rw [if_pos rfl, if_pos (Or.inl rfl)]
    exact synced_self_iff
  | false =>
    rw [if_neg Bool.false_ne_true, wp_bind]
    have hret : ∀ {Q : World σ (Logged F φ) → Prop} (w' : World σ (Logged F φ)) (r), Q w' →
        wp (match (motive := Except OSError Unit → EStateM Panic _ (Except ErrorNo ℕ)) r with
          | .ok () => pure (.ok 0)
          | .error _ => pure (.error .ENOMEM)) (fun _ w' ↦ Q w') noPanic w' := by
      intro Q w' r hQ
      cases r <;> exact hQ
    by_cases hover : 2 ^ 64 ≤ start + len
    · -- the end of the range comes before its start
      have hle : wadd start len ≤ start := by
        rw [wadd]
        omega
      have hnil : pagesIn start (wadd start len) = [] :=
        List.eq_nil_iff_forall_not_mem.mpr fun x hx ↦ by
          have := (mem_pagesIn hs hend).mp hx
          omega
      have hsame := h.wp_msyncAreas hs hend hlt (by
        rw [hnil]
        exact fun x hx ↦ absurd hx List.not_mem_nil)
      have hdone : ∀ w', Synced ms start (wadd start len) w w' → w' = w := by
        rintro w' ⟨files, rfl, hrun⟩
        rw [hnil] at hrun
        rw [hrun.eq_of_nil]
      rw [if_pos (Or.inr hover), ← synced_self_iff (w := w)]
      constructor
      · intro hwp
        obtain ⟨r, w', hr, hw'⟩ := exists_of_wp hsame
        have := wp_ok hwp hr
        rw [hdone w' hw'] at this
        cases r <;> exact this
      · exact fun hself ↦ wp_imp hsame fun r w' hw' ↦ hret w' r (hdone w' hw' ▸ hself)
    · have heq : wadd start len = start + len := wadd_of_lt (not_le.mp hover)
      rw [if_neg (not_or.mpr ⟨Bool.false_ne_true, hover⟩), heq]
      rw [heq] at hend hlt
      constructor
      · intro hwp x hx hb
        by_contra hframe
        exact h.not_wp_msyncAreas hs hend hlt hx hb (Option.not_isSome_iff_eq_none.mp hframe) hwp
      · exact fun hok ↦ wp_imp (h.wp_msyncAreas hs hend hlt hok) fun r w' hw' ↦ hret w' r hw'

end iff

/-- A machine on which a file of three bytes is open. -/
def World.withFile : World Bitmap (Logged FatFile FsFile) where
  alloc := ⟨[0]⟩
  mem := fun _ ↦ 0
  files :=
    ⟨⟨512, [97, 98, 99], 0, FsFile.cluster_pos, FsFile.abc_size_le, FsFile.abc_offset_le⟩, []⟩
  oom := false

/-- A new process with two pages of a file, of which it has touched the first one. -/
theorem exists_spaceOk_touched : ∃ shared g, ∃ (ms : MemorySet FatFile)
    (w : World Bitmap (Logged FatFile FsFile)), SpaceOk (spaceEnv shared) g ms w ∧
      (ms.frameAt 0x1000).isSome ∧ ms.frameAt 0x2000 = none ∧ (ms.backingAt 0x2000).isSome := by
  obtain ⟨ms, w, hok, htouched⟩ := exists_of_returns (x := SpaceCall.runNew PHYS_MEMORY_OFFSET
      [.pushWithBackend 0x1000 0x3000 PTEFlags.READ (some ⟨⟨true, true⟩, 0, .syncReadWrite⟩) false,
        .manuallyAllocPage 0x1000])
    (s := World.withFile) (P := fun (ms : MemorySet FatFile) _ ↦ (ms.frameAt 0x1000).isSome &&
      (ms.frameAt 0x2000).isNone && (ms.backingAt 0x2000).isSome) (by decide +kernel)
  obtain ⟨D, hreach⟩ : ∃ D, Reach PHYS_MEMORY_OFFSET SpaceCall.User D ms w :=
    Reach.runNew (by simp [SpaceCall.User, PageAligned, PAGE_SIZE]) (by decide)
      ⟨0, List.mem_singleton_self 0, rfl⟩ hok
  obtain ⟨shared, g, hspace, -⟩ := hreach.proper.inv fun _ hc ↦ hc
  rw [Bool.and_eq_true, Bool.and_eq_true, Option.isNone_iff_eq_none] at htouched
  exact ⟨shared, g, ms, w, hspace, htouched.1.1, htouched.1.2, htouched.2⟩

/-- The page that was touched is written back. -/
theorem msync_touched : ∃ (ms : MemorySet FatFile) (w : World Bitmap (Logged FatFile FsFile)),
    (ms.frameAt 0x1000).isSome ∧ wp (sysMsync ms 0x1000 0x1000 (Bitflags.fromBitsTruncate _ 4))
      (fun _ w' ↦ Synced ms 0x1000 (0x1000 + 0x1000) w w') noPanic w := by
  obtain ⟨shared, g, ms, w, hspace, hframe, -, -⟩ := exists_spaceOk_touched
  refine ⟨ms, w, hframe, (hspace.msync_iff (by decide) (by decide) (by norm_num) (by norm_num)
    (Bitflags.fromBitsTruncate _ 4)).mpr ?_⟩
  rw [Syncable, if_neg (by decide)]
  intro x hx _
  have hx := (mem_pagesIn (by decide) (by decide)).mp hx
  obtain rfl : x = 0x1000 := by
    simp only [PageAligned, PAGE_SIZE] at hx
    omega
  exact hframe

/-- Writing both pages back panics at the one that was not touched. -/
theorem not_synced_untouched : ∃ shared g, ∃ (ms : MemorySet FatFile)
    (w : World Bitmap (Logged FatFile FsFile)), SpaceOk (spaceEnv shared) g ms w ∧
      ¬wp (sysMsync ms 0x1000 0x2000 (Bitflags.fromBitsTruncate _ 4))
        (fun _ w' ↦ Synced ms 0x1000 (0x1000 + 0x2000) w w') noPanic w := by
  obtain ⟨shared, g, ms, w, hspace, -, hframe, hb⟩ := exists_spaceOk_touched
  refine ⟨shared, g, ms, w, hspace, fun hwp ↦ ?_⟩
  have hend : wadd 0x1000 0x2000 = 0x3000 := by decide
  rw [sysMsync, if_neg (by decide), if_neg (by decide), if_neg (by decide), hend, wp_bind] at hwp
  exact hspace.not_wp_msyncAreas (x := 0x2000) (by decide) (by decide) (by norm_num)
    ((mem_pagesIn (by decide) (by decide)).mpr ⟨by decide, by norm_num, by norm_num⟩) hb hframe hwp

end Maturin
