import Maturin.File.FatFile
import Maturin.Memory.Bitmap
import Maturin.Memory.Fault

/-!
# What a page of a file is filled with

A page of an area with a file behind it is read into a frame that was not cleared. What the read
does not reach keeps what the frame held before, so the page is a copy of the file only if the read
gets a whole page, or is refused, in which case the frame is cleared.

`filePage file pos` is what the page should hold: the bytes of the file from `pos` on, and zeros
behind its end.
-/

open Exec

namespace Maturin

variable {σ : Type} [FrameAllocator σ]

/-- A page of a file, with zeros behind the end. -/
def filePage (file : FsFile) (pos : ℕ) : List UInt8 := file.contents.readBytes pos PAGE_SIZE

/-- The page holds the file's bytes, whatever the frame held before. -/
def FillsPage (pma : PmAreaLazy FatFile) (idx : ℕ) (w : World σ FsFile)
    (page : List UInt8) : Prop :=
  ∀ mem, wp (pma.getFrame idx true) (fun r w' ↦
    ∃ p, r.1 = .ok (some p) ∧ w'.mem.readBytes p PAGE_SIZE = page) noPanic (w.setMem mem)

/-- Is a page filled as it should be? When the file may be read, the page must lie inside it; the
position is not moved for an offset from `2 ^ 32` on, behind the end of every file, so that there
must be a page of zeros where the position is. When the file may not be read the frame is cleared,
and the file must hold zeros there. -/
def BackEndFile.Fillable (backend : BackEndFile FatFile) (file : FsFile) (idx : ℕ) : Prop :=
  if backend.policy.reads && backend.file.readable then
    if backend.offset + idx * PAGE_SIZE ≤ MAX_FILE_SIZE then
      backend.offset + idx * PAGE_SIZE + PAGE_SIZE ≤ file.bytes.length
    else
      FatFile.readStart file (wadd backend.offset (idx * PAGE_SIZE)) + PAGE_SIZE
          ≤ file.bytes.length ∧
        ∀ i < PAGE_SIZE,
          file.contents (FatFile.readStart file (wadd backend.offset (idx * PAGE_SIZE)) + i) = 0
  else ∀ i < PAGE_SIZE, file.contents (backend.offset + idx * PAGE_SIZE + i) = 0

/-! ## What is read -/

section filled

variable {backend : BackEndFile FatFile} {file : FsFile} {idx : ℕ} {old : List UInt8}

/-- What is in the frame after filling, if it held `old` before. -/
def BackEndFile.filled (backend : BackEndFile FatFile) (file : FsFile) (idx : ℕ)
    (old : List UInt8) : List UInt8 :=
  if backend.policy.reads && backend.file.readable then
    FatFile.bytesFrom file (wadd backend.offset (idx * PAGE_SIZE)) PAGE_SIZE ++
      old.drop (FatFile.bytesFrom file (wadd backend.offset (idx * PAGE_SIZE)) PAGE_SIZE).length
  else List.replicate PAGE_SIZE 0

theorem FatFile.length_bytesFrom (file : FsFile) (pos len : ℕ) :
    (FatFile.bytesFrom file pos len).length
      = min len (file.bytes.length - FatFile.readStart file pos) := by
  rw [FatFile.bytesFrom, List.length_take, List.length_drop]

theorem FatFile.bytesFrom_eq {pos len : ℕ}
    (h : FatFile.readStart file pos + len ≤ file.bytes.length) :
    FatFile.bytesFrom file pos len = file.contents.readBytes (FatFile.readStart file pos) len := by
  refine List.ext_getElem ?_ fun i hi _ ↦ ?_
  · rw [FatFile.length_bytesFrom, ByteMem.length_readBytes]
    omega
  · rw [FatFile.length_bytesFrom] at hi
    simp only [FatFile.bytesFrom, ByteMem.readBytes, List.getElem_take, List.getElem_drop,
      List.getElem_map, List.getElem_range, FsFile.contents]
    rw [List.getElem?_eq_getElem, Option.getD_some]

/-- Behind the largest position there are zeros. -/
theorem FsFile.contents_of_lt {i : ℕ} (h : MAX_FILE_SIZE < i) : file.contents i = 0 := by
  rw [FsFile.contents, List.getElem?_eq_none (file.size_le.trans h.le)]
  rfl

/-- A page can be filled exactly if what it is filled with is the page of the file, whatever the
frame held before. -/
theorem BackEndFile.fillable_iff : backend.Fillable file idx ↔
    ∀ old : List UInt8, old.length = PAGE_SIZE →
      backend.filled file idx old = filePage file (backend.offset + idx * PAGE_SIZE) := by
  set pos := backend.offset + idx * PAGE_SIZE with hpos
  rw [Fillable, ← hpos]
  by_cases hread : (backend.policy.reads && backend.file.readable) = true
  · rw [if_pos hread]
    set start := FatFile.readStart file (wadd backend.offset (idx * PAGE_SIZE)) with hstart
    have hfilled : ∀ old, backend.filled file idx old
        = FatFile.bytesFrom file (wadd backend.offset (idx * PAGE_SIZE)) PAGE_SIZE ++ old.drop
          (FatFile.bytesFrom file (wadd backend.offset (idx * PAGE_SIZE)) PAGE_SIZE).length :=
      fun old ↦ if_pos hread
    -- a whole page is read, or something of the old contents stays
    have hwhole : (∀ old : List UInt8, old.length = PAGE_SIZE →
          backend.filled file idx old = filePage file pos) ↔ start + PAGE_SIZE ≤ file.bytes.length ∧
        ∀ i < PAGE_SIZE, file.contents (start + i) = file.contents (pos + i) := by
      simp only [hfilled]
      have hlen := FatFile.length_bytesFrom file (wadd backend.offset (idx * PAGE_SIZE)) PAGE_SIZE
      rw [← hstart] at hlen
      constructor
      · intro h
        have hle : start + PAGE_SIZE ≤ file.bytes.length := by
          by_contra hshort
          have hlt : (FatFile.bytesFrom file (wadd backend.offset (idx * PAGE_SIZE))
              PAGE_SIZE).length < PAGE_SIZE := by
            have hpage : 0 < PAGE_SIZE := by norm_num
            rw [hlen]
            omega
          have hboth := (h (List.replicate PAGE_SIZE 0) List.length_replicate).trans
            (h (List.replicate PAGE_SIZE 1) List.length_replicate).symm
          rw [List.append_cancel_left_eq] at hboth
          have hhead := congrArg (·.head?) hboth
          simp only [List.head?_drop, List.getElem?_replicate, if_pos hlt] at hhead
          exact absurd hhead (by decide)
        refine ⟨hle, ByteMem.readBytes_eq_iff.mp ?_⟩
        have hfull := h (List.replicate PAGE_SIZE 0) List.length_replicate
        rw [hlen, List.drop_eq_nil_of_le (by rw [List.length_replicate]; omega),
          List.append_nil, FatFile.bytesFrom_eq hle] at hfull
        exact hfull
      · rintro ⟨hle, hsame⟩ old hold
        rw [hlen, List.drop_eq_nil_of_le (by omega), List.append_nil, FatFile.bytesFrom_eq hle]
        exact ByteMem.readBytes_eq_iff.mpr hsame
    rw [hwhole]
    split_ifs with hmax
    · -- reading starts at the page
      have heq : start = pos := by
        have hlt : pos < 2 ^ 64 := lt_of_le_of_lt hmax (by norm_num [MAX_FILE_SIZE])
        rw [hstart, wadd_of_lt hlt, FatFile.readStart, if_pos hmax]
      rw [heq]
      exact ⟨fun h ↦ ⟨h, fun _ _ ↦ rfl⟩, And.left⟩
    · refine and_congr_right fun _ ↦ forall_congr' fun i ↦ imp_congr_right fun _ ↦ ?_
      rw [FsFile.contents_of_lt (i := pos + i) (by omega)]
  · have hfilled : ∀ old, backend.filled file idx old = List.replicate PAGE_SIZE 0 := fun old ↦
      if_neg hread
    rw [if_neg hread]
    simp only [hfilled]
    rw [filePage, ByteMem.replicate_eq_readBytes_iff]
    exact ⟨fun h _ _ ↦ h, fun h ↦ h (List.replicate PAGE_SIZE 0) List.length_replicate⟩

end filled

/-! ## Filling a frame -/

section fillFrame

variable {pma : PmAreaLazy FatFile} {backend : BackEndFile FatFile} {idx p : ℕ}
variable {w : World σ FsFile}

omit [FrameAllocator σ] in
/-- What the file behind an area answers. -/
theorem readFromOffset_fat (pos : ℕ) (buf : List UInt8) :
    (FileStore.readFromOffset backend.file pos buf w.files).2.contents = w.files.contents ∧
      (FileStore.readFromOffset backend.file pos buf w.files).1 = if backend.file.readable then
          (some (FatFile.bytesFrom w.files pos buf.length).length,
            FatFile.bytesFrom w.files pos buf.length ++ buf.drop
              (FatFile.bytesFrom w.files pos buf.length).length)
        else (none, buf) := by
  refine ⟨FatFile.readFromOffset_contents, ?_⟩
  cases hread : backend.file.readable with
  | true => exact FatFile.readFromOffset_eq hread
  | false => exact FatFile.readFromOffset_unreadable hread

omit [FrameAllocator σ] in
/-- What reading from the file behind an area leaves in the buffer. -/
theorem wp_readFromOffset_fat (pos : ℕ) (buf : List UInt8) :
    wp (backend.readFromOffset pos buf) (fun r w' ↦
      (∃ files : FsFile, w' = { w with files } ∧ files.contents = w.files.contents) ∧
      r = if backend.policy.reads && backend.file.readable then
          (some (FatFile.bytesFrom w.files (wadd backend.offset pos) buf.length).length,
            FatFile.bytesFrom w.files (wadd backend.offset pos) buf.length ++ buf.drop
              (FatFile.bytesFrom w.files (wadd backend.offset pos) buf.length).length)
        else (none, buf)) noPanic w := by
  -- a policy that reads asks the file
  obtain ⟨hcontents, hanswer⟩ := readFromOffset_fat (w := w) (wadd backend.offset pos) buf
  rw [BackEndFile.readFromOffset]
  cases backend.policy with
  | syncRead => exact ⟨⟨_, rfl, hcontents⟩, hanswer⟩
  | syncWrite => exact ⟨⟨w.files, rfl, rfl⟩, rfl⟩
  | syncReadWrite => exact ⟨⟨_, rfl, hcontents⟩, hanswer⟩

omit [FrameAllocator σ] in
/-- Filling a frame leaves what the read left, or zeros. -/
theorem wp_fillFrame_fat (hback : pma.backend = some backend) :
    wp (pma.fillFrame idx p) (fun _ w' ↦ w'.files.contents = w.files.contents ∧
      w'.mem.readBytes p PAGE_SIZE
        = backend.filled w.files idx (w.mem.readBytes p PAGE_SIZE)) noPanic w := by
  rw [PmAreaLazy.fillFrame, hback]
  dsimp only
  rw [wp_bind, wp_get, wp_bind]
  refine wp_imp (wp_readFromOffset_fat (idx * PAGE_SIZE) _) fun r w₁ hr ↦ ?_
  obtain ⟨⟨files, rfl, hcontents⟩, rfl⟩ := hr
  rw [wp_bind, wp_modify, BackEndFile.filled]
  by_cases hread : (backend.policy.reads && backend.file.readable) = true
  · rw [if_pos hread, if_pos hread, ByteMem.length_readBytes]
    set bs := FatFile.bytesFrom w.files (wadd backend.offset (idx * PAGE_SIZE)) PAGE_SIZE
    -- what the read does not reach stays
    have hlen : (bs ++ (w.mem.readBytes p PAGE_SIZE).drop bs.length).length = PAGE_SIZE := by
      have : bs.length ≤ PAGE_SIZE := List.length_take_le _ _
      rw [List.length_append, List.length_drop, ByteMem.length_readBytes]
      omega
    refine ⟨hcontents, ?_⟩
    have hread : ByteMem.readBytes (w.mem.writeBytes p
        (bs ++ (w.mem.readBytes p PAGE_SIZE).drop bs.length)) p
          (bs ++ (w.mem.readBytes p PAGE_SIZE).drop bs.length).length = _ :=
      ByteMem.readBytes_writeBytes
    rw [hlen] at hread
    exact hread
  · rw [if_neg hread, if_neg hread]
    refine ⟨hcontents, Eq.symm (ByteMem.replicate_eq_readBytes_iff.mpr fun i hi ↦ ?_)⟩
    exact ByteMem.fill_of_mem ⟨by omega, by omega⟩

/-- A page without a frame gets the next one of the allocator. -/
theorem wp_getFrame_new {φ F : Type} [FileStore F φ] {pma : PmAreaLazy F} {w : World σ φ} {t : σ}
    (hnew : pma.frames[idx]? = some none) (halloc : FrameAllocator.alloc w.alloc = some (p, t))
    {Q : Except OSError (Option ℕ) × PmAreaLazy F → World σ φ → Prop}
    {E : Panic → World σ φ → Prop} :
    wp (pma.getFrame idx true) Q E w ↔ wp (pma.fillFrame idx p) (fun _ w' ↦
      Q (.ok (some p), { pma with frames := pma.frames.set idx (some p) }) w') E
      { w with alloc := t } := by
  rw [PmAreaLazy.getFrame, hnew]
  dsimp only
  rw [if_pos rfl, wp_bind, frameNew, wp_bind, wp_get, halloc]
  dsimp only
  rw [wp_bind, wp_set, wp_pure, wp_bind]
  rfl

/-- The page holds `page` whatever the frame held before, in terms of what fills the frame. -/
theorem fillsPage_iff_filled (hback : pma.backend = some backend)
    (hnew : pma.frames[idx]? = some none) (halloc : (FrameAllocator.alloc w.alloc).isSome)
    {page : List UInt8} : FillsPage pma idx w page ↔
      ∀ old : List UInt8, old.length = PAGE_SIZE → backend.filled w.files idx old = page := by
  obtain ⟨⟨p, t⟩, hp⟩ := Option.isSome_iff_exists.mp halloc
  have hfill : ∀ mem, wp (pma.getFrame idx true) (fun r w' ↦ r.1 = .ok (some p) ∧
      w'.mem.readBytes p PAGE_SIZE = backend.filled w.files idx (ByteMem.readBytes mem p PAGE_SIZE))
      noPanic (w.setMem mem) := by
    intro mem
    rw [wp_getFrame_new (w := w.setMem mem) hnew hp]
    exact wp_imp (wp_fillFrame_fat hback) fun _ w' hw ↦ ⟨rfl, hw.2⟩
  constructor
  · intro h old hold
    -- a memory in which the frame holds `old`
    have hmem : ByteMem.readBytes (ByteMem.writeBytes p old fun _ ↦ 0) p PAGE_SIZE = old := by
      rw [← hold]
      exact ByteMem.readBytes_writeBytes
    obtain ⟨r, w', hr, q, hq, hpage⟩ := exists_of_wp (h (ByteMem.writeBytes p old fun _ ↦ 0))
    obtain ⟨hok, hfilled⟩ := wp_ok (hfill _) hr
    obtain rfl : p = q := Option.some.inj (Except.ok.inj (hok.symm.trans hq))
    rw [← hpage, hfilled, hmem]
  · intro h mem
    exact wp_imp (hfill mem) fun r w' hr ↦ ⟨p, hr.1, hr.2.trans (h _ ByteMem.length_readBytes)⟩

/-- **A page of a file carries no foreign data if and only if it can be filled.** Whatever the
memory held before, the page is that of the file. -/
theorem fillsPage_iff (hback : pma.backend = some backend) (hnew : pma.frames[idx]? = some none)
    (halloc : (FrameAllocator.alloc w.alloc).isSome) :
    FillsPage pma idx w (filePage w.files (backend.offset + idx * PAGE_SIZE)) ↔
      backend.Fillable w.files idx :=
  (fillsPage_iff_filled hback hnew halloc).trans BackEndFile.fillable_iff.symm

end fillFrame

/-- A file of the given length. -/
def FsFile.ofLength (n : ℕ) (h : n ≤ MAX_FILE_SIZE) : FsFile where
  clusterSize := 512
  bytes := List.replicate n 97
  offset := 0
  clusterSize_pos := cluster_pos
  size_le := by rwa [List.length_replicate]
  offset_le := Nat.zero_le _

/-- A machine with an open file of the given length. -/
def World.ofLength (n : ℕ) (h : n ≤ MAX_FILE_SIZE) : World Bitmap FsFile where
  alloc := ⟨[0]⟩
  mem := fun _ ↦ 0
  files := .ofLength n h
  oom := false

/-- An area of one page, the first one of a file. -/
def PmAreaLazy.firstPage : PmAreaLazy FatFile where
  frames := [none]
  backend := some ⟨⟨true, true⟩, 0, .syncReadWrite⟩

/-- A file of one page fills a page. -/
theorem fillsPage_whole : FillsPage .firstPage 0 (.ofLength PAGE_SIZE (by decide))
    (filePage (.ofLength PAGE_SIZE (by decide)) (0 + 0 * PAGE_SIZE)) := by
  have hback : PmAreaLazy.firstPage.backend = some ⟨⟨true, true⟩, 0, .syncReadWrite⟩ := rfl
  refine (fillsPage_iff hback rfl (by decide)).mpr ?_
  rw [BackEndFile.Fillable, if_pos (by decide), if_pos (by decide)]
  exact (Nat.zero_add _).trans_le (List.length_replicate.ge)

/-- After a file of three bytes the page goes on with what the frame held before. -/
theorem not_fillsPage_short : ¬FillsPage .firstPage 0 (.ofLength 3 (by decide))
    (filePage (.ofLength 3 (by decide)) (0 + 0 * PAGE_SIZE)) := by
  have hback : PmAreaLazy.firstPage.backend = some ⟨⟨true, true⟩, 0, .syncReadWrite⟩ := rfl
  rw [fillsPage_iff_filled hback rfl (by decide)]
  intro h
  refine absurd (BackEndFile.fillable_iff.mpr h) ?_
  rw [BackEndFile.Fillable, if_pos (by decide), if_pos (by decide)]
  change ¬0 + 0 * PAGE_SIZE + PAGE_SIZE ≤ (List.replicate 3 (97 : UInt8)).length
  rw [List.length_replicate]
  norm_num

end Maturin
