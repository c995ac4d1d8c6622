import Maturin.Base.Slice
import Maturin.Memory.PageTable
import Maturin.RangeActionMap.Segment

/-!
# Memory areas

`VmArea` of `memory/areas/mod.rs` and `PmAreaLazy` of `memory/areas/lazy.rs`: a user area is an
interval of virtual addresses with its flags, and a vector with an optional frame for each of its
pages, possibly backed by a file.

The vector of an area lies behind a lock and is changed through shared references, also by calls
that then fail, so such a method returns the area next to its result. The page table on the state
is the one that `args` points to.
-/

open Exec

namespace Maturin

variable {σ φ F : Type}

/-- The first addresses of the pages of `(start..end).step_by(PAGE_SIZE)`. -/
def pagesIn (start end_ : ℕ) : List ℕ :=
  (List.range ((end_ - start + (PAGE_SIZE - 1)) / PAGE_SIZE)).map fun i ↦ start + i * PAGE_SIZE

/-! ## Files behind an area -/

/-- Which of reading and writing reach the file. -/
inductive SyncPolicy
  | syncRead
  | syncWrite
  | syncReadWrite
  deriving DecidableEq

/-- The part of a file from an offset on. -/
structure BackEndFile (F : Type) where
  file : F
  offset : ℕ
  policy : SyncPolicy

namespace BackEndFile

/-- The same file, `delta` further on. -/
def split (self : BackEndFile F) (delta : ℕ) : BackEndFile F :=
  { self with offset := wadd self.offset delta }

def cloneAsFork (self : BackEndFile F) : BackEndFile F := self.split 0

variable [FileStore F φ]

/-- Read into a buffer, and return what it holds afterwards. -/
def readFromOffset (self : BackEndFile F) (pos : ℕ) (buf : List UInt8) :
    EStateM Panic (World σ φ) (Option ℕ × List UInt8) :=
  match self.policy with
  | .syncRead | .syncReadWrite => modifyGet fun w ↦
    let (r, files) := FileStore.readFromOffset self.file (wadd self.offset pos) buf w.files
    (r, { w with files })
  | .syncWrite => pure (none, buf)

def writeToOffset (self : BackEndFile F) (pos : ℕ) (buf : List UInt8) :
    EStateM Panic (World σ φ) (Option ℕ) :=
  match self.policy with
  | .syncWrite | .syncReadWrite => modifyGet fun w ↦
    let (r, files) := FileStore.writeToOffset self.file (wadd self.offset pos) buf w.files
    (r, { w with files })
  | .syncRead => pure none

end BackEndFile

/-! ## The frames of an area -/

/-- A frame, or none yet, for each page of an area. -/
structure PmAreaLazy (F : Type) where
  frames : List (Option ℕ)
  backend : Option (BackEndFile F)

namespace PmAreaLazy

def size (self : PmAreaLazy F) : ℕ := self.frames.length * PAGE_SIZE

/-- An area of the given number of pages, without frames. -/
def new (count : ℕ) (backend : Option (BackEndFile F)) : Except OSError (PmAreaLazy F) :=
  if count = 0 then
    .error .pmArea_invalidRange
  else if count > pageCount USER_VIRT_ADDR_LIMIT then
    .error .memory_runOutOfMemory
  else
    .ok { frames := List.replicate count none, backend }

def cloneAsFork (self : PmAreaLazy F) : Except OSError (PmAreaLazy F) :=
  new self.frames.length (self.backend.map BackEndFile.cloneAsFork)

variable [FrameAllocator σ]

/-- The `Drop` of the frames that are still there. -/
def drop (self : PmAreaLazy F) : EStateM Panic (World σ φ) Unit :=
  self.frames.forM fun frame ↦ match frame with
    | some paddr => frameDrop paddr
    | none => pure ()

variable [FileStore F φ]

/-- Fill a new frame from the file, or with zeros. -/
def fillFrame (self : PmAreaLazy F) (idx frame : ℕ) : EStateM Panic (World σ φ) Unit :=
  match self.backend with
  | some backend => do
    let w ← get
    let (r, buf) ← backend.readFromOffset (idx * PAGE_SIZE) (w.mem.readBytes frame PAGE_SIZE)
    modify fun w ↦ w.setMem (w.mem.writeBytes frame buf)
    match r with
    | some _ => pure ()
    | none => frameZero frame
  | none => frameZero frame

/-- The frame of a page; with `needAlloc` a missing frame is allocated. -/
def getFrame (self : PmAreaLazy F) (idx : ℕ) (needAlloc : Bool) :
    EStateM Panic (World σ φ) (Except OSError (Option ℕ) × PmAreaLazy F) :=
  match self.frames[idx]? with
  | none => throw .indexOutOfBounds
  | some (some paddr) => pure (.ok (some paddr), self)
  | some none =>
    if needAlloc then do
      match ← frameNew with
      | some frame =>
        self.fillFrame idx frame
        pure (.ok (some frame), { self with frames := self.frames.set idx (some frame) })
      | none => pure (.error .memory_runOutOfMemory, self)
    else
      pure (.ok none, self)

/-- Take the frame of a page away, after its contents went to the file. -/
def releaseFrame (self : PmAreaLazy F) (idx : ℕ) :
    EStateM Panic (World σ φ) (Except OSError Unit × PmAreaLazy F) :=
  match self.frames[idx]? with
  | none => throw .indexOutOfBounds
  | some none => pure (.error .pmAreaLazy_releaseNotAllocatedPage, self)
  | some (some frame) => do
    match self.backend with
    | some backend =>
      let w ← get
      let _ ← backend.writeToOffset (idx * PAGE_SIZE) (w.mem.readBytes frame PAGE_SIZE)
    | none => pure ()
    frameDrop frame
    pure (.ok (), { self with frames := self.frames.set idx none })

/-- Release pages, whether or not they have a frame. -/
def releaseFrames (self : PmAreaLazy F) : List ℕ → EStateM Panic (World σ φ) (PmAreaLazy F)
  | [] => pure self
  | idx :: rest => do
    let (_, self) ← self.releaseFrame idx
    self.releaseFrames rest

/-- Keep the pages before `leftEnd`, return those from `rightStart` on and release those between.
The result is the new `self` and the right part. -/
def split (self : PmAreaLazy F) (leftEnd rightStart : ℕ) :
    ExceptT OSError (EStateM Panic (World σ φ)) (PmAreaLazy F × PmAreaLazy F) :=
  if leftEnd ≤ rightStart ∧ rightStart < self.size then do
    let newFrames := self.frames.drop (addrToPageId rightStart)
    let self := { self with frames := self.frames.take (addrToPageId rightStart) }
    let self ← ExceptT.lift (self.releaseFrames
      (List.range' (addrToPageId leftEnd) (addrToPageId rightStart - addrToPageId leftEnd)))
    -- the frames behind the cut were all released
    let self := { self with frames := self.frames.take (addrToPageId leftEnd) }
    pure (self, { frames := newFrames, backend := self.backend.map (·.split rightStart) })
  else
    throw .pmArea_splitFailed

/-- The loop of `for_each_frame`; a round treats at least one byte, so `len` rounds are enough.
`op` gets the number of bytes treated before, and the physical address and length of the next
piece. -/
def forEachLoop (op : ℕ → ℕ → ℕ → EStateM Panic (World σ φ) Unit) :
    ℕ → PmAreaLazy F → ℕ → ℕ → ℕ → EStateM Panic (World σ φ) (Except OSError ℕ × PmAreaLazy F)
  | 0, self, _, _, processed => pure (.ok processed, self)
  | rounds + 1, self, start, len, processed =>
    if len > 0 then
      let startAlign := alignDown start
      let pgoff := start - startAlign
      let n := min (PAGE_SIZE - pgoff) len
      let idx := startAlign / PAGE_SIZE
      match self.frames[idx]? with
      | none => throw .indexOutOfBounds
      | some (some frame) => do
        op processed (frame + pgoff) n
        forEachLoop op rounds self (start + n) (len - n) (processed + n)
      | some none => do
        match ← frameNew with
        | some frame =>
          frameZero frame
          let self := { self with frames := self.frames.set idx (some frame) }
          op processed (frame + pgoff) n
          forEachLoop op rounds self (start + n) (len - n) (processed + n)
        | none => pure (.error .memory_runOutOfMemory, self)
    else
      pure (.ok processed, self)

/-- Visit the bytes of a range, allocating missing frames. -/
def forEachFrame (self : PmAreaLazy F) (offset len : ℕ)
    (op : ℕ → ℕ → ℕ → EStateM Panic (World σ φ) Unit) :
    EStateM Panic (World σ φ) (Except OSError ℕ × PmAreaLazy F) :=
  if offset ≥ self.size ∨ wadd offset len > self.size then
    pure (.error .pmArea_outOfRange, self)
  else
    forEachLoop op len self offset len 0

/-- The same loop with an `op` that works on a value of its own. -/
def forEachLoopWith {δ : Type} (op : δ → ℕ → ℕ → ℕ → EStateM Panic (World σ φ) δ) :
    ℕ → PmAreaLazy F → δ → ℕ → ℕ → ℕ →
      EStateM Panic (World σ φ) (Except OSError ℕ × PmAreaLazy F × δ)
  | 0, self, d, _, _, processed => pure (.ok processed, self, d)
  | rounds + 1, self, d, start, len, processed =>
    if len > 0 then
      let startAlign := alignDown start
      let pgoff := start - startAlign
      let n := min (PAGE_SIZE - pgoff) len
      let idx := startAlign / PAGE_SIZE
      match self.frames[idx]? with
      | none => throw .indexOutOfBounds
      | some (some frame) => do
        let d ← op d processed (frame + pgoff) n
        forEachLoopWith op rounds self d (start + n) (len - n) (processed + n)
      | some none => do
        match ← frameNew with
        | some frame =>
          frameZero frame
          let self := { self with frames := self.frames.set idx (some frame) }
          let d ← op d processed (frame + pgoff) n
          forEachLoopWith op rounds self d (start + n) (len - n) (processed + n)
        | none => pure (.error .memory_runOutOfMemory, self, d)
    else
      pure (.ok processed, self, d)

/-- Read bytes from an offset on: the buffer `dst` afterwards is part of the result. -/
def read (self : PmAreaLazy F) (offset : ℕ) (dst : List UInt8) :
    EStateM Panic (World σ φ) (Except OSError ℕ × PmAreaLazy F × List UInt8) :=
  if offset ≥ self.size ∨ wadd offset dst.length > self.size then
    pure (.error .pmArea_outOfRange, self, dst)
  else
    forEachLoopWith (fun dst processed paddr n ↦ do
      let w ← get
      copyIntoSlice dst processed (processed + n) (w.mem.readBytes paddr n))
      dst.length self dst offset dst.length 0

/-- Write bytes from an offset on. -/
def write (self : PmAreaLazy F) (offset : ℕ) (src : List UInt8) :
    EStateM Panic (World σ φ) (Except OSError ℕ × PmAreaLazy F) :=
  self.forEachFrame offset src.length fun processed paddr n ↦
    modify fun w ↦ w.setMem (w.mem.writeBytes paddr ((src.drop processed).take n))

end PmAreaLazy

/-! ## Areas -/

/-- An interval of virtual addresses with the same flags. -/
structure VmArea (F : Type) where
  start : ℕ
  end_ : ℕ
  flags : PTEFlags
  pma : PmAreaLazy F

namespace VmArea

def new (start end_ : ℕ) (flags : PTEFlags) (pma : PmAreaLazy F) : Except OSError (VmArea F) :=
  if start ≥ end_ then
    .error .vmArea_invalidRange
  else
    let start := alignDown start
    let end_ := alignUp end_
    if wsub end_ start ≠ pma.size then
      .error .vmArea_vmSizeNotEqualToPmSize
    else
      .ok { start, end_, flags, pma }

def isUser (self : VmArea F) : Bool := self.flags.contains PTEFlags.USER

/-- The same area without frames. -/
def copyToNewAreaEmpty (self : VmArea F) : Except OSError (VmArea F) := do
  let pma ← self.pma.cloneAsFork
  pure { self with pma }

variable [FrameAllocator σ] [FileStore F φ]

/-- Give the pages that are mapped the flags of the area. -/
def modifyAreaFlags (self : VmArea F) :
    ExceptT OSError (EStateM Panic (PageTable × World σ φ)) Unit :=
  (pagesIn self.start self.end_).forM fun vaddr ↦ do
    let (r, _) ← ExceptT.lift (onSnd (self.pma.getFrame ((vaddr - self.start) / PAGE_SIZE) false))
    match r with
    | .error e => throw e
    | .ok none => pure ()
    | .ok (some _) =>
      ExceptT.lift (unwrap (Panic.unwrap .modifyAreaFlags) (PageTable.setFlags vaddr self.flags))

/-- Map the pages that have a frame, and create the tables of the others. -/
def mapArea (self : VmArea F) : ExceptT OSError (EStateM Panic (PageTable × World σ φ)) Unit :=
  (pagesIn self.start self.end_).forM fun vaddr ↦ do
    let (r, _) ← ExceptT.lift (onSnd (self.pma.getFrame ((vaddr - self.start) / PAGE_SIZE) false))
    match r with
    | .error e => throw e
    | .ok (some paddr) => PageTable.map vaddr paddr self.flags
    | .ok none => PageTable.map vaddr 0 0

/-- The loop of `unmap_area_partial` over the pages. -/
def unmapPages (start : ℕ) : List ℕ → PmAreaLazy F →
    EStateM Panic (PageTable × World σ φ) (Except OSError Unit × PmAreaLazy F)
  | [], pma => pure (.ok (), pma)
  | vaddr :: rest, pma => do
    let (res, pma) ← onSnd (pma.releaseFrame (wsub vaddr start / PAGE_SIZE))
    match res with
    | .error .pmAreaLazy_releaseNotAllocatedPage => unmapPages start rest pma
    | .error e => pure (.error e, pma)
    | .ok () =>
      match ← (PageTable.unmap vaddr).run with
      | .error e => pure (.error e, pma)
      | .ok () => unmapPages start rest pma

/-- Release and unmap a part of the area. -/
def unmapAreaPartial (self : VmArea F) (start end_ : ℕ) :
    EStateM Panic (PageTable × World σ φ) (Except OSError Unit × VmArea F) := do
  let (r, pma) ← unmapPages self.start (pagesIn start end_) self.pma
  pure (r, { self with pma })

/-- Release and unmap the area. -/
def unmapArea (self : VmArea F) :
    EStateM Panic (PageTable × World σ φ) (Except OSError Unit × VmArea F) :=
  self.unmapAreaPartial self.start self.end_

/-- The loop of `copy_to_new_area_with_data`; when a frame cannot be had the new area is dropped. -/
def copyPages (self : VmArea F) : List ℕ → PmAreaLazy F →
    ExceptT OSError (EStateM Panic (World σ φ)) (PmAreaLazy F)
  | [], newPma => pure newPma
  | vaddr :: rest, newPma => do
    let idx := (vaddr - self.start) / PAGE_SIZE
    let (oldPage, _) ← ExceptT.lift (self.pma.getFrame idx false)
    match oldPage with
    | .error e =>
      ExceptT.lift newPma.drop
      throw e
    | .ok none => self.copyPages rest newPma
    | .ok (some oldPaddr) =>
      let (newPage, newPma) ← ExceptT.lift (newPma.getFrame idx true)
      match newPage with
      | .error e =>
        ExceptT.lift newPma.drop
        throw e
      | .ok none => ExceptT.lift (throw (.unwrapNone .copyArea))
      | .ok (some newPaddr) =>
        modify fun w ↦ w.setMem (w.mem.writeBytes newPaddr (w.mem.readBytes oldPaddr PAGE_SIZE))
        self.copyPages rest newPma

/-- The same area with a copy of every frame. -/
def copyToNewAreaWithData (self : VmArea F) :
    ExceptT OSError (EStateM Panic (World σ φ)) (VmArea F) := do
  let newArea ← ExceptT.mk (pure self.copyToNewAreaEmpty)
  let pma ← self.copyPages (pagesIn self.start self.end_) newArea.pma
  pure { newArea with pma }

/-- Enter a frame into the page table. `onValid` is the result when the entry is valid already. -/
def enterFrame (self : VmArea F) (vaddr paddr : ℕ) (onValid : Except OSError Unit) :
    EStateM Panic (PageTable × World σ φ) (Except OSError Unit) := do
  match ← PageTable.findPte vaddr with
  | some entry =>
    let bits ← readPte entry
    if PageTableEntry.isValid bits then
      pure onValid
    else
      writePte entry (PageTableEntry.setAll paddr self.flags.mapped)
      pure (.ok ())
  | none => pure (.error .pageTable_pageNotMapped)

/-- The part that `handle_page_fault` and `manually_alloc_page` share: get a frame for the page and
enter it. -/
def faultIn (self : VmArea F) (offset : ℕ) (onValid : Except OSError Unit) :
    EStateM Panic (PageTable × World σ φ) (Except OSError Unit × VmArea F) := do
  let offset := alignDown offset
  let vaddr := wadd self.start offset
  let (r, pma) ← onSnd (self.pma.getFrame (offset / PAGE_SIZE) true)
  let self := { self with pma }
  match r with
  | .error e => pure (.error e, self)
  | .ok none => pure (.error .memory_runOutOfMemory, self)
  | .ok (some paddr) =>
    let r ← self.enterFrame vaddr paddr onValid
    pure (r, self)

/-- A fault at an offset of the area. -/
def handlePageFault (self : VmArea F) (offset : ℕ) (accessFlags : PTEFlags) :
    EStateM Panic (PageTable × World σ φ) (Except OSError Unit × VmArea F) :=
  if !self.flags.contains accessFlags then
    pure (.error .pageFaultHandler_accessDenied, self)
  else
    self.faultIn offset (.error .pageFaultHandler_trapAtValidPage)

/-- Make sure that the page at an offset is mapped; the flags of the area are not looked at. -/
def manuallyAllocPage (self : VmArea F) (offset : ℕ) :
    EStateM Panic (PageTable × World σ φ) (Except OSError Unit × VmArea F) :=
  self.faultIn offset (.ok ())

/-- The result of an `unwrap` of a result that comes with the area. -/
def unwrapWith (site : UnwrapSite) (r : Except OSError Unit × VmArea F) :
    EStateM Panic (PageTable × World σ φ) (VmArea F) :=
  match r.1 with
  | .ok () => pure r.2
  | .error e => throw (.unwrap site e)

instance : Segment (VmArea F) (PageTable × World σ φ) where
  modify self newFlag _ := do
    let self := { self with flags := BitVec.ofNat 8 newFlag }
    unwrap (Panic.unwrap .segmentModify) self.modifyAreaFlags
    pure self
  remove self _ := do
    let r ← self.unmapArea
    unwrapWith .segmentRemove r
  split self pos _ := do
    let oldEnd := self.end_
    let (pma, rightPma) ← unwrap (Panic.unwrap .splitPma)
      (onSndR (self.pma.split (wsub pos self.start) (wsub pos self.start)))
    match new pos oldEnd self.flags rightPma with
    | .ok right => pure ({ self with end_ := pos, pma }, right)
    | .error e => throw (.unwrap .splitArea e)

end VmArea

end Maturin
