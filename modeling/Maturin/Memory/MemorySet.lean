import Maturin.Memory.Area
import Maturin.RangeActionMap.Map

/-!
# Address spaces

`MemorySet` of `memory/vmm.rs`: the areas of an address space and its page table. Every method
returns the address space next to its result, since the areas and the table may have changed even
when it fails; a panic stops the kernel. `kernelRoot` is the root table of the kernel's own address
space, and the areas of user address spaces are lazy ones.
-/

open Exec

namespace Maturin

variable {σ φ F : Type} [FrameAllocator σ] [FileStore F φ]

/-- The areas of an address space and their page table. -/
structure MemorySet (F : Type) where
  areaMap : RangeActionMap (VmArea F)
  pt : PageTable
  isUser : Bool

namespace MemorySet

/-- Run an operation of the areas, which works on the page table. -/
def withPt {α : Type} (self : MemorySet F)
    (x : EStateM Panic (PageTable × World σ φ) (α × RangeActionMap (VmArea F))) :
    EStateM Panic (World σ φ) (α × MemorySet F) := do
  let ((a, areaMap), pt) ← withFst self.pt x
  pure (a, { self with areaMap, pt })

omit [FileStore F φ] in
/-- An address space without areas. The range map gets the address of the page table, which stands
for the page table on the state. -/
def newUser : EStateM Panic (World σ φ) (MemorySet F) := do
  let pt ← unwrap (Panic.unwrap .newUser) PageTable.new
  pure { areaMap := RangeActionMap.new 0, pt, isUser := true }

omit [FileStore F φ] in
/-- The address space of a new process shares the kernel's part. -/
def newMemorySetForTask (kernelRoot : ℕ) : EStateM Panic (World σ φ) (MemorySet F) := do
  let ms : MemorySet F ← newUser
  let (_, pt) ← withFst ms.pt (PageTable.mapKernelRegions kernelRoot)
  pure { ms with pt }

/-- Unmap `[start, end_)`. -/
def munmap (self : MemorySet F) (start end_ : ℕ) :
    EStateM Panic (World σ φ) (Bool × MemorySet F) :=
  self.withPt do
    let areaMap ← self.areaMap.unmap start end_
    pure (true, areaMap)

/-- Change the flags of `[start, end_)`. -/
def mprotect (self : MemorySet F) (start end_ : ℕ) (newFlags : PTEFlags) :
    EStateM Panic (World σ φ) (Bool × MemorySet F) :=
  self.withPt do
    let areaMap ← self.areaMap.mprotect start end_ newFlags.toNat
    pure (true, areaMap)

/-- The closures of `push_with_backend`: a new area without frames, mapped at `start`. -/
def mapNewArea (start end_ : ℕ) (flags : PTEFlags) (backend : Option (BackEndFile F)) :
    EStateM Panic (PageTable × World σ φ) (VmArea F) := do
  let pma ← unwrap (Panic.unwrap .pushPma)
    (ExceptT.mk (pure (PmAreaLazy.new (pageCount (wsub end_ start)) backend)))
  let area ← unwrap (Panic.unwrap .pushArea) (ExceptT.mk (pure (VmArea.new start end_ flags pma)))
  unwrap (Panic.unwrap .pushMapArea) area.mapArea
  pure area

/-- The `unwrap` of the range map's answer. -/
def unwrapStart (r : Option ℕ × RangeActionMap (VmArea F)) :
    EStateM Panic (PageTable × World σ φ) (Except OSError ℕ × RangeActionMap (VmArea F)) :=
  match r.1 with
  | some start => pure (.ok start, r.2)
  | none => throw (.unwrapNone .pushRange)

/-- Map a new area, at `[start, end_)` or anywhere. -/
def pushWithBackend (self : MemorySet F) (start end_ : ℕ) (flags : PTEFlags)
    (backend : Option (BackEndFile F)) (anywhere : Bool) :
    EStateM Panic (World σ φ) (Except OSError ℕ × MemorySet F) :=
  if !anywhere ∧ end_ ≥ USER_VIRT_ADDR_LIMIT then
    pure (.error .memorySet_userMmapIntersectWithKernel, self)
  else
    let len := wsub end_ start
    if anywhere then
      self.withPt do
        let r ← self.areaMap.mmapAnywhere start len fun start ↦
          mapNewArea start (wadd len start) flags backend
        unwrapStart r
    else
      self.withPt do
        let r ← self.areaMap.mmapFixed start end_ (mapNewArea start end_ flags backend)
        unwrapStart r

/-- Insert an area and map its frames. -/
def push (self : MemorySet F) (vma : VmArea F) :
    EStateM Panic (World σ φ) (Except OSError Unit × MemorySet F) := do
  let (r, self) ← self.withPt do
    let r ← self.areaMap.mmapFixed vma.start vma.end_ do
      unwrap (Panic.unwrap .pushMapArea) vma.mapArea
      pure vma
    unwrapStart r
  pure (r.map fun _ ↦ (), self)

/-- Run a method of the area that contains the address. -/
def onArea (self : MemorySet F) (vaddr : ℕ)
    (f : VmArea F → EStateM Panic (PageTable × World σ φ) (Except OSError Unit × VmArea F)) :
    EStateM Panic (World σ φ) (Except OSError Unit × MemorySet F) :=
  match self.areaMap.find vaddr with
  | some area => self.withPt do
    let (r, area) ← f area
    pure (r, self.areaMap.setSegment vaddr area)
  | none => pure (.error .pageFaultHandler_unhandled, self)

/-- A page fault at an address. -/
def handlePageFault (self : MemorySet F) (vaddr : ℕ) (accessFlags : PTEFlags) :
    EStateM Panic (World σ φ) (Except OSError Unit × MemorySet F) :=
  self.onArea vaddr fun area ↦ area.handlePageFault (wsub vaddr area.start) accessFlags

/-- Make sure that the page of an address is mapped. -/
def manuallyAllocPage (self : MemorySet F) (vaddr : ℕ) :
    EStateM Panic (World σ φ) (Except OSError Unit × MemorySet F) :=
  self.onArea vaddr fun area ↦ area.manuallyAllocPage (wsub vaddr area.start)

/-- `manually_alloc_page` for each page of a list, until one fails. -/
def manuallyAllocPages : List ℕ → MemorySet F →
    EStateM Panic (World σ φ) (Except OSError Unit × MemorySet F)
  | [], self => pure (.ok (), self)
  | page :: rest, self => do
    let (r, self) ← self.manuallyAllocPage (pageIdToAddr page)
    match r with
    | .error e => pure (.error e, self)
    | .ok () => manuallyAllocPages rest self

/-- Make sure that the pages of an object of the given size are mapped. -/
def manuallyAllocType (self : MemorySet F) (size userObj : ℕ) :
    EStateM Panic (World σ φ) (Except OSError Unit × MemorySet F) :=
  if crossPage size userObj then
    manuallyAllocPages (List.range' (addrToPageId userObj)
      (addrToPageId (wsub (wadd userObj size) 1) + 1 - addrToPageId userObj)) self
  else
    self.manuallyAllocPage userObj

/-- Make sure that the pages from that of `startVaddr` to that of `endVaddr` are mapped. -/
def manuallyAllocRange (self : MemorySet F) (startVaddr endVaddr : ℕ) :
    EStateM Panic (World σ φ) (Except OSError Unit × MemorySet F) :=
  manuallyAllocPages (List.range' (addrToPageId startVaddr)
    (addrToPageId endVaddr + 1 - addrToPageId startVaddr)) self

/-- Make sure that a buffer of the user is mapped; the address of its last byte wraps. -/
def manuallyAllocUserStr (self : MemorySet F) (buf len : ℕ) :
    EStateM Panic (World σ φ) (Except OSError Unit × MemorySet F) :=
  self.manuallyAllocRange buf (wsub (wadd buf len) 1)

/-- Unmap everything. -/
def clearUserPages (self : MemorySet F) : EStateM Panic (World σ φ) (MemorySet F) :=
  if !self.isUser then
    pure self
  else do
    let (_, self) ← self.munmap LOWER_LIMIT UPPER_LIMIT
    pure self

/-- Unmap everything below the limit of user addresses. -/
def clearUserPagesAndSaveKernel (self : MemorySet F) : EStateM Panic (World σ φ) (MemorySet F) :=
  if !self.isUser then
    pure self
  else do
    let (_, self) ← self.munmap LOWER_LIMIT USER_VIRT_ADDR_LIMIT
    pure self

/-- The loop of `read`, which is `read_write` with the reading closure; a round treats at least one
byte, so `len` rounds are enough. The buffer `dst` afterwards is part of the result. -/
def readLoop (accessFlags : PTEFlags) : ℕ → MemorySet F → List UInt8 → ℕ → ℕ → ℕ →
    EStateM Panic (World σ φ) (Except OSError Unit × MemorySet F × List UInt8)
  | 0, self, dst, _, _, _ => pure (.ok (), self, dst)
  | rounds + 1, self, dst, start, len, processed =>
    if len > 0 then
      match self.areaMap.find start with
      | some area =>
        if area.end_ ≤ start then
          pure (.error .memorySet_invalidRange, self, dst)
        else if !area.flags.contains accessFlags then
          pure (.error .pageFaultHandler_accessDenied, self, dst)
        else
          let n := min (area.end_ - start) len
          if processed + n > dst.length then
            throw .indexOutOfBounds
          else do
            let (r, pma, piece) ← area.pma.read (start - area.start) ((dst.drop processed).take n)
            let dst := dst.take processed ++ piece ++ dst.drop (processed + n)
            let self := { self with areaMap := self.areaMap.setSegment start { area with pma } }
            match r with
            | .error e => pure (.error e, self, dst)
            | .ok _ => readLoop accessFlags rounds self dst (start + n) (len - n) (processed + n)
      | none => pure (.error .memorySet_invalidRange, self, dst)
    else
      pure (.ok (), self, dst)

/-- Read bytes out of the areas, past the page table. -/
def read (self : MemorySet F) (start len : ℕ) (dst : List UInt8) (accessFlags : PTEFlags) :
    EStateM Panic (World σ φ) (Except OSError Unit × MemorySet F × List UInt8) :=
  readLoop accessFlags len self dst start len 0

/-- The loop of `write`, which is `read_write` with the writing closure; a round treats at least
one byte, so `len` rounds are enough. -/
def writeLoop (src : List UInt8) (accessFlags : PTEFlags) : ℕ → MemorySet F → ℕ → ℕ → ℕ →
    EStateM Panic (World σ φ) (Except OSError Unit × MemorySet F)
  | 0, self, _, _, _ => pure (.ok (), self)
  | rounds + 1, self, start, len, processed =>
    if len > 0 then
      match self.areaMap.find start with
      | some area =>
        if area.end_ ≤ start then
          pure (.error .memorySet_invalidRange, self)
        else if !area.flags.contains accessFlags then
          pure (.error .pageFaultHandler_accessDenied, self)
        else
          let n := min (area.end_ - start) len
          if processed + n > src.length then
            throw .indexOutOfBounds
          else do
            let (r, pma) ← area.pma.write (start - area.start) ((src.drop processed).take n)
            let self := { self with areaMap := self.areaMap.setSegment start { area with pma } }
            match r with
            | .error e => pure (.error e, self)
            | .ok _ => writeLoop src accessFlags rounds self (start + n) (len - n) (processed + n)
      | none => pure (.error .memorySet_invalidRange, self)
    else
      pure (.ok (), self)

/-- Write bytes into the areas, past the page table. -/
def write (self : MemorySet F) (start len : ℕ) (src : List UInt8) (accessFlags : PTEFlags) :
    EStateM Panic (World σ φ) (Except OSError Unit × MemorySet F) :=
  writeLoop src accessFlags len self start len 0

/-- The `Drop` of an address space: everything is unmapped, then the frames that are left and the
tables are freed. -/
def drop (self : MemorySet F) : EStateM Panic (World σ φ) Unit := do
  let self ← self.clearUserPages
  self.areaMap.iter.forM fun area ↦ area.pma.drop
  self.pt.frames.forM frameDrop

/-- The loop of `copy_as_fork` over the areas; on an error the new address space is dropped. -/
def copyAreas : List (VmArea F) → MemorySet F →
    ExceptT OSError (EStateM Panic (World σ φ)) (MemorySet F)
  | [], ms => pure ms
  | area :: rest, ms =>
    if area.isUser then do
      match ← ExceptT.lift (area.copyToNewAreaWithData (σ := σ) (φ := φ)).run with
      | .error e =>
        ExceptT.lift ms.drop
        throw e
      | .ok newArea =>
        let (r, ms) ← ExceptT.lift (ms.push newArea)
        match r with
        | .error e =>
          ExceptT.lift ms.drop
          throw e
        | .ok () => copyAreas rest ms
    else
      copyAreas rest ms

/-- A copy of the address space with frames of its own. -/
def copyAsFork (self : MemorySet F) (kernelRoot : ℕ) :
    ExceptT OSError (EStateM Panic (World σ φ)) (MemorySet F) := do
  let ms ← ExceptT.lift (newMemorySetForTask kernelRoot)
  copyAreas self.areaMap.iter ms

end MemorySet

end Maturin
