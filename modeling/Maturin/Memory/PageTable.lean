import Maturin.Memory.Entry
import Maturin.Memory.World

/-!
# Page tables

`PageTable` of `memory/page_table.rs`. A table is a frame of 512 entries; the entry in slot `idx`
of the table at `paddr` is the word at `paddr + 8 * idx`, and a reference to an entry is the
address of its word. The methods work on the page table and the physical memory together. Switching
to a table and flushing the TLB change neither and are left out.
-/

open Exec

namespace Maturin

/-- The root table and the frames that hold the tables. -/
structure PageTable where
  rootPaddr : ℕ
  frames : List ℕ

variable {σ φ : Type}

/-- The address of the entry in slot `idx` of the table at `paddr`. -/
def getPteAt (paddr idx : ℕ) : ℕ := paddr + 8 * idx

/-- Read the entry at an address. -/
def readPte (pte : ℕ) : EStateM Panic (PageTable × World σ φ) ℕ := do
  let s ← get
  pure (s.2.mem.load 8 pte)

/-- Write the entry at an address. -/
def writePte (pte bits : ℕ) : EStateM Panic (PageTable × World σ φ) Unit :=
  modify fun s ↦ (s.1, s.2.setMem (s.2.mem.store 8 pte bits))

namespace PageTable

section create

variable [FrameAllocator σ]

/-- A page table with an empty root table. -/
def new : ExceptT OSError (EStateM Panic (World σ φ)) PageTable := do
  match ← ExceptT.lift frameNew with
  | some frame =>
    ExceptT.lift (frameZero frame)
    pure { rootPaddr := frame, frames := [frame] }
  | none => throw .pageTable_frameAllocFailed

/-- `PageTableEntry::alloc_and_set` for the entry at `pte`. -/
def allocAndSet (pte : ℕ) : EStateM Panic (PageTable × World σ φ) (Option ℕ) := do
  match ← onSnd frameNew with
  | some frame =>
    onSnd (frameZero frame)
    writePte pte (PageTableEntry.setAll frame PTEFlags.VALID)
    pure (some frame)
  | none => pure none

/-- The table that the entry at `pte` points to; an empty entry gets a new table. -/
def getAddrCreate (pte : ℕ) : EStateM Panic (PageTable × World σ φ) (Option ℕ) := do
  let bits ← readPte pte
  if PageTableEntry.isValid bits then
    pure (some (PageTableEntry.addr bits))
  else
    match ← allocAndSet pte with
    | some frame =>
      modify fun s ↦ ({ s.1 with frames := s.1.frames ++ [frame] }, s.2)
      let bits ← readPte pte
      pure (some (PageTableEntry.addr bits))
    | none => pure none

/-- The leaf entry of an address; missing tables are created. -/
def findPteCreate (vaddr : ℕ) : EStateM Panic (PageTable × World σ φ) (Option ℕ) := do
  let (line0, line1, line2) := pteIdxOfVirtAddr vaddr
  let s ← get
  match ← getAddrCreate (getPteAt s.1.rootPaddr line0) with
  | none => pure none
  | some paddr =>
    match ← getAddrCreate (getPteAt paddr line1) with
    | none => pure none
    | some paddr => pure (some (getPteAt paddr line2))

/-- Map a page. With empty flags only the tables are created. -/
def map (vaddr paddr : ℕ) (flags : PTEFlags) :
    ExceptT OSError (EStateM Panic (PageTable × World σ φ)) Unit := do
  match ← ExceptT.lift (findPteCreate vaddr) with
  | some pte =>
    let bits ← ExceptT.lift (readPte pte)
    if PageTableEntry.isValid bits then
      throw .pageTable_pageAlreadyMapped
    else if flags ≠ 0 then
      ExceptT.lift (writePte pte (PageTableEntry.setAll paddr flags.mapped))
    else
      pure ()
  | none => throw .pageTable_frameAllocFailed

/-- Change the flags of a mapped page. -/
def setFlags (vaddr : ℕ) (flags : PTEFlags) :
    ExceptT OSError (EStateM Panic (PageTable × World σ φ)) Unit := do
  match ← ExceptT.lift (findPteCreate vaddr) with
  | some pte =>
    let bits ← ExceptT.lift (readPte pte)
    if PageTableEntry.isValid bits then
      ExceptT.lift (writePte pte (PageTableEntry.setFlags bits flags.mapped))
    else
      throw .pageTable_pageNotMapped
  | none => throw .pageTable_frameAllocFailed

end create

/-- The leaf entry of an address, if its tables exist. -/
def findPte (vaddr : ℕ) : EStateM Panic (PageTable × World σ φ) (Option ℕ) := do
  let (line0, line1, line2) := pteIdxOfVirtAddr vaddr
  let s ← get
  let bits ← readPte (getPteAt s.1.rootPaddr line0)
  if !PageTableEntry.isValid bits then
    pure none
  else
    let bits ← readPte (getPteAt (PageTableEntry.addr bits) line1)
    if !PageTableEntry.isValid bits then
      pure none
    else
      pure (some (getPteAt (PageTableEntry.addr bits) line2))

/-- Unmap a page. -/
def unmap (vaddr : ℕ) : ExceptT OSError (EStateM Panic (PageTable × World σ φ)) Unit := do
  match ← ExceptT.lift (findPte vaddr) with
  | some pte =>
    let bits ← ExceptT.lift (readPte pte)
    if !PageTableEntry.isValid bits then
      throw .pageTable_pageNotMapped
    else
      ExceptT.lift (writePte pte 0)
  | none => throw .pageTable_virtNotFound

/-- Copy a slot of the kernel's root table. -/
def copySlot (kernelRoot line : ℕ) : EStateM Panic (PageTable × World σ φ) Unit := do
  let s ← get
  let bits ← readPte (getPteAt kernelRoot line)
  writePte (getPteAt s.1.rootPaddr line) bits

/-- Share the kernel's part of the address space: slots 510 and 511 of its root table. -/
def mapKernelRegions (kernelRoot : ℕ) : EStateM Panic (PageTable × World σ φ) Unit :=
  [510, 511].forM (copySlot kernelRoot)

end PageTable

end Maturin
