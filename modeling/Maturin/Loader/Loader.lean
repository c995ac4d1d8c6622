import Maturin.Loader.InitStack
import Maturin.Memory.MemorySet

/-!
# The ELF loader

`ElfLoader::init_vm` of `loaders/mod.rs`. The headers of the file are parsed by a package, so an
`ElfFile` is a parsed one: the bytes of the file, its program headers, those of its sections that
the loader looks for, and the fields of the file header that it reads. Data of a segment or a
section of the wrong kind cannot occur in the first and is `other` in the second.

A program with an interpreter makes the loader load the interpreter instead, by `parse_user_app`,
which is a parameter. What `init_vm` owns when it returns an error is dropped.
-/

namespace Maturin

variable {σ φ F : Type}

abbrev ELF_BASE_RELOCATE : ℕ := 0x4000000

/-! ## Parsed files -/

/-- The types of program headers that the loader tells apart. -/
inductive SegmentType
  | load
  | interp
  | other
  deriving DecidableEq

/-- The permissions of a segment, bits 0 to 2 of its flags. -/
structure SegmentFlags where
  execute : Bool
  write : Bool
  read : Bool
  deriving DecidableEq

def SegmentFlags.into (f : SegmentFlags) : PTEFlags :=
  PTEFlags.USER ||| (if f.read then PTEFlags.READ else 0) |||
    (if f.write then PTEFlags.WRITE else 0) ||| if f.execute then PTEFlags.EXECUTE else 0

structure ProgramHeader where
  type : SegmentType
  flags : SegmentFlags
  offset : ℕ
  virtualAddr : ℕ
  fileSize : ℕ
  memSize : ℕ
  deriving DecidableEq

/-- A relocation. -/
structure Rela where
  offset : ℕ
  type : ℕ
  symbolTableIndex : ℕ
  addend : ℕ
  deriving DecidableEq

/-- A symbol, and whether the string table has its name. -/
structure DynSym where
  shndx : ℕ
  value : ℕ
  named : Bool
  deriving DecidableEq

inductive SectionData
  | rela64 (entries : List Rela)
  | dynSymbolTable64 (symbols : List DynSym)
  | other
  deriving DecidableEq

structure ElfFile where
  input : List UInt8
  programHeaders : List ProgramHeader
  sections : List (String × SectionData)
  entryPoint : ℕ
  phOffset : ℕ
  phEntrySize : ℕ
  phCount : ℕ
  deriving DecidableEq

def REL_GOT : ℕ := 6
def REL_PLT : ℕ := 7
def REL_RELATIVE : ℕ := 8
def R_RISCV_64 : ℕ := 2
def R_RISCV_RELATIVE : ℕ := 3

/-- The `str` of the bytes up to a zero, or `"p"` if they are no string. -/
def rawPtrToRefStr (bytes : List UInt8) : String :=
  (String.fromUTF8? ⟨(bytes.takeWhile (· ≠ 0)).toArray⟩).getD "p"

namespace ElfFile

variable (elf : ElfFile)

/-- The bytes of the file that a program header is about. -/
def getData (ph : ProgramHeader) : EStateM Panic (World σ φ) (List UInt8) :=
  if wadd ph.offset ph.fileSize < ph.offset ∨ wadd ph.offset ph.fileSize > elf.input.length then
    throw .indexOutOfBounds
  else
    pure ((elf.input.drop ph.offset).take ph.fileSize)

def findSectionByName (name : String) : Option SectionData :=
  (elf.sections.find? fun s ↦ s.1 = name).map (·.2)

/-- The header of the segment with the start of the file. -/
def baseHeader : Option ProgramHeader :=
  elf.programHeaders.find? fun ph ↦ ph.type = .load ∧ ph.offset = 0

/-- How far the addresses of the program are shifted. -/
def dynBase : ℕ :=
  match elf.baseHeader with
  | some ph => if ph.virtualAddr ≠ 0 then 0 else ELF_BASE_RELOCATE
  | none => 0

def elfBaseVaddr : ℕ :=
  match elf.baseHeader with
  | some ph => if ph.virtualAddr ≠ 0 then ph.virtualAddr else ELF_BASE_RELOCATE
  | none => 0

/-- The information on the stack of the program. -/
def initInfo (args : List String) : InitInfo where
  args
  envs := [
    "SHLVL=1",
    "PATH=/usr/sbin:/usr/bin:/sbin:/bin",
    "PWD=/",
    "GCC_EXEC_PREFIX=/riscv64-linux-musl-native/bin/../lib/gcc/",
    "COLLECT_GCC=./riscv64-linux-musl-native/bin/riscv64-linux-musl-gcc",
    "COLLECT_LTO_WRAPPER=/riscv64-linux-musl-native/bin/../libexec/gcc/riscv64-linux-musl/" ++
      "11.2.1/lto-wrapper",
    "COLLECT_GCC_OPTIONS='-march=rv64gc' '-mabi=lp64d' '-march=rv64imafdc' '-dumpdir' 'a.'",
    "COMPILER_PATH=/riscv64-linux-musl-native/bin/../libexec/gcc/riscv64-linux-musl/11.2.1/:" ++
      "/riscv64-linux-musl-native/bin/../libexec/gcc/:" ++
      "/riscv64-linux-musl-native/bin/../lib/gcc/riscv64-linux-musl/11.2.1/../../../../" ++
      "riscv64-linux-musl/bin/",
    "LIBRARY_PATH=/riscv64-linux-musl-native/bin/../lib/gcc/riscv64-linux-musl/11.2.1/:" ++
      "/riscv64-linux-musl-native/bin/../lib/gcc/:" ++
      "/riscv64-linux-musl-native/bin/../lib/gcc/riscv64-linux-musl/11.2.1/../../../../" ++
      "riscv64-linux-musl/lib/:/riscv64-linux-musl-native/bin/../lib/:" ++
      "/riscv64-linux-musl-native/bin/../usr/lib/"]
  auxv :=
    let auxv := OrdMap.empty.insert AT_PHDR (wadd elf.elfBaseVaddr elf.phOffset)
    let auxv := auxv.insert AT_PHENT elf.phEntrySize
    let auxv := auxv.insert AT_PHNUM elf.phCount
    let auxv := auxv.insert AT_RANDOM 0
    auxv.insert AT_PAGESZ PAGE_SIZE

end ElfFile

/-! ## Loading -/

variable [FrameAllocator σ] [FileStore F φ]

/-- `VmArea::new` for a filled vector of frames, and `push`. -/
def MemorySet.pushNew (vm : MemorySet F) (start end_ : ℕ) (flags : PTEFlags) (pma : PmAreaLazy F) :
    EStateM Panic (World σ φ) (Except OSError Unit × MemorySet F) :=
  match VmArea.new start end_ flags pma with
  | .error e => do
    pma.drop
    pure (.error e, vm)
  | .ok vma => vm.push vma

namespace ElfFile

variable (elf : ElfFile)

/-- The body of the loop over the program headers. -/
def loadSegment (ph : ProgramHeader) (vm : MemorySet F) :
    EStateM Panic (World σ φ) (Except OSError Unit × MemorySet F) :=
  let pgoff := pageOffset ph.virtualAddr
  match PmAreaLazy.new (pageCount (wadd ph.memSize pgoff)) none with
  | .error e => pure (.error e, vm)
  | .ok pma => do
    let data ← elf.getData ph
    let (r, pma) ← pma.write pgoff data
    match r with
    | .error e =>
      pma.drop
      pure (.error e, vm)
    | .ok _ =>
      vm.pushNew (wadd ph.virtualAddr elf.dynBase)
        (wadd (wadd ph.virtualAddr ph.memSize) elf.dynBase) ph.flags.into pma

def loadSegments : List ProgramHeader → MemorySet F →
    EStateM Panic (World σ φ) (Except OSError Unit × MemorySet F)
  | [], vm => pure (.ok (), vm)
  | ph :: rest, vm =>
    if ph.type ≠ .load then
      loadSegments rest vm
    else do
      let (r, vm) ← elf.loadSegment ph vm
      match r with
      | .error e => pure (.error e, vm)
      | .ok () => loadSegments rest vm

end ElfFile

/-- The value of the symbol of a relocation. -/
def symbolValue (symbols : List DynSym) (entry : Rela) :
    EStateM Panic (World σ φ) (Except OSError ℕ) :=
  match symbols[entry.symbolTableIndex]? with
  | none => throw .indexOutOfBounds
  | some sym =>
    if sym.shndx = 0 then
      if sym.named then throw .relocation else pure (.error .loader_parseElfFailed)
    else
      pure (.ok sym.value)

/-- The loops over relocations, each of which writes a value. -/
def relocate (dynBase : ℕ) (value : Rela → EStateM Panic (World σ φ) (Except OSError ℕ)) :
    List Rela → MemorySet F → EStateM Panic (World σ φ) (Except OSError Unit × MemorySet F)
  | [], vm => pure (.ok (), vm)
  | entry :: rest, vm => do
    match ← value entry with
    | .error e => pure (.error e, vm)
    | .ok v =>
      let (r, vm) ← vm.write (wadd dynBase entry.offset) 8 (toNeBytes v) 0
      match r with
      | .error e => pure (.error e, vm)
      | .ok () => relocate dynBase value rest vm

namespace ElfFile

variable (elf : ElfFile)

/-- The relocations of `.rela.dyn`, if the program is linked dynamically. -/
def relocateDyn (vm : MemorySet F) :
    EStateM Panic (World σ φ) (Except OSError Unit × MemorySet F) :=
  match elf.findSectionByName ".rela.dyn" with
  | none => pure (.ok (), vm)
  | some (.rela64 entries) =>
    match elf.findSectionByName ".dynsym" with
    | none => pure (.ok (), vm)
    | some (.dynSymbolTable64 symbols) =>
      relocate elf.dynBase (fun entry ↦
        if entry.type ∈ [REL_GOT, REL_PLT, R_RISCV_64] then do
          match ← symbolValue symbols entry with
          | .error e => pure (.error e)
          | .ok v => pure (.ok (wadd (wadd elf.dynBase v) entry.addend))
        else if entry.type ∈ [REL_RELATIVE, R_RISCV_RELATIVE] then
          pure (.ok (wadd elf.dynBase entry.addend))
        else
          throw .relocation) entries vm
    | some _ => pure (.error .loader_invalidSection, vm)
  | some _ => pure (.error .loader_invalidSection, vm)

/-- The relocations of `.rela.plt`. -/
def relocatePlt (vm : MemorySet F) :
    EStateM Panic (World σ φ) (Except OSError Unit × MemorySet F) :=
  match elf.findSectionByName ".rela.plt" with
  | none => pure (.ok (), vm)
  | some (.rela64 entries) =>
    match elf.findSectionByName ".dynsym" with
    | some (.dynSymbolTable64 symbols) =>
      relocate elf.dynBase (fun entry ↦
        if entry.type = 5 then do
          match ← symbolValue symbols entry with
          | .error e => pure (.error e)
          | .ok v => pure (.ok (wadd elf.dynBase v))
        else
          throw .relocation) entries vm
    | _ => pure (.error .loader_invalidSection, vm)
  | some _ => pure (.error .loader_invalidSection, vm)

/-- The stack of the program, in whose buffer the kernel found `data`. The result is the entry point
and the top of the stack. -/
def pushStack (args : List String) (data : ByteMem) (vm : MemorySet F) :
    EStateM Panic (World σ φ) (Except OSError (ℕ × ℕ) × MemorySet F) :=
  let stackBottom := USER_STACK_OFFSET
  let stackTop := stackBottom + USER_STACK_SIZE
  match PmAreaLazy.new (pageCount USER_STACK_SIZE) none with
  | .error e => pure (.error e, vm)
  | .ok stackPma =>
    match (elf.initInfo args).serialize stackTop data with
    | .error p => throw p
    | .ok writer => do
      let initStack := writer.deref
      let (r, stackPma) ← stackPma.write (wsub USER_STACK_SIZE initStack.length) initStack
      match r with
      | .error e =>
        stackPma.drop
        pure (.error e, vm)
      | .ok _ =>
        let stackTop := wsub stackTop initStack.length
        let (r, vm) ← vm.pushNew stackBottom stackTop
          (PTEFlags.READ ||| PTEFlags.WRITE ||| PTEFlags.USER) stackPma
        pure (r.map fun _ ↦ (wadd elf.entryPoint elf.dynBase, stackTop), vm)

/-- Load the program into an address space. -/
def initVm (parseUserApp : String → String → MemorySet F → List String →
      EStateM Panic (World σ φ) (Except OSError (ℕ × ℕ) × MemorySet F))
    (vm : MemorySet F) (args : List String) (data : ByteMem) :
    EStateM Panic (World σ φ) (Except OSError (ℕ × ℕ) × MemorySet F) :=
  match elf.programHeaders.find? fun ph ↦ ph.type = .interp with
  | some interpHeader => do
    let _ ← elf.getData interpHeader
    let path := rawPtrToRefStr (elf.input.drop interpHeader.offset)
    let newArgs := path :: args
    let name := (path.toList.reverse.takeWhile (· ≠ '/')).reverse
    if '/' ∈ path.toList then
      let dir := path.toList.take (path.toList.length - name.length)
      parseUserApp (String.ofList dir) (String.ofList name) vm newArgs
    else
      parseUserApp "./" path vm newArgs
  | none => do
    let (r, vm) ← elf.loadSegments elf.programHeaders vm
    match r with
    | .error e => pure (.error e, vm)
    | .ok () =>
      let (r, vm) ← elf.relocateDyn vm
      match r with
      | .error e => pure (.error e, vm)
      | .ok () =>
        let (r, vm) ← elf.relocatePlt vm
        match r with
        | .error e => pure (.error e, vm)
        | .ok () => elf.pushStack args data vm

end ElfFile

end Maturin
