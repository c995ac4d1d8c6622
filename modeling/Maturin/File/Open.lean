import Maturin.File.Link

/-!
# Opening a file

`open_file` with all its flags. With `CREATE`, a file that exists is emptied and one that does not
is created, on the disk as in a virtual directory; without it nothing changes, and the call is the
one that the table of links was modelled with.
-/

namespace Maturin

/-- What `open_file` calls to make a file or to empty it. -/
structure NewFiles (σ Γ D F : Type) where
  /-- Is the error of `open_file` that there is no file of this name? -/
  notFound : σ → D → List Char → Bool
  /-- `create_file` -/
  createFile : σ → D → List Char → Option (F × σ)
  /-- `truncate` at the start of the file -/
  truncate : σ → F → Option σ
  /-- `VirtFile::new` -/
  virtFile : OpenFlags → Γ
  /-- `clear` of a file in a virtual directory -/
  clear : Γ → Γ

variable {σ Γ D F : Type}

/-- `clear`, which does nothing to a directory. -/
def VirtNode.clear (C : NewFiles σ Γ D F) : VirtNode Γ → VirtNode Γ
  | file f => file (C.clear f)
  | dir name => dir name

namespace VirtDir

/-- The first entry with a name holds another file. -/
def setFile (vdir : VirtDir Γ) (fileName : List Char) (node : VirtNode Γ) : VirtDir Γ :=
  { vdir with
    entry := vdir.entry.replaceF fun e ↦
      if e.name = fileName then some { e with file := node } else none }

/-- `VirtDir::get_file`, and the directory after it. -/
def getOrCreate (C : NewFiles σ Γ D F) (vdir : VirtDir Γ) (fileName : List Char)
    (flags : OpenFlags) : Option (VirtNode Γ) × VirtDir Γ :=
  if flags.contains OpenFlags.DIR || flags.contains OpenFlags.DSYNC || fileName.length = 0 then
    if fileName.length = 0 then (some (.dir vdir.name), vdir)
    else ((vdir.find fileName).map DirEntry.file, vdir)
  else
    match vdir.find fileName with
    | some e =>
      if flags.contains OpenFlags.EXCL then (none, vdir)
      else if flags.contains OpenFlags.CREATE then
        (some (e.file.clear C), vdir.setFile fileName (e.file.clear C))
      else (some e.file, vdir)
    | none =>
      if flags.contains OpenFlags.CREATE then
        let node := .file (C.virtFile flags)
        (some node, { vdir with entry := vdir.entry ++ [⟨fileName, node⟩] })
      else (none, vdir)

theorem getOrCreate_of_not {C : NewFiles σ Γ D F} {vdir : VirtDir Γ} {fileName : List Char}
    {flags : OpenFlags} (h : flags.contains OpenFlags.CREATE = false) :
    vdir.getOrCreate C fileName flags = (vdir.getFile fileName flags, vdir) := by
  simp only [getOrCreate, getFile, h, Bool.false_eq_true, if_false]
  split
  · split_ifs <;> rfl
  · cases vdir.find fileName with
    | none => rfl
    | some e => dsimp only; split_ifs <;> rfl

end VirtDir

namespace Disk

/-- `get_virt_file_if_possible`, and the virtual directories after it. -/
def getVirtOrCreate (C : NewFiles σ Γ D F) (d : Disk σ Γ) (dir file : List Char)
    (flags : OpenFlags) : Option (VirtNode Γ) × Disk σ Γ :=
  match virtDirName dir with
  | some name =>
    match d.vfs.get name with
    | some vdir =>
      let (node, vdir) := vdir.getOrCreate C file flags
      (node, { d with vfs := d.vfs.insert name vdir })
    | none => (none, d)
  | none => (none, d)

/-- The part of `open_file` behind the virtual directories; `none` is a panic of one of its calls
of `unwrap`. -/
def openFatOrCreate (K : FatFs σ D F) (C : NewFiles σ Γ D F) (d : Disk σ Γ) (k : FileDisc)
    (flags : OpenFlags) : Option (Option (Opened Γ F) × Disk σ Γ) :=
  let fileName := if k.file = ['.'] then [] else k.file
  match K.innerOpenDir d.fat k.path with
  | some dir =>
    if flags.contains OpenFlags.DIR || flags.contains OpenFlags.DSYNC || fileName.length = 0 then
      if fileName.length = 0 then some (some (.fdDir (k.path ++ fileName)), d)
      else if (K.openDir d.fat dir fileName).isSome then
        some (some (.fdDir (k.path ++ fileName)), d)
      else some (none, d)
    else
      let fatFile := fun file ↦
        Opened.fatFile flags.readWrite.1 flags.readWrite.2 k.path fileName file flags
      match K.openFile d.fat dir fileName with
      | some file =>
        if flags.contains OpenFlags.EXCL && !tmpDir.isPrefixOf k.path then some (none, d)
        else if flags.contains OpenFlags.CREATE then
          (C.truncate d.fat file).map fun fat ↦ (some (fatFile file), { d with fat })
        else some (some (fatFile file), d)
      | none =>
        if C.notFound d.fat dir fileName && flags.contains OpenFlags.CREATE then
          (C.createFile d.fat dir fileName).map fun (file, fat) ↦
            (some (fatFile file), { d with fat })
        else some (none, d)
  | none => some (none, d)

/-- The part of `open_file` behind the table of links. -/
def openOrCreate (K : FatFs σ D F) (C : NewFiles σ Γ D F) (d : Disk σ Γ) (k : FileDisc)
    (flags : OpenFlags) : Option (Option (Opened Γ F) × Disk σ Γ) :=
  match d.getVirtOrCreate C k.path k.file flags with
  | (some node, d) => some (some (.virt node), d)
  | (none, d) => d.openFatOrCreate K C k flags

variable {K : FatFs σ D F} {C : NewFiles σ Γ D F} {d : Disk σ Γ} {k : FileDisc} {flags : OpenFlags}

theorem getVirtOrCreate_of_not (h : flags.contains OpenFlags.CREATE = false) :
    d.getVirtOrCreate C k.path k.file flags = (d.getVirtFileIfPossible k.path k.file flags, d) := by
  rw [getVirtOrCreate, getVirtFileIfPossible, virtDir]
  cases virtDirName k.path with
  | none => rfl
  | some name =>
    dsimp only [Option.bind_some]
    cases hget : d.vfs.get name with
    | none => rfl
    | some vdir =>
      dsimp only [Option.bind_some]
      rw [VirtDir.getOrCreate_of_not h, OrdMap.insert_of_get hget]

theorem openFatOrCreate_of_not (h : flags.contains OpenFlags.CREATE = false) :
    d.openFatOrCreate K C k flags = some (d.openFat K k flags, d) := by
  simp only [openFatOrCreate, openFat, h, Bool.false_eq_true, if_false, Bool.and_false]
  generalize (if k.file = ['.'] then [] else k.file) = fileName
  cases K.innerOpenDir d.fat k.path with
  | none => rfl
  | some dir =>
    dsimp only
    split
    · split_ifs <;> rfl
    · cases K.openFile d.fat dir fileName with
      | none => rfl
      | some file => dsimp only; split_ifs <;> rfl

/-- Without `CREATE` nothing changes. -/
theorem openOrCreate_of_not (h : flags.contains OpenFlags.CREATE = false) :
    d.openOrCreate K C k flags = some (d.openFile K k flags, d) := by
  rw [openOrCreate, openFile, getVirtOrCreate_of_not h]
  cases d.getVirtFileIfPossible k.path k.file flags with
  | none => exact openFatOrCreate_of_not h
  | some node => rfl

end Disk

/-- `open_file`; `none` is a panic. -/
def LinkState.openOrCreate (K : FatFs σ D F) (C : NewFiles σ Γ D F) (s : LinkState σ Γ)
    (dirName filePath : List Char) (flags : OpenFlags) :
    Option (Option (Opened Γ F) × LinkState σ Γ) :=
  match s.mapPathAndFile dirName filePath with
  | some k => (s.disk.openOrCreate K C k flags).map fun (opened, disk) ↦ (opened, { s with disk })
  | none => some (none, s)

theorem LinkState.openOrCreate_of_not {K : FatFs σ D F} {C : NewFiles σ Γ D F} {s : LinkState σ Γ}
    {dirName filePath : List Char} {flags : OpenFlags}
    (h : flags.contains OpenFlags.CREATE = false) :
    s.openOrCreate K C dirName filePath flags = some (s.openFile K dirName filePath flags, s) := by
  rw [openOrCreate, openFile]
  cases s.mapPathAndFile dirName filePath with
  | none => rfl
  | some k =>
    dsimp only
    rw [Disk.openOrCreate_of_not h]
    rfl

end Maturin
