import Maturin.File.Path
import Maturin.Lib.OrdMap

/-!
# Files of the disk and of the virtual directories

A name is looked for in two places. Some directories, such as `./dev/` and `./var/tmp/`, are
*virtual*: they are kept in memory in `VFS_DIRS`. Every other directory is one of the FAT file
system on the disk, whose code is not part of the kernel; it is a parameter here, with what the
kernel relies on as laws. The functions of this file are what `open_file`, `check_file_exists`,
`check_dir_exists` and `remove_file` do once a name has gone through the table of links.

Two facts about the file systems matter to the links. The FAT file system takes a name that is
spelled differently, say in capitals, for the same file, while `check_file_exists` compares the
names that a directory lists letter by letter. And a virtual directory that is an entry of another
one counts as an existing file; when it is removed, the files in it are gone.
-/

namespace Maturin

/-! ## Flags of an open call -/

/-- `OpenFlags`. -/
abbrev OpenFlags := BitVec 32

namespace OpenFlags

def RDONLY : OpenFlags := 0

def WRONLY : OpenFlags := 1 <<< 0

def RDWR : OpenFlags := 1 <<< 1

def CREATE : OpenFlags := 1 <<< 6

def EXCL : OpenFlags := 1 <<< 9

def DSYNC : OpenFlags := 1 <<< 16

def DIR : OpenFlags := 1 <<< 21

/-- `contains`. -/
def contains (flags bits : OpenFlags) : Bool := flags &&& bits = bits

/-- `read_write`: whether the file may be read, and whether it may be written. -/
def readWrite (flags : OpenFlags) : Bool × Bool :=
  if flags = 0 then (true, false)
  else if flags.contains WRONLY then (false, true)
  else (true, true)

end OpenFlags

/-! ## Virtual directories -/

/-- What an entry of a virtual directory holds: a file, or the directory with a name in
`VFS_DIRS`. -/
inductive VirtNode (Γ : Type) where
  | file (f : Γ)
  | dir (name : List Char)
  deriving DecidableEq, Repr

/-- `DirEntry`. -/
structure DirEntry (Γ : Type) where
  name : List Char
  file : VirtNode Γ
  deriving DecidableEq, Repr

/-- `VirtDir`. -/
structure VirtDir (Γ : Type) where
  entry : List (DirEntry Γ)
  name : List Char
  deriving DecidableEq, Repr

namespace VirtDir

variable {Γ : Type}

/-- The first entry with a name. -/
def find (vdir : VirtDir Γ) (fileName : List Char) : Option (DirEntry Γ) :=
  vdir.entry.find? fun e ↦ e.name = fileName

/-- `VirtDir::check_file_exists`. -/
def checkFileExists (vdir : VirtDir Γ) (fileName : List Char) : Bool := (vdir.find fileName).isSome

/-- `VirtDir::remove_file`: the first of the entries that were removed, and what is left. -/
def removeFile (vdir : VirtDir Γ) (fileName : List Char) : Option (VirtNode Γ) × VirtDir Γ :=
  ((vdir.find fileName).map DirEntry.file,
    { vdir with entry := vdir.entry.filter fun e ↦ e.name ≠ fileName })

/-- `VirtDir::get_file`, for flags without `CREATE`. -/
def getFile (vdir : VirtDir Γ) (fileName : List Char) (flags : OpenFlags) : Option (VirtNode Γ) :=
  if flags.contains OpenFlags.DIR || flags.contains OpenFlags.DSYNC || fileName.length = 0 then
    if fileName.length = 0 then some (.dir vdir.name)
    else (vdir.find fileName).map DirEntry.file
  else
    match vdir.find fileName with
    | some e => if flags.contains OpenFlags.EXCL then none else some e.file
    | none => none

theorem find_removeFile {vdir : VirtDir Γ} {fileName name : List Char} :
    (vdir.removeFile fileName).2.find name = if name = fileName then none else vdir.find name := by
  rw [removeFile, find, find, List.find?_filter]
  split
  · rename_i heq
    subst heq
    rw [List.find?_eq_none]
    simp
  · rename_i hne
    congr 1
    funext e
    rw [Bool.eq_iff_iff]
    rw [decide_eq_true_eq, decide_eq_true_eq, decide_eq_true_eq]
    exact ⟨And.right, fun h ↦ ⟨fun h' ↦ hne (h.symm.trans h'), h⟩⟩

end VirtDir

/-! ## The FAT file system -/

/-- What the kernel calls of the FAT file system: `σ` is the content of the disk, `D` a directory
and `F` a file that has been opened. A call that returns an error is `none`. -/
structure FatFs (σ D F : Type) where
  /-- `root_dir`. -/
  rootDir : D
  /-- `open_dir`. -/
  openDir : σ → D → List Char → Option D
  /-- `iter`: the names of the entries, and whether each is a directory. -/
  iter : σ → D → List (List Char × Bool)
  /-- `open_file`. -/
  openFile : σ → D → List Char → Option F
  /-- `remove`. -/
  remove : σ → D → List Char → Option σ

namespace FatFs

variable {σ D F : Type}

/-- `inner_open_dir`. -/
def innerOpenDir (K : FatFs σ D F) (fat : σ) (dirName : List Char) : Option D :=
  if dirName = ROOT_DIR then some K.rootDir else K.openDir fat K.rootDir (dirName.drop 2)

/-- The file that opens under a name. -/
def file (K : FatFs σ D F) (fat : σ) (k : FileDisc) : Option F :=
  (K.innerOpenDir fat k.path).bind fun dir ↦ K.openFile fat dir k.file

/-- The directory that opens under a name. -/
def dir (K : FatFs σ D F) (fat : σ) (k : FileDisc) : Option D :=
  (K.innerOpenDir fat k.path).bind fun dir ↦ K.openDir fat dir k.file

/-- The directory lists a file with this very name. -/
def listed (K : FatFs σ D F) (fat : σ) (k : FileDisc) : Bool :=
  match K.innerOpenDir fat k.path with
  | some dir =>
    match (K.iter fat dir).find? fun e ↦ e.1 = k.file with
    | some e => !e.2
    | none => false
  | none => false

/-- What is under a name is removed. -/
def removeAt (K : FatFs σ D F) (fat : σ) (k : FileDisc) : Option σ :=
  (K.innerOpenDir fat k.path).bind fun dir ↦ K.remove fat dir k.file

/-- What the kernel relies on. A file that is listed opens, and is neither the directory itself nor
a directory below. Removing a file takes it away under each of its spellings and leaves all else;
what is removed without being a file is an empty directory. -/
structure Lawful (K : FatFs σ D F) : Prop where
  file_of_listed : ∀ {fat k}, K.listed fat k = true → ∃ f, K.file fat k = some f
  ne_of_listed : ∀ {fat k}, K.listed fat k = true → k.file ≠ [] ∧ k.file ≠ ['.']
  dir_of_file : ∀ {fat k f}, K.file fat k = some f → K.dir fat k = none
  remove_file : ∀ {fat fat' k f}, K.removeAt fat k = some fat' → K.file fat k = some f →
    ∀ w, (K.file fat w = some f → K.file fat' w = none) ∧
      (K.file fat w ≠ some f → K.file fat' w = K.file fat w ∧ K.listed fat' w = K.listed fat w) ∧
      K.dir fat' w = K.dir fat w
  remove_dir : ∀ {fat fat' k}, K.removeAt fat k = some fat' → K.file fat k = none →
    ∀ w, K.file fat' w = K.file fat w ∧ K.listed fat' w = K.listed fat w

/-! ### A disk without directories -/

/-- A disk with files in its root directory only, each under one spelling. -/
def flat : FatFs (List (List Char)) Unit (List Char) where
  rootDir := ()
  openDir _ _ _ := none
  iter names _ := (names.filter fun n ↦ n ≠ [] ∧ n ≠ ['.']).map fun n ↦ (n, false)
  openFile names _ n := if n ∈ names ∧ n ≠ [] ∧ n ≠ ['.'] then some n else none
  remove names _ n := if n ∈ names then some (names.filter (· ≠ n)) else none

variable {names names' : List (List Char)} {k : FileDisc}

theorem file_flat {f : List Char} : flat.file names k = some f ↔
    k.path = ROOT_DIR ∧ (k.file ∈ names ∧ k.file ≠ [] ∧ k.file ≠ ['.']) ∧ k.file = f := by
  rw [file, innerOpenDir]
  split
  · rename_i hroot
    rw [Option.bind_some, and_iff_right hroot, flat, Option.ite_none_right_eq_some,
      Option.some.injEq]
  · rename_i hroot
    exact iff_of_false (by simp [flat]) fun h ↦ hroot h.1

theorem listed_flat : flat.listed names k = true ↔
    k.path = ROOT_DIR ∧ k.file ∈ names ∧ k.file ≠ [] ∧ k.file ≠ ['.'] := by
  rw [listed, innerOpenDir]
  by_cases hroot : k.path = ROOT_DIR
  · rw [if_pos hroot, and_iff_right hroot]
    dsimp only [flat]
    rw [List.find?_map]
    have hmem : ∀ n, n ∈ names.filter (fun n ↦ n ≠ [] ∧ n ≠ ['.']) ↔
        n ∈ names ∧ n ≠ [] ∧ n ≠ ['.'] := by
      intro n
      rw [List.mem_filter, decide_eq_true_iff]
    rw [← hmem]
    cases hfind : (names.filter fun n ↦ n ≠ [] ∧ n ≠ ['.']).find?
        ((fun e : List Char × Bool ↦ decide (e.1 = k.file)) ∘ fun n ↦ (n, false)) with
    | none =>
      refine iff_of_false Bool.false_ne_true fun h ↦ ?_
      exact List.find?_eq_none.mp hfind k.file h (decide_eq_true rfl)
    | some n =>
      have hn : n = k.file := by simpa using List.find?_some hfind
      exact iff_of_true rfl (hn ▸ List.mem_of_find?_eq_some hfind)
  · rw [if_neg hroot]
    exact iff_of_false (by simp [flat]) fun h ↦ hroot h.1

theorem removeAt_flat : flat.removeAt names k = some names' ↔
    k.path = ROOT_DIR ∧ k.file ∈ names ∧ names' = names.filter (· ≠ k.file) := by
  rw [removeAt, innerOpenDir]
  split
  · rename_i hroot
    rw [Option.bind_some, and_iff_right hroot, flat, Option.ite_none_right_eq_some,
      Option.some.injEq, eq_comm]
  · rename_i hroot
    exact iff_of_false (by simp [flat]) fun h ↦ hroot h.1

theorem dir_flat : flat.dir names k = none := by
  rw [dir, innerOpenDir]
  split <;> rfl

theorem file_flat_filter {f : List Char} {n : List Char} :
    flat.file (names.filter (· ≠ n)) k = some f ↔ k.file ≠ n ∧ flat.file names k = some f := by
  rw [file_flat, file_flat, List.mem_filter, decide_eq_true_iff]
  tauto

theorem listed_flat_filter {n : List Char} :
    flat.listed (names.filter (· ≠ n)) k = true ↔ k.file ≠ n ∧ flat.listed names k = true := by
  rw [listed_flat, listed_flat, List.mem_filter, decide_eq_true_iff]
  tauto

theorem flat_lawful : flat.Lawful where
  file_of_listed {fat k} h := by
    obtain ⟨hroot, hfile⟩ := listed_flat.mp h
    exact ⟨k.file, file_flat.mpr ⟨hroot, hfile, rfl⟩⟩
  ne_of_listed h := (listed_flat.mp h).2.2
  dir_of_file _ := dir_flat
  remove_file {fat fat' k f} hrem hf w := by
    obtain ⟨-, -, rfl⟩ := removeAt_flat.mp hrem
    obtain ⟨-, -, rfl⟩ := file_flat.mp hf
    refine ⟨fun hw ↦ ?_, fun hw ↦ ⟨?_, ?_⟩, dir_flat.trans dir_flat.symm⟩
    · rw [Option.eq_none_iff_forall_ne_some]
      exact fun g hg ↦ (file_flat_filter.mp hg).1 (file_flat.mp hw).2.2
    · ext g
      rw [file_flat_filter, and_iff_right_iff_imp]
      intro hg heq
      obtain rfl := (file_flat.mp hg).2.2
      exact hw (heq ▸ hg)
    · rw [Bool.eq_iff_iff, listed_flat_filter, and_iff_right_iff_imp]
      intro hlisted heq
      obtain ⟨hroot, hfile⟩ := listed_flat.mp hlisted
      exact hw (file_flat.mpr ⟨hroot, hfile, heq⟩)
  remove_dir {fat fat' k} hrem hnone w := by
    obtain ⟨hroot, hmem, rfl⟩ := removeAt_flat.mp hrem
    have hk : ∀ {f}, flat.file fat w = some f → w.file ≠ k.file := by
      intro f hf heq
      obtain ⟨-, hfile, -⟩ := file_flat.mp hf
      have hsome := file_flat.mpr ⟨hroot, heq ▸ hfile, rfl⟩
      exact absurd (hnone.symm.trans hsome) (by simp)
    constructor
    · ext g
      rw [file_flat_filter, and_iff_right_iff_imp]
      exact hk
    · rw [Bool.eq_iff_iff, listed_flat_filter, and_iff_right_iff_imp]
      intro hlisted
      obtain ⟨hroot', hfile⟩ := listed_flat.mp hlisted
      exact hk (file_flat.mpr ⟨hroot', hfile, rfl⟩)

end FatFs

/-! ## Both together -/

/-- The name in `VFS_DIRS` of a directory: its path without `./` in front and the slash at the
end. -/
def virtDirName : List Char → Option (List Char)
  | '.' :: '/' :: rest => if rest.getLast? = some '/' then some rest.dropLast else none
  | _ => none

theorem eq_of_virtDirName {dir name : List Char} (h : virtDirName dir = some name) :
    dir = ROOT_DIR ++ (name ++ ['/']) := by
  rw [virtDirName.eq_def] at h
  split at h
  · rename_i rest
    split at h
    · rename_i hlast
      rw [← Option.some.inj h, List.dropLast_append_getLast? '/' hlast]
      rfl
    · exact absurd h (by simp)
  · exact absurd h (by simp)

/-- The disk and the virtual directories `VFS_DIRS`. -/
structure Disk (σ Γ : Type) where
  fat : σ
  vfs : OrdMap (List Char) (VirtDir Γ)

/-- A file that `open_file` returned. -/
inductive Opened (Γ F : Type) where
  | virt (node : VirtNode Γ)
  | fdDir (path : List Char)
  | fatFile (readable writable : Bool) (dir name : List Char) (file : F) (flags : OpenFlags)
  deriving DecidableEq, Repr

namespace Disk

variable {σ Γ D F : Type}

/-- The virtual directory with a path. -/
def virtDir (d : Disk σ Γ) (dir : List Char) : Option (VirtDir Γ) :=
  (virtDirName dir).bind d.vfs.get

/-- `get_virt_file_if_possible`. -/
def getVirtFileIfPossible (d : Disk σ Γ) (dir file : List Char) (flags : OpenFlags) :
    Option (VirtNode Γ) :=
  (d.virtDir dir).bind fun vdir ↦ vdir.getFile file flags

/-- `check_virt_file_exists`. -/
def checkVirtFileExists (d : Disk σ Γ) (dir fileName : List Char) : Option Bool :=
  (d.virtDir dir).map fun vdir ↦ vdir.checkFileExists fileName

/-- `check_virt_dir_exists`. -/
def checkVirtDirExists (d : Disk σ Γ) (dir : List Char) : Option Bool :=
  (virtDirName dir).map fun name ↦ (d.vfs.get name).isSome

/-- `try_remove_virt_file`, with the virtual directories that are left. -/
def tryRemoveVirtFile (d : Disk σ Γ) (dir fileName : List Char) :
    Option (Bool × OrdMap (List Char) (VirtDir Γ)) := do
  let name ← virtDirName dir
  let vdir ← d.vfs.get name
  match vdir.removeFile fileName with
  | (some (.file _), vdir) => some (true, d.vfs.insert name vdir)
  | (some (.dir dirName), vdir) => some (true, (d.vfs.insert name vdir).remove dirName)
  | (none, _) => some (false, d.vfs)

/-- The part of `check_file_exists` behind the table of links. -/
def fileExists (K : FatFs σ D F) (d : Disk σ Γ) (k : FileDisc) : Bool :=
  match d.checkVirtFileExists k.path k.file with
  | some found => found
  | none => K.listed d.fat k

/-- The part of `check_dir_exists` behind the table of links. -/
def dirExists (K : FatFs σ D F) (d : Disk σ Γ) (dir : List Char) : Bool :=
  d.checkVirtDirExists dir = some true || (K.innerOpenDir d.fat dir).isSome

/-- `remove_file`; `none` is a panic of one of its calls of `unwrap`. -/
def removeFile (K : FatFs σ D F) (d : Disk σ Γ) (k : FileDisc) : Option (Disk σ Γ) :=
  match d.tryRemoveVirtFile k.path k.file with
  | some (_, vfs) => some { d with vfs }
  | none => (K.removeAt d.fat k).map fun fat ↦ { d with fat }

/-- The directory in which an existing file may be opened with `EXCL`. -/
def tmpDir : List Char := ['.', '/', 't', 'm', 'p', '/']

/-- The part of `open_file` behind the virtual directories, for flags without `CREATE`. -/
def openFat (K : FatFs σ D F) (d : Disk σ Γ) (k : FileDisc) (flags : OpenFlags) :
    Option (Opened Γ F) :=
  let fileName := if k.file = ['.'] then [] else k.file
  match K.innerOpenDir d.fat k.path with
  | some dir =>
    if flags.contains OpenFlags.DIR || flags.contains OpenFlags.DSYNC || fileName.length = 0 then
      if fileName.length = 0 then some (.fdDir (k.path ++ fileName))
      else if (K.openDir d.fat dir fileName).isSome then some (.fdDir (k.path ++ fileName))
      else none
    else
      match K.openFile d.fat dir fileName with
      | some file =>
        if flags.contains OpenFlags.EXCL && !tmpDir.isPrefixOf k.path then none
        else some (.fatFile flags.readWrite.1 flags.readWrite.2 k.path fileName file flags)
      | none => none
  | none => none

/-- The part of `open_file` behind the table of links, for flags without `CREATE`. -/
def openFile (K : FatFs σ D F) (d : Disk σ Γ) (k : FileDisc) (flags : OpenFlags) :
    Option (Opened Γ F) :=
  match d.getVirtFileIfPossible k.path k.file flags with
  | some node => some (.virt node)
  | none => d.openFat K k flags

/-! ## What a removal takes away -/

variable {K : FatFs σ D F} {d d' : Disk σ Γ} {k w : FileDisc}

/-- Two names of one file: they are equal, or the FAT file system opens the same file for both. -/
def SameFile (K : FatFs σ D F) (d : Disk σ Γ) (k w : FileDisc) : Prop :=
  k = w ∨ d.virtDir k.path = none ∧ d.virtDir w.path = none ∧
    ∃ f, K.file d.fat k = some f ∧ K.file d.fat w = some f

/-- What is under a name is not a virtual directory with entries. -/
def Bare (d : Disk σ Γ) (k : FileDisc) : Prop :=
  ∀ vdir name dirName sub, d.virtDir k.path = some vdir →
    vdir.find k.file = some ⟨name, .dir dirName⟩ → d.vfs.get dirName = some sub → sub.entry = []

theorem fileExists_of_virtDir {vdir : VirtDir Γ} (h : d.virtDir k.path = some vdir) :
    d.fileExists K k = (vdir.find k.file).isSome := by
  rw [fileExists, checkVirtFileExists, h]
  rfl

theorem fileExists_of_none (h : d.virtDir k.path = none) :
    d.fileExists K k = K.listed d.fat k := by
  rw [fileExists, checkVirtFileExists, h]
  rfl

theorem virtDir_some {dir : List Char} {vdir : VirtDir Γ} (h : d.virtDir dir = some vdir) :
    ∃ name, virtDirName dir = some name ∧ d.vfs.get name = some vdir :=
  Option.bind_eq_some_iff.mp h

theorem removeFile_of_none (h : d.virtDir k.path = none) :
    d.removeFile K k = (K.removeAt d.fat k).map fun fat ↦ { d with fat } := by
  have hnone : d.tryRemoveVirtFile k.path k.file = none := by
    rw [virtDir] at h
    rw [tryRemoveVirtFile]
    cases hname : virtDirName k.path with
    | none => rfl
    | some name =>
      rw [hname, Option.bind_some] at h
      rw [Option.bind_eq_bind, Option.bind_some, h]
      rfl
  rw [removeFile, hnone]

theorem virtDirName_inj {dir dir' name : List Char} (h : virtDirName dir = some name)
    (h' : virtDirName dir' = some name) : dir = dir' := by
  rw [eq_of_virtDirName h, eq_of_virtDirName h']

/-- Nothing is removed from a virtual directory that does not have the name. -/
theorem removeFile_of_find_none {vdir : VirtDir Γ} (hdir : d.virtDir k.path = some vdir)
    (hfind : vdir.find k.file = none) : d.removeFile K k = some d := by
  obtain ⟨name, hname, hvdir⟩ := virtDir_some hdir
  have hrem : vdir.removeFile k.file = (none, (vdir.removeFile k.file).2) := by
    rw [VirtDir.removeFile, hfind]
    rfl
  rw [removeFile, tryRemoveVirtFile, hname, Option.bind_eq_bind, Option.bind_some, hvdir,
    Option.bind_eq_bind, Option.bind_some, hrem]

/-- Removing an entry from a virtual directory leaves the disk and the other virtual directories,
but for a directory that was the entry. -/
theorem removeFile_of_find {vdir : VirtDir Γ} {e : DirEntry Γ}
    (hdir : d.virtDir k.path = some vdir) (hfind : vdir.find k.file = some e) (hbare : d.Bare k) :
    ∃ d', d.removeFile K k = some d' ∧ d'.fat = d.fat ∧
      d'.virtDir k.path = some (vdir.removeFile k.file).2 ∧
      ∀ dir, dir ≠ k.path → d'.virtDir dir = d.virtDir dir ∨
        ∃ sub, d.virtDir dir = some sub ∧ sub.entry = [] := by
  obtain ⟨name, hname, hvdir⟩ := virtDir_some hdir
  have hother : ∀ {dir name' : List Char}, dir ≠ k.path → virtDirName dir = some name' →
      name' ≠ name := by
    rintro dir _ hne hname' rfl
    exact hne (virtDirName_inj hname' hname)
  have hrem : vdir.removeFile k.file = (some e.file, (vdir.removeFile k.file).2) := by
    rw [VirtDir.removeFile, hfind]
    rfl
  rw [removeFile, tryRemoveVirtFile, hname, Option.bind_eq_bind, Option.bind_some, hvdir,
    Option.bind_eq_bind, Option.bind_some, hrem]
  generalize (vdir.removeFile k.file).2 = rest
  obtain ⟨entryName, node⟩ := e
  cases node with
  | file f =>
    refine ⟨_, rfl, rfl, ?_, fun dir hne ↦ Or.inl ?_⟩
    · rw [virtDir, hname, Option.bind_some, OrdMap.get_insert_self]
    · rw [virtDir, virtDir]
      cases hname' : virtDirName dir with
      | none => rfl
      | some name' =>
        rw [Option.bind_some, Option.bind_some, OrdMap.get_insert_of_ne (hother hne hname')]
  | dir dirName =>
    -- a directory that is removed has no entries, so that no file goes with it
    have hempty : ∀ sub, d.vfs.get dirName = some sub → sub.entry = [] :=
      fun sub hsub ↦ hbare vdir entryName dirName sub hdir hfind hsub
    refine ⟨_, rfl, rfl, ?_, fun dir hne ↦ ?_⟩
    · have hne : name ≠ dirName := by
        rintro rfl
        rw [VirtDir.find, hempty vdir hvdir] at hfind
        exact absurd hfind (by simp)
      rw [virtDir, hname, Option.bind_some, OrdMap.get_remove_of_ne hne, OrdMap.get_insert_self]
    · rw [virtDir, virtDir]
      cases hname' : virtDirName dir with
      | none => exact Or.inl rfl
      | some name' =>
        rw [Option.bind_some, Option.bind_some]
        rcases eq_or_ne name' dirName with rfl | hne'
        · cases hsub : d.vfs.get name' with
          | none => exact Or.inl OrdMap.get_remove_self
          | some sub => exact Or.inr ⟨sub, rfl, hempty sub hsub⟩
        · rw [OrdMap.get_remove_of_ne hne', OrdMap.get_insert_of_ne (hother hne hname')]
          exact Or.inl rfl

/-- Removing a name without a file takes no file away. -/
theorem fileExists_removeFile_of_not (hK : K.Lawful) (h : d.fileExists K k = false)
    (hfile : d.virtDir k.path = none → K.file d.fat k = none)
    (hrem : d.removeFile K k = some d') (w : FileDisc) :
    d'.fileExists K w = d.fileExists K w := by
  cases hdir : d.virtDir k.path with
  | some vdir =>
    rw [fileExists_of_virtDir hdir, Option.isSome_eq_false_iff, Option.isNone_iff_eq_none] at h
    rw [removeFile_of_find_none hdir h] at hrem
    rw [← Option.some.inj hrem]
  | none =>
    rw [removeFile_of_none hdir, Option.map_eq_some_iff] at hrem
    obtain ⟨fat, hfat, rfl⟩ := hrem
    rw [fileExists, fileExists, (hK.remove_dir hfat (hfile hdir) w).2]
    rfl

/-- Removing an existing file takes away its names and no others. -/
theorem fileExists_removeFile (hK : K.Lawful) (h : d.fileExists K k = true) (hbare : d.Bare k)
    (hrem : d.removeFile K k = some d') (hw : d.fileExists K w = true) :
    d'.fileExists K w = false ↔ d.SameFile K k w := by
  cases hdir : d.virtDir k.path with
  | some vdir =>
    rw [fileExists_of_virtDir hdir] at h
    obtain ⟨e, hfind⟩ := Option.isSome_iff_exists.mp h
    obtain ⟨d₁, hrem', hfat, hvdir, hother⟩ := removeFile_of_find (K := K) hdir hfind hbare
    obtain rfl := Option.some.inj (hrem.symm.trans hrem')
    have hsame : d.SameFile K k w ↔ k = w := by
      rw [SameFile, or_iff_left]
      rintro ⟨hnone, -⟩
      exact absurd (hnone.symm.trans hdir) (by simp)
    rw [hsame]
    -- in another directory only an empty one may be gone
    by_cases hpath : w.path = k.path
    · rw [fileExists_of_virtDir (hpath ▸ hdir)] at hw
      rw [fileExists_of_virtDir (hpath ▸ hvdir), VirtDir.find_removeFile]
      split
      · rename_i hfile
        exact iff_of_true rfl (FileDisc.ext hpath hfile).symm
      · rename_i hfile
        rw [hw]
        exact iff_of_false (by simp) fun heq ↦ hfile (congrArg FileDisc.file heq).symm
    · have hkept : d'.fileExists K w = true := by
        rcases hother w.path hpath with hsub | ⟨sub, hsub, hempty⟩
        · rw [fileExists, checkVirtFileExists, hsub, hfat]
          exact hw
        · rw [fileExists_of_virtDir hsub, VirtDir.find, hempty] at hw
          exact absurd hw (by simp)
      rw [hkept]
      exact iff_of_false (by simp) fun heq ↦ hpath (congrArg FileDisc.path heq).symm
  | none =>
    rw [removeFile_of_none hdir, Option.map_eq_some_iff] at hrem
    obtain ⟨fat, hfat, rfl⟩ := hrem
    rw [fileExists_of_none hdir] at h
    obtain ⟨f, hf⟩ := hK.file_of_listed h
    obtain ⟨hgone, hkept, -⟩ := hK.remove_file hfat hf w
    cases hwdir : d.virtDir w.path with
    | some vdir =>
      have hsame : (⟨fat, d.vfs⟩ : Disk σ Γ).fileExists K w = d.fileExists K w := by
        rw [fileExists_of_virtDir hwdir]
        exact fileExists_of_virtDir hwdir
      rw [hsame, hw]
      refine ⟨fun h' ↦ absurd h' (by simp), ?_⟩
      rintro (rfl | ⟨-, hnone, -⟩)
      · exact absurd (hdir.symm.trans hwdir) (by simp)
      · exact absurd (hnone.symm.trans hwdir) (by simp)
    | none =>
      have hlisted : (⟨fat, d.vfs⟩ : Disk σ Γ).fileExists K w = K.listed fat w :=
        fileExists_of_none hwdir
      rw [fileExists_of_none hwdir] at hw
      rw [hlisted]
      -- both keys lead to one file of the FAT, or the other one is kept
      by_cases hfw : K.file d.fat w = some f
      · refine iff_of_true ?_ (Or.inr ⟨hdir, hwdir, f, hf, hfw⟩)
        by_contra hlist
        obtain ⟨g, hg⟩ := hK.file_of_listed (Bool.of_not_eq_false hlist)
        exact absurd (hg.symm.trans (hgone hfw)) (by simp)
      · rw [(hkept hfw).2, hw]
        refine iff_of_false (by simp) ?_
        rintro (rfl | ⟨-, -, g, hg, hgw⟩)
        · exact hfw hf
        · rw [hg] at hf
          exact hfw (hf ▸ hgw)

/-! ## What opens -/

/-- Nothing opens under a name without `CREATE`. -/
def Vacant (K : FatFs σ D F) (d : Disk σ Γ) (k : FileDisc) : Prop :=
  ∀ flags : OpenFlags, flags.contains OpenFlags.CREATE = false → d.openFile K k flags = none

/-- Nothing on the FAT disk opens under a name without `CREATE`. -/
def FatVacant (K : FatFs σ D F) (d : Disk σ Γ) (k : FileDisc) : Prop :=
  ∀ flags : OpenFlags, flags.contains OpenFlags.CREATE = false → d.openFat K k flags = none

/-- An existing file that is not a directory, under a name that is not empty. -/
structure IsFile (K : FatFs σ D F) (d : Disk σ Γ) (k : FileDisc) : Prop where
  exist : d.fileExists K k = true
  ne_nil : k.file ≠ []
  not_dir : ∀ vdir name dirName, d.virtDir k.path = some vdir →
    vdir.find k.file ≠ some ⟨name, .dir dirName⟩

theorem IsFile.bare (h : d.IsFile K k) : d.Bare k :=
  fun vdir name dirName _ hdir hfind _ ↦ absurd hfind (h.not_dir vdir name dirName hdir)

/-- A file opens for reading. -/
theorem IsFile.isSome_openFile (h : d.IsFile K k) (hK : K.Lawful) :
    (d.openFile K k OpenFlags.RDONLY).isSome = true := by
  have hlen : ¬ k.file.length = 0 := fun hzero ↦ h.ne_nil (List.eq_nil_of_length_eq_zero hzero)
  have hexist := h.exist
  rw [openFile, getVirtFileIfPossible]
  cases hdir : d.virtDir k.path with
  | some vdir =>
    rw [fileExists_of_virtDir hdir] at hexist
    obtain ⟨e, hfind⟩ := Option.isSome_iff_exists.mp hexist
    have hget : vdir.getFile k.file OpenFlags.RDONLY = some e.file := by
      rw [VirtDir.getFile, if_neg (by simp [hlen]; decide), hfind]
      rfl
    rw [Option.bind_some, hget]
    rfl
  | none =>
    rw [fileExists_of_none hdir] at hexist
    obtain ⟨f, hf⟩ := hK.file_of_listed hexist
    obtain ⟨dir, hopen, hfile⟩ := Option.bind_eq_some_iff.mp hf
    rw [Option.bind_none]
    dsimp only
    rw [openFat, if_neg (hK.ne_of_listed hexist).2, hopen]
    dsimp only
    rw [if_neg (by simp [hlen]; decide), hfile]
    rfl

/-- Where neither a file nor a directory is under a name, nothing opens. -/
theorem openFat_eq_none (hfile : K.file d.fat k = none) (hdir : K.dir d.fat k = none)
    (hne : k.file ≠ []) (hdot : k.file ≠ ['.']) (flags : OpenFlags) :
    d.openFat K k flags = none := by
  have hlen : ¬ k.file.length = 0 := fun hzero ↦ hne (List.eq_nil_of_length_eq_zero hzero)
  rw [openFat, if_neg hdot]
  cases hopen : K.innerOpenDir d.fat k.path with
  | none => rfl
  | some dir =>
    rw [FatFs.file, hopen, Option.bind_some] at hfile
    rw [FatFs.dir, hopen, Option.bind_some] at hdir
    dsimp only
    rw [if_neg hlen, hdir, hfile]
    simp

/-- After a file has been removed nothing opens under its name, unless the file was in a virtual
directory and the FAT disk has the name too. -/
theorem IsFile.vacant_iff (h : d.IsFile K k) (hK : K.Lawful) (hrem : d.removeFile K k = some d') :
    d'.Vacant K k ↔ (d.virtDir k.path ≠ none → d.FatVacant K k) := by
  have hexist := h.exist
  cases hdir : d.virtDir k.path with
  | some vdir =>
    rw [fileExists_of_virtDir hdir] at hexist
    obtain ⟨e, hfind⟩ := Option.isSome_iff_exists.mp hexist
    obtain ⟨d₁, hrem', hfat, hvdir, -⟩ := removeFile_of_find (K := K) hdir hfind h.bare
    obtain rfl := Option.some.inj (hrem.symm.trans hrem')
    have hget : ∀ flags, d'.getVirtFileIfPossible k.path k.file flags = none := by
      intro flags
      have hlen : ¬ k.file.length = 0 := fun hzero ↦ h.ne_nil (List.eq_nil_of_length_eq_zero hzero)
      have hnone : (vdir.removeFile k.file).2.find k.file = none := by
        rw [VirtDir.find_removeFile, if_pos rfl]
      rw [getVirtFileIfPossible, hvdir, Option.bind_some, VirtDir.getFile, hnone, if_neg hlen]
      split <;> rfl
    have hopen : ∀ flags, d'.openFile K k flags = d.openFat K k flags := by
      intro flags
      rw [openFile, hget flags, openFat, openFat, hfat]
    rw [Vacant, FatVacant]
    simp only [hopen]
    exact ⟨fun hv _ ↦ hv, fun hv ↦ hv (Option.some_ne_none vdir)⟩
  | none =>
    refine iff_of_true (fun flags _ ↦ ?_) fun hne ↦ absurd rfl hne
    rw [fileExists_of_none hdir] at hexist
    rw [removeFile_of_none hdir, Option.map_eq_some_iff] at hrem
    obtain ⟨fat, hfat, rfl⟩ := hrem
    obtain ⟨f, hf⟩ := hK.file_of_listed hexist
    obtain ⟨hgone, -, hkept⟩ := hK.remove_file hfat hf k
    have hvirt : getVirtFileIfPossible ⟨fat, d.vfs⟩ k.path k.file flags = none := by
      have hnone : virtDir ⟨fat, d.vfs⟩ k.path = none := hdir
      rw [getVirtFileIfPossible, hnone, Option.bind_none]
    rw [openFile, hvirt]
    exact openFat_eq_none (hgone hf) (hkept.trans (hK.dir_of_file hf)) h.ne_nil
      (hK.ne_of_listed hexist).2 flags

/-- A file of a virtual directory can be removed. -/
theorem IsFile.exists_removeFile (h : d.IsFile K k) (hdir : d.virtDir k.path ≠ none) :
    ∃ d', d.removeFile K k = some d' := by
  obtain ⟨vdir, hvdir⟩ := Option.ne_none_iff_exists'.mp hdir
  have hexist := h.exist
  rw [fileExists_of_virtDir hvdir] at hexist
  obtain ⟨e, hfind⟩ := Option.isSome_iff_exists.mp hexist
  obtain ⟨d', hrem, -⟩ := removeFile_of_find (K := K) hvdir hfind h.bare
  exact ⟨d', hrem⟩

end Disk

end Maturin
