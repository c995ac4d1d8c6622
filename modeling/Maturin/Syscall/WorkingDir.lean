import Maturin.File.Open
import Maturin.Syscall.Flags

/-!
# The working directory

A task keeps its working directory as a text. `sys_chdir` makes the new text of the old one and of
the path, whichever way both are spelled, and checks that the directory is there; `sys_open` hands
the text to `open_file` with a relative path, and `sys_getcwd` returns it.

## When relative paths follow it

`open_file` splits a directory only if it ends with a slash. `sys_chdir` puts a slash between the
text and the path that follows it, but none behind the path, so after `chdir("/abc")` no relative
path opens until the next `chdir`. A path that ends with `..` is not followed either, since the last
component is not entered but looked up, and so is one that ends with `.`, unless it is `.` itself.
Every other relative path opens as the absolute path to which it is normalized.
-/

open Bitflags

namespace Maturin

variable {σ Γ D F : Type}

/-- The directory of the caller in place of the descriptor of one. -/
def AT_FDCWD : BitVec 32 := -100#32

/-- `len` of a string -/
def utf8Len (s : List Char) : ℕ := (s.map Char.utf8Size).sum

/-- The text with a slash at its end. -/
def withSlash (dir : List Char) : List Char :=
  if dir.getLast? = some '/' then dir else dir ++ ['/']

namespace LinkState

/-! ## The calls -/

/-- `sys_chdir`, once the path has been read: its result, and the working directory after it. A
failed call may have added the slash to it. -/
def sysChdir (K : FatFs σ D F) (s : LinkState σ Γ) (dir path : List Char) :
    Except ErrorNo Unit × List Char :=
  let current := if path.head? = some '/' then dir else withSlash dir
  let newPath := if path.head? = some '/' then '.' :: path else current ++ path
  if s.checkDirExists K newPath then (.ok (), newPath) else (.error .EINVAL, current)

/-- The working directory after a sequence of calls of `sys_chdir`, if they all succeed. -/
def chdirs (K : FatFs σ D F) (s : LinkState σ Γ) : List (List Char) → List Char →
    Option (List Char)
  | [], dir => some dir
  | path :: paths, dir =>
    match s.sysChdir K dir path with
    | (.ok (), dir) => s.chdirs K paths dir
    | (.error _, _) => none

end LinkState

/-- `sys_getcwd` with a buffer of `len` bytes: the path in it before the byte 0. The dot in front of
the text is left out. -/
def sysGetcwd (dir : List Char) (len : ℕ) : Except ErrorNo (List Char) :=
  if utf8Len dir - 1 + 1 ≤ len then .ok (dir.drop 1) else .error .ERANGE

/-- `get_dir_from_fd`, where `getDir` gives the path of the directory behind a descriptor. -/
def getDirFromFd (cwd : List Char) (getDir : BitVec 32 → Option (List Char)) (dirFd : BitVec 32) :
    Option (List Char) :=
  if dirFd = AT_FDCWD then some cwd else getDir dirFd

/-- `resolve_path_from_fd` -/
def resolvePathFromFd (cwd : List Char) (getDir : BitVec 32 → Option (List Char))
    (dirFd : BitVec 32) (path : List Char) : Option (List Char × List Char) :=
  if path.head? = some '/' then
    if path.length > 1 then some (ROOT_DIR, path.drop 1) else some (ROOT_DIR, path)
  else
    match getDirFromFd cwd getDir dirFd with
    | some dir => some (dir, path)
    | none => none

/-- The path of the directory itself, which `sys_open` spells with one slash. -/
def spellCurrent (filePath : List Char) : List Char :=
  if filePath = ['.'] then filePath ++ ['/']
  else if ['.', '/', '/'].isPrefixOf filePath then filePath.eraseIdx 1
  else filePath

namespace LinkState

/-- `sys_open` behind the resolved path: the file that goes into the table of descriptors, or the
error; `none` is a panic in `open_file`. -/
def openResolved (K : FatFs σ D F) (C : NewFiles σ Γ D F) (s : LinkState σ Γ)
    (parentDir filePath : List Char) (flags : BitVec 32) :
    Option (Except ErrorNo (Opened Γ F) × LinkState σ Γ) :=
  match fromBits OpenFlags.all flags with
  | none => some (.error .ENOENT, s)
  | some openFlags =>
    (s.openOrCreate K C parentDir filePath openFlags.bits).map fun (node, s) ↦
      match node with
      | some node => (.ok node, s)
      | none =>
        if openFlags.contains OpenFlags.EXCL then (.error .EEXIST, s)
        else if s.checkDirExists K (parentDir ++ filePath) then (.error .EISDIR, s)
        else (.error .ENOENT, s)

/-- `sys_open`, once the path has been read. -/
def sysOpen (K : FatFs σ D F) (C : NewFiles σ Γ D F) (s : LinkState σ Γ) (isFull : Bool)
    (cwd : List Char) (getDir : BitVec 32 → Option (List Char)) (dirFd : BitVec 32)
    (path : List Char) (flags : BitVec 32) :
    Option (Except ErrorNo (Opened Γ F) × LinkState σ Γ) :=
  if isFull then some (.error .EMFILE, s)
  else
    match resolvePathFromFd cwd getDir dirFd path with
    | some (parentDir, filePath) => s.openResolved K C parentDir (spellCurrent filePath) flags
    | none => some (.error .ENOENT, s)

end LinkState

/-! ## What the calls are for -/

/-- The directory to which a sequence of `chdir`s leads. -/
def changeDir (names : List (List Char)) (path : List Char) : List (List Char) :=
  if path.head? = some '/' then walk [] path else walk names path

/-- The absolute path of a directory. -/
def absolutePath (names : List (List Char)) : List Char := '/' :: names.flatMap (· ++ ['/'])

section

/-- Names are compared letter by letter. -/
local instance lawfulBEq_name : LawfulBEq (List Char) := inferInstance

/-- A path from a directory as an absolute path without `.`, `..` and empty components. It ends with
a slash if it leads to a directory by its form. -/
def normalize (names : List (List Char)) (path : List Char) : List Char :=
  if baseName path ∈ [[], ['.'], ['.', '.']] then absolutePath (walk names path)
  else absolutePath (walkFront names path) ++ baseName path

end

/-- After the calls of `sys_chdir`, if they all succeed, opening the relative path is opening the
absolute one to which the directories and the path are normalized, with any flags, and `sys_getcwd`
returns an absolute path of the directory to which the calls lead, if the buffer is long enough. -/
def FollowsWorkingDir (K : FatFs σ D F) (C : NewFiles σ Γ D F) (s : LinkState σ Γ)
    (paths : List (List Char)) (path : List Char) : Prop :=
  ∀ dir, s.chdirs K paths ROOT_DIR = some dir →
    (∀ isFull getDir flags,
      s.sysOpen K C isFull dir getDir AT_FDCWD path flags =
        s.sysOpen K C isFull dir getDir AT_FDCWD
          (normalize (paths.foldl changeDir []) path) flags) ∧
    ∀ len, utf8Len dir ≤ len → ∃ cwd, sysGetcwd dir len = .ok cwd ∧ cwd.head? = some '/' ∧
      walk [] cwd = paths.foldl changeDir []

/-- The text of the working directory ends with a slash after the calls. -/
def EndsWithSlash (paths : List (List Char)) : Prop :=
  ∀ path, paths.getLast? = some path → path = [] ∨ path.getLast? = some '/'

/-- The path does not end with `..`, nor with `.` if it is more than that. -/
def NamesEntry (path : List Char) : Prop :=
  baseName path ≠ ['.', '.'] ∧ (baseName path = ['.'] → path = ['.'])

/-! ## Texts of directories -/

/-- A text of the directory with these components, as the kernel spells it. -/
structure Spells (dir : List Char) (names : List (List Char)) : Prop where
  rooted : ∃ rest, dir = '.' :: '/' :: rest
  walk_eq : walk [] dir = names

variable {dir path : List Char} {names : List (List Char)}

theorem withSlash_of_getLast? (h : dir.getLast? = some '/') : withSlash dir = dir := if_pos h

theorem getLast?_withSlash (dir : List Char) : (withSlash dir).getLast? = some '/' := by
  rw [withSlash]
  split_ifs with h
  · exact h
  · exact List.getLast?_concat

/-- A path behind the text of a directory is walked from there. -/
theorem walk_withSlash_append (dir path : List Char) :
    walk names (withSlash dir ++ path) = walk (walk names dir) path := by
  rw [withSlash]
  split_ifs with h
  · obtain ⟨front, rfl⟩ := List.getLast?_eq_some_iff.mp h
    rw [List.append_assoc, List.singleton_append, walk_append, walk_append, walk_nil]
  · rw [List.append_assoc, List.singleton_append, walk_append]

/-- What the text and a path behind it are split into, if the text ends with a slash. -/
theorem Spells.split (h : Spells dir names) (hlast : dir.getLast? = some '/') (path : List Char) :
    splitPathAndFile dir path = some ⟨dirPath (walkFront names path), baseName path⟩ := by
  obtain ⟨rest, rfl⟩ := h.rooted
  have hbase : baseName rest = [] := by
    rw [← baseName_of_getLast? hlast, ← baseName_append ['.'] rest]
    rfl
  have hnames : walkFront [] rest = names := by
    rw [← walk_of_baseName hbase, ← walk_dot_slash, h.walk_eq]
  rw [splitPathAndFile_eq hlast]
  change some (FileDisc.mk (dirPath (walkFront (walkFront [] rest) path)) _) = _
  rw [hnames]

/-- A text with a path behind it is a text again. -/
theorem Spells.append (h : Spells dir names) (path : List Char) :
    Spells (withSlash dir ++ path) (walk names path) := by
  refine ⟨?_, by rw [walk_withSlash_append, h.walk_eq]⟩
  obtain ⟨rest, rfl⟩ := h.rooted
  rw [withSlash]
  split_ifs
  · exact ⟨rest ++ path, rfl⟩
  · exact ⟨rest ++ ['/'] ++ path, rfl⟩

theorem Spells.withSlash (h : Spells dir names) : Spells (withSlash dir) names := by
  have happend := h.append []
  rwa [List.append_nil, walk_nil] at happend

theorem spells_root : Spells ROOT_DIR [] := ⟨⟨[], rfl⟩, by decide⟩

theorem spells_absolute (rest : List Char) : Spells ('.' :: '/' :: rest) (walk [] ('/' :: rest)) :=
  ⟨⟨rest, rfl⟩, (walk_dot_slash rest).trans (walk_slash rest).symm⟩

/-- `check_dir_exists` looks for the directory to which the text leads. -/
theorem Spells.checkDirExists (h : Spells dir names) (K : FatFs σ D F) (s : LinkState σ Γ) :
    s.checkDirExists K dir =
      s.disk.dirExists K (s.parseFileName ⟨dirPath names, []⟩).path := by
  have hmap : s.mapPathAndFile (Maturin.withSlash dir) [] =
      some (s.parseFileName ⟨dirPath names, []⟩) := by
    rw [LinkState.mapPathAndFile, h.withSlash.split (getLast?_withSlash dir),
      walkFront_of_notMem List.not_mem_nil, baseName_of_notMem List.not_mem_nil]
    rfl
  rw [LinkState.checkDirExists, ← Maturin.withSlash, hmap]

/-! ## Sequences of `chdir`s -/

variable {K : FatFs σ D F} {C : NewFiles σ Γ D F} {s : LinkState σ Γ} {dir' : List Char}
  {paths : List (List Char)}

/-- The text after a successful `sys_chdir` is one of the directory to which it leads. -/
theorem Spells.sysChdir (h : Spells dir names) (hok : s.sysChdir K dir path = (.ok (), dir')) :
    Spells dir' (changeDir names path) ∧
      (dir'.getLast? = some '/' ↔ path = [] ∨ path.getLast? = some '/') := by
  rw [LinkState.sysChdir] at hok
  by_cases habs : path.head? = some '/'
  · rw [if_pos habs, if_pos habs] at hok
    split_ifs at hok
    · obtain rfl := (Prod.mk.inj hok).2
      obtain ⟨rest, rfl⟩ := List.head?_eq_some_iff.mp habs
      rw [changeDir, if_pos habs]
      exact ⟨spells_absolute rest, by simp⟩
    · cases (Prod.mk.inj hok).1
  · rw [if_neg habs, if_neg habs] at hok
    split_ifs at hok
    swap
    · cases (Prod.mk.inj hok).1
    obtain rfl := (Prod.mk.inj hok).2
    rw [changeDir, if_neg habs]
    refine ⟨h.append path, ?_⟩
    rcases path.eq_nil_or_concat' with rfl | ⟨front, c, rfl⟩
    · simp [getLast?_withSlash]
    · rw [← List.append_assoc, List.getLast?_concat, List.getLast?_concat]
      simp

theorem endsWithSlash_singleton :
    EndsWithSlash [path] ↔ path = [] ∨ path.getLast? = some '/' := by
  simp [EndsWithSlash]

theorem endsWithSlash_cons (hne : paths ≠ []) :
    EndsWithSlash (path :: paths) ↔ EndsWithSlash paths := by
  rw [EndsWithSlash, EndsWithSlash, List.getLast?_cons_of_ne_nil hne]

/-- After a sequence of calls the text is one of the directory to which they lead. -/
theorem Spells.chdirs (h : Spells dir names) (hlast : dir.getLast? = some '/')
    (hok : s.chdirs K paths dir = some dir') :
    Spells dir' (paths.foldl changeDir names) ∧
      (dir'.getLast? = some '/' ↔ EndsWithSlash paths) := by
  have hslash : ∀ paths : List (List Char), ∀ dir names, Spells dir names →
      (paths ≠ [] ∨ dir.getLast? = some '/') → s.chdirs K paths dir = some dir' →
      Spells dir' (paths.foldl changeDir names) ∧
        (dir'.getLast? = some '/' ↔ EndsWithSlash paths) := by
    intro paths
    induction paths with
    | nil =>
      rintro dir names h (hne | hlast) hok
      · exact absurd rfl hne
      · obtain rfl := Option.some.inj hok
        exact ⟨h, iff_of_true hlast fun path hpath ↦ by cases hpath⟩
    | cons path paths ih =>
      intro dir names h _ hok
      rw [LinkState.chdirs] at hok
      split at hok
      · rename_i dir₁ hchdir
        obtain ⟨hspells, hends⟩ := h.sysChdir hchdir
        rcases eq_or_ne paths [] with rfl | hne
        · obtain rfl := Option.some.inj hok
          exact ⟨hspells, by rw [hends, endsWithSlash_singleton]⟩
        · rw [endsWithSlash_cons hne]
          exact ih _ _ hspells (.inl hne) hok
      · cases hok
  exact hslash paths dir names h (.inr hlast) hok

/-- `sys_getcwd` returns an absolute path of the directory. -/
theorem Spells.sysGetcwd (h : Spells dir names) {len : ℕ} (hlen : utf8Len dir ≤ len) :
    ∃ cwd, sysGetcwd dir len = .ok cwd ∧ cwd.head? = some '/' ∧ walk [] cwd = names := by
  obtain ⟨rest, rfl⟩ := h.rooted
  refine ⟨'/' :: rest, if_pos ?_, rfl, ?_⟩
  · have hpos : 0 < utf8Len ('.' :: '/' :: rest) := by
      rw [utf8Len, List.map_cons, List.sum_cons]
      exact Nat.add_pos_left (by decide) _
    omega
  · rw [walk_slash, ← walk_dot_slash, h.walk_eq]

/-! ## Opening a relative path -/

/-- What the spelling of the directory itself leaves as it is. -/
theorem walkFront_spellCurrent (names : List (List Char)) (h : path ≠ ['.']) :
    walkFront names (spellCurrent path) = walkFront names path ∧
      baseName (spellCurrent path) = baseName path := by
  rw [spellCurrent, if_neg h]
  split_ifs with hspell
  · obtain ⟨rest, rfl⟩ := List.isPrefixOf_iff_prefix.mp hspell
    have hone : walkFront names ('.' :: '/' :: rest) = walkFront names rest := by
      rw [← List.singleton_append, walkFront_slash (by decide), enter_dot]
    have htwo : walkFront names ('.' :: '/' :: '/' :: rest) = walkFront names rest := by
      rw [← List.singleton_append, walkFront_slash (by decide), enter_dot,
        ← List.nil_append ('/' :: rest), walkFront_slash List.not_mem_nil, enter_nil]
    exact ⟨hone.trans htwo.symm, ((baseName_append ['.'] rest).trans
      (baseName_append ['.', '/'] rest).symm)⟩
  · exact ⟨rfl, rfl⟩

/-- `sys_open` sees of a directory and a path what they are split into. -/
theorem openResolved_congr {names' : List (List Char)} {path' : List Char} (h : Spells dir names)
    (h' : Spells dir' names') (hlast : dir.getLast? = some '/') (hlast' : dir'.getLast? = some '/')
    (hfront : walkFront names path = walkFront names' path')
    (hbase : baseName path = baseName path') (flags : BitVec 32) :
    s.openResolved K C dir path flags = s.openResolved K C dir' path' flags := by
  have hwalk : walk names path = walk names' path' := by
    rw [walk_eq_enter, walk_eq_enter, hfront, hbase]
  have hopen : ∀ flags,
      s.openOrCreate K C dir path flags = s.openOrCreate K C dir' path' flags := by
    intro flags
    rw [LinkState.openOrCreate, LinkState.openOrCreate, LinkState.mapPathAndFile,
      LinkState.mapPathAndFile, h.split hlast, h'.split hlast', hfront, hbase]
  have hexists : ∀ s : LinkState σ Γ,
      s.checkDirExists K (dir ++ path) = s.checkDirExists K (dir' ++ path') := by
    intro s
    rw [← withSlash_of_getLast? hlast, ← withSlash_of_getLast? hlast',
      (h.append path).checkDirExists, (h'.append path').checkDirExists, hwalk]
  simp only [LinkState.openResolved, hopen, hexists]

/-- An absolute path is resolved to the root and what follows the slash. -/
theorem resolvePathFromFd_absolute (cwd : List Char) (getDir : BitVec 32 → Option (List Char))
    (dirFd : BitVec 32) (rest : List Char) :
    ∃ filePath, resolvePathFromFd cwd getDir dirFd ('/' :: rest) = some (ROOT_DIR, filePath) ∧
      walkFront [] filePath = walkFront [] rest ∧ baseName filePath = baseName rest := by
  cases rest with
  | nil => exact ⟨['/'], rfl, by decide, by decide⟩
  | cons c rest => exact ⟨c :: rest, rfl, rfl, rfl⟩

/-- What follows the slash of a normalized path. -/
theorem exists_normalize (h : Components names) (path : List Char) :
    ∃ rest, normalize names path = '/' :: rest ∧
      (baseName path ∈ [[], ['.'], ['.', '.']] →
        walkFront [] rest = walk names path ∧ baseName rest = []) ∧
      (baseName path ∉ [[], ['.'], ['.', '.']] →
        walkFront [] rest = walkFront names path ∧ baseName rest = baseName path) := by
  rw [normalize]
  by_cases hdir : baseName path ∈ [[], ['.'], ['.', '.']]
  · rw [if_pos hdir]
    have hfile : '/' ∉ ([] : List Char) := List.not_mem_nil
    have hfront := walkFront_flatMap [] (h.walk path) hfile
    have hbase := baseName_flatMap (h.walk path) hfile
    rw [List.append_nil] at hfront hbase
    exact ⟨_, rfl, fun _ ↦ ⟨hfront, hbase⟩, fun hnot ↦ absurd hdir hnot⟩
  · rw [if_neg hdir]
    exact ⟨_, rfl, fun hmem ↦ absurd hmem hdir, fun _ ↦
      ⟨walkFront_flatMap [] (h.walkFront path) (notMem_baseName path),
        baseName_flatMap (h.walkFront path) (notMem_baseName path)⟩⟩

theorem Spells.components (h : Spells dir names) : Components names :=
  h.walk_eq ▸ components_nil.walk dir

/-- `sys_open` of a normalized path opens what the path is split into. -/
theorem sysOpen_normalize (hcomp : Components names) (dir path : List Char) (isFull : Bool)
    (getDir : BitVec 32 → Option (List Char)) (dirFd flags : BitVec 32) :
    ∃ rest, s.sysOpen K C isFull dir getDir dirFd (normalize names path) flags =
        (if isFull then some (.error .EMFILE, s) else s.openResolved K C ROOT_DIR rest flags) ∧
      (baseName path ∈ [[], ['.'], ['.', '.']] →
        walkFront [] rest = walk names path ∧ baseName rest = []) ∧
      (baseName path ∉ [[], ['.'], ['.', '.']] →
        walkFront [] rest = walkFront names path ∧ baseName rest = baseName path) := by
  obtain ⟨rest, hnorm, hdir, hfile⟩ := exists_normalize hcomp path
  obtain ⟨filePath, hresolve, hfront, hbase⟩ := resolvePathFromFd_absolute dir getDir dirFd rest
  have hne : filePath ≠ ['.'] := by
    rintro rfl
    have hdot : baseName rest = ['.'] := hbase.symm.trans (baseName_of_notMem (by decide))
    by_cases hmem : baseName path ∈ [[], ['.'], ['.', '.']]
    · exact absurd ((hdir hmem).2.symm.trans hdot) (by decide)
    · exact hmem (by rw [← (hfile hmem).2, hdot]; decide)
  obtain ⟨hspellFront, hspellBase⟩ := walkFront_spellCurrent [] hne
  refine ⟨spellCurrent filePath, ?_, ?_, ?_⟩
  · rw [LinkState.sysOpen, hnorm, hresolve]
  · rw [hspellFront, hspellBase, hfront, hbase]
    exact hdir
  · rw [hspellFront, hspellBase, hfront, hbase]
    exact hfile

theorem sysOpen_relative {isFull : Bool} {getDir : BitVec 32 → Option (List Char)}
    {flags : BitVec 32} (hrel : path.head? ≠ some '/') :
    s.sysOpen K C isFull dir getDir AT_FDCWD path flags =
      if isFull then some (.error .EMFILE, s)
      else s.openResolved K C dir (spellCurrent path) flags := by
  rw [LinkState.sysOpen, resolvePathFromFd, if_neg hrel, getDirFromFd, if_pos rfl]

/-- Behind a text that ends with a slash, a path to an entry opens as the absolute one. -/
theorem Spells.sysOpen_eq (h : Spells dir names) (hlast : dir.getLast? = some '/')
    (hrel : path.head? ≠ some '/') (hentry : NamesEntry path) (isFull : Bool)
    (getDir : BitVec 32 → Option (List Char)) (flags : BitVec 32) :
    s.sysOpen K C isFull dir getDir AT_FDCWD path flags =
      s.sysOpen K C isFull dir getDir AT_FDCWD (normalize names path) flags := by
  obtain ⟨rest, hnorm, hdir, hfile⟩ :=
    sysOpen_normalize (s := s) (K := K) (C := C) h.components dir path isFull getDir AT_FDCWD flags
  rw [hnorm, sysOpen_relative hrel]
  have hkey : walkFront names (spellCurrent path) = walkFront [] rest ∧
      baseName (spellCurrent path) = baseName rest := by
    by_cases hdot : path = ['.']
    · subst hdot
      obtain ⟨hfront, hbase⟩ := hdir (by decide)
      have hstay : walkFront names ['.', '/'] = names :=
        (walkFront_slash (by decide)).trans ((walkFront_of_notMem List.not_mem_nil).trans
          (enter_dot names))
      exact ⟨hstay.trans (hfront.trans (enter_dot names)).symm, hbase.symm⟩
    · obtain ⟨hspellFront, hspellBase⟩ := walkFront_spellCurrent names hdot
      rw [hspellFront, hspellBase]
      by_cases hmem : baseName path ∈ [[], ['.'], ['.', '.']]
      · -- of these only the empty component is left
        have hempty : baseName path = [] := by
          rcases List.mem_cons.mp hmem with hempty | hmem
          · exact hempty
          · rcases List.mem_cons.mp hmem with hdot' | hmem
            · exact absurd (hentry.2 hdot') hdot
            · exact absurd (List.mem_singleton.mp hmem) hentry.1
        obtain ⟨hfront, hbase⟩ := hdir hmem
        exact ⟨by rw [hfront, walk_of_baseName hempty], hempty.trans hbase.symm⟩
      · obtain ⟨hfront, hbase⟩ := hfile hmem
        exact ⟨hfront.symm, hbase.symm⟩
  rw [openResolved_congr h spells_root hlast rfl hkey.1 hkey.2]

/-! ## A disk with one file -/

/-- A disk on which every directory is, and one file. -/
def FatFs.oneFile (target : FileDisc) : FatFs Unit (List Char) Unit where
  rootDir := ROOT_DIR
  openDir _ dir name :=
    if dir = target.path ∧ name = target.file then none else some (dir ++ name)
  iter _ _ := []
  openFile _ dir name := if dir = target.path ∧ name = target.file then some () else none
  remove _ _ _ := none

theorem FatFs.oneFile_lawful (target : FileDisc) : (FatFs.oneFile target).Lawful where
  file_of_listed {fat k} h := by
    rw [listed] at h
    cases hdir : (oneFile target).innerOpenDir fat k.path <;> rw [hdir] at h <;> cases h
  ne_of_listed {fat k} h := by
    rw [listed] at h
    cases hdir : (oneFile target).innerOpenDir fat k.path <;> rw [hdir] at h <;> cases h
  dir_of_file {fat k f} h := by
    obtain ⟨dir, hdir, hfile⟩ := Option.bind_eq_some_iff.mp h
    rw [FatFs.dir, hdir, Option.bind_some]
    simp only [oneFile] at hfile ⊢
    split_ifs at hfile ⊢ with htarget
    rfl
  remove_file {fat fat' k f} h := by
    obtain ⟨dir, -, hremove⟩ := Option.bind_eq_some_iff.mp h
    cases hremove
  remove_dir {fat fat' k} h := by
    obtain ⟨dir, -, hremove⟩ := Option.bind_eq_some_iff.mp h
    cases hremove

namespace OneFile

/-- The disk with no virtual directories and the given links. -/
def state (map : OrdMap FileDisc FileDisc) : LinkState Unit Unit := ⟨map, .empty, ⟨(), .empty⟩⟩

/-- Files are made and emptied at once. -/
def newFiles : NewFiles Unit Unit (List Char) Unit where
  notFound _ _ _ := true
  createFile _ _ _ := some ((), ())
  truncate _ _ := some ()
  virtFile _ := ()
  clear := id

variable {target : FileDisc} {map : OrdMap FileDisc FileDisc}

theorem innerOpenDir (h : '/' ∉ target.file) (names : List (List Char)) :
    (FatFs.oneFile target).innerOpenDir () (dirPath names) = some (dirPath names) := by
  rw [FatFs.innerOpenDir]
  cases names with
  | nil => exact if_pos rfl
  | cons name names =>
    have hslash : '/' ∈ (dirPath (name :: names)).drop 2 := by
      change '/' ∈ (name :: names).flatMap (· ++ ['/'])
      simp
    have hne : dirPath (name :: names) ≠ ROOT_DIR := by
      intro heq
      rw [heq] at hslash
      exact absurd hslash (by decide)
    have hother : ¬(ROOT_DIR = target.path ∧ (dirPath (name :: names)).drop 2 = target.file) :=
      fun htarget ↦ h (htarget.2 ▸ hslash)
    rw [if_neg hne]
    exact if_neg hother

/-- Every directory is there, as long as no link takes it elsewhere. -/
theorem checkDirExists (h : '/' ∉ target.file) (hmap : ∀ path, map.get ⟨path, []⟩ = none)
    (hdir : Spells dir names) : (state map).checkDirExists (FatFs.oneFile target) dir = true := by
  have hlink : (state map).parseFileName ⟨dirPath names, []⟩ = ⟨dirPath names, []⟩ := by
    rw [LinkState.parseFileName, state, hmap, Option.getD_none]
  rw [hdir.checkDirExists, hlink, Disk.dirExists]
  change (_ || ((FatFs.oneFile target).innerOpenDir () (dirPath names)).isSome) = true
  rw [innerOpenDir h, Option.isSome_some, Bool.or_true]

/-- Every sequence of calls of `sys_chdir` succeeds. -/
theorem exists_chdirs (h : '/' ∉ target.file) (hmap : ∀ path, map.get ⟨path, []⟩ = none)
    (paths : List (List Char)) (hdir : Spells dir names) :
    ∃ dir', (state map).chdirs (FatFs.oneFile target) paths dir = some dir' := by
  induction paths generalizing dir names with
  | nil => exact ⟨dir, rfl⟩
  | cons path paths ih =>
    obtain ⟨dir', hok⟩ : ∃ dir', (state map).sysChdir (FatFs.oneFile target) dir path =
        (.ok (), dir') := by
      rw [LinkState.sysChdir]
      by_cases habs : path.head? = some '/'
      · obtain ⟨rest, rfl⟩ := List.head?_eq_some_iff.mp habs
        rw [if_pos habs, if_pos habs, checkDirExists h hmap (spells_absolute rest), if_pos rfl]
        exact ⟨_, rfl⟩
      · rw [if_neg habs, if_neg habs, checkDirExists h hmap (hdir.append path), if_pos rfl]
        exact ⟨_, rfl⟩
    rw [LinkState.chdirs, hok]
    exact ih (hdir.sysChdir hok).1

theorem openFile_eq (hdir : Spells dir names) (hlast : dir.getLast? = some '/') {k : FileDisc}
    (hk : (state map).parseFileName ⟨dirPath (walkFront names path), baseName path⟩ = k) :
    (state map).openFile (FatFs.oneFile target) dir path OpenFlags.RDONLY =
      (state map).disk.openFat (FatFs.oneFile target) k OpenFlags.RDONLY := by
  rw [LinkState.openFile, LinkState.mapPathAndFile, hdir.split hlast, Option.map_some, hk]
  have hvirt : (state map).disk.getVirtFileIfPossible k.path k.file OpenFlags.RDONLY = none := by
    rw [Disk.getVirtFileIfPossible, Disk.virtDir]
    cases virtDirName k.path <;> rfl
  dsimp only
  rw [Disk.openFile, hvirt]

theorem openFat_dir (h : '/' ∉ target.file) (names : List (List Char)) :
    (state map).disk.openFat (FatFs.oneFile target) ⟨dirPath names, []⟩ OpenFlags.RDONLY =
      some (.fdDir (dirPath names)) := by
  have hdir : (FatFs.oneFile target).innerOpenDir (state map).disk.fat (dirPath names) =
      some (dirPath names) := innerOpenDir h names
  simp [Disk.openFat, hdir]

/-- Only the one file opens. -/
theorem openFat_file {file : List Char} (h : '/' ∉ target.file) (hne : file ≠ [])
    (hdot : file ≠ ['.']) (names : List (List Char)) :
    (state map).disk.openFat (FatFs.oneFile target) ⟨dirPath names, file⟩ OpenFlags.RDONLY =
      if dirPath names = target.path ∧ file = target.file then
        some (.fatFile true false (dirPath names) file () OpenFlags.RDONLY)
      else none := by
  have hdir : (FatFs.oneFile target).innerOpenDir (state map).disk.fat (dirPath names) =
      some (dirPath names) := innerOpenDir h names
  have hflags : (OpenFlags.RDONLY.contains OpenFlags.DIR ||
      OpenFlags.RDONLY.contains OpenFlags.DSYNC || decide (file.length = 0)) = false := by
    rw [decide_eq_false (mt List.length_eq_zero_iff.mp hne)]
    decide
  have hexcl : OpenFlags.RDONLY.contains OpenFlags.EXCL = false := by decide
  have hfile : (FatFs.oneFile target).openFile (state map).disk.fat (dirPath names) file =
      if dirPath names = target.path ∧ file = target.file then some () else none := rfl
  simp only [Disk.openFat, hdir, if_neg hdot, hflags, hexcl, hfile, Bool.false_and,
    Bool.false_eq_true, if_false]
  split_ifs <;> rfl

/-! ### What opens on it -/

theorem openResolved_of_some {node : Opened Γ F}
    (h : s.openFile K dir path OpenFlags.RDONLY = some node) :
    s.openResolved K C dir path OpenFlags.RDONLY = some (.ok node, s) := by
  have hflags : fromBits OpenFlags.all OpenFlags.RDONLY = some ⟨OpenFlags.RDONLY, by decide⟩ :=
    fromBits_of_declared _
  simp only [LinkState.openResolved, hflags]
  rw [LinkState.openOrCreate_of_not (by decide), h]
  rfl

theorem openResolved_of_none (h : s.openFile K dir path OpenFlags.RDONLY = none) :
    ∃ e, s.openResolved K C dir path OpenFlags.RDONLY = some (.error e, s) := by
  have hflags : fromBits OpenFlags.all OpenFlags.RDONLY = some ⟨OpenFlags.RDONLY, by decide⟩ :=
    fromBits_of_declared _
  have hexcl : (⟨OpenFlags.RDONLY, by decide⟩ : Bitflags OpenFlags.all).contains OpenFlags.EXCL =
      false := by decide
  simp only [LinkState.openResolved, hflags]
  rw [LinkState.openOrCreate_of_not (by decide), h]
  simp only [Option.map_some, hexcl, Bool.false_eq_true, if_false]
  split_ifs
  · exact ⟨_, rfl⟩
  · exact ⟨_, rfl⟩

variable {getDir : BitVec 32 → Option (List Char)}

/-- The normalized path of a directory opens. -/
theorem sysOpen_normalize_dir (h : '/' ∉ target.file) (hmap : ∀ path, map.get ⟨path, []⟩ = none)
    (hcomp : Components names) (hdir : baseName path ∈ [[], ['.'], ['.', '.']]) :
    (state map).sysOpen (FatFs.oneFile target) newFiles false dir getDir AT_FDCWD
        (normalize names path) OpenFlags.RDONLY =
      some (.ok (.fdDir (dirPath (walk names path))), state map) := by
  obtain ⟨rest, hopen, hrest, -⟩ := sysOpen_normalize (s := state map)
    (K := FatFs.oneFile target) (C := newFiles) hcomp dir path false getDir AT_FDCWD
    OpenFlags.RDONLY
  obtain ⟨hfront, hbase⟩ := hrest hdir
  have hk : (state map).parseFileName ⟨dirPath (walkFront [] rest), baseName rest⟩ =
      ⟨dirPath (walk names path), []⟩ := by
    rw [hfront, hbase, LinkState.parseFileName, state, hmap, Option.getD_none]
  rw [hopen, if_neg (by decide)]
  exact openResolved_of_some ((openFile_eq spells_root rfl hk).trans (openFat_dir h _))

/-- The normalized path of the file opens. -/
theorem sysOpen_normalize_file (hcomp : Components names)
    (hfile : baseName path ∉ [[], ['.'], ['.', '.']]) :
    ∃ node, (state .empty).sysOpen
        (FatFs.oneFile ⟨dirPath (walkFront names path), baseName path⟩) newFiles false dir getDir
        AT_FDCWD (normalize names path) OpenFlags.RDONLY =
      some (.ok node, state .empty) := by
  obtain ⟨rest, hopen, -, hrest⟩ := sysOpen_normalize (s := state .empty)
    (K := FatFs.oneFile ⟨dirPath (walkFront names path), baseName path⟩) (C := newFiles) hcomp dir
    path false getDir AT_FDCWD OpenFlags.RDONLY
  obtain ⟨hfront, hbase⟩ := hrest hfile
  have hk : (state .empty).parseFileName ⟨dirPath (walkFront [] rest), baseName rest⟩ =
      ⟨dirPath (walkFront names path), baseName path⟩ := by
    rw [hfront, hbase]
    rfl
  have hne : baseName path ≠ [] ∧ baseName path ≠ ['.'] := by
    simp only [List.mem_cons, not_or] at hfile
    exact ⟨hfile.1, hfile.2.1⟩
  rw [hopen, if_neg (by decide)]
  refine ⟨_, openResolved_of_some ((openFile_eq spells_root rfl hk).trans
    ((openFat_file (notMem_baseName path) hne.1 hne.2 _).trans (if_pos ⟨rfl, rfl⟩)))⟩

/-- Behind a text without a slash at its end nothing opens. -/
theorem exists_sysOpen_error (getDir : BitVec 32 → Option (List Char))
    (hrel : path.head? ≠ some '/') (hlast : dir.getLast? ≠ some '/') :
    ∃ e, s.sysOpen K C false dir getDir AT_FDCWD path OpenFlags.RDONLY = some (.error e, s) := by
  rw [sysOpen_relative hrel, if_neg (by decide)]
  apply openResolved_of_none
  rw [LinkState.openFile, LinkState.mapPathAndFile, splitPathAndFile, if_neg hlast]
  rfl

end OneFile

/-! ## When relative paths are followed -/

open OneFile

/-- They are behind a text that ends with a slash, if they lead to an entry. -/
theorem followsWorkingDir_of (hrel : path.head? ≠ some '/') (hslash : EndsWithSlash paths)
    (hentry : NamesEntry path) : FollowsWorkingDir K C s paths path := by
  intro dir hok
  obtain ⟨hspells, hends⟩ := spells_root.chdirs rfl hok
  exact ⟨hspells.sysOpen_eq (hends.mpr hslash) hrel hentry, fun len hlen ↦ hspells.sysGetcwd hlen⟩

/-- The disk with one file tells the texts without a slash at their end from the others. -/
theorem endsWithSlash_of_follows (hrel : path.head? ≠ some '/')
    (h : ∀ target : FileDisc, '/' ∉ target.file →
      FollowsWorkingDir (FatFs.oneFile target) newFiles (state .empty) paths path) :
    EndsWithSlash paths := by
  by_contra hslash
  let names := paths.foldl changeDir []
  let target : FileDisc := ⟨dirPath (walkFront names path), baseName path⟩
  have hfile : '/' ∉ target.file := notMem_baseName path
  obtain ⟨dir, hok⟩ := exists_chdirs hfile (fun _ ↦ OrdMap.get_empty) paths spells_root
  obtain ⟨hspells, hends⟩ := spells_root.chdirs rfl hok
  have heq := (h target hfile dir hok).1 false (fun _ ↦ none) OpenFlags.RDONLY
  obtain ⟨e, he⟩ := exists_sysOpen_error (s := state .empty) (K := FatFs.oneFile target)
    (C := newFiles) (fun _ ↦ none) hrel (mt hends.mp hslash)
  have hopens : ∃ node, (state .empty).sysOpen (FatFs.oneFile target) newFiles false dir
      (fun _ ↦ none) AT_FDCWD (normalize names path) OpenFlags.RDONLY =
        some (.ok node, state .empty) := by
    by_cases hdir : baseName path ∈ [[], ['.'], ['.', '.']]
    · exact ⟨_, sysOpen_normalize_dir hfile (fun _ ↦ rfl) hspells.components hdir⟩
    · exact sysOpen_normalize_file hspells.components hdir
  obtain ⟨node, hnode⟩ := hopens
  have hresult := Option.some.inj (he.symm.trans (heq.trans hnode))
  cases (Prod.mk.inj hresult).1

/-- The parent of a directory is not found by its last component. -/
theorem ne_dotdot_of_follows (hrel : path.head? ≠ some '/') (hslash : EndsWithSlash paths)
    (h : FollowsWorkingDir (FatFs.oneFile ⟨[], []⟩) newFiles (state .empty) paths path) :
    baseName path ≠ ['.', '.'] := by
  intro hbase
  have hfile : '/' ∉ (⟨[], []⟩ : FileDisc).file := List.not_mem_nil
  obtain ⟨dir, hok⟩ := exists_chdirs hfile (fun _ ↦ OrdMap.get_empty) paths spells_root
  obtain ⟨hspells, hends⟩ := spells_root.chdirs rfl hok
  have heq := (h dir hok).1 false (fun _ ↦ none) OpenFlags.RDONLY
  rw [sysOpen_normalize_dir hfile (fun _ ↦ rfl) hspells.components (by rw [hbase]; decide),
    sysOpen_relative hrel, if_neg (by decide)] at heq
  have hne : path ≠ ['.'] := by
    rintro rfl
    exact absurd hbase (by decide)
  obtain ⟨-, hspell⟩ := walkFront_spellCurrent (paths.foldl changeDir []) hne
  obtain ⟨e, he⟩ := openResolved_of_none (s := state .empty) (K := FatFs.oneFile ⟨[], []⟩)
    (C := newFiles) ((openFile_eq hspells (hends.mpr hslash) rfl).trans
      ((openFat_file hfile (by rw [hspell, hbase]; decide) (by rw [hspell, hbase]; decide) _).trans
        (if_neg fun htarget ↦ by rw [hspell, hbase] at htarget; cases htarget.2)))
  have hresult := Option.some.inj (he.symm.trans heq)
  cases (Prod.mk.inj hresult).1

/-- A link may take the dot elsewhere, unless it is the path itself. -/
theorem eq_dot_of_follows (hrel : path.head? ≠ some '/') (hslash : EndsWithSlash paths)
    (h : ∀ map : OrdMap FileDisc FileDisc, FollowsWorkingDir (FatFs.oneFile ⟨ROOT_DIR, ['f']⟩)
      newFiles (state map) paths path) (hbase : baseName path = ['.']) : path = ['.'] := by
  by_contra hne
  have hfile : '/' ∉ (⟨ROOT_DIR, ['f']⟩ : FileDisc).file := by decide
  obtain ⟨hspellFront, hspell⟩ := walkFront_spellCurrent (paths.foldl changeDir []) hne
  let key : FileDisc := ⟨dirPath (walkFront (paths.foldl changeDir []) path), ['.']⟩
  let map : OrdMap FileDisc FileDisc := OrdMap.empty.insert key ⟨ROOT_DIR, ['f']⟩
  have hmap : ∀ path, map.get ⟨path, []⟩ = none := by
    intro path
    refine (OrdMap.get_insert_of_ne fun heq ↦ ?_).trans OrdMap.get_empty
    cases congrArg FileDisc.file heq
  obtain ⟨dir, hok⟩ := exists_chdirs hfile hmap paths spells_root
  obtain ⟨hspells, hends⟩ := spells_root.chdirs rfl hok
  have heq := (h map dir hok).1 false (fun _ ↦ none) OpenFlags.RDONLY
  have hk : (state map).parseFileName
      ⟨dirPath (walkFront (paths.foldl changeDir []) (spellCurrent path)),
        baseName (spellCurrent path)⟩ = ⟨dirPath [], ['f']⟩ := by
    rw [hspellFront, hspell, hbase]
    exact congrArg (Option.getD · _) OrdMap.get_insert_self
  rw [sysOpen_normalize_dir hfile hmap hspells.components (by rw [hbase]; decide),
    sysOpen_relative hrel, if_neg (by decide),
    openResolved_of_some ((openFile_eq hspells (hends.mpr hslash) hk).trans
      ((openFat_file hfile (by decide) (by decide) []).trans (if_pos ⟨rfl, rfl⟩)))] at heq
  cases (Except.ok.inj (Prod.mk.inj (Option.some.inj heq)).1)

/-- **Relative paths follow the working directory**, on every disk on which the calls of `sys_chdir`
succeed, if and only if the last of them ends with a slash or is empty and the path ends neither
with `..` nor, unless it is `.` itself, with `.`. -/
theorem followsWorkingDir_iff (paths : List (List Char)) (path : List Char)
    (hrel : path.head? ≠ some '/') :
    (∀ (σ Γ D F : Type) (K : FatFs σ D F) (C : NewFiles σ Γ D F) (s : LinkState σ Γ), K.Lawful →
      FollowsWorkingDir K C s paths path) ↔ EndsWithSlash paths ∧ NamesEntry path := by
  constructor
  · intro h
    have hone : ∀ target map,
        FollowsWorkingDir (FatFs.oneFile target) newFiles (state map) paths path :=
      fun target map ↦ h _ _ _ _ _ _ _ (FatFs.oneFile_lawful target)
    have hslash := endsWithSlash_of_follows hrel fun target _ ↦ hone target .empty
    exact ⟨hslash, ne_dotdot_of_follows hrel hslash (hone _ _),
      eq_dot_of_follows hrel hslash fun map ↦ hone _ map⟩
  · rintro ⟨hslash, hentry⟩ σ Γ D F K C s -
    exact followsWorkingDir_of hrel hslash hentry

/-- After `chdir("/abc/")` and `chdir("x/..//")`, the file `f` opens as `/abc/f`. -/
theorem followsWorkingDir_abc :
    FollowsWorkingDir (FatFs.oneFile ⟨"./abc/".toList, ['f']⟩) newFiles (state .empty)
      ["/abc/".toList, "x/..//".toList] ['f'] :=
  (followsWorkingDir_iff _ _ (by decide)).mpr ⟨by simp [EndsWithSlash], by decide, by decide⟩
    _ _ _ _ _ _ _ (FatFs.oneFile_lawful _)

/-- After `chdir("/abc")` it does not open. -/
theorem not_followsWorkingDir_abc :
    ¬FollowsWorkingDir (FatFs.oneFile ⟨"./abc/".toList, ['f']⟩) newFiles (state .empty)
      ["/abc".toList] ['f'] := by
  intro h
  have heq := (h "./abc".toList (by rfl)).1 false (fun _ ↦ none) OpenFlags.RDONLY
  have hopens := congrArg (Option.map fun r ↦ r.1.isOk) heq
  exact absurd hopens (by decide)

end Maturin
