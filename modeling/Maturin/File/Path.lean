import Mathlib.Data.Char
import Mathlib.Data.List.Lex
import Mathlib.Data.Prod.Lex
import Mathlib.Tactic.Common

/-!
# Paths

A file is known to the kernel by its directory and its name in that directory. A directory is
written from the root, which is spelled `./`, with a slash after each of its components.
`split_path_and_file` brings a directory and a path relative to it into this form: it enters the
components of both one after the other, where `..` goes back to the parent, the root being its own
parent, and where `.` and an empty component stay.

What it returns is *normal*, and a normal pair is given back unchanged, so the kernel may split
again what it has already split.

Behind the texts is the *walk*: a directory is the list of the components that lead to it, and a
path takes one directory to another, component by component.
-/

namespace Maturin

/-- `FileDisc`: the directory of a file and its name there. -/
@[ext]
structure FileDisc where
  /-- The directory, from the root, with a slash at the end. -/
  path : List Char
  /-- The name in the directory. -/
  file : List Char
  deriving DecidableEq, Repr

/-- The derived order: by the directory, then by the name. -/
instance : LinearOrder FileDisc :=
  LinearOrder.lift' (fun k ↦ toLex (k.path, k.file)) fun _ _ h ↦ by
    have hpair := toLex_inj.mp h
    rw [Prod.mk.injEq] at hpair
    exact FileDisc.ext hpair.1 hpair.2

/-- `ROOT_DIR`. -/
def ROOT_DIR : List Char := ['.', '/']

/-! ## Splitting a path -/

/-- The loop of `parse_dir` that pops characters up to the previous slash, on the reversed path:
the last character that is left is not popped. -/
def popDir : List Char → List Char
  | [] => []
  | [c] => [c]
  | c :: rest => if c = '/' then rest else popDir rest

/-- The parent of a directory: its slash goes, the characters before it go, and the slash comes
back. -/
def parentDir (path : List Char) : List Char := (popDir path.reverse.tail).reverse ++ ['/']

/-- The component `name` of a path is entered from the directory `path`. -/
def enterDir (path name : List Char) : List Char :=
  if name = ['.', '.'] then parentDir path
  else if name = ['.'] then path
  else if name = [] then path
  else path ++ (name ++ ['/'])

/-- `parse_dir`: the directory after `child_path` is followed from `path`, and what stands behind
the last slash. The component that is being read is `name`. -/
def parseDir (path name : List Char) : List Char → List Char × List Char
  | [] => (path, name)
  | c :: childPath =>
    if c = '/' then parseDir (enterDir path name) [] childPath
    else parseDir path (name ++ [c]) childPath

/-- What follows the root in `dir_name`. -/
def stripRoot : List Char → List Char
  | '.' :: '/' :: rest => rest
  | '/' :: rest => rest
  | dirName => dirName

/-- `split_path_and_file`; `None` if `dir_name` does not end with a slash. -/
def splitPathAndFile (dirName filePath : List Char) : Option FileDisc :=
  if dirName.getLast? = some '/' then
    let dir := (parseDir ROOT_DIR [] (stripRoot dirName)).1
    let parsed := parseDir dir [] filePath
    some ⟨parsed.1, parsed.2⟩
  else none

/-! ## Normal names -/

/-- A component that leads into a directory. -/
structure IsComponent (name : List Char) : Prop where
  ne_nil : name ≠ []
  ne_dot : name ≠ ['.']
  ne_dotdot : name ≠ ['.', '.']
  notMem : '/' ∉ name

/-- The directory with these components. -/
def dirPath (names : List (List Char)) : List Char := ROOT_DIR ++ names.flatMap (· ++ ['/'])

/-- The form of what `split_path_and_file` returns. -/
structure FileDisc.Normal (k : FileDisc) : Prop where
  exists_names : ∃ names : List (List Char), (∀ name ∈ names, IsComponent name) ∧
    k.path = dirPath names
  notMem_file : '/' ∉ k.file

@[simp] theorem dirPath_nil : dirPath [] = ROOT_DIR := rfl

theorem dirPath_append (names : List (List Char)) (name : List Char) :
    dirPath (names ++ [name]) = dirPath names ++ (name ++ ['/']) := by
  rw [dirPath, dirPath, List.flatMap_append, List.flatMap_singleton, List.append_assoc]

theorem enterDir_of_isComponent {path name : List Char} (h : IsComponent name) :
    enterDir path name = path ++ (name ++ ['/']) := by
  rw [enterDir, if_neg h.ne_dotdot, if_neg h.ne_dot, if_neg h.ne_nil]

theorem popDir_append {name rest : List Char} (h : '/' ∉ name) (hrest : rest ≠ []) :
    popDir (name ++ '/' :: rest) = rest := by
  induction name with
  | nil =>
    obtain ⟨c, rest', rfl⟩ := List.exists_cons_of_ne_nil hrest
    rw [List.nil_append, popDir, if_pos rfl]
    exact List.cons_ne_nil c rest'
  | cons c name ih =>
    rw [List.mem_cons, not_or] at h
    have hne : name ++ '/' :: rest ≠ [] :=
      List.append_ne_nil_of_right_ne_nil name (List.cons_ne_nil '/' rest)
    rw [List.cons_append, popDir, if_neg (Ne.symm h.1), ih h.2]
    exact hne

theorem exists_dirPath_eq (names : List (List Char)) : ∃ l, dirPath names = l ++ ['/'] := by
  rcases List.eq_nil_or_concat' names with rfl | ⟨front, name, rfl⟩
  · exact ⟨['.'], rfl⟩
  · exact ⟨dirPath front ++ name, by rw [dirPath_append, List.append_assoc]⟩

/-- The root is its own parent. -/
theorem parentDir_root : parentDir ROOT_DIR = ROOT_DIR := by decide

theorem parentDir_dirPath {names : List (List Char)} {name : List Char} (h : '/' ∉ name) :
    parentDir (dirPath (names ++ [name])) = dirPath names := by
  obtain ⟨l, hl⟩ := exists_dirPath_eq names
  have hrev : (dirPath (names ++ [name])).reverse.tail = name.reverse ++ '/' :: l.reverse := by
    rw [dirPath_append, hl]
    simp
  have hne : l ≠ [] := by
    rintro rfl
    have hlen := congrArg List.length hl
    rw [dirPath, List.length_append, ROOT_DIR, List.nil_append, List.length_singleton,
      List.length_cons, List.length_singleton] at hlen
    omega
  rw [parentDir, hrev, popDir_append (by simpa using h) (by simpa using hne), List.reverse_reverse,
    hl]

/-! ## The walk -/

/-- From the directory with the components `names` into the component `name`. -/
def enter (names : List (List Char)) (name : List Char) : List (List Char) :=
  if name = ['.', '.'] then names.dropLast
  else if name = ['.'] ∨ name = [] then names
  else names ++ [name]

/-- The directory to which a path leads. -/
def walk (names : List (List Char)) (path : List Char) : List (List Char) :=
  (path.splitOn '/').foldl enter names

/-- The directory of the last component of a path. -/
def walkFront (names : List (List Char)) (path : List Char) : List (List Char) :=
  (path.splitOn '/').dropLast.foldl enter names

/-- The last component of a path, which is empty behind a slash. -/
def baseName (path : List Char) : List Char :=
  (path.splitOn '/').getLast (List.splitOn_ne_nil _ _)

/-- The components lead into directories. -/
def Components (names : List (List Char)) : Prop := ∀ name ∈ names, IsComponent name

variable {names : List (List Char)} {name file rest path : List Char}

theorem components_nil : Components [] := fun _ hn ↦ absurd hn List.not_mem_nil

theorem Components.enter (h : Components names) (hname : '/' ∉ name) :
    Components (enter names name) := by
  rw [Maturin.enter]
  split_ifs with hdotdot hstay
  · exact fun n hn ↦ h n (List.dropLast_subset names hn)
  · exact h
  · rw [not_or] at hstay
    intro n hn
    rcases List.mem_append.mp hn with hn | hn
    · exact h n hn
    · rw [List.mem_singleton.mp hn]
      exact ⟨hstay.2, hstay.1, hdotdot, hname⟩

/-- `parse_dir` enters what the walk enters. -/
theorem enterDir_dirPath (h : Components names) (hname : '/' ∉ name) :
    enterDir (dirPath names) name = dirPath (enter names name) := by
  rw [enter]
  split_ifs with hdotdot hstay
  · rw [enterDir, if_pos hdotdot]
    rcases List.eq_nil_or_concat' names with rfl | ⟨front, last, rfl⟩
    · exact parentDir_root
    · rw [parentDir_dirPath (h last (by simp)).notMem, List.dropLast_concat]
  · rcases hstay with rfl | rfl <;> simp [enterDir]
  · rw [not_or] at hstay
    rw [enterDir_of_isComponent ⟨hstay.2, hstay.1, hdotdot, hname⟩, dirPath_append]

/-- A path is a name, or a name with a slash and a path behind it. -/
theorem slash_induction {P : List Char → Prop} (hname : ∀ file, '/' ∉ file → P file)
    (hslash : ∀ file rest, '/' ∉ file → P rest → P (file ++ '/' :: rest)) (path : List Char) :
    P path := by
  induction hn : path.length using Nat.strong_induction_on generalizing path with
  | _ n ih =>
    by_cases hmem : '/' ∈ path
    · obtain ⟨file, rest, rfl, hfile⟩ := List.eq_append_cons_of_mem hmem
      refine hslash file rest hfile (ih rest.length ?_ rest rfl)
      rw [← hn, List.length_append, List.length_cons]
      omega
    · exact hname path hmem

theorem splitOn_of_notMem (h : '/' ∉ file) : file.splitOn '/' = [file] :=
  List.splitOn_eq_singleton h

theorem splitOn_slash (h : '/' ∉ file) :
    (file ++ '/' :: rest).splitOn '/' = file :: rest.splitOn '/' := by
  rw [List.splitOn_append_cons_of_beq _ _ (beq_self_eq_true '/'), splitOn_of_notMem h,
    List.singleton_append]

theorem walkFront_of_notMem (h : '/' ∉ file) : walkFront names file = names := by
  rw [walkFront, splitOn_of_notMem h]
  rfl

theorem walkFront_slash (h : '/' ∉ file) :
    walkFront names (file ++ '/' :: rest) = walkFront (enter names file) rest := by
  rw [walkFront, splitOn_slash h, List.dropLast_cons_of_ne_nil (List.splitOn_ne_nil _ _)]
  rfl

theorem baseName_of_notMem (h : '/' ∉ file) : baseName file = file := by
  simp only [baseName, splitOn_of_notMem h, List.getLast_singleton]

theorem baseName_append (path rest : List Char) :
    baseName (path ++ '/' :: rest) = baseName rest := by
  simp only [baseName, List.splitOn_append_cons_of_beq path rest (beq_self_eq_true '/'),
    List.getLast_append_of_ne_nil _ (List.splitOn_ne_nil _ _)]

theorem notMem_baseName (path : List Char) : '/' ∉ baseName path := by
  induction path using slash_induction with
  | hname file h => rwa [baseName_of_notMem h]
  | hslash file rest h ih => rwa [baseName_append]

/-- A walk goes to the directory of the last component and then enters it. -/
theorem walk_eq_enter (names : List (List Char)) (path : List Char) :
    walk names path = enter (walkFront names path) (baseName path) := by
  rw [walk, walkFront, baseName]
  conv_lhs => rw [← List.dropLast_append_getLast (List.splitOn_ne_nil '/' path)]
  rw [List.foldl_append]
  rfl

theorem walk_append (names : List (List Char)) (path rest : List Char) :
    walk names (path ++ '/' :: rest) = walk (walk names path) rest := by
  rw [walk, List.splitOn_append_cons_of_beq _ _ (beq_self_eq_true '/'), List.foldl_append]
  rfl

theorem Components.walkFront (h : Components names) (path : List Char) :
    Components (walkFront names path) := by
  induction path using slash_induction generalizing names with
  | hname file hfile => rwa [walkFront_of_notMem hfile]
  | hslash file rest hfile ih =>
    rw [walkFront_slash hfile]
    exact ih (h.enter hfile)

theorem Components.walk (h : Components names) (path : List Char) :
    Components (walk names path) := by
  rw [walk_eq_enter]
  exact (h.walkFront path).enter (notMem_baseName path)

theorem enter_nil (names : List (List Char)) : enter names [] = names := by
  rw [enter, if_neg (by decide), if_pos (.inr rfl)]

theorem enter_dot (names : List (List Char)) : enter names ['.'] = names := by
  rw [enter, if_neg (by decide), if_pos (.inl rfl)]

theorem walk_of_baseName (h : baseName path = []) : walk names path = walkFront names path := by
  rw [walk_eq_enter, h, enter_nil]

theorem walk_nil (names : List (List Char)) : walk names [] = names := enter_nil names

theorem baseName_of_getLast? (h : path.getLast? = some '/') : baseName path = [] := by
  obtain ⟨front, rfl⟩ := List.getLast?_eq_some_iff.mp h
  rw [baseName_append, baseName_of_notMem List.not_mem_nil]

/-- Slashes and dots at the front of a path lead nowhere. -/
theorem walk_slash (path : List Char) : walk names ('/' :: path) = walk names path := by
  rw [← List.nil_append ('/' :: path), walk_append, walk_nil]

theorem walk_dot_slash (rest : List Char) : walk names ('.' :: '/' :: rest) = walk names rest := by
  rw [← List.singleton_append, walk_append]
  congr 1

/-! ## What splitting gives -/

/-- Text without a slash is read into the component. -/
theorem parseDir_of_notMem {path name file : List Char} (h : '/' ∉ file) :
    parseDir path name file = (path, name ++ file) := by
  induction file generalizing name with
  | nil => rw [parseDir, List.append_nil]
  | cons c file ih =>
    rw [List.mem_cons, not_or] at h
    rw [parseDir, if_neg (Ne.symm h.1), ih h.2, List.append_assoc, List.singleton_append]

theorem parseDir_append {path name file rest : List Char} (h : '/' ∉ file) :
    parseDir path name (file ++ '/' :: rest) = parseDir (enterDir path (name ++ file)) [] rest := by
  induction file generalizing name with
  | nil => rw [List.nil_append, parseDir, if_pos rfl, List.append_nil]
  | cons c file ih =>
    rw [List.mem_cons, not_or] at h
    rw [List.cons_append, parseDir, if_neg (Ne.symm h.1), ih h.2, List.append_assoc,
      List.singleton_append]

/-- `parse_dir` walks up to the last component. -/
theorem parseDir_eq (h : Components names) (path : List Char) :
    parseDir (dirPath names) [] path = (dirPath (walkFront names path), baseName path) := by
  induction path using slash_induction generalizing names with
  | hname file hfile =>
    rw [parseDir_of_notMem hfile, walkFront_of_notMem hfile, baseName_of_notMem hfile,
      List.nil_append]
  | hslash file rest hfile ih =>
    rw [parseDir_append hfile, List.nil_append, enterDir_dirPath h hfile, ih (h.enter hfile),
      walkFront_slash hfile, baseName_append]

/-- What a directory and a path are split into. -/
theorem splitPathAndFile_eq {dirName : List Char} (hdir : dirName.getLast? = some '/')
    (path : List Char) :
    splitPathAndFile dirName path =
      some ⟨dirPath (walkFront (walkFront [] (stripRoot dirName)) path), baseName path⟩ := by
  rw [splitPathAndFile, if_pos hdir, ← dirPath_nil, parseDir_eq components_nil]
  dsimp only
  rw [parseDir_eq (components_nil.walkFront _)]

theorem normal_of_splitPathAndFile {dirName filePath : List Char} {k : FileDisc}
    (h : splitPathAndFile dirName filePath = some k) : k.Normal := by
  by_cases hdir : dirName.getLast? = some '/'
  · rw [splitPathAndFile_eq hdir] at h
    obtain rfl := Option.some.inj h
    exact ⟨⟨_, (components_nil.walkFront _).walkFront _, rfl⟩, notMem_baseName _⟩
  · rw [splitPathAndFile, if_neg hdir] at h
    cases h

/-! ## Splitting a normal name -/

/-- The components of a normal path are entered one after the other. -/
theorem walkFront_flatMap (front : List (List Char)) (h : Components names) (hfile : '/' ∉ file) :
    walkFront front (names.flatMap (· ++ ['/']) ++ file) = front ++ names := by
  induction names generalizing front with
  | nil => rw [List.flatMap_nil, List.nil_append, walkFront_of_notMem hfile, List.append_nil]
  | cons name names ih =>
    have hname := h name List.mem_cons_self
    have henter : enter front name = front ++ [name] := by
      rw [enter, if_neg hname.ne_dotdot, if_neg (not_or.mpr ⟨hname.ne_dot, hname.ne_nil⟩)]
    rw [List.flatMap_cons, List.append_assoc, List.append_assoc, List.singleton_append,
      walkFront_slash hname.notMem, henter, ih _ fun n hn ↦ h n (List.mem_cons_of_mem name hn),
      List.append_assoc, List.singleton_append]

theorem baseName_flatMap (h : Components names) (hfile : '/' ∉ file) :
    baseName (names.flatMap (· ++ ['/']) ++ file) = file := by
  induction names with
  | nil => exact baseName_of_notMem hfile
  | cons name names ih =>
    rw [List.flatMap_cons, List.append_assoc, List.append_assoc, List.singleton_append,
      baseName_append, ih fun n hn ↦ h n (List.mem_cons_of_mem name hn)]

theorem getLast?_dirPath (names : List (List Char)) : (dirPath names).getLast? = some '/' := by
  obtain ⟨l, hl⟩ := exists_dirPath_eq names
  rw [hl, List.getLast?_concat]

/-- A normal name is given back unchanged. -/
theorem FileDisc.Normal.split {k : FileDisc} (h : k.Normal) :
    splitPathAndFile k.path k.file = some k := by
  obtain ⟨names, hnames, hpath⟩ := h.exists_names
  have hlast : k.path.getLast? = some '/' := hpath ▸ getLast?_dirPath names
  have hstrip : stripRoot k.path = names.flatMap (· ++ ['/']) ++ [] := by
    rw [hpath, List.append_nil]
    rfl
  rw [splitPathAndFile_eq hlast, hstrip, walkFront_flatMap [] hnames List.not_mem_nil,
    walkFront_of_notMem h.notMem_file, baseName_of_notMem h.notMem_file, List.nil_append, ← hpath]

/-! ## Splitting as a walk -/

/-- A directory is walked as what follows the root in it. -/
theorem walk_stripRoot (names : List (List Char)) (dirName : List Char) :
    walk names (stripRoot dirName) = walk names dirName := by
  unfold stripRoot
  split
  · exact (walk_dot_slash _).symm
  · exact (walk_slash _).symm
  · rfl

theorem baseName_stripRoot {dirName : List Char} (h : dirName.getLast? = some '/') :
    baseName (stripRoot dirName) = [] := by
  unfold stripRoot
  split
  · rename_i rest
    rw [← baseName_of_getLast? h, ← baseName_append ['.'] rest]
    rfl
  · rename_i rest
    rw [← baseName_of_getLast? h, ← baseName_append [] rest]
    rfl
  · exact baseName_of_getLast? h

theorem splitOn_eq_append (path : List Char) :
    path.splitOn '/' = (path.splitOn '/').dropLast ++ [baseName path] :=
  (List.dropLast_append_getLast (List.splitOn_ne_nil '/' path)).symm

/-- The directory is the one to which the components of the first path lead from the root, and then
those before the last slash of the second; it has none of the components that lead nowhere or up.
The name is what stands behind the last slash, and what is split once is not changed by splitting it
again. -/
theorem split_is_walk {dirName : List Char} (hdir : dirName.getLast? = some '/')
    (filePath : List Char) : ∃ (d f : List Char) (front names : List (List Char)),
      splitPathAndFile dirName filePath = some ⟨d, f⟩ ∧
      filePath.splitOn '/' = front ++ [f] ∧
      d = ['.', '/'] ++ names.flatMap (· ++ ['/']) ∧ d.getLast? = some '/' ∧ Components names ∧
      names = front.foldl enter ((dirName.splitOn '/').foldl enter []) ∧
      splitPathAndFile d f = some ⟨d, f⟩ := by
  have hsplit := splitPathAndFile_eq hdir filePath
  have hnormal := normal_of_splitPathAndFile hsplit
  refine ⟨_, _, (filePath.splitOn '/').dropLast,
    walkFront (walkFront [] (stripRoot dirName)) filePath, hsplit, splitOn_eq_append filePath, rfl,
    getLast?_dirPath _, (components_nil.walkFront _).walkFront _, ?_, hnormal.split⟩
  rw [← walk_of_baseName (baseName_stripRoot hdir), walk_stripRoot]
  rfl

/-- Dots, repeated slashes and more steps up than there are directories. -/
theorem split_is_walk_up : ∃ (d f : List Char) (front names : List (List Char)),
    splitPathAndFile "/a/../../b/".toList ".//...//c/../x".toList = some ⟨d, f⟩ ∧
      ".//...//c/../x".toList.splitOn '/' = front ++ [f] ∧
      d = ['.', '/'] ++ names.flatMap (· ++ ['/']) ∧ d.getLast? = some '/' ∧ Components names ∧
      names = front.foldl enter (("/a/../../b/".toList.splitOn '/').foldl enter []) ∧
      splitPathAndFile d f = some ⟨d, f⟩ :=
  split_is_walk (by decide) _

end Maturin
