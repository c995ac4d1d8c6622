import Maturin.File.Disk
import Maturin.Lib.Throughout
import Mathlib.Logic.Function.Basic

/-!
# The index of the virtual directories

The directories of the virtual file system are objects whose entries are files and other
directories, and `VFS_DIRS` finds a directory by its path at once. The two are kept up separately: a
new directory is put into the entries of its parent and into the index, and a removed one is taken
out of both, but what the removed one contains is not looked at.

A directory that was removed may still be an entry of another one or in the index, so here an entry
refers to a directory by a number and not, as in `Disk`, by its path.

## When the index is the tree

A path that is in the index but not in the tree comes about in one way only, when a directory is
removed that has a sub-directory. Up to then the index gives every path the directory that is
reached from a root by the entries, and a path is reached in one way, since names have no slash.
-/

namespace Maturin

namespace Vfs

/-- What an entry refers to: a file, or the directory with a number. -/
inductive Node
  | file
  | dir (d : ℕ)
  deriving DecidableEq

/-- The directory, if it is one, as `get_dir` tells. -/
def Node.getDir : Node → Option ℕ
  | .file => none
  | .dir d => some d

/-- `DirEntry` -/
structure DirEntry where
  name : List Char
  file : Node
  deriving DecidableEq

/-- `VirtDir` -/
structure VirtDir where
  entry : List DirEntry
  name : List Char
  deriving DecidableEq

namespace VirtDir

def new (name : List Char) : VirtDir := ⟨[], name⟩

/-- `iter().find(|&e| e.name == *file_name).map(|e| e.file.clone())` -/
def find (self : VirtDir) (fileName : List Char) : Option Node :=
  (self.entry.find? fun e ↦ e.name = fileName).map DirEntry.file

def checkFileExists (self : VirtDir) (fileName : List Char) : Bool := (self.find fileName).isSome

def push (self : VirtDir) (name : List Char) (f : Node) : VirtDir :=
  { self with entry := self.entry ++ [⟨name, f⟩] }

/-- `remove_file`: all entries with the name are dropped, and the first of them is returned. -/
def removeFile (self : VirtDir) (fileName : List Char) : Option Node × VirtDir :=
  (self.find fileName, { self with entry := self.entry.filter (·.name != fileName) })

/-- `get_file` of the directory `d`. Emptying a file changes its content only, which is left out. -/
def getFile (self : VirtDir) (d : ℕ) (fileName : List Char) (flags : OpenFlags) :
    Option Node × VirtDir :=
  if flags.contains OpenFlags.DIR || flags.contains OpenFlags.DSYNC || fileName.length = 0 then
    if fileName.length = 0 then (some (.dir d), self) else (self.find fileName, self)
  else
    match self.find fileName with
    | some f => if flags.contains OpenFlags.EXCL then (none, self) else (some f, self)
    | none =>
      if flags.contains OpenFlags.CREATE then (some .file, self.push fileName .file)
      else (none, self)

end VirtDir

end Vfs

/-- The directories by number, of which the first `next` have been created, and `VFS_DIRS`. -/
structure Vfs where
  dirs : ℕ → Vfs.VirtDir
  next : ℕ
  vfsDirs : List Char → Option ℕ

namespace Vfs

def DEV : List Char := ['d', 'e', 'v']

def VAR_TMP : List Char := ['v', 'a', 'r', '/', 't', 'm', 'p']

/-- `VFS_DIRS` at first: the directories `dev`, with the files `null` and `zero`, and `var/tmp`. -/
def init : Vfs where
  dirs d :=
    if d = 0 then ⟨[⟨['n', 'u', 'l', 'l'], .file⟩, ⟨['z', 'e', 'r', 'o'], .file⟩], DEV⟩
    else .new VAR_TMP
  next := 2
  vfsDirs path := if path = DEV then some 0 else if path = VAR_TMP then some 1 else none

/-- The entries of the directory `d` change. -/
def setDir (s : Vfs) (d : ℕ) (dir : VirtDir) : Vfs :=
  { s with dirs := Function.update s.dirs d dir }

/-- `get_virt_dir_if_possible` -/
def getVirtDirIfPossible (s : Vfs) (dir : List Char) : Option ℕ := (virtDirName dir).bind s.vfsDirs

/-- `get_virt_file_if_possible` -/
def getVirtFileIfPossible (s : Vfs) (dir file : List Char) (flags : OpenFlags) :
    Option Node × Vfs :=
  match s.getVirtDirIfPossible dir with
  | some d =>
    let (f, virtDir) := (s.dirs d).getFile d file flags
    (f, s.setDir d virtDir)
  | none => (none, s)

/-- The path of an entry of a directory. -/
def childPath (path name : List Char) : List Char := path ++ '/' :: name

/-- `mkdir` of the directory `d`, which returns the number of the new directory. -/
def mkdirIn (s : Vfs) (d : ℕ) (dirName : List Char) : Option ℕ × Vfs :=
  if (s.dirs d).checkFileExists dirName then (none, s)
  else
    (some s.next, {
      s with
      dirs := Function.update (Function.update s.dirs d ((s.dirs d).push dirName (.dir s.next)))
        s.next (.new (childPath (s.dirs d).name dirName))
      next := s.next + 1 })

/-- `try_make_virt_dir` -/
def tryMakeVirtDir (s : Vfs) (d : ℕ) (newDirName : List Char) : Bool × Vfs :=
  match s.mkdirIn d newDirName with
  | (some newDir, s) =>
    (true, { s with vfsDirs := Function.update s.vfsDirs (s.dirs newDir).name (some newDir) })
  | (none, s) => (false, s)

/-- `try_remove_virt_file` -/
def tryRemoveVirtFile (s : Vfs) (dir fileName : List Char) : Option Bool × Vfs :=
  match s.getVirtDirIfPossible dir with
  | none => (none, s)
  | some d =>
    match (s.dirs d).removeFile fileName with
    | (some (.dir d'), virtDir) =>
      (some true, { s.setDir d virtDir with
        vfsDirs := Function.update s.vfsDirs ((s.setDir d virtDir).dirs d').name none })
    | (some .file, virtDir) => (some true, s.setDir d virtDir)
    | (none, virtDir) => (some false, s.setDir d virtDir)

end Vfs

/-- The calls that reach the virtual file system, with the directory and the name that
`map_path_and_file` has made of the path. -/
inductive VfsEvent
  | mkdir (dir name : List Char)
  | open (dir name : List Char) (flags : OpenFlags)
  | remove (dir name : List Char)

/-- The name in the directory. -/
def VfsEvent.name : VfsEvent → List Char
  | .mkdir _ name | .open _ name _ | .remove _ name => name

namespace Vfs

variable {s s' : Vfs} {a b d d' e : ℕ} {p q n name dir : List Char} {event : VfsEvent}
  {flags : OpenFlags}

/-- `mkdir`, `open_file` and `remove_file` as far as they concern the virtual file system. -/
def step (s : Vfs) : VfsEvent → Vfs
  | .mkdir dir name =>
    match s.getVirtDirIfPossible dir with
    | some d => (s.tryMakeVirtDir d name).2
    | none => s
  | .open dir name flags => (s.getVirtFileIfPossible dir name flags).2
  | .remove dir name => (s.tryRemoveVirtFile dir name).2

/-! ## The tree -/

/-- The directory `b` is an entry of `a` with this name. -/
def Child (s : Vfs) (a : ℕ) (n : List Char) (b : ℕ) : Prop := ⟨n, .dir b⟩ ∈ (s.dirs a).entry

instance : Decidable (s.Child a n b) := inferInstanceAs (Decidable (_ ∈ _))

/-- The path leads from a root to the directory, by entries that are directories. -/
inductive Reached (s : Vfs) : List Char → ℕ → Prop
  | dev : s.Reached DEV 0
  | varTmp : s.Reached VAR_TMP 1
  | child {p n : List Char} {a b : ℕ} (hp : s.Reached p a) (hchild : s.Child a n b) :
      s.Reached (childPath p n) b

/-- The keys of `VFS_DIRS` are the paths of the tree, and names are unique in each directory. -/
structure Indexed (s : Vfs) : Prop where
  keys : ∀ p, (s.vfsDirs p).isSome = true ↔ ∃ d, s.Reached p d
  unique : ∀ d < s.next, ((s.dirs d).entry.map DirEntry.name).Nodup

/-- The condition on a call, by the state before it: a directory that it removes has no
sub-directory. -/
def Sound (s : Vfs) : VfsEvent → Prop
  | .remove dir name => ∀ d d', s.getVirtDirIfPossible dir = some d →
      (s.dirs d).find name = some (.dir d') → ∀ n b, ¬s.Child d' n b
  | _ => True

/-! ## Paths -/

theorem slash_append_inj {x y u v : List Char} (hx : '/' ∉ x) (hy : '/' ∉ y)
    (h : x ++ '/' :: u = y ++ '/' :: v) : x = y ∧ u = v := by
  induction x generalizing y with
  | nil =>
    cases y with
    | nil => exact ⟨rfl, (List.cons.inj h).2⟩
    | cons c y => exact absurd (List.cons.inj h).1 fun hc ↦ hy (hc ▸ List.mem_cons_self)
  | cons c x ih =>
    cases y with
    | nil => exact absurd (List.cons.inj h).1 fun hc ↦ hx (hc ▸ List.mem_cons_self)
    | cons c' y =>
      obtain ⟨rfl, htail⟩ := List.cons.inj h
      obtain ⟨rfl, rfl⟩ := ih (fun hm ↦ hx (List.mem_cons_of_mem c hm))
        (fun hm ↦ hy (List.mem_cons_of_mem c hm)) htail
      exact ⟨rfl, rfl⟩

/-- A path tells the directory and the name, since names have no slash. -/
theorem childPath_inj (hn : '/' ∉ n) (hname : '/' ∉ name) (h : childPath p n = childPath q name) :
    p = q ∧ n = name := by
  have hrev : n.reverse ++ '/' :: p.reverse = name.reverse ++ '/' :: q.reverse := by
    simpa [childPath] using congrArg List.reverse h
  obtain ⟨hreverse, hpath⟩ := slash_append_inj (by simpa using hn) (by simpa using hname) hrev
  exact ⟨List.reverse_injective hpath, List.reverse_injective hreverse⟩

theorem slash_mem_childPath : '/' ∈ childPath p n :=
  List.mem_append_right p List.mem_cons_self

theorem childPath_ne_self : childPath p n ≠ p := by
  intro h
  have hlen := congrArg List.length h
  rw [childPath, List.length_append, List.length_cons] at hlen
  omega

/-- No path of the tree is `var`, the directory in which the root `var/tmp` is. -/
theorem Reached.ne_var (h : s.Reached p d) : p ≠ ['v', 'a', 'r'] := by
  rintro hp
  cases h with
  | dev => exact absurd hp (by decide)
  | varTmp => exact absurd hp (by decide)
  | child hq hchild => exact absurd (hp ▸ slash_mem_childPath) (by decide)

/-- What is reached below a path is an entry of a directory that is reached by it. -/
theorem Reached.exists_child (hp : p ≠ ['v', 'a', 'r']) (hn : '/' ∉ n)
    (hslash : ∀ a n b, s.Child a n b → '/' ∉ n) (h : s.Reached (childPath p n) b) :
    ∃ a, s.Reached p a ∧ s.Child a n b := by
  generalize hq : childPath p n = q at h
  cases h with
  | dev => exact absurd (hq ▸ slash_mem_childPath) (by decide)
  | varTmp =>
    have hvar : VAR_TMP = childPath ['v', 'a', 'r'] ['t', 'm', 'p'] := rfl
    exact absurd (childPath_inj hn (by decide) (hq.trans hvar)).1 hp
  | child hq' hchild =>
    obtain ⟨rfl, rfl⟩ := childPath_inj hn (hslash _ _ _ hchild) hq
    exact ⟨_, hq', hchild⟩

/-- The tree depends on the entries that are directories. -/
theorem Reached.mono (h : s.Reached p d) (hchild : ∀ a n b, s.Child a n b → s'.Child a n b) :
    s'.Reached p d := by
  induction h with
  | dev => exact .dev
  | varTmp => exact .varTmp
  | child _ hc ih => exact .child ih (hchild _ _ _ hc)

/-! ## Entries of a directory -/

namespace VirtDir

variable {self : VirtDir} {f : Node} {entry : DirEntry}

theorem mem_of_find (h : self.find name = some f) : ⟨name, f⟩ ∈ self.entry := by
  obtain ⟨entry, hentry, rfl⟩ := Option.map_eq_some_iff.mp h
  have hname : entry.name = name := by simpa using List.find?_some hentry
  rw [← hname]
  exact List.mem_of_find?_eq_some hentry

theorem ne_of_find_eq_none (h : self.find name = none) (hmem : entry ∈ self.entry) :
    entry.name ≠ name := by
  simpa using List.find?_eq_none.mp (Option.map_eq_none_iff.mp h) entry hmem

theorem find_of_mem (hnodup : (self.entry.map DirEntry.name).Nodup)
    (hmem : ⟨name, f⟩ ∈ self.entry) : self.find name = some f := by
  cases hfind : self.find name with
  | none => exact absurd rfl (ne_of_find_eq_none hfind hmem)
  | some g =>
    have heq := List.inj_on_of_nodup_map hnodup (mem_of_find hfind) hmem rfl
    rw [DirEntry.mk.injEq] at heq
    rw [heq.2]

theorem nodup_push (hnodup : (self.entry.map DirEntry.name).Nodup) (h : self.find name = none) :
    ((self.push name f).entry.map DirEntry.name).Nodup := by
  rw [push, List.map_append, List.map_singleton, List.nodup_append_comm, List.singleton_append,
    List.nodup_cons]
  refine ⟨fun hmem ↦ ?_, hnodup⟩
  obtain ⟨entry, hentry, hname⟩ := List.mem_map.mp hmem
  exact ne_of_find_eq_none h hentry hname

/-- The directory as `Disk` has it, where an entry for a directory has its path. -/
def toDisk (self : VirtDir) : Maturin.VirtDir Unit where
  entry := self.entry.map fun entry ↦ ⟨entry.name, match entry.file with
    | .file => .file ()
    | .dir _ => .dir (childPath self.name entry.name)⟩
  name := self.name

theorem isSome_find_toDisk (self : VirtDir) (name : List Char) :
    (self.toDisk.find name).isSome = (self.find name).isSome := by
  rw [Maturin.VirtDir.find, find, Option.isSome_map, toDisk, List.find?_map, Option.isSome_map]
  rfl

/-- A call that does not create finds something here exactly if it does there. -/
theorem isSome_getFile_toDisk (self : VirtDir) (d : ℕ) (name : List Char)
    (hcreate : flags.contains OpenFlags.CREATE = false) :
    (self.toDisk.getFile name flags).isSome = (self.getFile d name flags).1.isSome := by
  have hfind := isSome_find_toDisk self name
  rw [Maturin.VirtDir.getFile, getFile, hcreate]
  split
  · split
    · rfl
    · rw [Option.isSome_map, hfind]
  · cases hdisk : self.toDisk.find name <;> cases hself : self.find name <;>
      rw [hdisk, hself] at hfind
    · rfl
    · cases hfind
    · cases hfind
    · by_cases hexcl : flags.contains OpenFlags.EXCL = true <;> simp only [hexcl] <;> rfl

/-- `get_file` adds at most a file, under a name that was free. -/
theorem getFile_cases (self : VirtDir) (d : ℕ) (name : List Char) (flags : OpenFlags) :
    (self.getFile d name flags).2 = self ∨
      self.find name = none ∧ (self.getFile d name flags).2 = self.push name .file := by
  rw [getFile]
  split
  · split
    · exact .inl rfl
    · exact .inl rfl
  · split
    · split
      · exact .inl rfl
      · exact .inl rfl
    · rename_i hnone
      split
      · exact .inr ⟨hnone, rfl⟩
      · exact .inl rfl

end VirtDir

/-! ## The invariant -/

/-- The index gives a path the directory that it leads to, and the directory knows its path. -/
structure Inv (s : Vfs) : Prop where
  index : ∀ p d, s.vfsDirs p = some d ↔ s.Reached p d
  named : ∀ p d, s.Reached p d → d < s.next ∧ (s.dirs d).name = p
  unique : ∀ d < s.next, ((s.dirs d).entry.map DirEntry.name).Nodup
  noSlash : ∀ d < s.next, ∀ entry ∈ (s.dirs d).entry, '/' ∉ entry.name
  bounded : ∀ a n b, s.Child a n b → a < s.next

namespace Inv

theorem indexed (h : s.Inv) : s.Indexed where
  keys p := by
    rw [Option.isSome_iff_exists]
    exact exists_congr fun d ↦ h.index p d
  unique := h.unique

theorem child_noSlash (h : s.Inv) (hchild : s.Child a n b) : '/' ∉ n :=
  h.noSlash a (h.bounded a n b hchild) _ hchild

theorem eq_path (h : s.Inv) (hp : s.Reached p d) (hq : s.Reached q d) : p = q :=
  (h.named p d hp).2.symm.trans (h.named q d hq).2

theorem eq_dir (h : s.Inv) (hp : s.Reached p a) (hp' : s.Reached p b) : a = b :=
  Option.some.inj (((h.index p a).mpr hp).symm.trans ((h.index p b).mpr hp'))

/-- The directory that is found under a path is reached by its key. -/
theorem reached_of_get (h : s.Inv) (hget : s.getVirtDirIfPossible dir = some d) :
    ∃ p, s.Reached p d := by
  obtain ⟨p, -, hp⟩ := Option.bind_eq_some_iff.mp hget
  exact ⟨p, (h.index p d).mp hp⟩

/-- What is reached below a directory is reached by one of its entries. -/
theorem child_of_reached (h : s.Inv) (hp : s.Reached p a) (hn : '/' ∉ n)
    (hchild : s.Reached (childPath p n) b) : s.Child a n b := by
  obtain ⟨a', hp', hc⟩ := hchild.exists_child hp.ne_var hn fun _ _ _ ↦ h.child_noSlash
  rwa [h.eq_dir hp hp']

end Inv

theorem not_child_init : ¬init.Child a n b := by
  rw [Child, init]
  dsimp only
  split
  · simp
  · exact List.not_mem_nil

theorem reached_init_iff : init.Reached p d ↔ p = DEV ∧ d = 0 ∨ p = VAR_TMP ∧ d = 1 := by
  constructor
  · intro h
    cases h with
    | dev => exact .inl ⟨rfl, rfl⟩
    | varTmp => exact .inr ⟨rfl, rfl⟩
    | child hp hchild => exact absurd hchild not_child_init
  · rintro (⟨rfl, rfl⟩ | ⟨rfl, rfl⟩)
    · exact .dev
    · exact .varTmp

theorem inv_init : init.Inv where
  index p d := by
    rw [reached_init_iff, init]
    dsimp only
    have hne : DEV ≠ VAR_TMP := by decide
    split_ifs with hdev htmp
    · rw [hdev, Option.some.injEq, eq_comm, eq_self, true_and]
      exact (or_iff_left fun hr ↦ hne hr.1).symm
    · rw [htmp, Option.some.injEq, eq_comm, eq_self, true_and]
      exact (or_iff_right fun hl ↦ hne hl.1.symm).symm
    · exact iff_of_false id fun h ↦
        h.elim (fun hl ↦ hdev hl.1) fun hr ↦ htmp hr.1
  named p d h := by
    rcases reached_init_iff.mp h with ⟨rfl, rfl⟩ | ⟨rfl, rfl⟩
    · exact ⟨by decide, rfl⟩
    · exact ⟨by decide, rfl⟩
  unique d hd := by
    have : d = 0 ∨ d = 1 := by
      have : d < 2 := hd
      omega
    rcases this with rfl | rfl <;> decide
  noSlash d hd := by
    have : d = 0 ∨ d = 1 := by
      have : d < 2 := hd
      omega
    rcases this with rfl | rfl <;> decide
  bounded a n b h := absurd h not_child_init

/-! ## Steps that only add a file -/

/-- The entries that are directories, their names and the index are the same, and the names in each
directory are still unique and without a slash. -/
theorem Inv.of_same (h : s.Inv) (s' : Vfs) (hnext : s'.next = s.next)
    (hindex : s'.vfsDirs = s.vfsDirs)
    (hname : ∀ d, (s'.dirs d).name = (s.dirs d).name)
    (hchild : ∀ a n b, s'.Child a n b ↔ s.Child a n b)
    (hunique : ∀ d < s.next, ((s'.dirs d).entry.map DirEntry.name).Nodup)
    (hnoSlash : ∀ d < s.next, ∀ entry ∈ (s'.dirs d).entry, '/' ∉ entry.name) : s'.Inv := by
  have hreached : ∀ p d, s'.Reached p d ↔ s.Reached p d := fun p d ↦
    ⟨fun hr ↦ hr.mono fun a n b ↦ (hchild a n b).mp,
      fun hr ↦ hr.mono fun a n b ↦ (hchild a n b).mpr⟩
  constructor
  · intro p d
    rw [hindex, hreached]
    exact h.index p d
  · intro p d hr
    rw [hnext, hname]
    exact h.named p d ((hreached p d).mp hr)
  · rwa [hnext]
  · rwa [hnext]
  · intro a n b hc
    rw [hnext]
    exact h.bounded a n b ((hchild a n b).mp hc)

theorem setDir_self : s.setDir d (s.dirs d) = s := by
  rw [setDir, Function.update_eq_self]

theorem setDir_dirs_self {dir : VirtDir} : (s.setDir d dir).dirs d = dir :=
  Function.update_self _ _ _

theorem setDir_dirs_of_ne {dir : VirtDir} (h : a ≠ d) : (s.setDir d dir).dirs a = s.dirs a :=
  Function.update_of_ne h _ _

theorem setDir_dirs_name {dir : VirtDir} (h : dir.name = (s.dirs d).name) :
    ((s.setDir d dir).dirs a).name = (s.dirs a).name := by
  rcases eq_or_ne a d with rfl | hne
  · rw [setDir_dirs_self, h]
  · rw [setDir_dirs_of_ne hne]

/-- A property of the entries of each directory, when one directory changes. -/
theorem setDir_entry {P : List DirEntry → Prop} {dir : VirtDir} (hP : P dir.entry)
    (h : ∀ d < s.next, P (s.dirs d).entry) (a : ℕ) (ha : a < s.next) :
    P ((s.setDir d dir).dirs a).entry := by
  rcases eq_or_ne a d with rfl | hne
  · rw [setDir_dirs_self]
    exact hP
  · rw [setDir_dirs_of_ne hne]
    exact h a ha

theorem setDir_child_iff {dir : VirtDir} (h : ∀ n b, ⟨n, .dir b⟩ ∈ dir.entry ↔ s.Child d n b) :
    (s.setDir d dir).Child a n b ↔ s.Child a n b := by
  rw [Child]
  rcases eq_or_ne a d with rfl | hne
  · rw [setDir_dirs_self]
    exact h n b
  · rw [setDir_dirs_of_ne hne]
    rfl

/-- A file is added under a name that is free. -/
theorem Inv.push (h : s.Inv) (hd : d < s.next) (hname : '/' ∉ name)
    (hfind : (s.dirs d).find name = none) : (s.setDir d ((s.dirs d).push name .file)).Inv := by
  apply h.of_same (s.setDir d _) rfl rfl
  · intro a
    exact setDir_dirs_name rfl
  · intro a n b
    apply setDir_child_iff
    intro n b
    rw [VirtDir.push, List.mem_append, List.mem_singleton]
    exact or_iff_left (by simp)
  · exact setDir_entry (P := fun l ↦ (l.map DirEntry.name).Nodup)
      (VirtDir.nodup_push (h.unique d hd) hfind) h.unique
  · apply setDir_entry (P := fun l ↦ ∀ entry ∈ l, '/' ∉ entry.name) _ h.noSlash
    intro entry hentry
    rcases List.mem_append.mp hentry with hold | hnew
    · exact h.noSlash d hd entry hold
    · rwa [List.mem_singleton.mp hnew]

/-- Opening a file keeps the invariant. -/
theorem Inv.open (h : s.Inv) (hname : '/' ∉ name) : (s.step (.open dir name flags)).Inv := by
  rw [step, getVirtFileIfPossible]
  cases hget : s.getVirtDirIfPossible dir with
  | none => exact h
  | some d =>
    obtain ⟨p, hp⟩ := h.reached_of_get hget
    rcases (s.dirs d).getFile_cases d name flags with hsame | ⟨hfind, hpush⟩
    · dsimp only
      rw [hsame, setDir_self]
      exact h
    · dsimp only
      rw [hpush]
      exact h.push (h.named p d hp).1 hname hfind

/-! ## A new directory -/

/-- The state after `mkdir` under a name that is free. -/
def withDir (s : Vfs) (d : ℕ) (name : List Char) : Vfs where
  dirs := Function.update (Function.update s.dirs d ((s.dirs d).push name (.dir s.next)))
    s.next (.new (childPath (s.dirs d).name name))
  next := s.next + 1
  vfsDirs := Function.update s.vfsDirs (childPath (s.dirs d).name name) (some s.next)

theorem tryMakeVirtDir_of_none (hfind : (s.dirs d).find name = none) :
    (s.tryMakeVirtDir d name).2 = s.withDir d name := by
  simp only [tryMakeVirtDir, mkdirIn, VirtDir.checkFileExists, hfind, Option.isSome_none,
    Bool.false_eq_true, if_false, Function.update_self]
  rfl

theorem tryMakeVirtDir_of_some {f : Node} (hfind : (s.dirs d).find name = some f) :
    (s.tryMakeVirtDir d name).2 = s := by
  simp only [tryMakeVirtDir, mkdirIn, VirtDir.checkFileExists, hfind, Option.isSome_some, if_true]

theorem withDir_dirs_next :
    (s.withDir d name).dirs s.next = .new (childPath (s.dirs d).name name) :=
  Function.update_self _ _ _

theorem withDir_dirs_self (hd : d < s.next) :
    (s.withDir d name).dirs d = (s.dirs d).push name (.dir s.next) := by
  simp only [withDir, Function.update_of_ne hd.ne, Function.update_self]

theorem withDir_dirs_of_ne (hne : a ≠ d) (hnext : a ≠ s.next) :
    (s.withDir d name).dirs a = s.dirs a := by
  simp only [withDir, Function.update_of_ne hnext, Function.update_of_ne hne]

theorem withDir_child_iff (hd : d < s.next) :
    (s.withDir d name).Child a n b ↔
      a ≠ s.next ∧ (s.Child a n b ∨ a = d ∧ n = name ∧ b = s.next) := by
  rw [Child]
  rcases eq_or_ne a s.next with rfl | hnext
  · rw [withDir_dirs_next]
    exact iff_of_false List.not_mem_nil fun h ↦ h.1 rfl
  · rcases eq_or_ne a d with rfl | hne
    · rw [withDir_dirs_self hd, VirtDir.push, List.mem_append, List.mem_singleton,
        DirEntry.mk.injEq, Node.dir.injEq]
      simp [hnext, Child]
    · rw [withDir_dirs_of_ne hne hnext]
      simp [hnext, hne, Child]

/-- A property of the entries of each directory, when a new one is added. -/
theorem withDir_entry {P : List DirEntry → Prop} (hd : d < s.next) (hnil : P [])
    (hpush : P ((s.dirs d).push name (.dir s.next)).entry) (h : ∀ d < s.next, P (s.dirs d).entry)
    (a : ℕ) (ha : a < (s.withDir d name).next) : P ((s.withDir d name).dirs a).entry := by
  rcases Nat.lt_succ_iff_lt_or_eq.mp ha with hlt | rfl
  · rcases eq_or_ne a d with rfl | hne
    · rw [withDir_dirs_self hd]
      exact hpush
    · rw [withDir_dirs_of_ne hne hlt.ne]
      exact h a hlt
  · rw [withDir_dirs_next]
    exact hnil

/-- The new directory is reached below its parent, and everything else as before. -/
theorem Inv.reached_withDir_iff (h : s.Inv) (hp : s.Reached p d) :
    (s.withDir d name).Reached q e ↔ s.Reached q e ∨ q = childPath p name ∧ e = s.next := by
  have hd := (h.named p d hp).1
  constructor
  · intro hr
    induction hr with
    | dev => exact .inl .dev
    | varTmp => exact .inl .varTmp
    | @child p' n a b hp' hchild ih =>
      obtain ⟨hne, hold | ⟨rfl, rfl, rfl⟩⟩ := (withDir_child_iff hd).mp hchild
      · rcases ih with ih | ⟨-, rfl⟩
        · exact .inl (.child ih hold)
        · exact absurd rfl hne
      · rcases ih with ih | ⟨-, hnext⟩
        · exact .inr ⟨by rw [h.eq_path ih hp], rfl⟩
        · exact absurd hnext hne
  · have hmono : ∀ q e, s.Reached q e → (s.withDir d name).Reached q e := fun q e hr ↦
      hr.mono fun a n b hc ↦ (withDir_child_iff hd).mpr ⟨(h.bounded a n b hc).ne, .inl hc⟩
    rintro (hr | ⟨rfl, rfl⟩)
    · exact hmono q e hr
    · exact .child (hmono p d hp) ((withDir_child_iff hd).mpr ⟨hd.ne, .inr ⟨rfl, rfl, rfl⟩⟩)

theorem Inv.withDir (h : s.Inv) (hp : s.Reached p d) (hname : '/' ∉ name)
    (hfind : (s.dirs d).find name = none) : (s.withDir d name).Inv := by
  obtain ⟨hd, hpath⟩ := h.named p d hp
  constructor
  · intro q e
    rw [h.reached_withDir_iff hp, Vfs.withDir, hpath]
    dsimp only
    rcases eq_or_ne q (childPath p name) with rfl | hne
    · -- the path was not in the tree before
      have hfresh : ¬s.Reached (childPath p name) e := by
        intro hr
        have hmem := h.child_of_reached hp hname hr
        exact VirtDir.ne_of_find_eq_none hfind hmem rfl
      rw [Function.update_self, Option.some.injEq, or_iff_right hfresh, eq_self, true_and, eq_comm]
    · rw [Function.update_of_ne hne, h.index, or_iff_left fun hr ↦ hne hr.1]
  · intro q e hr
    rcases (h.reached_withDir_iff hp).mp hr with hold | ⟨rfl, rfl⟩
    · obtain ⟨hlt, hq⟩ := h.named q e hold
      refine ⟨Nat.lt_succ_of_lt hlt, ?_⟩
      rcases eq_or_ne e d with rfl | hne
      · rw [withDir_dirs_self hd]
        exact hq
      · rw [withDir_dirs_of_ne hne hlt.ne, hq]
    · rw [withDir_dirs_next, hpath]
      exact ⟨Nat.lt_succ_self _, rfl⟩
  · exact withDir_entry (P := fun l ↦ (l.map DirEntry.name).Nodup) hd List.nodup_nil
      (VirtDir.nodup_push (h.unique d hd) hfind) h.unique
  · apply withDir_entry (P := fun l ↦ ∀ entry ∈ l, '/' ∉ entry.name) hd
      (fun entry hentry ↦ absurd hentry List.not_mem_nil) _ h.noSlash
    intro entry hentry
    rcases List.mem_append.mp hentry with hold | hnew
    · exact h.noSlash d hd entry hold
    · rwa [List.mem_singleton.mp hnew]
  · intro a n b hchild
    obtain ⟨-, hold | ⟨rfl, -, -⟩⟩ := (withDir_child_iff hd).mp hchild
    · exact Nat.lt_succ_of_lt (h.bounded a n b hold)
    · exact Nat.lt_succ_of_lt hd

/-- Creating a directory keeps the invariant. -/
theorem Inv.mkdir (h : s.Inv) (hname : '/' ∉ name) : (s.step (.mkdir dir name)).Inv := by
  rw [step]
  cases hget : s.getVirtDirIfPossible dir with
  | none => exact h
  | some d =>
    obtain ⟨p, hp⟩ := h.reached_of_get hget
    dsimp only
    cases hfind : (s.dirs d).find name with
    | none =>
      rw [tryMakeVirtDir_of_none hfind]
      exact h.withDir hp hname hfind
    | some f =>
      rw [tryMakeVirtDir_of_some hfind]
      exact h

/-! ## Removing an entry -/

/-- The directory `d` without the entry `name`. -/
def without (s : Vfs) (d : ℕ) (name : List Char) : Vfs := s.setDir d ((s.dirs d).removeFile name).2

theorem without_child_iff :
    (s.without d name).Child a n b ↔ s.Child a n b ∧ (a = d → n ≠ name) := by
  rw [Child, without]
  rcases eq_or_ne a d with rfl | hne
  · rw [setDir_dirs_self, VirtDir.removeFile, List.mem_filter, bne_iff_ne]
    simp [Child]
  · rw [setDir_dirs_of_ne hne]
    simp [hne, Child]

theorem without_dirs_name (s : Vfs) (d : ℕ) (name : List Char) (a : ℕ) :
    ((s.without d name).dirs a).name = (s.dirs a).name :=
  setDir_dirs_name rfl

theorem without_entry {P : List DirEntry → Prop}
    (hP : ∀ l : List DirEntry, P l → P (l.filter (·.name != name)))
    (h : ∀ d < s.next, P (s.dirs d).entry) (a : ℕ) (ha : a < s.next) :
    P ((s.without d name).dirs a).entry := by
  rcases eq_or_ne a d with rfl | hne
  · rw [without, setDir_dirs_self]
    exact hP _ (h a ha)
  · rw [without, setDir_dirs_of_ne hne]
    exact h a ha

theorem nodup_filter {l : List DirEntry} (h : (l.map DirEntry.name).Nodup) :
    ((l.filter (·.name != name)).map DirEntry.name).Nodup :=
  (List.filter_sublist.map _).nodup h

theorem noSlash_filter {l : List DirEntry} (h : ∀ entry ∈ l, '/' ∉ entry.name) :
    ∀ entry ∈ l.filter (·.name != name), '/' ∉ entry.name :=
  fun entry hentry ↦ h entry (List.mem_of_mem_filter hentry)

/-- Removing a file, or a name that is not there. -/
theorem Inv.without_file (h : s.Inv) (hd : d < s.next)
    (hfile : ∀ d', (s.dirs d).find name ≠ some (.dir d')) : (s.without d name).Inv := by
  apply h.of_same (s.without d name) rfl rfl
  · intro a
    exact setDir_dirs_name rfl
  · intro a n b
    rw [without_child_iff, and_iff_left_iff_imp]
    rintro hchild rfl rfl
    exact hfile b (VirtDir.find_of_mem (h.unique a hd) hchild)
  · exact without_entry (P := fun l ↦ (l.map DirEntry.name).Nodup) (fun l ↦ nodup_filter) h.unique
  · exact without_entry (P := fun l ↦ ∀ entry ∈ l, '/' ∉ entry.name) (fun l ↦ noSlash_filter)
      h.noSlash

/-- The path of the removed entry leads nowhere. -/
theorem Inv.not_reached_without (h : s.Inv) (hp : s.Reached p d) (hname : '/' ∉ name) :
    ¬(s.without d name).Reached (childPath p name) e := by
  intro hr
  have hsub : ∀ a n b, (s.without d name).Child a n b → s.Child a n b := fun a n b hc ↦
    (without_child_iff.mp hc).1
  obtain ⟨a, ha, hchild⟩ := hr.exists_child hp.ne_var hname fun _ _ _ hc ↦
    h.child_noSlash (hsub _ _ _ hc)
  exact (without_child_iff.mp hchild).2 (h.eq_dir (ha.mono hsub) hp) rfl

/-- Without a directory that has no sub-directory, all other paths are still reached. -/
theorem Inv.reached_without_iff (h : s.Inv) (hp : s.Reached p d) (hname : '/' ∉ name)
    (hd' : s.Child d name d') (hbare : ∀ n b, ¬s.Child d' n b) :
    (s.without d name).Reached q e ↔ s.Reached q e ∧ q ≠ childPath p name := by
  constructor
  · intro hr
    refine ⟨hr.mono fun a n b hc ↦ (without_child_iff.mp hc).1, ?_⟩
    rintro rfl
    exact h.not_reached_without hp hname hr
  · rintro ⟨hr, hne⟩
    induction hr with
    | dev => exact .dev
    | varTmp => exact .varTmp
    | @child q' n a b hq' hchild ih =>
      have hq : q' ≠ childPath p name := by
        rintro rfl
        obtain rfl := h.eq_dir hq' (.child hp hd')
        exact hbare n b hchild
      refine .child (ih hq) (without_child_iff.mpr ⟨hchild, ?_⟩)
      rintro rfl rfl
      exact hne (by rw [h.eq_path hq' hp])

/-- The state after the directory with a path was removed from its parent and from the index. -/
def withoutDir (s : Vfs) (d : ℕ) (name path : List Char) : Vfs :=
  { s.without d name with vfsDirs := Function.update s.vfsDirs path none }

/-- The index has no part in the tree. -/
theorem reached_withoutDir_iff :
    (s.withoutDir d name path).Reached q e ↔ (s.without d name).Reached q e :=
  ⟨fun h ↦ h.mono fun _ _ _ hc ↦ hc, fun h ↦ h.mono fun _ _ _ hc ↦ hc⟩

/-- Removing a directory without sub-directories keeps the invariant. -/
theorem Inv.withoutDir (h : s.Inv) (hp : s.Reached p d) (hname : '/' ∉ name)
    (hd' : s.Child d name d') (hbare : ∀ n b, ¬s.Child d' n b) :
    (s.withoutDir d name (childPath p name)).Inv := by
  constructor
  · intro q e
    rw [reached_withoutDir_iff, h.reached_without_iff hp hname hd' hbare, ← h.index,
      Vfs.withoutDir]
    dsimp only
    rcases eq_or_ne q (childPath p name) with rfl | hne
    · rw [Function.update_self]
      exact iff_of_false (Option.some_ne_none e).symm fun hr ↦ hr.2 rfl
    · rw [Function.update_of_ne hne, and_iff_left hne]
  · intro q e hr
    rw [reached_withoutDir_iff, h.reached_without_iff hp hname hd' hbare] at hr
    obtain ⟨hlt, hq⟩ := h.named q e hr.1
    exact ⟨hlt, (without_dirs_name s d name e).trans hq⟩
  · exact without_entry (P := fun l ↦ (l.map DirEntry.name).Nodup) (fun l ↦ nodup_filter) h.unique
  · exact without_entry (P := fun l ↦ ∀ entry ∈ l, '/' ∉ entry.name) (fun l ↦ noSlash_filter)
      h.noSlash
  · intro a n b hchild
    exact h.bounded a n b (without_child_iff.mp hchild).1

/-- A sub-directory of a removed directory stays in the index, and is not in the tree any more. -/
theorem Inv.not_indexed_withoutDir (h : s.Inv) (hp : s.Reached p d) (hname : '/' ∉ name)
    (hd' : s.Child d name d') (hsub : s.Child d' n b) :
    ¬(s.withoutDir d name (childPath p name)).Indexed := by
  intro hindexed
  have hpath := Reached.child hp hd'
  have hkey : ((s.withoutDir d name (childPath p name)).vfsDirs
      (childPath (childPath p name) n)).isSome = true := by
    rw [Vfs.withoutDir]
    dsimp only
    rw [Function.update_of_ne childPath_ne_self, (h.index _ b).mpr (.child hpath hsub),
      Option.isSome_some]
  obtain ⟨e, he⟩ := (hindexed.keys _).mp hkey
  rw [reached_withoutDir_iff] at he
  obtain ⟨a, ha, -⟩ := he.exists_child hpath.ne_var (h.child_noSlash hsub) fun _ _ _ hc ↦
    h.child_noSlash (without_child_iff.mp hc).1
  exact h.not_reached_without hp hname ha

/-- What a removal does to the state. -/
theorem Inv.step_remove (h : s.Inv) (hget : s.getVirtDirIfPossible dir = some d)
    (hp : s.Reached p d) (name : List Char) :
    (∀ d', (s.dirs d).find name ≠ some (.dir d')) ∧
        s.step (.remove dir name) = s.without d name ∨
      ∃ d', (s.dirs d).find name = some (.dir d') ∧
        s.step (.remove dir name) = s.withoutDir d name (childPath p name) := by
  have hstep : s.step (.remove dir name) = (s.tryRemoveVirtFile dir name).2 := rfl
  rw [tryRemoveVirtFile, hget] at hstep
  dsimp only [VirtDir.removeFile] at hstep
  cases hfind : (s.dirs d).find name with
  | none =>
    rw [hfind] at hstep
    exact .inl ⟨fun d' ↦ (Option.some_ne_none _).symm, hstep⟩
  | some f =>
    rw [hfind] at hstep
    cases f with
    | file => exact .inl ⟨fun d' hd' ↦ Node.noConfusion (Option.some.inj hd'), hstep⟩
    | dir d' =>
      refine .inr ⟨d', rfl, hstep.trans ?_⟩
      have hchild : s.Child d name d' := VirtDir.mem_of_find hfind
      have hpath := (without_dirs_name s d name d').trans (h.named _ d' (.child hp hchild)).2
      rw [without, VirtDir.removeFile] at hpath
      dsimp only
      rw [hpath]
      rfl

/-! ## Every call -/

/-- A sound call keeps the invariant. -/
theorem Inv.step (h : s.Inv) (hname : '/' ∉ event.name) (hsound : s.Sound event) :
    (s.step event).Inv := by
  cases event with
  | mkdir dir name => exact h.mkdir hname
  | «open» dir name flags => exact h.open hname
  | remove dir name =>
    cases hget : s.getVirtDirIfPossible dir with
    | none =>
      rw [Vfs.step, tryRemoveVirtFile, hget]
      exact h
    | some d =>
      obtain ⟨p, hp⟩ := h.reached_of_get hget
      rcases h.step_remove hget hp name with ⟨hfile, heq⟩ | ⟨d', hfind, heq⟩
      · rw [heq]
        exact h.without_file (h.named p d hp).1 hfile
      · rw [heq]
        exact h.withoutDir hp hname (VirtDir.mem_of_find hfind) (hsound d d' hget hfind)

/-- **One call.** While the index is the tree, it is the tree after the call exactly if the call is
sound. -/
theorem Inv.indexed_step_iff (h : s.Inv) (hname : '/' ∉ event.name) :
    (s.step event).Indexed ↔ s.Sound event := by
  refine ⟨fun hindexed ↦ ?_, fun hsound ↦ (h.step hname hsound).indexed⟩
  cases event with
  | mkdir dir name => trivial
  | «open» dir name flags => trivial
  | remove dir name =>
    intro d d' hget hfind n b hsub
    obtain ⟨p, hp⟩ := h.reached_of_get hget
    rcases h.step_remove hget hp name with ⟨hfile, -⟩ | ⟨-, -, heq⟩
    · exact hfile d' hfind
    · rw [heq] at hindexed
      exact h.not_indexed_withoutDir hp hname (VirtDir.mem_of_find hfind) hsub hindexed

/-- In a run the index is the tree after each call exactly if all calls are sound. -/
theorem throughout_indexed_iff {events : List VfsEvent}
    (hnames : Throughout step (fun _ event ↦ '/' ∉ event.name) init events) :
    Throughout step (fun s event ↦ (s.step event).Indexed) init events ↔
      Throughout step (fun s event ↦ s.Sound event) init events :=
  hnames.iff inv_init (fun _ _ h hname ↦ h.indexed_step_iff hname) fun _ _ h hname ↦ h.step hname

/-- **The index of the virtual directories.** In a run of calls with any names that have no slash,
the keys of `VFS_DIRS` are at first and after each call the paths of the tree, and names unique in
each directory, if and only if no call removes a directory that has a sub-directory. -/
theorem indexed_iff {events : List VfsEvent}
    (hnames : Throughout step (fun _ event ↦ '/' ∉ event.name) init events) :
    init.Indexed ∧ (Throughout step (fun s event ↦ (s.step event).Indexed) init events ↔
      Throughout step (fun s event ↦ s.Sound event) init events) :=
  ⟨inv_init.indexed, throughout_indexed_iff hnames⟩

/-- A directory is made in `/dev` and removed while it is empty. -/
theorem indexed_mkdir_remove :
    Throughout step (fun s event ↦ (s.step event).Indexed) init
      [.mkdir ['.', '/', 'd', 'e', 'v', '/'] ['a'],
        .remove ['.', '/', 'd', 'e', 'v', '/'] ['a']] := by
  refine (indexed_iff (by decide)).2.mpr ⟨trivial, fun d d' hget hfind n b hchild ↦ ?_, trivial⟩
  obtain rfl : 0 = d := Option.some.inj hget
  obtain rfl : 2 = d' := Node.dir.inj (Option.some.inj hfind)
  exact absurd hchild List.not_mem_nil

/-- A directory is made in `/dev` with a directory in it, and is removed. -/
theorem not_indexed_remove_parent :
    ¬Throughout step (fun s event ↦ (s.step event).Indexed) init
      [.mkdir ['.', '/', 'd', 'e', 'v', '/'] ['a'],
        .mkdir ['.', '/', 'd', 'e', 'v', '/', 'a', '/'] ['b'],
        .remove ['.', '/', 'd', 'e', 'v', '/'] ['a']] := by
  rw [throughout_indexed_iff (by decide)]
  rintro ⟨-, -, hremove, -⟩
  exact hremove 0 2 (by decide) (by decide) ['b'] 3 (by decide)

end Vfs

end Maturin
