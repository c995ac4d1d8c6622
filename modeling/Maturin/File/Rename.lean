import Maturin.Base.Error
import Maturin.File.Path
import Maturin.Lib.Exec
import Mathlib.Algebra.GroupWithZero.Nat

/-!
# Renaming

`rename_or_move` renames a file of the FAT file system. If the target exists and is to be replaced,
it is removed and the file is renamed once more, with an `unwrap` on the removal. And the rename of
the FAT file system takes the old entry away before it looks whether the new one can be written: a
name with a character that FAT does not allow, or a directory that cannot grow, costs the file.

The code of the FAT file system is part of the kernel here: how it searches for a name, renames and
removes. What its directories are on the disk is a parameter: the entries, the comparison of a name
with an entry, the search for a short name, and the writing and deleting of slots. Reading and
writing the disk does not fail.
-/

open Exec

namespace Maturin

/-! ## Names -/

/-- `s[n..]`, or `none` if `n` bytes are no prefix of characters. -/
def sliceFrom : ℕ → List Char → Option (List Char)
  | 0, s => some s
  | _ + 1, [] => none
  | n + 1, c :: s => if c.utf8Size ≤ n + 1 then sliceFrom (n + 1 - c.utf8Size) s else none

/-- `trim_matches('/')` -/
def trimSlashes (path : List Char) : List Char :=
  ((path.dropWhile (· = '/')).reverse.dropWhile (· = '/')).reverse

/-- `split_path`: the first part of a path, and the rest if there is more. -/
def splitPath (path : List Char) : List Char × Option (List Char) :=
  let trimmed := trimSlashes path
  if '/' ∈ trimmed then
    let n := trimmed.idxOf '/'
    (trimmed.take n, some (trimmed.drop (n + 1)))
  else (trimmed, none)

/-- The errors of the FAT file system. -/
inductive FatError
  | invalidInput
  | notFound
  | alreadyExists
  | directoryIsNotEmpty
  | notEnoughSpace
  | invalidFileNameLength
  | unsupportedFileNameCharacter
  deriving DecidableEq, Repr

/-- The bytes of a name. -/
def byteLength (name : List Char) : ℕ := (name.map Char.utf8Size).sum

/-- A character of a long name. -/
def isLongNameChar (c : Char) : Bool :=
  ('a' ≤ c && c ≤ 'z') || ('A' ≤ c && c ≤ 'Z') || ('0' ≤ c && c ≤ '9') ||
    (0x80 ≤ c.toNat && c.toNat ≤ 0xFFFF) ||
    c ∈ ['$', '%', '\'', '-', '_', '@', '~', Char.ofNat 0x60, '!', '(', ')', '{', '}', '.', ' ',
      '+', ',', ';', '=', '[', ']', '^', '#', '&']

def MAX_LONG_NAME_LEN : ℕ := 255

/-- `validate_long_name` -/
def validateLongName (name : List Char) : Except FatError Unit :=
  if name = [] then .error .invalidFileNameLength
  else if byteLength name > MAX_LONG_NAME_LEN then .error .invalidFileNameLength
  else if name.all isLongNameChar then .ok ()
  else .error .unsupportedFileNameCharacter

/-! ## Directories -/

/-- The directories of the disk: `σ` is the disk, `D` a directory and `E` an entry of one. -/
structure FatDirs (σ D E : Type) where
  rootDir : D
  /-- `iter` -/
  entries : σ → D → List E
  /-- `eq_name` -/
  eqName : E → List Char → Bool
  /-- `entry_pos`, where the entry is on the disk -/
  entryPos : E → ℕ
  /-- `to_dir`, if `is_dir` -/
  toDir : E → Option D
  /-- the short name is `.` or `..` -/
  isDot : E → Bool
  /-- the short name for a new entry, by `ShortNameGenerator` -/
  shortName : σ → D → List Char → List UInt8
  /-- `free_cluster_chain` for the data of an entry -/
  freeData : σ → E → σ
  /-- `set_deleted` for the slots of an entry -/
  delete : σ → D → E → σ
  /-- the slots of a new entry with the data of another one; if there is no room for them, an error
  with what has been written -/
  insert : σ → D → List Char → List UInt8 → E → Except σ σ

/-- `DirEntryOrShortName` -/
inductive DirEntryOrShortName (E : Type)
  | dirEntry (e : E)
  | shortName (name : List UInt8)

namespace FatDirs

variable {σ D E : Type} (K : FatDirs σ D E)

/-- `find_entry`, with whether a directory or a file is expected. -/
def findEntry (s : σ) (d : D) (name : List Char) (isDir : Option Bool) : Except FatError E :=
  match (K.entries s d).find? fun e ↦ K.eqName e name with
  | none => .error .notFound
  | some e =>
    if isDir.isSome ∧ some (K.toDir e).isSome ≠ isDir then .error .invalidInput else .ok e

/-- The subdirectory with a name. -/
def findDir (s : σ) (d : D) (name : List Char) : Except FatError D :=
  match K.findEntry s d name (some true) with
  | .error err => .error err
  | .ok e =>
    match K.toDir e with
    | none => .error .invalidInput
    | some sub => .ok sub

/-- The recursion of the methods through the directories of a path: the last one, and what is left
of the path. A path of `n` characters has no more than `n` parts. -/
def locate (s : σ) : ℕ → D → List Char → Except FatError (D × List Char)
  | 0, d, path => .ok (d, path)
  | n + 1, d, path =>
    match splitPath path with
    | (_, none) => .ok (d, path)
    | (name, some rest) =>
      match K.findDir s d name with
      | .error err => .error err
      | .ok sub => locate s n sub rest

/-- `open_dir` -/
def openDir (s : σ) (d : D) (path : List Char) : Except FatError D :=
  match K.locate s path.length d path with
  | .error err => .error err
  | .ok (d, path) => K.findDir s d (splitPath path).1

/-- `is_empty` -/
def isEmpty (s : σ) (d : D) : Bool := (K.entries s d).all K.isDot

/-- `check_for_existence`. The short-name generator starts with `name[1..]`. -/
def checkForExistence (d : D) (name : List Char) (isDir : Option Bool) :
    EStateM Panic σ (Except FatError (DirEntryOrShortName E)) :=
  if sliceFrom 1 name = none then throw .indexOutOfBounds
  else do
    let s ← get
    match K.findEntry s d name isDir with
    | .ok e => pure (.ok (.dirEntry e))
    | .error .notFound => pure (.ok (.shortName (K.shortName s d name)))
    | .error err => pure (.error err)

/-- `write_entry` -/
def writeEntry (d : D) (name : List Char) (shortName : List UInt8) (data : E) :
    EStateM Panic σ (Except FatError Unit) :=
  match validateLongName name with
  | .error err => pure (.error err)
  | .ok () => do
    let s ← get
    match K.insert s d name shortName data with
    | .ok s => do
      set s
      pure (.ok ())
    | .error s => do
      set s
      pure (.error .notEnoughSpace)

/-- `rename_internal` -/
def renameInternal (d : D) (srcName : List Char) (dstDir : D) (dstName : List Char) :
    EStateM Panic σ (Except FatError Unit) := do
  let s ← get
  match K.findEntry s d srcName none with
  | .error err => pure (.error err)
  | .ok e =>
    match ← K.checkForExistence dstDir dstName none with
    | .error err => pure (.error err)
    | .ok (.dirEntry dstE) =>
      if K.entryPos e = K.entryPos dstE then pure (.ok ()) else pure (.error .alreadyExists)
    | .ok (.shortName shortName) => do
      modify fun s ↦ K.delete s d e
      K.writeEntry dstDir dstName shortName e

/-- `rename` -/
def rename (d : D) (srcPath : List Char) (dstDir : D) (dstPath : List Char) :
    EStateM Panic σ (Except FatError Unit) := do
  let s ← get
  match K.locate s srcPath.length d srcPath with
  | .error err => pure (.error err)
  | .ok (d, srcName) =>
    match K.locate s dstPath.length dstDir dstPath with
    | .error err => pure (.error err)
    | .ok (dstDir, dstName) => K.renameInternal d srcName dstDir dstName

/-- The entry is that of a directory with other entries than `.` and `..`. -/
def filled (s : σ) (e : E) : Bool :=
  match K.toDir e with
  | none => false
  | some sub => !K.isEmpty s sub

/-- `remove` -/
def remove (d : D) (path : List Char) : EStateM Panic σ (Except FatError Unit) := do
  let s ← get
  match K.locate s path.length d path with
  | .error err => pure (.error err)
  | .ok (d, path) =>
    match K.findEntry s d (splitPath path).1 none with
    | .error err => pure (.error err)
    | .ok e =>
      if K.filled s e then pure (.error .directoryIsNotEmpty)
      else do
        set (K.delete (K.freeData s e) d e)
        pure (.ok ())

/-- `inner_open_dir` from the root directory. -/
def innerOpenDir (dirName : List Char) : EStateM Panic σ (Option D) :=
  if dirName = ROOT_DIR then pure (some K.rootDir)
  else
    match sliceFrom 2 dirName with
    | none => throw .indexOutOfBounds
    | some path => do
      let s ← get
      match K.openDir s K.rootDir path with
      | .ok d => pure (some d)
      | .error _ => pure none

/-- Remove the target and rename again. -/
def replaceTarget (oldDir : D) (oldFile : List Char) (newDir : D) (newFile : List Char) :
    EStateM Panic σ (Except ErrorNo Unit) := do
  match ← K.remove newDir newFile with
  | .error _ => throw (.unwrapErr .renameOrMove)
  | .ok _ =>
    match ← K.rename oldDir oldFile newDir newFile with
    | .error _ => pure (.error .EINVAL)
    | .ok _ => pure (.ok ())

/-- `rename_or_move`, when both directories are open. -/
def renameBetween (oldDir : D) (oldFile : List Char) (newDir : D) (newFile : List Char)
    (replace : Bool) : EStateM Panic σ (Except ErrorNo Unit) := do
  match ← K.rename oldDir oldFile newDir newFile with
  | .ok _ => pure (.ok ())
  | .error .alreadyExists =>
    if replace then K.replaceTarget oldDir oldFile newDir newFile else pure (.error .EEXIST)
  | .error .notFound => pure (.error .ENOENT)
  | .error _ => pure (.error .EINVAL)

/-- `rename_or_move` -/
def renameOrMove (oldDir oldFile newDir newFile : List Char) (replace : Bool) :
    EStateM Panic σ (Except ErrorNo Unit) := do
  match ← K.innerOpenDir oldDir with
  | none => pure (.error .EINVAL)
  | some oldDir =>
    match ← K.innerOpenDir newDir with
    | none => pure (.error .EINVAL)
    | some newDir => K.renameBetween oldDir oldFile newDir newFile replace

/-! ## What a rename can do -/

/-- The slots of a deleted entry are no entry any more, and deleting, freeing and writing without
success make no new ones. -/
structure Lawful : Prop where
  notMem_delete : ∀ s d e, e ∉ K.entries (K.delete s d e) d
  entries_delete : ∀ s d e d', K.entries (K.delete s d e) d' ⊆ K.entries s d'
  entries_freeData : ∀ s e d', K.entries (K.freeData s e) d' ⊆ K.entries s d'
  entries_insert : ∀ {s d name shortName data s'}, K.insert s d name shortName data = .error s' →
    ∀ d', K.entries s' d' ⊆ K.entries s d'

/-- The first entry with a name. -/
def find (s : σ) (d : D) (name : List Char) : Option E :=
  (K.entries s d).find? fun e ↦ K.eqName e name

/-- The old path leads to the entry `e` of `d`, and the new one to the name `dst` in `d'`. -/
structure Found (s : σ) (oldDir : D) (old : List Char) (newDir : D) (new : List Char) (d : D)
    (e : E) (d' : D) (dst : List Char) : Prop where
  old : ∃ src, K.locate s old.length oldDir old = .ok (d, src) ∧ K.find s d src = some e
  new : K.locate s new.length newDir new = .ok (d', dst)

/-- FAT allows the name, and there is room for the entry when the old one is gone. -/
def Fits (s : σ) (d : D) (e : E) (d' : D) (dst : List Char) : Prop :=
  validateLongName dst = .ok () ∧
    ∃ s', K.insert (K.delete s d e) d' dst (K.shortName s d' dst) e = .ok s'

/-- The rename succeeds: the new name is that of the same entry, or is free and the entry fits. -/
def Renames (s : σ) (oldDir : D) (old : List Char) (newDir : D) (new : List Char) : Prop :=
  ∃ d e d' dst, K.Found s oldDir old newDir new d e d' dst ∧ sliceFrom 1 dst ≠ none ∧
    ((∃ e', K.find s d' dst = some e' ∧ K.entryPos e = K.entryPos e') ∨
      K.find s d' dst = none ∧ K.Fits s d e d' dst)

variable {K} {s s' : σ} {d d' oldDir newDir : D} {e e' : E} {old new src dst name : List Char}

theorem findEntry_none : K.findEntry s d name none =
    match K.find s d name with
    | none => .error .notFound
    | some e => .ok e := by
  rw [findEntry, find]
  cases (K.entries s d).find? fun e ↦ K.eqName e name with
  | none => rfl
  | some e => rfl

theorem findDir_ne_alreadyExists : K.findDir s d name ≠ .error .alreadyExists := by
  rw [findDir, findEntry]
  split
  · next err h =>
    split at h
    · cases h
      simp
    · split_ifs at h
      cases h
      simp
  · split
    · simp
    · simp

theorem locate_ne_alreadyExists {n : ℕ} : K.locate s n d name ≠ .error .alreadyExists := by
  induction n generalizing d name with
  | zero => simp [locate]
  | succ n ih =>
    rw [locate]
    split
    · simp
    · split
      · next err h =>
        intro heq
        cases heq
        exact findDir_ne_alreadyExists h
      · exact ih

/-- How a rename ends: there is no old entry, the new name is none, it is that of the same entry or
of another one, or the entry is moved or lost. -/
inductive RenameCase (K : FatDirs σ D E) (s : σ) (oldDir : D) (old : List Char) (newDir : D)
    (new : List Char) : EStateM.Result Panic σ (Except FatError Unit) → Prop
  | missing {err : FatError} (herr : err ≠ .alreadyExists)
      (hnone : ∀ d e d' dst, ¬K.Found s oldDir old newDir new d e d' dst) :
      RenameCase K s oldDir old newDir new (.ok (.error err) s)
  | unnamed {d : D} {e : E} {d' : D} {dst : List Char}
      (hfound : K.Found s oldDir old newDir new d e d' dst) (hslice : sliceFrom 1 dst = none) :
      RenameCase K s oldDir old newDir new (.error .indexOutOfBounds s)
  | same {d : D} {e : E} {d' : D} {dst : List Char} {e' : E}
      (hfound : K.Found s oldDir old newDir new d e d' dst) (hslice : sliceFrom 1 dst ≠ none)
      (hfind : K.find s d' dst = some e') (hpos : K.entryPos e = K.entryPos e') :
      RenameCase K s oldDir old newDir new (.ok (.ok ()) s)
  | other {d : D} {e : E} {d' : D} {dst : List Char} {e' : E}
      (hfound : K.Found s oldDir old newDir new d e d' dst) (hslice : sliceFrom 1 dst ≠ none)
      (hfind : K.find s d' dst = some e') (hpos : K.entryPos e ≠ K.entryPos e') :
      RenameCase K s oldDir old newDir new (.ok (.error .alreadyExists) s)
  | moved {d : D} {e : E} {d' : D} {dst : List Char} {s' : σ}
      (hfound : K.Found s oldDir old newDir new d e d' dst) (hslice : sliceFrom 1 dst ≠ none)
      (hfind : K.find s d' dst = none) (hname : validateLongName dst = .ok ())
      (hinsert : K.insert (K.delete s d e) d' dst (K.shortName s d' dst) e = .ok s') :
      RenameCase K s oldDir old newDir new (.ok (.ok ()) s')
  | lost {d : D} {e : E} {d' : D} {dst : List Char} {err : FatError} {s' : σ}
      (hfound : K.Found s oldDir old newDir new d e d' dst) (hslice : sliceFrom 1 dst ≠ none)
      (hfind : K.find s d' dst = none) (hfits : ¬K.Fits s d e d' dst)
      (herr : err ≠ .alreadyExists)
      (hentries : ∀ d₂, K.entries s' d₂ ⊆ K.entries (K.delete s d e) d₂) :
      RenameCase K s oldDir old newDir new (.ok (.error err) s')

theorem Found.unique {d₁ d₂ d₁' d₂' : D} {e₁ e₂ : E} {dst₁ dst₂ : List Char}
    (h₁ : K.Found s oldDir old newDir new d₁ e₁ d₁' dst₁)
    (h₂ : K.Found s oldDir old newDir new d₂ e₂ d₂' dst₂) :
    d₁ = d₂ ∧ e₁ = e₂ ∧ d₁' = d₂' ∧ dst₁ = dst₂ := by
  obtain ⟨⟨src₁, hold₁, hfind₁⟩, hnew₁⟩ := h₁
  obtain ⟨⟨src₂, hold₂, hfind₂⟩, hnew₂⟩ := h₂
  cases hold₁.symm.trans hold₂
  cases hnew₁.symm.trans hnew₂
  cases hfind₁.symm.trans hfind₂
  exact ⟨rfl, rfl, rfl, rfl⟩

theorem renameCase_writeEntry (hK : K.Lawful) (hfound : K.Found s oldDir old newDir new d e d' dst)
    (hslice : sliceFrom 1 dst ≠ none) (hfind : K.find s d' dst = none) :
    RenameCase K s oldDir old newDir new
      ((K.writeEntry d' dst (K.shortName s d' dst) e).run (K.delete s d e)) := by
  cases hname : validateLongName dst with
  | error err =>
    have herr : err ≠ .alreadyExists := by
      rintro rfl
      rw [validateLongName] at hname
      split_ifs at hname <;> cases hname
    have hrun : (K.writeEntry d' dst (K.shortName s d' dst) e).run (K.delete s d e) =
        .ok (.error err) (K.delete s d e) := by
      rw [writeEntry, hname]
      rfl
    rw [hrun]
    refine .lost hfound hslice hfind (fun h ↦ ?_) herr fun d₂ ↦ List.Subset.refl _
    cases hname.symm.trans h.1
  | ok u =>
    cases hinsert : K.insert (K.delete s d e) d' dst (K.shortName s d' dst) e with
    | ok s' =>
      have hrun : (K.writeEntry d' dst (K.shortName s d' dst) e).run (K.delete s d e) =
          .ok (.ok ()) s' := by
        rw [writeEntry, hname]
        dsimp only
        rw [run_get_bind, hinsert]
        rfl
      rw [hrun]
      exact .moved hfound hslice hfind hname hinsert
    | error s' =>
      have hrun : (K.writeEntry d' dst (K.shortName s d' dst) e).run (K.delete s d e) =
          .ok (.error .notEnoughSpace) s' := by
        rw [writeEntry, hname]
        dsimp only
        rw [run_get_bind, hinsert]
        rfl
      rw [hrun]
      refine .lost hfound hslice hfind (fun h ↦ ?_) (by simp) (hK.entries_insert hinsert)
      obtain ⟨s₂, hs₂⟩ := h.2
      cases hinsert.symm.trans hs₂

theorem run_checkForExistence_some (hslice : sliceFrom 1 dst ≠ none)
    (hfind : K.find s d' dst = some e') :
    (K.checkForExistence d' dst none).run s = .ok (.ok (.dirEntry e')) s := by
  rw [checkForExistence, if_neg hslice, run_get_bind, findEntry_none, hfind]
  rfl

theorem run_checkForExistence_none (hslice : sliceFrom 1 dst ≠ none)
    (hfind : K.find s d' dst = none) :
    (K.checkForExistence d' dst none).run s = .ok (.ok (.shortName (K.shortName s d' dst))) s := by
  rw [checkForExistence, if_neg hslice, run_get_bind, findEntry_none, hfind]
  rfl

/-- **Every rename is one of these cases.** -/
theorem renameCase (hK : K.Lawful) :
    RenameCase K s oldDir old newDir new ((K.rename oldDir old newDir new).run s) := by
  have hget : ∀ s, (get : EStateM Panic σ σ).run s = .ok s s := fun _ ↦ rfl
  rw [rename, run_bind_of_ok (hget s)]
  cases hold : K.locate s old.length oldDir old with
  | error err =>
    -- no path leads to the old name
    refine .missing (fun h ↦ locate_ne_alreadyExists (h ▸ hold)) fun d e d' dst h ↦ ?_
    obtain ⟨src, hsrc, -⟩ := h.old
    cases hold.symm.trans hsrc
  | ok r =>
    obtain ⟨d, src⟩ := r
    cases hnew : K.locate s new.length newDir new with
    | error err =>
      refine .missing (fun h ↦ locate_ne_alreadyExists (h ▸ hnew)) fun d e d' dst h ↦ ?_
      cases hnew.symm.trans h.new
    | ok r =>
      obtain ⟨d', dst⟩ := r
      dsimp only
      rw [renameInternal, run_bind_of_ok (hget s), findEntry_none]
      cases he : K.find s d src with
      | none =>
        refine .missing (by decide) fun d₂ e d₂' dst₂ h ↦ ?_
        obtain ⟨src₂, hsrc, hfind⟩ := h.old
        cases hold.symm.trans hsrc
        cases he.symm.trans hfind
      | some e =>
        have hfound : K.Found s oldDir old newDir new d e d' dst := ⟨⟨src, hold, he⟩, hnew⟩
        dsimp only
        by_cases hslice : sliceFrom 1 dst = none
        · rw [checkForExistence, if_pos hslice]
          exact .unnamed hfound hslice
        · cases hfind : K.find s d' dst with
          | some e' =>
            rw [run_bind_of_ok (run_checkForExistence_some hslice hfind)]
            dsimp only
            split_ifs with hpos
            · exact .same hfound hslice hfind hpos
            · exact .other hfound hslice hfind hpos
          | none =>
            rw [run_bind_of_ok (run_checkForExistence_none hslice hfind)]
            exact renameCase_writeEntry hK hfound hslice hfind

/-- The cases in which a rename succeeds. -/
theorem RenameCase.renames_iff {res : EStateM.Result Panic σ (Except FatError Unit)}
    (h : RenameCase K s oldDir old newDir new res) :
    K.Renames s oldDir old newDir new ↔ ∃ s', res = .ok (.ok ()) s' := by
  cases h with
  | missing herr hnone =>
    refine iff_of_false ?_ (by simp)
    rintro ⟨d, e, d', dst, hfound, -⟩
    exact hnone d e d' dst hfound
  | unnamed hfound hslice =>
    refine iff_of_false ?_ (by simp)
    rintro ⟨d, e, d', dst, hfound', hslice', -⟩
    obtain ⟨rfl, rfl, rfl, rfl⟩ := hfound.unique hfound'
    exact hslice' hslice
  | same hfound hslice hfind hpos =>
    exact iff_of_true ⟨_, _, _, _, hfound, hslice, Or.inl ⟨_, hfind, hpos⟩⟩ ⟨_, rfl⟩
  | other hfound hslice hfind hpos =>
    refine iff_of_false ?_ (by simp)
    rintro ⟨d, e, d', dst, hfound', -, ⟨e', hfind', hpos'⟩ | ⟨hfind', -⟩⟩
    · obtain ⟨rfl, rfl, rfl, rfl⟩ := hfound.unique hfound'
      cases hfind.symm.trans hfind'
      exact hpos hpos'
    · obtain ⟨rfl, rfl, rfl, rfl⟩ := hfound.unique hfound'
      cases hfind.symm.trans hfind'
  | moved hfound hslice hfind hname hinsert =>
    exact iff_of_true ⟨_, _, _, _, hfound, hslice, Or.inr ⟨hfind, hname, _, hinsert⟩⟩ ⟨_, rfl⟩
  | lost hfound hslice hfind hfits herr hentries =>
    refine iff_of_false ?_ (by simp)
    rintro ⟨d, e, d', dst, hfound', -, ⟨e', hfind', -⟩ | ⟨-, hfits'⟩⟩
    · obtain ⟨rfl, rfl, rfl, rfl⟩ := hfound.unique hfound'
      cases hfind.symm.trans hfind'
    · obtain ⟨rfl, rfl, rfl, rfl⟩ := hfound.unique hfound'
      exact hfits hfits'

/-- A rename that fails makes no new entries. -/
theorem RenameCase.entries_subset (hK : K.Lawful) {err : FatError}
    (h : RenameCase K s oldDir old newDir new (.ok (.error err) s')) (d₂ : D) :
    K.entries s' d₂ ⊆ K.entries s d₂ := by
  cases h with
  | missing herr hnone => exact List.Subset.refl _
  | other hfound hslice hfind hpos => exact List.Subset.refl _
  | lost hfound hslice hfind hfits herr hentries =>
    exact List.Subset.trans (hentries d₂) (hK.entries_delete _ _ _ d₂)

/-! ## All or nothing -/

variable (K) in
/-- The target can be removed, and then the rename succeeds. -/
def Replaces (s : σ) (oldDir : D) (old : List Char) (newDir : D) (new : List Char) (d' : D)
    (dst : List Char) : Prop :=
  ∃ e, K.find s d' (splitPath dst).1 = some e ∧ K.filled s e = false ∧
    K.Renames (K.delete (K.freeData s e) d' e) oldDir old newDir new

variable (K) in
/-- If there is an old entry, then the new path ends in a name; if no entry has the name then the
old entry fits; and if another entry has it and is to be replaced, it can be replaced. -/
def Clean (s : σ) (oldDir : D) (old : List Char) (newDir : D) (new : List Char) (replace : Bool) :
    Prop :=
  ∀ d e d' dst, K.Found s oldDir old newDir new d e d' dst → sliceFrom 1 dst ≠ none ∧
    (K.find s d' dst = none → K.Fits s d e d' dst) ∧
    ∀ e', K.find s d' dst = some e' → K.entryPos e ≠ K.entryPos e' → replace = true →
      K.Replaces s oldDir old newDir new d' dst

/-- How `remove` ends where the new path leads. -/
theorem run_remove (hnew : K.locate s new.length newDir new = .ok (d', dst)) :
    (K.remove newDir new).run s =
      match K.find s d' (splitPath dst).1 with
      | none => .ok (.error .notFound) s
      | some e => if K.filled s e then .ok (.error .directoryIsNotEmpty) s
        else .ok (.ok ()) (K.delete (K.freeData s e) d' e) := by
  rw [remove, run_get_bind, hnew]
  dsimp only
  rw [findEntry_none]
  cases K.find s d' (splitPath dst).1 with
  | none => rfl
  | some e =>
    dsimp only
    split_ifs <;> rfl

/-- Removing the target and renaming again. -/
theorem wp_replaceTarget_iff (hK : K.Lawful)
    (hnew : K.locate s new.length newDir new = .ok (d', dst)) :
    wp (K.replaceTarget oldDir old newDir new) (fun r s' ↦ ∀ err, r = .error err → s' = s) noPanic s
      ↔ K.Replaces s oldDir old newDir new d' dst := by
  rw [replaceTarget, wp_bind, wp, run_remove hnew, Replaces]
  cases hremove : K.find s d' (splitPath dst).1 with
  | none =>
    refine iff_of_false id ?_
    rintro ⟨x, hx, -⟩
    cases hx
  | some x =>
    have hmem : x ∈ K.entries s d' := List.mem_of_find?_eq_some hremove
    dsimp only
    cases hfilled : K.filled s x with
    | true =>
      rw [if_pos rfl]
      refine iff_of_false id ?_
      rintro ⟨y, hy, hyfilled, -⟩
      cases hy
      cases hfilled.symm.trans hyfilled
    | false =>
      -- the target is gone before the entry is renamed again
      have hgone : x ∉ K.entries (K.delete (K.freeData s x) d' x) d' :=
        hK.notMem_delete _ d' x
      rw [if_neg Bool.false_ne_true]
      dsimp only
      rw [wp_bind, wp]
      have hcase' : K.RenameCase (K.delete (K.freeData s x) d' x) oldDir old newDir new
          ((K.rename oldDir old newDir new).run (K.delete (K.freeData s x) d' x)) :=
        renameCase hK
      have hreplaces : (∃ y, some x = some y ∧ K.filled s y = false ∧
          K.Renames (K.delete (K.freeData s y) d' y) oldDir old newDir new) ↔
          K.Renames (K.delete (K.freeData s x) d' x) oldDir old newDir new := by
        constructor
        · rintro ⟨y, hy, -, h⟩
          cases hy
          exact h
        · exact fun h ↦ ⟨x, rfl, hfilled, h⟩
      rw [hreplaces, hcase'.renames_iff]
      generalize (K.rename oldDir old newDir new).run (K.delete (K.freeData s x) d' x) = res
        at hcase' ⊢
      cases res with
      | error p s₂ => exact iff_of_false id (by simp)
      | ok r s₂ =>
        cases r with
        | ok u => exact iff_of_true (fun _ h ↦ by cases h) ⟨s₂, rfl⟩
        | error err =>
          refine iff_of_false (fun h ↦ ?_) (by simp)
          obtain rfl : s₂ = s := h _ rfl
          exact hgone (hcase'.entries_subset hK d' hmem)

/-- Between open directories. -/
theorem wp_renameBetween_iff (hK : K.Lawful) (replace : Bool) :
    wp (K.renameBetween oldDir old newDir new replace)
        (fun r s' ↦ ∀ err, r = .error err → s' = s) noPanic s ↔
      K.Clean s oldDir old newDir new replace := by
  have hcase : K.RenameCase s oldDir old newDir new ((K.rename oldDir old newDir new).run s) :=
    renameCase hK
  rw [renameBetween, wp_bind, wp]
  generalize (K.rename oldDir old newDir new).run s = res at hcase ⊢
  cases hcase with
  | missing herr hnone =>
    refine iff_of_true ?_ fun d e d' dst hfound ↦ absurd hfound (hnone d e d' dst)
    dsimp only
    split
    · exact fun _ _ ↦ rfl
    · next heq => exact absurd (Except.error.inj heq) herr
    · exact fun _ _ ↦ rfl
    · exact fun _ _ ↦ rfl
  | unnamed hfound hslice => exact iff_of_false id fun h ↦ (h _ _ _ _ hfound).1 hslice
  | same hfound hslice hfind hpos =>
    refine iff_of_true (fun _ h ↦ by cases h) fun d e d' dst hfound' ↦ ?_
    obtain ⟨rfl, rfl, rfl, rfl⟩ := hfound.unique hfound'
    refine ⟨hslice, fun hnone ↦ absurd (hfind.symm.trans hnone) (by simp), fun e' he' hne ↦ ?_⟩
    cases hfind.symm.trans he'
    exact absurd hpos hne
  | moved hfound hslice hfind hname hinsert =>
    refine iff_of_true (fun _ h ↦ by cases h) fun d e d' dst hfound' ↦ ?_
    obtain ⟨rfl, rfl, rfl, rfl⟩ := hfound.unique hfound'
    exact ⟨hslice, fun _ ↦ ⟨hname, _, hinsert⟩, fun e' he' ↦ by cases hfind.symm.trans he'⟩
  | @lost d e d' dst err s' hfound hslice hfind hfits herr hentries =>
    obtain ⟨src, -, hsrc⟩ := hfound.old
    -- the old entry was deleted, so that the state is another one
    have hne : s' ≠ s := by
      rintro rfl
      exact hK.notMem_delete s' d e (hentries d (List.mem_of_find?_eq_some hsrc))
    refine iff_of_false ?_ fun h ↦ hfits ((h _ _ _ _ hfound).2.1 hfind)
    dsimp only
    split
    · next heq => cases heq
    · next heq => exact absurd (Except.error.inj heq) herr
    · exact fun h ↦ hne (h _ rfl)
    · exact fun h ↦ hne (h _ rfl)
  | @other d e d' dst e' hfound hslice hfind hpos =>
    have hclean : K.Clean s oldDir old newDir new replace ↔
        (replace = true → K.Replaces s oldDir old newDir new d' dst) := by
      constructor
      · exact fun h ↦ (h _ _ _ _ hfound).2.2 e' hfind hpos
      · intro h d₂ e₂ d₂' dst₂ hfound'
        obtain ⟨rfl, rfl, rfl, rfl⟩ := hfound.unique hfound'
        exact ⟨hslice, fun hnone ↦ absurd (hfind.symm.trans hnone) (by simp), fun _ _ _ ↦ h⟩
    rw [hclean]
    dsimp only
    cases replace with
    | false => exact iff_of_true (fun _ _ ↦ rfl) fun h ↦ absurd h Bool.false_ne_true
    | true =>
      rw [if_pos rfl, forall_prop_of_true rfl]
      exact wp_replaceTarget_iff hK hfound.new

/-- The path of a directory starts with two bytes that can be left out. -/
def IsDirName (dirName : List Char) : Prop := dirName = ROOT_DIR ∨ sliceFrom 2 dirName ≠ none

variable (K) in
/-- The directory that a path leads to. -/
def dirAt (s : σ) (dirName : List Char) : Option D :=
  if dirName = ROOT_DIR then some K.rootDir
  else (sliceFrom 2 dirName).bind fun path ↦ (K.openDir s K.rootDir path).toOption

/-- How opening a directory ends. -/
theorem run_innerOpenDir (dirName : List Char) :
    IsDirName dirName ∧ (K.innerOpenDir dirName).run s = .ok (K.dirAt s dirName) s ∨
      ¬IsDirName dirName ∧ (K.innerOpenDir dirName).run s = .error .indexOutOfBounds s := by
  rw [IsDirName, innerOpenDir, dirAt]
  by_cases hroot : dirName = ROOT_DIR
  · rw [if_pos hroot, if_pos hroot]
    exact Or.inl ⟨Or.inl hroot, rfl⟩
  · rw [if_neg hroot, if_neg hroot]
    cases hslice : sliceFrom 2 dirName with
    | none => exact Or.inr ⟨by simp [hroot], rfl⟩
    | some path =>
      refine Or.inl ⟨Or.inr (by simp), ?_⟩
      dsimp only
      rw [run_get_bind, Option.bind_some]
      cases K.openDir s K.rootDir path with
      | error err => rfl
      | ok d => rfl

/-- **When a rename is all or nothing.** A rename does not panic, and leaves the disk as it was if
it returns an error, if and only if the directories have proper paths and, if both are open, there
is no old entry or it can be moved. -/
theorem renameOrMove_iff (hK : K.Lawful) (oldDir oldFile newDir newFile : List Char)
    (replace : Bool) (s : σ) :
    wp (K.renameOrMove oldDir oldFile newDir newFile replace)
        (fun r s' ↦ ∀ err, r = .error err → s' = s) noPanic s ↔
      IsDirName oldDir ∧ ∀ d, K.dirAt s oldDir = some d →
        IsDirName newDir ∧ ∀ d', K.dirAt s newDir = some d' →
          K.Clean s d oldFile d' newFile replace := by
  rw [renameOrMove, wp_bind, wp]
  obtain ⟨hname, hopen⟩ | ⟨hname, hopen⟩ := run_innerOpenDir (K := K) (s := s) oldDir
  · rw [hopen, and_iff_right hname]
    dsimp only
    cases K.dirAt s oldDir with
    | none => exact iff_of_true (fun _ _ ↦ rfl) fun d hd ↦ by cases hd
    | some d =>
      have hsome : ∀ {P : D → Prop}, (∀ d₂, some d = some d₂ → P d₂) ↔ P d := by simp
      rw [hsome]
      dsimp only
      rw [wp_bind, wp]
      obtain ⟨hname', hopen'⟩ | ⟨hname', hopen'⟩ := run_innerOpenDir (K := K) (s := s) newDir
      · rw [hopen', and_iff_right hname']
        dsimp only
        cases K.dirAt s newDir with
        | none => exact iff_of_true (fun _ _ ↦ rfl) fun d hd ↦ by cases hd
        | some d' =>
          have hsome' : ∀ {P : D → Prop}, (∀ d₂, some d' = some d₂ → P d₂) ↔ P d' := by simp
          rw [hsome']
          exact wp_renameBetween_iff hK replace
      · rw [hopen']
        exact iff_of_false id fun h ↦ hname' h.1
  · rw [hopen]
    exact iff_of_false id fun h ↦ hname h.1

/-! ## A small disk -/

/-- An entry of the small disk, with its directory and the directory that it is the entry of. -/
structure SmallEntry where
  dir : ℕ
  pos : ℕ
  name : List Char
  sub : Option ℕ
  deriving DecidableEq

/-- A disk with room for eight entries in each directory. -/
def small : FatDirs (List SmallEntry) ℕ SmallEntry where
  rootDir := 0
  entries s d := s.filter fun e ↦ e.dir = d
  eqName e name := e.name.map Char.toUpper = name.map Char.toUpper
  entryPos := SmallEntry.pos
  toDir := SmallEntry.sub
  isDot e := e.name == ['.'] || e.name == ['.', '.']
  shortName _ _ name :=
    name.map (fun c ↦ UInt8.ofNat c.toUpper.toNat) ++ List.replicate (11 - name.length) 0x20
  freeData s _ := s
  delete s _ e := s.filter fun e' ↦ e' ≠ e
  insert s d name _ data :=
    if (s.filter fun e ↦ e.dir = d).length < 8 then
      .ok (s ++ [{ data with dir := d, pos := (s.map SmallEntry.pos).foldr max 0 + 1, name }])
    else .error s

theorem lawful_small : small.Lawful where
  notMem_delete s d e h := by simp [small] at h
  entries_delete s d e d' := by
    intro e' he'
    simp only [small, List.mem_filter] at he' ⊢
    exact ⟨he'.1.1, he'.2⟩
  entries_freeData s e d' := List.Subset.refl _
  entries_insert {s d name shortName data s'} h d' := by
    simp only [small] at h
    split_ifs at h
    cases h
    exact List.Subset.refl _

/-- Two files, and a directory with a file. -/
def smallDisk : List SmallEntry :=
  [⟨0, 1, ['a'], none⟩, ⟨0, 2, ['b'], none⟩, ⟨0, 3, ['d'], some 1⟩, ⟨1, 4, ['.'], some 1⟩,
    ⟨1, 5, ['.', '.'], some 0⟩, ⟨1, 6, ['x'], none⟩]

/-- One file replaces another. -/
theorem renameOrMove_small : returns (small.renameOrMove ROOT_DIR ['a'] ROOT_DIR ['b'] true)
      smallDisk (fun r s' ↦ r.isOk && s'.length == 5) = true ∧
    small.Clean smallDisk 0 ['a'] 0 ['b'] true := by
  have hreturns : returns (small.renameOrMove ROOT_DIR ['a'] ROOT_DIR ['b'] true) smallDisk
      (fun r s' ↦ r.isOk && s'.length == 5) = true := by
    decide +kernel
  refine ⟨hreturns, ?_⟩
  obtain ⟨r, s', hrun, hr⟩ := exists_of_returns hreturns
  have hwp := (renameOrMove_iff lawful_small ROOT_DIR ['a'] ROOT_DIR ['b'] true smallDisk).mp
    (wp_of_ok hrun fun err herr ↦ by rw [herr] at hr; cases hr)
  exact (hwp.2 0 rfl).2 0 rfl

/-- A directory with entries as the target is a panic, and a name that FAT does not allow loses the
file. -/
theorem renameOrMove_not_clean :
    panicOf (small.renameOrMove ROOT_DIR ['a'] ROOT_DIR ['d'] true) smallDisk =
      some (.unwrapErr .renameOrMove) ∧
    ∃ s', (small.renameOrMove ROOT_DIR ['a'] ROOT_DIR ['b', ':', 'c'] true).run smallDisk =
      .ok (.error .EINVAL) s' ∧ s' = smallDisk.tail := by
  refine ⟨by decide +kernel, _, rfl, ?_⟩
  decide +kernel

end FatDirs

end Maturin
