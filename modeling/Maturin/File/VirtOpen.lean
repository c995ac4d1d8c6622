import Maturin.File.Open
import Maturin.File.VirtMove
import Mathlib.Logic.Function.Basic

/-!
# Files in memory that are opened more than once

A virtual directory keeps one object for each file, and `get_file` hands out this object whenever
the file is opened. The cursor lies in the object, so that all descriptors of the file move the same
one.

Each descriptor is meant to have a cursor of its own, which starts at zero and goes where the
methods that are called through the descriptor lead it. The descriptors have these cursors as long
as every method that is called through one of several descriptors of a file leaves the cursor where
it is, and every file is opened while its cursor is at zero.
-/

open Exec Function

namespace Maturin

variable {σ φ δ : Type}

/-- Putting the same file into an entry changes nothing. -/
theorem VirtDir.setFile_self {Γ : Type} {vdir : VirtDir Γ} {fileName : List Char} {e : DirEntry Γ}
    (h : vdir.find fileName = some e) : vdir.setFile fileName e.file = vdir := by
  obtain ⟨entry, name⟩ := vdir
  rw [setFile, VirtDir.mk.injEq]
  refine ⟨?_, rfl⟩
  rw [find] at h
  dsimp only at h ⊢
  induction entry with
  | nil => rfl
  | cons e' rest ih =>
    rw [List.find?_cons] at h
    rw [List.replaceF_cons]
    by_cases hname : e'.name = fileName
    · rw [decide_eq_true hname] at h
      obtain rfl := Option.some.inj h
      rw [if_pos hname]
    · rw [decide_eq_false hname] at h
      rw [if_neg hname, ih h]

/-- The files of a virtual directory behind their `Arc`s, and the file of each descriptor of each
process. -/
structure VirtFs (σ φ δ : Type) where
  dir : VirtDir ℕ
  files : ℕ → VirtFileInner
  /-- The files with smaller numbers have been created. -/
  next : ℕ
  handles : δ → Option ℕ
  world : World σ φ

namespace VirtFs

def setFile (s : VirtFs σ φ δ) (id : ℕ) (file : VirtFileInner) : VirtFs σ φ δ :=
  { s with files := update s.files id file }

/-- A new file at the end of the directory. -/
def create (s : VirtFs σ φ δ) (fileName : List Char) : VirtFs σ φ δ :=
  { s.setFile s.next .new with
    dir := { s.dir with entry := s.dir.entry ++ [⟨fileName, .file s.next⟩] }
    next := s.next + 1 }

section act

variable [FrameAllocator σ]

/-- A method of the file with a number; `none` is a panic. -/
def act (checks : Bool) (s : VirtFs σ φ δ) (id : ℕ) (m : VirtFileInner.Method) :
    Option (VirtFs σ φ δ) :=
  match (VirtFileInner.step checks m).run (s.files id, s.world) with
  | .ok _ (file, world) => some { s.setFile id file with world }
  | .error _ _ => none

/-- `clear`, which does nothing to a directory. -/
def clear (checks : Bool) (s : VirtFs σ φ δ) : VirtNode ℕ → Option (VirtFs σ φ δ)
  | .file id => s.act checks id .clear
  | .dir _ => some s

/-- `VirtDir::get_file`: the object that is handed out; `none` is a panic. -/
def getFile (checks : Bool) (s : VirtFs σ φ δ) (fileName : List Char) (flags : OpenFlags) :
    Option (Option (VirtNode ℕ) × VirtFs σ φ δ) :=
  if flags.contains OpenFlags.DIR || flags.contains OpenFlags.DSYNC || fileName.length = 0 then
    if fileName.length = 0 then some (some (.dir s.dir.name), s)
    else some ((s.dir.find fileName).map DirEntry.file, s)
  else
    match s.dir.find fileName with
    | some e =>
      if flags.contains OpenFlags.EXCL then some (none, s)
      else if flags.contains OpenFlags.CREATE then
        (s.clear checks e.file).map fun s ↦ (some e.file, s)
      else some (some e.file, s)
    | none =>
      if flags.contains OpenFlags.CREATE then some (some (.file s.next), s.create fileName)
      else some (none, s)

end act

/-! ## Descriptors -/

/-- Another descriptor than `d` has the file open. -/
def Shared (s : VirtFs σ φ δ) (d : δ) (id : ℕ) : Prop := ∃ d' ≠ d, s.handles d' = some id

/-- The name is that of the file `id`, which is handed out. -/
def Gives (s : VirtFs σ φ δ) (fileName : List Char) (flags : OpenFlags) (id : ℕ) : Prop :=
  fileName.length ≠ 0 ∧ (s.dir.find fileName).map DirEntry.file = some (.file id) ∧
    (flags.contains OpenFlags.DIR = true ∨ flags.contains OpenFlags.DSYNC = true ∨
      flags.contains OpenFlags.EXCL = false)

/-- A file that exists is emptied. -/
def Empties (flags : OpenFlags) : Prop :=
  flags.contains OpenFlags.DIR = false ∧ flags.contains OpenFlags.DSYNC = false ∧
    flags.contains OpenFlags.CREATE = true

/-- What is done with a directory and its files. -/
inductive Event (δ : Type) where
  | open_ (d : δ) (fileName : List Char) (flags : OpenFlags)
  | use (d : δ) (m : VirtFileInner.Method)
  | close (d : δ)
  | remove (fileName : List Char)

/-- The files, and the cursor that each descriptor is meant to have. -/
structure Watched (σ φ δ : Type) where
  fs : VirtFs σ φ δ
  own : δ → ℕ

namespace Watched

/-- Each descriptor that is open has its own cursor. -/
def Separate (t : Watched σ φ δ) : Prop :=
  ∀ d id, t.fs.handles d = some id → t.own d = (t.fs.files id).pos

section step

variable [FrameAllocator σ]

/-- The cursor that a method leaves if it is called with the descriptor's own cursor. -/
def ownAfter (checks : Bool) (t : Watched σ φ δ) (d : δ) (id : ℕ) (m : VirtFileInner.Method) : ℕ :=
  match (t.fs.setFile id { t.fs.files id with pos := t.own d }).act checks id m with
  | some fs => (fs.files id).pos
  | none => t.own d

variable [DecidableEq δ]

/-- An event; `none` is a panic. -/
def step (checks : Bool) (t : Watched σ φ δ) : Event δ → Option (Watched σ φ δ)
  | .open_ d fileName flags =>
    (t.fs.getFile checks fileName flags).map fun (node, fs) ↦
      match node with
      | some (.file id) => ⟨{ fs with handles := update fs.handles d (some id) }, update t.own d 0⟩
      | _ => ⟨fs, t.own⟩
  | .use d m =>
    match t.fs.handles d with
    | some id =>
      (t.fs.act checks id m).map fun fs ↦ ⟨fs, update t.own d (t.ownAfter checks d id m)⟩
    | none => some t
  | .close d => some { t with fs := { t.fs with handles := update t.fs.handles d none } }
  | .remove fileName =>
    some { t with fs := { t.fs with dir := (t.fs.dir.removeFile fileName).2 } }

/-- The state after an event of a run that does not panic. -/
def next (checks : Bool) (t : Watched σ φ δ) (e : Event δ) : Watched σ φ δ :=
  (t.step checks e).getD t

end step

/-- A method that is called through one of several descriptors leaves the cursor where it is, and a
file that is opened has its cursor at zero, or is emptied and was not open. -/
def Spares (t : Watched σ φ δ) : Event δ → Prop
  | .open_ d fileName flags => ∀ id, t.fs.Gives fileName flags id →
      (t.fs.files id).pos = 0 ∨ (Empties flags ∧ ¬t.fs.Shared d id)
  | .use d m => ∀ id, t.fs.handles d = some id → t.fs.Shared d id → (t.fs.files id).Stays m
  | .close _ => True
  | .remove _ => True

end Watched

/-- The numbers of entries and descriptors are those of files that have been created, and sizes and
cursors are of type `usize`. -/
structure Inv (s : VirtFs σ φ δ) : Prop where
  usize : ∀ id, (s.files id).Usize
  entry_lt : ∀ e ∈ s.dir.entry, ∀ id, e.file = .file id → id < s.next
  handle_lt : ∀ d id, s.handles d = some id → id < s.next

/-! ## What an event does to the cursors -/

variable {s s' : VirtFs σ φ δ} {checks : Bool} {id : ℕ} {m : VirtFileInner.Method}
  {fileName : List Char} {flags : OpenFlags}

section act

variable [FrameAllocator σ]

theorem act_spec (h : s.act checks id m = some s') (hu : (s.files id).Usize) :
    ∃ file world, s' = { s.setFile id file with world } ∧ file.Usize ∧
      (file.pos = (s.files id).pos ↔ (s.files id).Stays m) := by
  rw [act] at h
  split at h
  case h_1 r file world hrun =>
    obtain rfl := Option.some.inj h
    obtain ⟨husize, hiff⟩ := wp_ok (VirtFileInner.wp_step_cursor hu m) hrun
    exact ⟨file, world, rfl, husize, hiff⟩
  case h_2 => exact absurd h (by simp)

theorem act_clear (h : s.act checks id .clear = some s') :
    ∃ world, s' = { s.setFile id .new with world } := by
  have hclear : wp (VirtFileInner.step checks .clear) (fun _ t ↦ t.1 = .new) noPanic
      (s.files id, s.world) := by
    rw [VirtFileInner.step, wp_map, VirtFileInner.clear, wp_bind, wp_get, wp_bind, wp_modify,
      wp_onSnd]
    exact wp_mono (wp_forM_frameDrop _) (fun _ _ _ ↦ rfl) fun _ _ hf ↦ hf.elim
  rw [act] at h
  split at h
  case h_1 r file world hrun =>
    have hfile := wp_ok hclear hrun
    dsimp only at hfile
    subst hfile
    exact ⟨world, (Option.some.inj h).symm⟩
  case h_2 => exact absurd h (by simp)

theorem clear_dir {node : VirtNode ℕ} (h : s.clear checks node = some s') : s'.dir = s.dir := by
  cases node with
  | file id =>
    obtain ⟨world, rfl⟩ := act_clear h
    rfl
  | dir name =>
    obtain rfl := Option.some.inj h
    rfl

omit [FrameAllocator σ] in
theorem Gives.unique {id' : ℕ} (h : s.Gives fileName flags id) (h' : s.Gives fileName flags id') :
    id' = id := by
  have hnode := Option.some.inj (h'.2.1.symm.trans h.2.1)
  exact VirtNode.file.inj hnode

/-- What is handed out when a file is opened, and the files after that. -/
inductive Hands (checks : Bool) (s : VirtFs σ φ δ) (fileName : List Char) (flags : OpenFlags) :
    Option (VirtNode ℕ) → VirtFs σ φ δ → Prop
  | same {id : ℕ} (h : s.Gives fileName flags id) (he : ¬Empties flags) :
      Hands checks s fileName flags (some (.file id)) s
  | emptied {id : ℕ} {s' : VirtFs σ φ δ} (h : s.Gives fileName flags id) (he : Empties flags)
      (hact : s.act checks id .clear = some s') : Hands checks s fileName flags (some (.file id)) s'
  | created (h : ∀ id, ¬s.Gives fileName flags id) :
      Hands checks s fileName flags (some (.file s.next)) (s.create fileName)
  | other {node : Option (VirtNode ℕ)} (h : ∀ id, ¬s.Gives fileName flags id)
      (hnode : ∀ id, node ≠ some (.file id)) : Hands checks s fileName flags node s

theorem hands_of_getFile {node : Option (VirtNode ℕ)}
    (h : s.getFile checks fileName flags = some (node, s')) :
    Hands checks s fileName flags node s' := by
  rw [getFile] at h
  by_cases hdir : (flags.contains OpenFlags.DIR || flags.contains OpenFlags.DSYNC ||
      fileName.length = 0) = true
  · rw [if_pos hdir] at h
    by_cases hlen : fileName.length = 0
    · rw [if_pos hlen] at h
      obtain ⟨rfl, rfl⟩ := Prod.mk.inj (Option.some.inj h)
      exact .other (fun _ hg ↦ hg.1 hlen) fun _ ↦ by simp
    · rw [if_neg hlen] at h
      obtain ⟨rfl, rfl⟩ := Prod.mk.inj (Option.some.inj h)
      have hlook : flags.contains OpenFlags.DIR = true ∨ flags.contains OpenFlags.DSYNC = true := by
        simpa [hlen] using hdir
      have hempty : ¬Empties flags := fun he ↦ by simp [he.1, he.2.1] at hlook
      by_cases hfile : ∃ id, (s.dir.find fileName).map DirEntry.file = some (.file id)
      · obtain ⟨id, hid⟩ := hfile
        rw [hid]
        exact .same ⟨hlen, hid, or_assoc.mp (.inl hlook)⟩ hempty
      · exact .other (fun id hg ↦ hfile ⟨id, hg.2.1⟩) fun id hid ↦ hfile ⟨id, hid⟩
  · rw [if_neg hdir] at h
    obtain ⟨⟨hnodir, hnosync⟩, hlen⟩ : (flags.contains OpenFlags.DIR = false ∧
        flags.contains OpenFlags.DSYNC = false) ∧ fileName.length ≠ 0 := by
      simpa using hdir
    cases hfind : s.dir.find fileName with
    | none =>
      have hnone : ∀ id, ¬s.Gives fileName flags id := fun id hg ↦ by simp [Gives, hfind] at hg
      rw [hfind] at h
      dsimp only at h
      split_ifs at h with hcreate
      · obtain ⟨rfl, rfl⟩ := Prod.mk.inj (Option.some.inj h)
        exact .created hnone
      · obtain ⟨rfl, rfl⟩ := Prod.mk.inj (Option.some.inj h)
        exact .other hnone fun _ ↦ by simp
    | some e =>
      rw [hfind] at h
      dsimp only at h
      split_ifs at h with hexcl hcreate
      · obtain ⟨rfl, rfl⟩ := Prod.mk.inj (Option.some.inj h)
        exact .other (fun id hg ↦ by simp [Gives, hnodir, hnosync, hexcl] at hg) fun _ ↦ by simp
      · obtain ⟨s'', hclear, heq⟩ := Option.map_eq_some_iff.mp h
        obtain ⟨rfl, rfl⟩ := Prod.mk.inj heq
        cases hnode : e.file with
        | file id =>
          rw [hnode] at hclear
          exact .emptied ⟨hlen, by rw [hfind, Option.map_some, hnode], by simp [hexcl]⟩
            ⟨hnodir, hnosync, hcreate⟩ hclear
        | dir name =>
          rw [hnode] at hclear
          obtain rfl := Option.some.inj hclear
          exact .other (fun id hg ↦ by simp [Gives, hfind, hnode] at hg) fun _ ↦ by simp
      · obtain ⟨rfl, rfl⟩ := Prod.mk.inj (Option.some.inj h)
        have hempty : ¬Empties flags := fun he ↦ hcreate he.2.2
        cases hnode : e.file with
        | file id =>
          exact .same ⟨hlen, by rw [hfind, Option.map_some, hnode], by simp [hexcl]⟩ hempty
        | dir name => exact .other (fun id hg ↦ by simp [Gives, hfind, hnode] at hg) fun _ ↦ by simp

/-- As far as the directory goes, this is the `get_file` of a directory whose files are numbers. -/
theorem getFile_eq_getOrCreate {D F τ : Type} (C : NewFiles τ ℕ D F) (hclear : ∀ n, C.clear n = n)
    (hnew : C.virtFile flags = s.next) {node : Option (VirtNode ℕ)}
    (h : s.getFile checks fileName flags = some (node, s')) :
    s.dir.getOrCreate C fileName flags = (node, s'.dir) := by
  rw [getFile] at h
  rw [VirtDir.getOrCreate]
  by_cases hdir : (flags.contains OpenFlags.DIR || flags.contains OpenFlags.DSYNC ||
      fileName.length = 0) = true
  · rw [if_pos hdir] at h ⊢
    split_ifs at h ⊢ with hlen
    · obtain ⟨rfl, rfl⟩ := Prod.mk.inj (Option.some.inj h)
      rfl
    · obtain ⟨rfl, rfl⟩ := Prod.mk.inj (Option.some.inj h)
      rfl
  · rw [if_neg hdir] at h ⊢
    cases hfind : s.dir.find fileName with
    | none =>
      rw [hfind] at h
      dsimp only at h ⊢
      rw [hnew]
      split_ifs at h ⊢
      · obtain ⟨rfl, rfl⟩ := Prod.mk.inj (Option.some.inj h)
        rfl
      · obtain ⟨rfl, rfl⟩ := Prod.mk.inj (Option.some.inj h)
        rfl
    | some e =>
      have hsame : e.file.clear C = e.file := by
        cases hnode : e.file with
        | file n => exact congrArg VirtNode.file (hclear n)
        | dir name => rfl
      rw [hfind] at h
      dsimp only at h ⊢
      rw [hsame, VirtDir.setFile_self hfind]
      split_ifs at h ⊢
      · obtain ⟨rfl, rfl⟩ := Prod.mk.inj (Option.some.inj h)
        rfl
      · obtain ⟨s'', hs'', heq⟩ := Option.map_eq_some_iff.mp h
        obtain ⟨rfl, rfl⟩ := Prod.mk.inj heq
        rw [clear_dir hs'']
      · obtain ⟨rfl, rfl⟩ := Prod.mk.inj (Option.some.inj h)
        rfl

end act

/-! ## What is kept -/

theorem usize_new : VirtFileInner.new.Usize := ⟨Nat.two_pow_pos 64, Nat.two_pow_pos 64⟩

namespace Inv

theorem setFile (h : s.Inv) (id : ℕ) {file : VirtFileInner} (hfile : file.Usize)
    (world : World σ φ) : Inv { s.setFile id file with world } := by
  refine ⟨fun id' ↦ ?_, h.entry_lt, h.handle_lt⟩
  change (update s.files id file id').Usize
  by_cases hid : id' = id
  · subst hid
    rwa [update_self]
  · rw [update_of_ne hid]
    exact h.usize id'

theorem create (h : s.Inv) : (s.create fileName).Inv := by
  have hset := h.setFile s.next usize_new s.world
  refine ⟨hset.usize, fun e he id hid ↦ ?_, fun d id hd ↦ (h.handle_lt d id hd).trans
    (Nat.lt_succ_self _)⟩
  rcases List.mem_append.mp he with hold | hnew
  · exact (h.entry_lt e hold id hid).trans (Nat.lt_succ_self _)
  · obtain rfl := List.mem_singleton.mp hnew
    obtain rfl := VirtNode.file.inj hid
    exact Nat.lt_succ_self _

theorem withHandle [DecidableEq δ] (h : s.Inv) (d : δ) (hid : id < s.next) :
    Inv { s with handles := update s.handles d (some id) } := by
  refine ⟨h.usize, h.entry_lt, fun d' id' hd' ↦ ?_⟩
  dsimp only at hd'
  by_cases hd : d' = d
  · rw [hd, update_self] at hd'
    obtain rfl := Option.some.inj hd'
    exact hid
  · rw [update_of_ne hd] at hd'
    exact h.handle_lt d' id' hd'

theorem lt_of_gives (h : s.Inv) (hgives : s.Gives fileName flags id) : id < s.next := by
  obtain ⟨e, hfind, hfile⟩ := Option.map_eq_some_iff.mp hgives.2.1
  exact h.entry_lt e (List.mem_of_find?_eq_some hfind) id hfile

end Inv

/-! ## The cursors of descriptors -/

namespace Watched

variable {t : Watched σ φ δ} {d : δ}

section own

variable [FrameAllocator σ]

/-- A descriptor that has its own cursor moves it as the file moves. -/
theorem ownAfter_eq (hown : t.own d = (t.fs.files id).pos) (h : t.fs.act checks id m = some s') :
    t.ownAfter checks d id m = (s'.files id).pos := by
  have hself : t.fs.setFile id { t.fs.files id with pos := t.own d } = t.fs := by
    rw [setFile, hown]
    exact congrArg (fun files ↦ { t.fs with files }) (update_eq_self id t.fs.files)
  rw [ownAfter, hself, h]

end own

variable [DecidableEq δ]

/-- After an event that changes one file, through a descriptor that has its own cursor, the others
have theirs if and only if the cursor of the file did not move. -/
theorem separate_update_iff (hsep : t.Separate) (d : δ) (id p : ℕ) (file : VirtFileInner)
    (dir : VirtDir ℕ) (next : ℕ) (world : World σ φ) :
    Separate ⟨⟨dir, update t.fs.files id file, next, update t.fs.handles d (some id), world⟩,
      update t.own d p⟩ ↔
      p = file.pos ∧ (t.fs.Shared d id → (t.fs.files id).pos = file.pos) := by
  constructor
  · intro h
    constructor
    · have hd := h d id (update_self ..)
      dsimp only at hd
      rwa [update_self, update_self] at hd
    · rintro ⟨d', hne, hd'⟩
      have hown := h d' id ((update_of_ne hne ..).trans hd')
      dsimp only at hown
      rw [update_of_ne hne, update_self] at hown
      rw [← hown, hsep d' id hd']
  · rintro ⟨rfl, hshared⟩ d' id' hd'
    dsimp only at hd' ⊢
    by_cases hd : d' = d
    · subst hd
      rw [update_self] at hd' ⊢
      obtain rfl := Option.some.inj hd'
      rw [update_self]
    · rw [update_of_ne hd] at hd' ⊢
      rw [hsep d' id' hd']
      by_cases hid : id' = id
      · subst hid
        rw [update_self]
        exact hshared ⟨d', hd, hd'⟩
      · rw [update_of_ne hid]

variable [FrameAllocator σ]

/-- After an event, the descriptors have their own cursors if and only if the event spares them. -/
theorem separate_next_iff (hinv : t.fs.Inv) (hsep : t.Separate) {e : Event δ}
    (hvalid : (t.step checks e).isSome) : (t.next checks e).Separate ↔ t.Spares e := by
  obtain ⟨t', ht'⟩ := Option.isSome_iff_exists.mp hvalid
  rw [next, ht', Option.getD_some]
  cases e with
  | open_ d fileName flags =>
    obtain ⟨⟨node, fs⟩, hget, rfl⟩ := Option.map_eq_some_iff.mp ht'
    cases hands_of_getFile hget with
    | @same id h he =>
      have hiff := separate_update_iff hsep d id 0 (t.fs.files id) t.fs.dir t.fs.next t.fs.world
      rw [update_eq_self] at hiff
      refine hiff.trans ⟨fun h0 id' hid' ↦ ?_, fun hspares ↦ ?_⟩
      · obtain rfl := h.unique hid'
        exact .inl h0.1.symm
      · exact ⟨((hspares id h).resolve_right fun hr ↦ he hr.1).symm, fun _ ↦ rfl⟩
    | @emptied id _ h he hact =>
      obtain ⟨world, rfl⟩ := act_clear hact
      refine (separate_update_iff hsep d id 0 .new ..).trans
        ⟨fun h0 id' hid' ↦ ?_, fun hspares ↦ ?_⟩
      · obtain rfl := h.unique hid'
        exact or_iff_not_imp_left.mpr fun hne ↦ ⟨he, fun hshared ↦ hne (h0.2 hshared)⟩
      · exact ⟨rfl, fun hshared ↦ (hspares id h).resolve_right fun hr ↦ hr.2 hshared⟩
    | created h =>
      refine (separate_update_iff hsep d t.fs.next 0 .new ..).trans (iff_of_true ⟨rfl, ?_⟩ ?_)
      swap
      · exact fun id hid ↦ absurd hid (h id)
      rintro ⟨d', -, hd'⟩
      exact absurd (hinv.handle_lt d' _ hd') (lt_irrefl _)
    | other h hnode =>
      refine iff_of_true ?_ fun id hid ↦ absurd hid (h id)
      match node, hnode with
      | none, _ => exact hsep
      | some (.dir _), _ => exact hsep
      | some (.file id), hnode => exact absurd rfl (hnode id)
  | use d m =>
    rw [step] at ht'
    cases hd : t.fs.handles d with
    | none =>
      rw [hd] at ht'
      obtain rfl := Option.some.inj ht'
      exact iff_of_true hsep fun id hid ↦ absurd (hd.symm.trans hid) (by simp)
    | some id =>
      rw [hd] at ht'
      obtain ⟨fs, hact, rfl⟩ := Option.map_eq_some_iff.mp ht'
      have hown := ownAfter_eq (hsep d id hd) hact
      obtain ⟨file, world, rfl, -, hstays⟩ := act_spec hact (hinv.usize id)
      have hiff := separate_update_iff hsep d id (t.ownAfter checks d id m) file t.fs.dir t.fs.next
        world
      have hhandles : update t.fs.handles d (some id) = t.fs.handles := by
        rw [← hd, update_eq_self]
      rw [hhandles] at hiff
      refine hiff.trans ⟨fun h id' hid' hshared ↦ ?_, fun hspares ↦ ⟨?_, fun hshared ↦ ?_⟩⟩
      · obtain rfl := Option.some.inj (hd.symm.trans hid')
        exact hstays.mp (h.2 hshared).symm
      · rw [hown]
        exact congrArg VirtFileInner.pos (update_self ..)
      · exact (hstays.mpr (hspares id hd hshared)).symm
  | close d =>
    obtain rfl := Option.some.inj ht'
    refine iff_of_true (fun d' id hd' ↦ ?_) trivial
    dsimp only at hd'
    by_cases hd : d' = d
    · rw [hd, update_self] at hd'
      exact absurd hd' (by simp)
    · rw [update_of_ne hd] at hd'
      exact hsep d' id hd'
  | remove fileName =>
    obtain rfl := Option.some.inj ht'
    exact iff_of_true hsep trivial

/-- The numbers stay those of files that have been created. -/
theorem inv_next (hinv : t.fs.Inv) {e : Event δ} (hvalid : (t.step checks e).isSome) :
    (t.next checks e).fs.Inv := by
  obtain ⟨t', ht'⟩ := Option.isSome_iff_exists.mp hvalid
  rw [next, ht', Option.getD_some]
  cases e with
  | open_ d fileName flags =>
    obtain ⟨⟨node, fs⟩, hget, rfl⟩ := Option.map_eq_some_iff.mp ht'
    cases hands_of_getFile hget with
    | same h he => exact hinv.withHandle d (hinv.lt_of_gives h)
    | @emptied id _ h he hact =>
      obtain ⟨world, rfl⟩ := act_clear hact
      exact (hinv.setFile id usize_new world).withHandle d (hinv.lt_of_gives h)
    | created h => exact hinv.create.withHandle d (Nat.lt_succ_self _)
    | other h hnode =>
      match node, hnode with
      | none, _ => exact hinv
      | some (.dir _), _ => exact hinv
      | some (.file id), hnode => exact absurd rfl (hnode id)
  | use d m =>
    rw [step] at ht'
    cases hd : t.fs.handles d with
    | none =>
      rw [hd] at ht'
      obtain rfl := Option.some.inj ht'
      exact hinv
    | some id =>
      rw [hd] at ht'
      obtain ⟨fs, hact, rfl⟩ := Option.map_eq_some_iff.mp ht'
      obtain ⟨file, world, rfl, husize, -⟩ := act_spec hact (hinv.usize id)
      exact hinv.setFile id husize world
  | close d =>
    obtain rfl := Option.some.inj ht'
    refine ⟨hinv.usize, hinv.entry_lt, fun d' id hd' ↦ ?_⟩
    dsimp only at hd'
    by_cases hd : d' = d
    · rw [hd, update_self] at hd'
      exact absurd hd' (by simp)
    · rw [update_of_ne hd] at hd'
      exact hinv.handle_lt d' id hd'
  | remove fileName =>
    obtain rfl := Option.some.inj ht'
    exact ⟨hinv.usize, fun e he ↦ hinv.entry_lt e (List.mem_of_mem_filter he), hinv.handle_lt⟩

end Watched

/-- In a run that does not panic, every descriptor has its own cursor in every state if and only if
every event spares the cursors. -/
theorem separate_iff [FrameAllocator σ] [DecidableEq δ] (checks : Bool) {t : Watched σ φ δ}
    {events : List (Event δ)} (hinv : t.fs.Inv) (hsep : t.Separate)
    (hvalid : Throughout (Watched.next checks) (fun t e ↦ (t.step checks e).isSome) t events) :
    Throughout (Watched.next checks) (fun t e ↦ (t.next checks e).Separate) t events ↔
      Throughout (Watched.next checks) Watched.Spares t events := by
  refine Throughout.iff (I := fun t ↦ t.fs.Inv ∧ t.Separate) hvalid ⟨hinv, hsep⟩ ?_ ?_
  · exact fun t e hI hsome ↦ Watched.separate_next_iff hI.1 hI.2 hsome
  · intro t e hI hsome hspares
    exact ⟨Watched.inv_next hI.1 hsome, (Watched.separate_next_iff hI.1 hI.2 hsome).mpr hspares⟩

/-- A directory with an empty file, which nobody has open. A descriptor is one of a process. -/
def oneFile : Watched Bitmap Unit (ℕ × ℕ) where
  fs :=
    { dir := ⟨[⟨['a'], .file 0⟩], ['t', 'm', 'p']⟩
      files := fun _ ↦ .new
      next := 1
      handles := fun _ ↦ none
      world := World.boot }
  own := fun _ ↦ 0

theorem inv_oneFile : oneFile.fs.Inv where
  usize _ := usize_new
  entry_lt e he id hid := by
    obtain rfl := List.mem_singleton.mp he
    obtain rfl := VirtNode.file.inj hid
    exact Nat.one_pos
  handle_lt _ _ hd := absurd hd (by simp [oneFile])

theorem separate_oneFile : oneFile.Separate := fun _ _ hd ↦ absurd hd (by simp [oneFile])

/-- Two processes open the file, and one of them uses it. -/
def openTwice (m : VirtFileInner.Method) : List (Event (ℕ × ℕ)) :=
  [.open_ (0, 3) ['a'] OpenFlags.RDWR, .open_ (1, 3) ['a'] OpenFlags.RDWR, .use (0, 3) m]

theorem separate_iff_openTwice :
    Throughout (Watched.next true) (fun t e ↦ (t.next true e).Separate) oneFile
        (openTwice (.readFromOffset 0 ⟨[0], by decide⟩)) ↔
      Throughout (Watched.next true) Watched.Spares oneFile
        (openTwice (.readFromOffset 0 ⟨[0], by decide⟩)) :=
  separate_iff true inv_oneFile separate_oneFile (by decide +kernel)

/-- A process that moves its cursor moves the one of the other process. -/
theorem not_separate : ∃ (t : Watched Bitmap Unit (ℕ × ℕ)) (events : List (Event (ℕ × ℕ))),
    t.fs.Inv ∧ t.Separate ∧
      Throughout (Watched.next true) (fun t e ↦ (t.step true e).isSome) t events ∧
      ¬Throughout (Watched.next true) (fun t e ↦ (t.next true e).Separate) t events := by
  refine ⟨oneFile, openTwice (.seek ⟨.start 5, by decide⟩), inv_oneFile, separate_oneFile,
    by decide +kernel, ?_⟩
  rintro ⟨-, -, hsep, -⟩
  exact absurd (hsep (1, 3) 0 (by decide +kernel)) (by decide +kernel)

end VirtFs

end Maturin
