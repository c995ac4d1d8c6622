import Maturin.File.Disk

/-!
# The table of hard links

The FAT file system has no hard links, so the kernel emulates them. `LINK_PATH_MAP` takes a name to
the name under which the file is on the disk, its *real* name, and `LINK_COUNT_MAP` says how many
names a real name has. A file without an entry has one name, its own. Every call on a name goes
through the first table; `try_add_link` adds to both, and `try_remove_link` takes a name out and
removes the file when the count comes down to zero.

The real name of a linked file is a name of its own in the table: `add_link` enters it with each
new name, so that unlinking it first leaves the file where it is. The count, however, grows by one
only. If the real name has been unlinked and the file is linked again through another of its names,
the real name comes back into the table without being counted. From then on the count is one short,
and the file goes while it still has a name. In a run without such a link the counts are right.
-/

namespace Maturin

/-- The two tables of links, and the disk. -/
structure LinkState (σ Γ : Type) where
  /-- `LINK_PATH_MAP`. -/
  map : OrdMap FileDisc FileDisc
  /-- `LINK_COUNT_MAP`. -/
  counts : OrdMap FileDisc ℕ
  disk : Disk σ Γ

namespace LinkState

variable {σ Γ D F : Type}

/-! ## The calls -/

/-- `parse_file_name`. -/
def parseFileName (s : LinkState σ Γ) (k : FileDisc) : FileDisc := (s.map.get k).getD k

/-- `map_path_and_file`. -/
def mapPathAndFile (s : LinkState σ Γ) (dirName filePath : List Char) : Option FileDisc :=
  (splitPathAndFile dirName filePath).map s.parseFileName

/-- `check_file_exists`. -/
def checkFileExists (K : FatFs σ D F) (s : LinkState σ Γ) (dirName filePath : List Char) : Bool :=
  match s.mapPathAndFile dirName filePath with
  | some k => s.disk.fileExists K k
  | none => false

/-- `check_dir_exists`. The directory ends with a slash, so that it can be split. -/
def checkDirExists (K : FatFs σ D F) (s : LinkState σ Γ) (dirName : List Char) : Bool :=
  let dirName := if dirName.getLast? = some '/' then dirName else dirName ++ ['/']
  match s.mapPathAndFile dirName [] with
  | some k => s.disk.dirExists K k.path
  | none => false

/-- `open_file`, for flags without `CREATE`. -/
def openFile (K : FatFs σ D F) (s : LinkState σ Γ) (dirName filePath : List Char)
    (flags : OpenFlags) : Option (Opened Γ F) :=
  match s.mapPathAndFile dirName filePath with
  | some k => s.disk.openFile K k flags
  | none => none

/-- `add_link`. -/
def addLink (s : LinkState σ Γ) (real user : FileDisc) : LinkState σ Γ :=
  { s with
    counts := s.counts.insert real ((s.counts.get real).getD 1 + 1)
    map :=
      match s.map.get user with
      | some _ => s.map.insert user real
      -- the file that was there is a link as well, the two cannot be told apart
      | none => (s.map.insert user real).insert real real }

/-- `try_add_link`. -/
def tryAddLink (K : FatFs σ D F) (s : LinkState σ Γ) (oldPath oldFile newPath newFile : List Char) :
    Bool × LinkState σ Γ :=
  match s.mapPathAndFile oldPath oldFile with
  | some old =>
    match s.mapPathAndFile newPath newFile with
    | some new =>
      if s.checkFileExists K old.path old.file && !s.checkFileExists K new.path new.file then
        (true, s.addLink old new)
      else (false, s)
    | none => (false, s)
  | none => (false, s)

/-- `try_remove_link`; `none` is a panic, where the table of counts has an entry of the file but the
name is not in the table of links, or where the file cannot be removed. -/
def tryRemoveLink (K : FatFs σ D F) (s : LinkState σ Γ) (path file : List Char) :
    Option (Bool × LinkState σ Γ) :=
  let key : FileDisc := ⟨path, file⟩
  match s.mapPathAndFile path file with
  | some real =>
    if s.checkFileExists K real.path real.file then
      if (s.counts.get real).isSome && (s.map.get key).isNone then none
      else
        let map := if (s.counts.get real).isSome then s.map.remove key else s.map
        let count := (s.counts.get real).getD 1 - 1
        if count = 0 then
          (s.disk.removeFile K real).map fun disk ↦ (true, ⟨map, s.counts.remove real, disk⟩)
        else some (true, ⟨map, s.counts.insert real count, s.disk⟩)
    else if s.checkDirExists K (real.path ++ real.file) then
      (s.disk.removeFile K real).map fun disk ↦ (true, { s with disk })
    else some (false, s)
  | none => some (false, s)

/-- The names that the table takes to a real name. -/
def names (s : LinkState σ Γ) (real : FileDisc) : List FileDisc :=
  (s.map.entries.filter fun x ↦ x.2 = real).map Prod.fst

theorem mem_names {s : LinkState σ Γ} {real n : FileDisc} :
    n ∈ s.names real ↔ s.map.get n = some real := by
  rw [names, List.mem_map, OrdMap.get_eq_some]
  constructor
  · rintro ⟨⟨n', v⟩, hmem, rfl⟩
    obtain ⟨hx, hv⟩ := List.mem_filter.mp hmem
    obtain rfl := of_decide_eq_true hv
    exact hx
  · exact fun hmem ↦ ⟨(n, real), List.mem_filter.mpr ⟨hmem, decide_eq_true rfl⟩, rfl⟩

theorem length_names (s : LinkState σ Γ) (real : FileDisc) :
    (s.names real).length = s.map.values.count real := by
  rw [names, List.length_map, OrdMap.values, List.count, List.countP_map,
    List.countP_eq_length_filter]
  congr 2

/-! ## Names of a valid table -/

variable {K : FatFs σ D F} {s s' : LinkState σ Γ} {k v w : FileDisc}

/-- The table takes names to names of files that exist, and these to themselves, and every real
name in it is counted. -/
structure Counted (K : FatFs σ D F) (s : LinkState σ Γ) : Prop where
  normal : ∀ {n v}, s.map.get n = some v → v.Normal
  self : ∀ {n v}, s.map.get n = some v → s.map.get v = none ∨ s.map.get v = some v
  exist : ∀ {n v}, s.map.get n = some v → s.disk.fileExists K v = true
  count : ∀ {v c}, s.counts.get v = some c → (s.names v).length = c
  counted : ∀ {n v}, s.map.get n = some v → ∃ c, s.counts.get v = some c

theorem parseFileName_of_some (h : s.map.get k = some v) : s.parseFileName k = v := by
  rw [parseFileName, h, Option.getD_some]

theorem parseFileName_of_none (h : s.map.get k = none) : s.parseFileName k = k := by
  rw [parseFileName, h, Option.getD_none]

theorem mapPathAndFile_of_normal (h : k.Normal) :
    s.mapPathAndFile k.path k.file = some (s.parseFileName k) := by
  rw [mapPathAndFile, h.split, Option.map_some]

theorem openFile_of_normal (h : k.Normal) (flags : OpenFlags) :
    s.openFile K k.path k.file flags = s.disk.openFile K (s.parseFileName k) flags := by
  rw [openFile, mapPathAndFile_of_normal h]

namespace Counted

theorem parse_normal (hs : s.Counted K) (h : k.Normal) : (s.parseFileName k).Normal := by
  cases hget : s.map.get k with
  | none => rwa [parseFileName_of_none hget]
  | some v =>
    rw [parseFileName_of_some hget]
    exact hs.normal hget

/-- A real name is its own real name. -/
theorem parse_parse (hs : s.Counted K) (k : FileDisc) :
    s.parseFileName (s.parseFileName k) = s.parseFileName k := by
  cases hget : s.map.get k with
  | none => rw [parseFileName_of_none hget, parseFileName_of_none hget]
  | some v =>
    rw [parseFileName_of_some hget]
    rcases hs.self hget with hself | hself
    · exact parseFileName_of_none hself
    · exact parseFileName_of_some hself

theorem map_normal (hs : s.Counted K) {dirName filePath : List Char}
    (h : s.mapPathAndFile dirName filePath = some v) :
    v.Normal ∧ ∃ k, k.Normal ∧ v = s.parseFileName k := by
  rw [mapPathAndFile, Option.map_eq_some_iff] at h
  obtain ⟨k, hsplit, rfl⟩ := h
  have hk := normal_of_splitPathAndFile hsplit
  exact ⟨hs.parse_normal hk, k, hk, rfl⟩

/-- The second look at the table in `check_file_exists` changes nothing. -/
theorem checkFileExists_parse (hs : s.Counted K) (h : k.Normal) :
    s.checkFileExists K (s.parseFileName k).path (s.parseFileName k).file =
      s.disk.fileExists K (s.parseFileName k) := by
  rw [checkFileExists, mapPathAndFile_of_normal (hs.parse_normal h), hs.parse_parse]

/-- Without a count there are no names. -/
theorem notMem_of_none (hs : s.Counted K) (h : s.counts.get v = none) (n : FileDisc) :
    s.map.get n ≠ some v := by
  intro hn
  obtain ⟨c, hc⟩ := hs.counted hn
  exact absurd (hc.symm.trans h) (by simp)

end Counted

/-! ## One call on a valid table -/

/-- What `try_add_link` does: nothing, or it adds a name that was not there. -/
theorem Counted.tryAddLink_cases (hs : s.Counted K) (oldPath oldFile newPath newFile : List Char) :
    s.tryAddLink K oldPath oldFile newPath newFile = (false, s) ∨
    ∃ old new, s.mapPathAndFile oldPath oldFile = some old ∧
      s.mapPathAndFile newPath newFile = some new ∧ old.Normal ∧
      s.disk.fileExists K old = true ∧ s.disk.fileExists K new = false ∧
      (s.map.get old = none ∨ s.map.get old = some old) ∧ s.map.get new = none ∧
      s.tryAddLink K oldPath oldFile newPath newFile = (true, s.addLink old new) := by
  rw [tryAddLink]
  cases hold : s.mapPathAndFile oldPath oldFile with
  | none => exact Or.inl rfl
  | some old =>
    cases hnew : s.mapPathAndFile newPath newFile with
    | none => exact Or.inl rfl
    | some new =>
      obtain ⟨holdNormal, k, hk, rfl⟩ := hs.map_normal hold
      obtain ⟨hnewNormal, k', hk', rfl⟩ := hs.map_normal hnew
      dsimp only
      rw [hs.checkFileExists_parse hk, hs.checkFileExists_parse hk']
      split
      · rename_i hcheck
        rw [Bool.and_eq_true, Bool.not_eq_true'] at hcheck
        refine Or.inr ⟨_, _, rfl, rfl, holdNormal, hcheck.1, hcheck.2, ?_, ?_, rfl⟩
        · cases hget : s.map.get k with
          | none => exact Or.inl (by rwa [parseFileName_of_none hget])
          | some v =>
            rw [parseFileName_of_some hget]
            exact hs.self hget
        · cases hget : s.map.get k' with
          | none => rwa [parseFileName_of_none hget]
          | some v =>
            -- a name in the table is the name of an existing file
            rw [parseFileName_of_some hget, hs.exist hget] at hcheck
            exact absurd hcheck.2 (by simp)
      · exact Or.inl rfl

/-- What `try_remove_link` does when it is given a normal name `k` of the real name `v`. -/
inductive Unlinked (K : FatFs σ D F) (s : LinkState σ Γ) (k v : FileDisc) :
    Bool → LinkState σ Γ → Prop
  /-- A file that has never been linked goes. -/
  | unlinked {disk : Disk σ Γ} (hfile : s.disk.fileExists K v = true)
      (hcount : s.counts.get v = none) (hname : k = v) (hrem : s.disk.removeFile K v = some disk) :
      Unlinked K s k v true ⟨s.map, s.counts.remove v, disk⟩
  /-- The last name goes, and the file with it. -/
  | last {disk : Disk σ Γ} (hfile : s.disk.fileExists K v = true) (hname : s.map.get k = some v)
      (hcount : s.counts.get v = some 1) (hrem : s.disk.removeFile K v = some disk) :
      Unlinked K s k v true ⟨s.map.remove k, s.counts.remove v, disk⟩
  /-- One of several names goes. -/
  | oneOfMany {c : ℕ} (hfile : s.disk.fileExists K v = true) (hname : s.map.get k = some v)
      (hcount : s.counts.get v = some c) (hlt : 1 < c) :
      Unlinked K s k v true ⟨s.map.remove k, s.counts.insert v (c - 1), s.disk⟩
  /-- An empty directory goes. -/
  | directory {disk : Disk σ Γ} (hfile : s.disk.fileExists K v = false)
      (hdir : s.checkDirExists K (v.path ++ v.file) = true)
      (hrem : s.disk.removeFile K v = some disk) :
      Unlinked K s k v true ⟨s.map, s.counts, disk⟩
  /-- There is nothing under the name. -/
  | nothing (hfile : s.disk.fileExists K v = false) : Unlinked K s k v false s

theorem count_values_pos : 0 < s.map.values.count v ↔ ∃ n, s.map.get n = some v := by
  rw [List.count_pos_iff, OrdMap.mem_values]
  exact exists_congr fun n ↦ OrdMap.get_eq_some.symm

/-- A name in the table is taken out of it. -/
theorem Counted.tryRemoveLink_of_some (hs : s.Counted K) (hk : k.Normal) {c : ℕ}
    (hname : s.map.get k = some v) (hcount : s.counts.get v = some c) :
    s.tryRemoveLink K k.path k.file =
      if c - 1 = 0 then (s.disk.removeFile K v).map fun disk ↦
        (true, ⟨s.map.remove k, s.counts.remove v, disk⟩)
      else some (true, ⟨s.map.remove k, s.counts.insert v (c - 1), s.disk⟩) := by
  have hparse := parseFileName_of_some hname
  have hcheck := hs.checkFileExists_parse hk
  rw [hparse, hs.exist hname] at hcheck
  rw [tryRemoveLink, mapPathAndFile_of_normal hk, hparse]
  dsimp only
  rw [hcheck, if_pos rfl, hcount, hname, if_neg (by simp), if_pos Option.isSome_some,
    Option.getD_some]

/-- A name that is not in the table is the name of a file without links, of an empty directory, or
of nothing. -/
theorem Counted.tryRemoveLink_of_none (hs : s.Counted K) (hk : k.Normal)
    (hname : s.map.get k = none) : s.tryRemoveLink K k.path k.file =
      if s.disk.fileExists K k = true then
        if s.counts.get k = none then (s.disk.removeFile K k).map fun disk ↦
          (true, ⟨s.map, s.counts.remove k, disk⟩)
        else none
      else if s.checkDirExists K (k.path ++ k.file) = true then
        (s.disk.removeFile K k).map fun disk ↦ (true, ⟨s.map, s.counts, disk⟩)
      else some (false, s) := by
  have hparse := parseFileName_of_none hname
  have hcheck := hs.checkFileExists_parse hk
  rw [hparse] at hcheck
  rw [tryRemoveLink, mapPathAndFile_of_normal hk, hparse]
  dsimp only
  rw [hcheck, hname]
  cases hcount : s.counts.get k with
  | none => simp
  | some c => simp

/-- What `try_remove_link` does when it returns. -/
theorem Counted.tryRemoveLink_cases (hs : s.Counted K) (hk : k.Normal) {r : Bool}
    (h : s.tryRemoveLink K k.path k.file = some (r, s')) :
    Unlinked K s k (s.parseFileName k) r s' := by
  cases hname : s.map.get k with
  | some v =>
    have hfile := hs.exist hname
    obtain ⟨c, hcount⟩ := hs.counted hname
    have hpos : 0 < c := by
      rw [← hs.count hcount, length_names]
      exact count_values_pos.mpr ⟨k, hname⟩
    rw [hs.tryRemoveLink_of_some hk hname hcount] at h
    rw [parseFileName_of_some hname]
    split at h
    · -- the last name takes the file along
      rename_i hzero
      obtain rfl : c = 1 := by omega
      obtain ⟨disk, hrem, heq⟩ := Option.map_eq_some_iff.mp h
      obtain ⟨rfl, rfl⟩ := Prod.mk.inj heq
      exact Unlinked.last hfile hname hcount hrem
    · rename_i hne
      obtain ⟨rfl, rfl⟩ := Prod.mk.inj (Option.some.inj h)
      exact Unlinked.oneOfMany hfile hname hcount (by omega)
  | none =>
    rw [hs.tryRemoveLink_of_none hk hname] at h
    rw [parseFileName_of_none hname]
    split at h
    · rename_i hfile
      split at h
      · rename_i hcount
        obtain ⟨disk, hrem, heq⟩ := Option.map_eq_some_iff.mp h
        obtain ⟨rfl, rfl⟩ := Prod.mk.inj heq
        exact Unlinked.unlinked hfile hcount rfl hrem
      · exact absurd h (by simp)
    · rename_i hfile
      rw [Bool.not_eq_true] at hfile
      split at h
      · rename_i hdir
        obtain ⟨disk, hrem, heq⟩ := Option.map_eq_some_iff.mp h
        obtain ⟨rfl, rfl⟩ := Prod.mk.inj heq
        exact Unlinked.directory hfile hdir hrem
      · obtain ⟨rfl, rfl⟩ := Prod.mk.inj (Option.some.inj h)
        exact Unlinked.nothing hfile

/-! ## What one call preserves -/

/-- The real names in the table of links after a link. -/
theorem map_addLink {old new : FileDisc} (hnew : s.map.get new = none) :
    (s.addLink old new).map = (s.map.insert new old).insert old old := by
  rw [addLink, hnew]

/-- A name of the table after a link: it was there, or it is the new name or the real name. -/
theorem get_addLink {old new n : FileDisc} (hnew : s.map.get new = none) :
    (s.addLink old new).map.get n = if n = old ∨ n = new then some old else s.map.get n := by
  rw [map_addLink hnew]
  rcases eq_or_ne n old with rfl | hold
  · rw [OrdMap.get_insert_self, if_pos (Or.inl rfl)]
  rw [OrdMap.get_insert_of_ne hold]
  rcases eq_or_ne n new with rfl | hne
  · rw [OrdMap.get_insert_self, if_pos (Or.inr rfl)]
  · rw [OrdMap.get_insert_of_ne hne, if_neg (not_or.mpr ⟨hold, hne⟩)]

/-- A link adds the new name, and the real name if it was not there. -/
theorem perm_values_addLink {old new : FileDisc} (hne : old ≠ new)
    (hold : s.map.get old = none ∨ s.map.get old = some old) (hnew : s.map.get new = none) :
    (s.addLink old new).map.values.Perm
      (if s.map.get old = none then old :: old :: s.map.values else old :: s.map.values) := by
  have hkey : ∀ {m : OrdMap FileDisc FileDisc} {n}, m.get n = none → ∀ x ∈ m, x.1 ≠ n := by
    rintro m _ hget ⟨_, v⟩ hx rfl
    exact OrdMap.get_eq_none.mp hget v hx
  have hfirst := OrdMap.perm_values_insert (a := old) (hkey hnew)
  rw [map_addLink hnew]
  rcases hold with hold | hold
  · rw [if_pos hold]
    refine (OrdMap.perm_values_insert (hkey ?_)).trans (hfirst.cons old)
    rw [OrdMap.get_insert_of_ne hne, hold]
  · rw [if_neg (by rw [hold]; exact Option.some_ne_none old)]
    have hmem : (old, old) ∈ s.map.insert new old := by
      rw [← OrdMap.get_eq_some, OrdMap.get_insert_of_ne hne, hold]
    obtain ⟨l, hl, hins⟩ := OrdMap.exists_perm_values hmem
    exact (hins old).trans (hl.symm.trans hfirst)

/-- A link keeps the table valid unless the real name is counted and not in the table. -/
theorem Counted.addLink (hs : s.Counted K) {old new : FileDisc} (hnormal : old.Normal)
    (hfile : s.disk.fileExists K old = true) (hnone : s.disk.fileExists K new = false)
    (hold : s.map.get old = none ∨ s.map.get old = some old) (hnew : s.map.get new = none)
    (hmeets : s.counts.get old ≠ none → s.map.get old ≠ none) :
    (s.addLink old new).Counted K := by
  have hne : old ≠ new := by
    rintro rfl
    exact absurd (hfile.symm.trans hnone) (by simp)
  -- only the two names of the link are new, and both lead to `old`
  have hget : ∀ {n v}, (s.addLink old new).map.get n = some v → v = old ∨ s.map.get n = some v := by
    intro n v hn
    rw [get_addLink hnew] at hn
    split at hn
    · exact Or.inl (Option.some.inj hn).symm
    · exact Or.inr hn
  refine ⟨fun hn ↦ ?_, fun {n v} hn ↦ ?_, fun hn ↦ ?_, fun {v c} hc ↦ ?_, fun {n v} hn ↦ ?_⟩
  · rcases hget hn with rfl | hn
    · exact hnormal
    · exact hs.normal hn
  · rw [get_addLink hnew]
    split
    · rename_i hv
      rcases hget hn with rfl | hn'
      · exact Or.inr rfl
      · rcases hv with rfl | rfl
        · exact Or.inr rfl
        · exact absurd ((hs.exist hn').symm.trans hnone) (by simp)
    · rename_i hv
      rcases hget hn with rfl | hn
      · exact absurd (Or.inl rfl) hv
      · exact hs.self hn
  · rcases hget hn with rfl | hn
    · exact hfile
    · exact hs.exist hn
  · -- the link adds a name to those of `old`, or two if none of them was in the table
    have hperm := perm_values_addLink hne hold hnew
    have hcounts : (s.addLink old new).counts =
      s.counts.insert old ((s.counts.get old).getD 1 + 1) := rfl
    rw [length_names, hperm.count_eq]
    rw [hcounts] at hc
    rcases eq_or_ne v old with rfl | hv
    · rw [OrdMap.get_insert_self, Option.some.injEq] at hc
      subst hc
      cases hcount : s.counts.get v with
      | none =>
        have hget := hold.resolve_right (hs.notMem_of_none hcount v)
        have hzero : s.map.values.count v = 0 := by
          by_contra hpos
          obtain ⟨n, hn⟩ := count_values_pos.mp (Nat.pos_of_ne_zero hpos)
          exact hs.notMem_of_none hcount n hn
        rw [if_pos hget, List.count_cons_self, List.count_cons_self, hzero, Option.getD_none]
      | some c =>
        have hget := hmeets (by rw [hcount]; exact Option.some_ne_none c)
        rw [if_neg hget, List.count_cons_self, ← length_names, hs.count hcount, Option.getD_some]
    · rw [OrdMap.get_insert_of_ne hv] at hc
      rw [← hs.count hc, length_names]
      split
      · rw [List.count_cons_of_ne hv.symm, List.count_cons_of_ne hv.symm]
      · rw [List.count_cons_of_ne hv.symm]
  · have hcounts : (s.addLink old new).counts =
      s.counts.insert old ((s.counts.get old).getD 1 + 1) := rfl
    rw [hcounts]
    rcases eq_or_ne v old with rfl | hv
    · exact ⟨_, OrdMap.get_insert_self⟩
    · rw [OrdMap.get_insert_of_ne hv]
      exact hs.counted ((hget hn).resolve_left hv)

/-- Otherwise the count is one short from then on. -/
theorem Counted.lt_names_addLink (hs : s.Counted K) {old new : FileDisc} {c : ℕ}
    (hfile : s.disk.fileExists K old = true) (hnone : s.disk.fileExists K new = false)
    (hnew : s.map.get new = none) (hcount : s.counts.get old = some c)
    (hold : s.map.get old = none) :
    (s.addLink old new).counts.get old = some (c + 1) ∧
      ((s.addLink old new).names old).length = c + 2 := by
  have hne : old ≠ new := by
    rintro rfl
    exact absurd (hfile.symm.trans hnone) (by simp)
  constructor
  · rw [LinkState.addLink, OrdMap.get_insert_self, hcount, Option.getD_some]
  · rw [length_names, (perm_values_addLink hne (Or.inl hold) hnew).count_eq, if_pos hold,
      List.count_cons_self, List.count_cons_self, ← length_names, hs.count hcount]

/-- Taking a name out of the table and counting one less keeps the table valid, if the files of the
other names stay. -/
theorem Counted.remove (hs : s.Counted K) {c : ℕ} (hname : s.map.get k = some v)
    (hcount : s.counts.get v = some c) (hmap : s'.map = s.map.remove k)
    (hcounts : ∀ w, w ≠ v → s'.counts.get w = s.counts.get w)
    (hself : s'.counts.get v = if c = 1 then none else some (c - 1))
    (hfile : ∀ n w, s.map.get n = some w → (w = v → c ≠ 1) → s'.disk.fileExists K w = true) :
    s'.Counted K := by
  -- no name is new
  have hsub : ∀ {n w}, s'.map.get n = some w → s.map.get n = some w := by
    intro n w hn
    rw [hmap] at hn
    rcases eq_or_ne n k with rfl | hne
    · rw [OrdMap.get_remove_self] at hn
      exact absurd hn (by simp)
    · rwa [OrdMap.get_remove_of_ne hne] at hn
  have hperm := OrdMap.perm_values_remove (OrdMap.get_eq_some.mp hname)
  rw [← hmap] at hperm
  -- one name less leads to `v`
  have hc : s'.map.values.count v + 1 = c := by
    rw [← hs.count hcount, length_names, hperm.count_eq, List.count_cons_self]
  have hone : ∀ {n}, s'.map.get n = some v → c ≠ 1 := by
    intro n hn hc'
    have hpos := count_values_pos.mpr ⟨n, hn⟩
    omega
  refine ⟨fun hn ↦ hs.normal (hsub hn), fun {n w} hn ↦ ?_, fun {n w} hn ↦ ?_,
    fun {w b} hb ↦ ?_, fun {n w} hn ↦ ?_⟩
  · rw [hmap]
    rcases eq_or_ne w k with rfl | hne
    · exact Or.inl OrdMap.get_remove_self
    · rw [OrdMap.get_remove_of_ne hne]
      exact hs.self (hsub hn)
  · refine hfile n w (hsub hn) ?_
    rintro rfl
    exact hone hn
  · rw [length_names]
    rcases eq_or_ne w v with rfl | hne
    · rw [hself] at hb
      split at hb
      · exact absurd hb (by simp)
      · rw [← Option.some.inj hb, ← hc, Nat.add_sub_cancel]
    · rw [hcounts w hne] at hb
      rw [← hs.count hb, length_names, hperm.count_eq, List.count_cons_of_ne hne.symm]
  · rcases eq_or_ne w v with rfl | hne
    · rw [hself, if_neg (hone hn)]
      exact ⟨_, rfl⟩
    · rw [hcounts w hne]
      exact hs.counted (hsub hn)

/-- Taking out one of several names keeps the table valid. -/
theorem Counted.remove_oneOfMany (hs : s.Counted K) {c : ℕ} (hname : s.map.get k = some v)
    (hcount : s.counts.get v = some c) (hlt : 1 < c) :
    (⟨s.map.remove k, s.counts.insert v (c - 1), s.disk⟩ : LinkState σ Γ).Counted K := by
  refine hs.remove hname hcount rfl (fun w hne ↦ OrdMap.get_insert_of_ne hne) ?_ ?_
  · rw [if_neg hlt.ne']
    exact OrdMap.get_insert_self
  · exact fun n w hn _ ↦ hs.exist hn

/-! ## Runs -/

/-- A call of a run: `try_add_link` on any paths, or `try_remove_link` on a normal name. -/
inductive LinkEvent where
  | link (oldPath oldFile newPath newFile : List Char)
  | unlink (k : FileDisc) (hk : k.Normal)

/-- The state after a call; `none` is a panic. -/
def step (K : FatFs σ D F) (s : LinkState σ Γ) : LinkEvent → Option (LinkState σ Γ)
  | .link oldPath oldFile newPath newFile =>
    some (s.tryAddLink K oldPath oldFile newPath newFile).2
  | .unlink k _ => (s.tryRemoveLink K k.path k.file).map Prod.snd

/-- A link to a real name that has a count finds the real name in the table of links. -/
def LinkMeets (s : LinkState σ Γ) (old : FileDisc) : Prop :=
  s.counts.get old ≠ none → s.map.get old ≠ none

/-- What an unlink of a real name removes is what the name is for: no file that its directory lists
under another spelling, no virtual directory with entries, and no file that the table knows under
another spelling. -/
structure UnlinkMeets (K : FatFs σ D F) (s : LinkState σ Γ) (v : FileDisc) : Prop where
  spelled : s.checkDirExists K (v.path ++ v.file) = true → s.disk.virtDir v.path = none →
    K.listed s.disk.fat v = true ∨ K.file s.disk.fat v = none
  bare : (s.counts.get v).getD 1 = 1 → s.disk.Bare v
  alone : (s.counts.get v).getD 1 = 1 → ∀ n w, s.map.get n = some w → s.disk.SameFile K v w → v = w

/-- The condition on a call. A link that fails is not concerned. -/
def Meets (K : FatFs σ D F) (s : LinkState σ Γ) : LinkEvent → Prop
  | .link oldPath oldFile newPath newFile =>
    ∀ old new, s.mapPathAndFile oldPath oldFile = some old →
      s.mapPathAndFile newPath newFile = some new → s.disk.fileExists K old = true →
      s.disk.fileExists K new = false → s.LinkMeets old
  | .unlink k _ => s.UnlinkMeets K (s.parseFileName k)

/-- The call takes out the last name of the file with the name `w`. -/
def TakesLast (K : FatFs σ D F) (s : LinkState σ Γ) (e : LinkEvent) (s' : LinkState σ Γ)
    (w : FileDisc) : Prop :=
  match e with
  | .link .. => False
  | .unlink k _ => s.disk.fileExists K (s.parseFileName k) = true ∧
      s.disk.SameFile K (s.parseFileName k) w ∧ ∀ n, s'.map.get n ≠ some (s.parseFileName k)

/-- The runs from empty tables in which each call meets the condition. -/
inductive Reached (K : FatFs σ D F) : LinkState σ Γ → Prop
  | start (disk : Disk σ Γ) : Reached K ⟨OrdMap.empty, OrdMap.empty, disk⟩
  | step {s s' : LinkState σ Γ} {e : LinkEvent} (h : Reached K s) (hmeets : s.Meets K e)
      (hstep : s.step K e = some s') : Reached K s'

/-- The empty tables are valid. -/
theorem counted_empty (disk : Disk σ Γ) :
    (⟨OrdMap.empty, OrdMap.empty, disk⟩ : LinkState σ Γ).Counted K := by
  refine ⟨fun h ↦ ?_, fun h ↦ ?_, fun h ↦ ?_, fun h ↦ ?_, fun h ↦ ?_⟩ <;>
    exact absurd h (by simp)

/-- A file that is not the one removed stays. -/
theorem Counted.exists_of_removeFile (hs : s.Counted K) (hK : K.Lawful)
    (hfile : s.disk.fileExists K v = true) (hmeets : s.UnlinkMeets K v) {disk : Disk σ Γ}
    (hlast : (s.counts.get v).getD 1 = 1) (hrem : s.disk.removeFile K v = some disk)
    {n : FileDisc} (hn : s.map.get n = some w) (hne : w ≠ v) : disk.fileExists K w = true := by
  have hiff := Disk.fileExists_removeFile hK hfile (hmeets.bare hlast) hrem (hs.exist hn)
  by_contra hgone
  exact hne (hmeets.alone hlast n w hn (hiff.mp (by simpa using hgone))).symm

/-- What an unlink that meets the condition does: the tables stay valid, and a file goes if and
only if the table has no name of it any more. -/
theorem Counted.unlink (hs : s.Counted K) (hK : K.Lawful) {r : Bool}
    (hmeets : s.UnlinkMeets K v) (h : Unlinked K s k v r s') :
    s'.Counted K ∧ ∀ w, s.disk.fileExists K w = true → (s'.disk.fileExists K w = false ↔
      s.disk.fileExists K v = true ∧ s.disk.SameFile K v w ∧ ∀ n, s'.map.get n ≠ some v) := by
  cases h with
  | @unlinked disk hfile hcount hname hrem =>
    have hlast : (s.counts.get v).getD 1 = 1 := by rw [hcount, Option.getD_none]
    have hcounts : ∀ w, (s.counts.remove v).get w = s.counts.get w := by
      intro w
      rcases eq_or_ne w v with rfl | hne
      · rw [OrdMap.get_remove_self, hcount]
      · exact OrdMap.get_remove_of_ne hne
    have hnames := hs.notMem_of_none hcount
    refine ⟨⟨hs.normal, hs.self, fun {n w} hn ↦ ?_, fun {w c} hc ↦ hs.count ?_, fun {n w} hn ↦ ?_⟩,
      fun w hw ↦ ?_⟩
    · refine hs.exists_of_removeFile hK hfile hmeets hlast hrem hn ?_
      rintro rfl
      exact hnames n hn
    · exact (hcounts w).symm.trans hc
    · obtain ⟨c, hc⟩ := hs.counted hn
      exact ⟨c, (hcounts w).trans hc⟩
    · rw [Disk.fileExists_removeFile hK hfile (hmeets.bare hlast) hrem hw, and_iff_right hfile,
        and_iff_left hnames]
  | @last disk hfile hname hcount hrem =>
    have hlast : (s.counts.get v).getD 1 = 1 := by rw [hcount, Option.getD_some]
    have hvalid : (⟨s.map.remove k, s.counts.remove v, disk⟩ : LinkState σ Γ).Counted K := by
      refine hs.remove hname hcount rfl (fun w hne ↦ OrdMap.get_remove_of_ne hne) ?_ ?_
      · rw [if_pos rfl]
        exact OrdMap.get_remove_self
      · exact fun n w hn hne ↦
          hs.exists_of_removeFile hK hfile hmeets hlast hrem hn fun heq ↦ hne heq rfl
    refine ⟨hvalid, fun w hw ↦ ?_⟩
    rw [Disk.fileExists_removeFile hK hfile (hmeets.bare hlast) hrem hw, and_iff_right hfile,
      and_iff_left]
    exact hvalid.notMem_of_none OrdMap.get_remove_self
  | @oneOfMany c hfile hname hcount hlt =>
    have hvalid : (⟨s.map.remove k, s.counts.insert v (c - 1), s.disk⟩ : LinkState σ Γ).Counted K :=
      hs.remove_oneOfMany hname hcount hlt
    refine ⟨hvalid, fun w hw ↦ ?_⟩
    rw [hw]
    refine iff_of_false (by simp) ?_
    rintro ⟨-, -, hnone⟩
    -- another name of the file is left
    have hlen := hvalid.count OrdMap.get_insert_self
    obtain ⟨n, hn⟩ := List.exists_mem_of_length_pos (by rw [hlen]; omega)
    exact hnone n (mem_names.mp hn)
  | @directory disk hfile hdir hrem =>
    have hother : s.disk.virtDir v.path = none → K.file s.disk.fat v = none := by
      intro hvirt
      rcases hmeets.spelled hdir hvirt with hlisted | hnone
      · rw [Disk.fileExists_of_none hvirt, hlisted] at hfile
        exact absurd hfile (by simp)
      · exact hnone
    have hsame := Disk.fileExists_removeFile_of_not hK hfile hother hrem
    refine ⟨⟨hs.normal, hs.self, fun hn ↦ ?_, hs.count, hs.counted⟩, fun w hw ↦ ?_⟩
    · exact (hsame _).trans (hs.exist hn)
    · rw [hsame, hw, hfile]
      exact iff_of_false (by simp) fun h ↦ absurd h.1 (by simp)
  | nothing hfile =>
    refine ⟨hs, fun w hw ↦ ?_⟩
    rw [hw, hfile]
    exact iff_of_false (by simp) fun h ↦ absurd h.1 (by simp)

/-- One call that meets the condition. -/
theorem Counted.step (hs : s.Counted K) (hK : K.Lawful) {e : LinkEvent} (hmeets : s.Meets K e)
    (hstep : s.step K e = some s') :
    s'.Counted K ∧ ∀ w, s.disk.fileExists K w = true →
      (s'.disk.fileExists K w = false ↔ s.TakesLast K e s' w) := by
  cases e with
  | link oldPath oldFile newPath newFile =>
    have hkept : s'.Counted K ∧ s'.disk = s.disk := by
      rw [LinkState.step, Option.some.injEq] at hstep
      subst hstep
      rcases hs.tryAddLink_cases oldPath oldFile newPath newFile with
        heq | ⟨old, new, hold, hnew, hnormal, hfile, hnone, hself, hget, heq⟩
      · rw [heq]
        exact ⟨hs, rfl⟩
      · rw [heq]
        have hlink := hmeets old new hold hnew hfile hnone
        exact ⟨hs.addLink hnormal hfile hnone hself hget hlink, rfl⟩
    refine ⟨hkept.1, fun w hw ↦ ?_⟩
    rw [hkept.2, hw, TakesLast]
    simp
  | unlink k hk =>
    rw [LinkState.step, Option.map_eq_some_iff] at hstep
    obtain ⟨⟨r, t⟩, hrem, rfl⟩ := hstep
    exact hs.unlink hK hmeets (hs.tryRemoveLink_cases hk hrem)

theorem Reached.counted (hK : K.Lawful) (h : Reached K s) : s.Counted K := by
  induction h with
  | start disk => exact counted_empty disk
  | step _ hmeets hstep ih => exact (ih.step hK hmeets hstep).1

/-- A name in the root directory. -/
def rootName (c : Char) : FileDisc := ⟨ROOT_DIR, [c]⟩

theorem normal_rootName {c : Char} (h : c ≠ '/') : (rootName c).Normal where
  exists_names := ⟨[], fun _ hn ↦ absurd hn List.not_mem_nil, rfl⟩
  notMem_file hmem := h (List.mem_singleton.mp hmem).symm

/-- A link between two names of the root directory. -/
def linkRoot (old new : Char) : LinkEvent := .link ROOT_DIR [old] ROOT_DIR [new]

/-- A disk with the one file `a`, before any link. -/
def oneFile : LinkState (List (List Char)) Unit :=
  ⟨OrdMap.empty, OrdMap.empty, ⟨[['a']], OrdMap.empty⟩⟩

/-- In a run whose calls meet the condition, the count of a file is the number of names that the
table takes to it, each name of the table is the name of a file that exists, and a call takes a
file from the disk if and only if it takes out the last name of the file. -/
theorem link_counts_match (hK : K.Lawful) (h : Reached K s) :
    (∀ v c, s.counts.get v = some c → (s.names v).length = c) ∧
    (∀ n v, s.map.get n = some v → s.disk.fileExists K v = true) ∧
    ∀ e s', s.Meets K e → s.step K e = some s' → ∀ w, s.disk.fileExists K w = true →
      (s'.disk.fileExists K w = false ↔ s.TakesLast K e s' w) := by
  have hs := h.counted hK
  exact ⟨fun v c hc ↦ hs.count hc, fun n v hn ↦ hs.exist hn,
    fun e s' hmeets hstep ↦ (hs.step hK hmeets hstep).2⟩

/-- A file that is linked and then unlinked under its real name has one name left. -/
theorem link_counts_match_unlinked : ∃ s,
    [linkRoot 'a' 'b', .unlink (rootName 'a') (normal_rootName (by decide))].foldlM
      (LinkState.step FatFs.flat) oneFile = some s ∧
    (s.names (rootName 'a')).length = 1 ∧ s.disk.fileExists FatFs.flat (rootName 'a') = true := by
  set s₁ := (oneFile.tryAddLink FatFs.flat ROOT_DIR ['a'] ROOT_DIR ['b']).2
  have h₁ : Reached FatFs.flat s₁ := by
    refine Reached.step (e := linkRoot 'a' 'b') (Reached.start _) ?_ rfl
    exact fun old _ _ _ _ _ hcount ↦ absurd OrdMap.get_empty hcount
  have hcount : s₁.counts.get (s₁.parseFileName (rootName 'a')) = some 2 := by decide +kernel
  have hmeets : s₁.Meets FatFs.flat (.unlink (rootName 'a') (normal_rootName (by decide))) := by
    refine ⟨fun _ _ ↦ Or.inl (by decide +kernel), fun hlast ↦ ?_, fun hlast ↦ ?_⟩ <;>
      exact absurd hlast (by rw [hcount]; decide)
  have hrun : (s₁.step FatFs.flat (.unlink (rootName 'a') (normal_rootName (by decide)))).any
      (fun s ↦ decide (s.counts.get (rootName 'a') = some 1 ∧
        s.map.get (rootName 'b') = some (rootName 'a'))) = true := by decide +kernel
  obtain ⟨s, hs, hs'⟩ := Option.any_eq_true _ _ |>.mp hrun
  obtain ⟨hcounts, hexist, -⟩ := link_counts_match FatFs.flat_lawful (h₁.step hmeets hs)
  rw [decide_eq_true_eq] at hs'
  refine ⟨s, ?_, hcounts _ 1 hs'.1, hexist _ _ hs'.2⟩
  have hfirst : oneFile.step FatFs.flat (linkRoot 'a' 'b') = some s₁ := rfl
  simp [hfirst, hs]

/-! ## A run that loses count -/

/-- A file is linked, its real name is unlinked, and it is linked again: it has three names and the
count two. After its other two names are unlinked, the real name is in the table and the file is
gone. -/
theorem count_ne_names : ∃ s t,
    [linkRoot 'a' 'b', .unlink (rootName 'a') (normal_rootName (by decide)),
      linkRoot 'b' 'c'].foldlM (LinkState.step FatFs.flat) oneFile = some s ∧
    s.counts.get (rootName 'a') = some 2 ∧ (s.names (rootName 'a')).length = 3 ∧
    [.unlink (rootName 'b') (normal_rootName (by decide)),
      .unlink (rootName 'c') (normal_rootName (by decide))].foldlM
        (LinkState.step FatFs.flat) s = some t ∧
    t.map.get (rootName 'a') = some (rootName 'a') ∧
    t.disk.fileExists FatFs.flat (rootName 'a') = false := by
  have hrun : ([linkRoot 'a' 'b', .unlink (rootName 'a') (normal_rootName (by decide)),
      linkRoot 'b' 'c'].foldlM (LinkState.step FatFs.flat) oneFile).any (fun s ↦
        decide (s.counts.get (rootName 'a') = some 2 ∧ (s.names (rootName 'a')).length = 3) &&
        ([.unlink (rootName 'b') (normal_rootName (by decide)),
          .unlink (rootName 'c') (normal_rootName (by decide))].foldlM
            (LinkState.step FatFs.flat) s).any fun t ↦
          decide (t.map.get (rootName 'a') = some (rootName 'a') ∧
            t.disk.fileExists FatFs.flat (rootName 'a') = false)) = true := by decide +kernel
  obtain ⟨s, hs, hs'⟩ := Option.any_eq_true _ _ |>.mp hrun
  rw [Bool.and_eq_true, decide_eq_true_eq, Option.any_eq_true] at hs'
  obtain ⟨⟨hcount, hnames⟩, t, ht, ht'⟩ := hs'
  exact ⟨s, t, hs, hcount, hnames, ht, of_decide_eq_true ht'⟩

end LinkState

end Maturin
