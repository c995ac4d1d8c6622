import Maturin.Syscall.WorkingDir

/-!
# Unlinking a name under any spelling

`sys_unlinkat` hands the resolved path to `try_remove_link` as it is spelled. The file is looked for
under the normal name, but what is taken out of the table of links is the pair of texts that came
in. Since the names of the table are normal, a spelling of its own is not found there, and the
`unwrap` fails if the file has ever been linked. A file that has not has no entry to take out, and
is removed under each of its spellings.

The other `unwrap` is that of the removal itself. It fails where the FAT directory has no entry with
the name, as for a path that ends with a slash, and for a directory with entries.
-/

namespace Maturin

variable {σ Γ D F : Type}

/-- `remove` takes away a file, or a directory in which `is_empty` finds nothing, and else fails. -/
def FatFs.RemovesEntries (K : FatFs σ D F) (isEmpty : σ → D → Bool) : Prop :=
  ∀ fat dir name, '/' ∉ name → ((K.remove fat dir name).isSome = true ↔
    (K.openFile fat dir name).isSome = true ∨
      ∃ sub, K.openDir fat dir name = some sub ∧ isEmpty fat sub = true)

namespace FatFs

/-- The disk with files in its root directory only, where no other name can be removed -/
def rootOnly : FatFs (List (List Char)) Unit (List Char) :=
  { flat with
    remove := fun names d n ↦
      (flat.openFile names d n).map fun _ ↦ names.filter (· ≠ n) }

theorem removesEntries_rootOnly : rootOnly.RemovesEntries fun _ _ ↦ false := by
  intro names dir name _
  have hremove : rootOnly.remove names dir name =
      (rootOnly.openFile names dir name).map fun _ ↦ names.filter (· ≠ name) := rfl
  have hdir : rootOnly.openDir names dir name = none := rfl
  rw [hremove, hdir, Option.isSome_map]
  simp

end FatFs

namespace Disk

/-- There is something under the name that `remove_file` can take away; a virtual directory need
not have it. -/
def Removable (K : FatFs σ D F) (isEmpty : σ → D → Bool) (d : Disk σ Γ) (k : FileDisc) : Prop :=
  d.virtDir k.path ≠ none ∨ (K.file d.fat k).isSome = true ∨
    ∃ sub, K.dir d.fat k = some sub ∧ isEmpty d.fat sub = true

variable {K : FatFs σ D F} {isEmpty : σ → D → Bool} {d : Disk σ Γ} {k : FileDisc}

theorem exists_removeFile_of_virtDir (h : d.virtDir k.path ≠ none) :
    ∃ d', d.removeFile K k = some d' := by
  obtain ⟨vdir, hvdir⟩ := Option.ne_none_iff_exists'.mp h
  obtain ⟨name, hname, hget⟩ := virtDir_some hvdir
  rw [removeFile, tryRemoveVirtFile, hname, Option.bind_eq_bind, Option.bind_some, hget,
    Option.bind_eq_bind, Option.bind_some]
  rcases vdir.removeFile k.file with ⟨- | f | dirName, rest⟩
  · exact ⟨_, rfl⟩
  · exact ⟨_, rfl⟩
  · exact ⟨_, rfl⟩

theorem exists_removeFile_iff (hK : K.RemovesEntries isEmpty) (hk : '/' ∉ k.file) :
    (∃ d', d.removeFile K k = some d') ↔ d.Removable K isEmpty k := by
  by_cases hdir : d.virtDir k.path = none
  · rw [removeFile_of_none hdir, Removable, or_iff_right (not_not.mpr hdir), FatFs.removeAt,
      FatFs.file, FatFs.dir]
    cases hopen : K.innerOpenDir d.fat k.path with
    | none => simp
    | some dir =>
      rw [Option.bind_some, Option.bind_some, Option.bind_some, ← hK d.fat dir k.file hk,
        Option.isSome_iff_exists]
      constructor
      · rintro ⟨d', hd'⟩
        obtain ⟨fat, hfat, -⟩ := Option.map_eq_some_iff.mp hd'
        exact ⟨fat, hfat⟩
      · rintro ⟨fat, hfat⟩
        exact ⟨_, Option.map_eq_some_iff.mpr ⟨fat, hfat, rfl⟩⟩
  · exact iff_of_true (exists_removeFile_of_virtDir hdir) (.inl hdir)

end Disk

namespace LinkState

/-- `sys_unlinkat`, once the path has been read; `none` is a panic. -/
def sysUnlinkat (K : FatFs σ D F) (s : LinkState σ Γ) (cwd : List Char)
    (getDir : BitVec 32 → Option (List Char)) (dirFd : BitVec 32) (path : List Char) :
    Option (Except ErrorNo ℕ × LinkState σ Γ) :=
  match resolvePathFromFd cwd getDir dirFd path with
  | some (path, file) =>
    (s.tryRemoveLink K path file).map fun (removed, s) ↦
      if removed then (.ok 0, s) else (.error .EINVAL, s)
  | none => some (.error .EINVAL, s)

/-- The states that any calls of `try_add_link` and `try_remove_link` reach, where files come and go
in between. -/
inductive Tables (K : FatFs σ D F) : LinkState σ Γ → Prop
  | start (disk : Disk σ Γ) : Tables K ⟨OrdMap.empty, OrdMap.empty, disk⟩
  | link {s : LinkState σ Γ} (h : Tables K s) (oldPath oldFile newPath newFile : List Char) :
      Tables K (s.tryAddLink K oldPath oldFile newPath newFile).2
  | unlink {s s' : LinkState σ Γ} (h : Tables K s) {path file : List Char} {r : Bool}
      (hcall : s.tryRemoveLink K path file = some (r, s')) : Tables K s'
  | disk {s : LinkState σ Γ} (h : Tables K s) (disk : Disk σ Γ) : Tables K { s with disk }

/-- The call returns, with what the call on the normal name returns and leaves. -/
def UnlinksByName (K : FatFs σ D F) (s : LinkState σ Γ) (path file : List Char) : Prop :=
  ∃ r, s.tryRemoveLink K path file = some r ∧
    ∀ k, splitPathAndFile path file = some k → s.tryRemoveLink K k.path k.file = some r

/-- A file that has been linked is spelled as in the table, and what has to go can be removed. -/
structure Spelled (K : FatFs σ D F) (isEmpty : σ → D → Bool) (s : LinkState σ Γ)
    (path file : List Char) : Prop where
  inTable : ∀ real, s.mapPathAndFile path file = some real →
    s.checkFileExists K real.path real.file = true → s.counts.get real ≠ none →
      s.map.get ⟨path, file⟩ ≠ none
  lastName : ∀ real, s.mapPathAndFile path file = some real →
    s.checkFileExists K real.path real.file = true → (s.counts.get real).getD 1 = 1 →
      s.disk.Removable K isEmpty real
  directory : ∀ real, s.mapPathAndFile path file = some real →
    s.checkFileExists K real.path real.file = false →
      s.checkDirExists K (real.path ++ real.file) = true → s.disk.Removable K isEmpty real

variable {K : FatFs σ D F} {isEmpty : σ → D → Bool} {s s' : LinkState σ Γ} {path file : List Char}
  {k key real : FileDisc}

/-! ## The tables of a run -/

/-- The names and the real names of the table are normal, and no count is zero. -/
structure Sound (s : LinkState σ Γ) : Prop where
  normal : ∀ {n v}, s.map.get n = some v → n.Normal ∧ v.Normal
  pos : ∀ {v c}, s.counts.get v = some c → 0 < c

theorem Sound.normal_of_map (hs : s.Sound) (h : s.mapPathAndFile path file = some real) :
    real.Normal := by
  rw [mapPathAndFile, Option.map_eq_some_iff] at h
  obtain ⟨k, hsplit, rfl⟩ := h
  cases hget : s.map.get k with
  | none =>
    rw [parseFileName_of_none hget]
    exact normal_of_splitPathAndFile hsplit
  | some v =>
    rw [parseFileName_of_some hget]
    exact (hs.normal hget).2

theorem Sound.addLink (hs : s.Sound) (hreal : real.Normal) (hkey : key.Normal) :
    (s.addLink real key).Sound := by
  have hmap : ∀ {n v}, (s.addLink real key).map.get n = some v →
      v = real ∧ (n = real ∨ n = key) ∨ s.map.get n = some v := by
    intro n v hn
    rw [LinkState.addLink] at hn
    by_cases hreal : n = real
    · subst hreal
      cases hget : s.map.get key with
      | none =>
        rw [hget] at hn
        exact .inl ⟨(Option.some.inj (OrdMap.get_insert_self.symm.trans hn)).symm, .inl rfl⟩
      | some w =>
        rw [hget] at hn
        by_cases hkey : n = key
        · subst hkey
          exact .inl ⟨(Option.some.inj (OrdMap.get_insert_self.symm.trans hn)).symm, .inl rfl⟩
        · exact .inr ((OrdMap.get_insert_of_ne hkey).symm.trans hn)
    · have hn' : (s.map.insert key real).get n = some v := by
        cases hget : s.map.get key with
        | none =>
          rw [hget] at hn
          exact (OrdMap.get_insert_of_ne hreal).symm.trans hn
        | some w =>
          rw [hget] at hn
          exact hn
      by_cases hkey : n = key
      · subst hkey
        exact .inl ⟨(Option.some.inj (OrdMap.get_insert_self.symm.trans hn')).symm, .inr rfl⟩
      · exact .inr ((OrdMap.get_insert_of_ne hkey).symm.trans hn')
  refine ⟨fun {n v} hn ↦ ?_, fun {v c} hc ↦ ?_⟩
  · rcases hmap hn with ⟨rfl, rfl | rfl⟩ | hold
    · exact ⟨hreal, hreal⟩
    · exact ⟨hkey, hreal⟩
    · exact hs.normal hold
  · rw [LinkState.addLink] at hc
    by_cases hv : v = real
    · subst hv
      rw [OrdMap.get_insert_self, Option.some.injEq] at hc
      omega
    · rw [OrdMap.get_insert_of_ne hv] at hc
      exact hs.pos hc

theorem Sound.tryAddLink (hs : s.Sound) (oldPath oldFile newPath newFile : List Char) :
    (s.tryAddLink K oldPath oldFile newPath newFile).2.Sound := by
  rw [LinkState.tryAddLink]
  cases hold : s.mapPathAndFile oldPath oldFile with
  | none => exact hs
  | some old =>
    cases hnew : s.mapPathAndFile newPath newFile with
    | none => exact hs
    | some new =>
      dsimp only
      split_ifs
      · exact hs.addLink (hs.normal_of_map hold) (hs.normal_of_map hnew)
      · exact hs

/-- A smaller table with a smaller count is sound as well. -/
theorem Sound.remove (hs : s.Sound) (hmap : s'.map = s.map ∨ ∃ key, s'.map = s.map.remove key)
    (hcounts : ∀ v c, s'.counts.get v = some c → 0 < c ∨ s.counts.get v = some c) :
    s'.Sound := by
  refine ⟨fun {n v} hn ↦ ?_, fun {v c} hc ↦ ?_⟩
  · rcases hmap with hmap | ⟨key, hmap⟩
    · rw [hmap] at hn
      exact hs.normal hn
    · rw [hmap] at hn
      by_cases hkey : n = key
      · subst hkey
        rw [OrdMap.get_remove_self] at hn
        exact absurd hn (by simp)
      · rw [OrdMap.get_remove_of_ne hkey] at hn
        exact hs.normal hn
  · rcases hcounts v c hc with hpos | hold
    · exact hpos
    · exact hs.pos hold

/-- The table of links after a name is taken out of it, if its file is counted. -/
def takeName (s : LinkState σ Γ) (key real : FileDisc) : OrdMap FileDisc FileDisc :=
  if (s.counts.get real).isSome then s.map.remove key else s.map

/-- The call on a name of an existing file -/
theorem tryRemoveLink_of_file (hreal : s.mapPathAndFile path file = some real)
    (hfile : s.checkFileExists K real.path real.file = true) :
    s.tryRemoveLink K path file =
      if s.counts.get real ≠ none ∧ s.map.get ⟨path, file⟩ = none then none
      else if (s.counts.get real).getD 1 - 1 = 0 then
        (s.disk.removeFile K real).map fun disk ↦
          (true, ⟨s.takeName ⟨path, file⟩ real, s.counts.remove real, disk⟩)
      else some (true, ⟨s.takeName ⟨path, file⟩ real,
        s.counts.insert real ((s.counts.get real).getD 1 - 1), s.disk⟩) := by
  rw [tryRemoveLink, hreal]
  dsimp only
  rw [if_pos hfile, takeName]
  congr 1
  rw [Bool.and_eq_true, Option.isSome_iff_ne_none, Option.isNone_iff_eq_none]

/-- The call on any other name -/
theorem tryRemoveLink_of_not_file (hreal : s.mapPathAndFile path file = some real)
    (hfile : s.checkFileExists K real.path real.file = false) :
    s.tryRemoveLink K path file =
      if s.checkDirExists K (real.path ++ real.file) = true then
        (s.disk.removeFile K real).map fun disk ↦ (true, { s with disk })
      else some (false, s) := by
  rw [tryRemoveLink, hreal]
  dsimp only
  rw [if_neg (Bool.eq_false_iff.mp hfile)]

theorem tryRemoveLink_of_none (h : s.mapPathAndFile path file = none) :
    s.tryRemoveLink K path file = some (false, s) := by
  rw [tryRemoveLink, h]

theorem takeName_eq (s : LinkState σ Γ) (key real : FileDisc) :
    s.takeName key real = s.map ∨ ∃ key', s.takeName key real = s.map.remove key' := by
  rw [takeName]
  split_ifs
  · exact .inr ⟨key, rfl⟩
  · exact .inl rfl

theorem Sound.tryRemoveLink (hs : s.Sound) {r : Bool}
    (h : s.tryRemoveLink K path file = some (r, s')) : s'.Sound := by
  cases hreal : s.mapPathAndFile path file with
  | none =>
    rw [tryRemoveLink_of_none hreal] at h
    obtain ⟨-, rfl⟩ := Prod.mk.inj (Option.some.inj h)
    exact hs
  | some real =>
    cases hfile : s.checkFileExists K real.path real.file with
    | true =>
      rw [tryRemoveLink_of_file hreal hfile] at h
      split_ifs at h with hpanic hcount
      · -- the last name goes, and the count with it
        obtain ⟨disk, -, heq⟩ := Option.map_eq_some_iff.mp h
        obtain ⟨-, rfl⟩ := Prod.mk.inj heq
        refine hs.remove (s.takeName_eq _ real) fun v c hc ↦ .inr ?_
        by_cases hv : v = real
        · subst hv
          rw [OrdMap.get_remove_self] at hc
          exact absurd hc (by simp)
        · exact (OrdMap.get_remove_of_ne hv).symm.trans hc
      · obtain ⟨-, rfl⟩ := Prod.mk.inj (Option.some.inj h)
        refine hs.remove (s.takeName_eq _ real) fun v c hc ↦ ?_
        by_cases hv : v = real
        · subst hv
          rw [OrdMap.get_insert_self, Option.some.injEq] at hc
          exact .inl (by omega)
        · exact .inr ((OrdMap.get_insert_of_ne hv).symm.trans hc)
    | false =>
      rw [tryRemoveLink_of_not_file hreal hfile] at h
      split_ifs at h with hdir
      · obtain ⟨disk, -, heq⟩ := Option.map_eq_some_iff.mp h
        obtain ⟨-, rfl⟩ := Prod.mk.inj heq
        exact ⟨hs.normal, hs.pos⟩
      · obtain ⟨-, rfl⟩ := Prod.mk.inj (Option.some.inj h)
        exact hs

theorem Tables.sound (h : s.Tables K) : s.Sound := by
  induction h with
  | start disk => exact ⟨fun hn ↦ absurd hn (by simp), fun hc ↦ absurd hc (by simp)⟩
  | link _ oldPath oldFile newPath newFile ih => exact ih.tryAddLink oldPath oldFile newPath newFile
  | unlink _ hcall ih => exact ih.tryRemoveLink hcall
  | disk _ disk ih => exact ⟨ih.normal, ih.pos⟩

/-! ## Other spellings -/

/-- A normal name has the real name of each of its spellings. -/
theorem mapPathAndFile_split (h : splitPathAndFile path file = some k) :
    s.mapPathAndFile k.path k.file = s.mapPathAndFile path file := by
  rw [mapPathAndFile_of_normal (normal_of_splitPathAndFile h), mapPathAndFile, h, Option.map_some]

/-- What is taken out matters only if there is a count. -/
theorem tryRemoveLink_congr (hreal : s.mapPathAndFile path file = some real)
    (hreal' : s.mapPathAndFile k.path k.file = some real)
    (h : s.checkFileExists K real.path real.file = true → s.counts.get real ≠ none →
      k = ⟨path, file⟩) :
    s.tryRemoveLink K k.path k.file = s.tryRemoveLink K path file := by
  cases hfile : s.checkFileExists K real.path real.file with
  | true =>
    by_cases hcount : s.counts.get real = none
    · rw [tryRemoveLink_of_file hreal hfile, tryRemoveLink_of_file hreal' hfile, takeName, takeName,
        hcount]
      simp
    · rw [h hfile hcount]
  | false => rw [tryRemoveLink_of_not_file hreal hfile, tryRemoveLink_of_not_file hreal' hfile]

theorem exists_map_eq_some {α β : Type} {o : Option α} {f : α → β} :
    (∃ b, o.map f = some b) ↔ ∃ a, o = some a := by
  cases o <;> simp

/-- When the call on a name of an existing file returns. -/
theorem exists_tryRemoveLink_of_file (hs : s.Sound)
    (hreal : s.mapPathAndFile path file = some real)
    (hfile : s.checkFileExists K real.path real.file = true) :
    (∃ r, s.tryRemoveLink K path file = some r) ↔
      (s.counts.get real ≠ none → s.map.get ⟨path, file⟩ ≠ none) ∧
      ((s.counts.get real).getD 1 = 1 → ∃ d, s.disk.removeFile K real = some d) := by
  have hzero : (s.counts.get real).getD 1 - 1 = 0 ↔ (s.counts.get real).getD 1 = 1 := by
    cases hc : s.counts.get real with
    | none => simp
    | some c =>
      have hpos := hs.pos hc
      rw [Option.getD_some]
      omega
  rw [tryRemoveLink_of_file hreal hfile]
  split_ifs with hpanic hone
  · exact iff_of_false (by simp) fun h ↦ h.1 hpanic.1 hpanic.2
  · rw [exists_map_eq_some, and_iff_right fun hc hm ↦ hpanic ⟨hc, hm⟩]
    exact ⟨fun h _ ↦ h, fun h ↦ h (hzero.mp hone)⟩
  · refine iff_of_true ⟨_, rfl⟩ ⟨fun hc hm ↦ hpanic ⟨hc, hm⟩, fun h ↦ ?_⟩
    exact absurd (hzero.mpr h) hone

/-- **An unlink depends on the normal name alone, and returns, if and only if a linked file is
spelled as in the table and what has to go can be removed.** -/
theorem unlinksByName_iff (hK : K.RemovesEntries isEmpty) (h : s.Tables K)
    (path file : List Char) :
    s.UnlinksByName K path file ↔ s.Spelled K isEmpty path file := by
  have hs := h.sound
  cases hreal : s.mapPathAndFile path file with
  | none =>
    have hnone : splitPathAndFile path file = none := Option.map_eq_none_iff.mp hreal
    refine iff_of_true ⟨_, tryRemoveLink_of_none hreal, fun k hk ↦ ?_⟩ ⟨?_, ?_, ?_⟩
    · exact absurd (hnone.symm.trans hk) (by simp)
    all_goals exact fun real hr ↦ absurd (hreal.symm.trans hr) (by simp)
  | some real =>
    have hremove := Disk.exists_removeFile_iff (d := s.disk) hK
      (hs.normal_of_map hreal).notMem_file
    have hreal' : ∀ real', s.mapPathAndFile path file = some real' → real = real' :=
      fun _ h ↦ Option.some.inj (hreal.symm.trans h)
    constructor
    · rintro ⟨r, hcall, -⟩
      refine ⟨?_, ?_, ?_⟩
      · intro real' hr hfile
        obtain rfl := hreal' real' hr
        exact ((exists_tryRemoveLink_of_file hs hreal hfile).mp ⟨r, hcall⟩).1
      · intro real' hr hfile hone
        obtain rfl := hreal' real' hr
        exact hremove.mp (((exists_tryRemoveLink_of_file hs hreal hfile).mp ⟨r, hcall⟩).2 hone)
      · intro real' hr hfile hdir
        obtain rfl := hreal' real' hr
        rw [tryRemoveLink_of_not_file hreal hfile, if_pos hdir] at hcall
        exact hremove.mp (exists_map_eq_some.mp ⟨r, hcall⟩)
    · intro hspelled
      have hcall : ∃ r, s.tryRemoveLink K path file = some r := by
        cases hfile : s.checkFileExists K real.path real.file with
        | true =>
          exact (exists_tryRemoveLink_of_file hs hreal hfile).mpr
            ⟨hspelled.inTable real hreal hfile,
              fun hone ↦ hremove.mpr (hspelled.lastName real hreal hfile hone)⟩
        | false =>
          rw [tryRemoveLink_of_not_file hreal hfile]
          split_ifs with hdir
          · exact exists_map_eq_some.mpr
              (hremove.mpr (hspelled.directory real hreal hfile hdir))
          · exact ⟨_, rfl⟩
      obtain ⟨r, hcall⟩ := hcall
      refine ⟨r, hcall, fun k hk ↦ ?_⟩
      rw [tryRemoveLink_congr hreal ((mapPathAndFile_split hk).trans hreal), hcall]
      intro hfile hcount
      -- A name of the table is normal, and so it is what it is split into.
      obtain ⟨v, hv⟩ := Option.ne_none_iff_exists'.mp (hspelled.inTable real hreal hfile hcount)
      exact Option.some.inj (hk.symm.trans (hs.normal hv).1.split)

/-- Two spellings of one name -/
example : splitPathAndFile ROOT_DIR ['.', '/', 'b'] = splitPathAndFile ROOT_DIR ['b'] := by
  decide +kernel

/-- The disk with a file `a` after a link from `b` to it -/
def linkedFile : LinkState (List (List Char)) Unit :=
  (oneFile.tryAddLink FatFs.rootOnly ROOT_DIR ['a'] ROOT_DIR ['b']).2

theorem tables_linkedFile : linkedFile.Tables FatFs.rootOnly :=
  .link (.start _) ROOT_DIR ['a'] ROOT_DIR ['b']

/-- The new name is unlinked as it is spelled in the table. -/
theorem unlinksByName_linkedFile : linkedFile.UnlinksByName FatFs.rootOnly ROOT_DIR ['b'] := by
  have hreal : linkedFile.mapPathAndFile ROOT_DIR ['b'] = some (rootName 'a') := by decide +kernel
  have hfile : linkedFile.checkFileExists FatFs.rootOnly ROOT_DIR ['a'] = true := by decide +kernel
  have hname : linkedFile.map.get ⟨ROOT_DIR, ['b']⟩ = some (rootName 'a') := by decide +kernel
  have hcount : linkedFile.counts.get (rootName 'a') = some 2 := by decide +kernel
  refine (unlinksByName_iff FatFs.removesEntries_rootOnly tables_linkedFile _ _).mpr ⟨?_, ?_, ?_⟩
  · intro real hr _ _
    rw [hname]
    exact Option.some_ne_none _
  · intro real hr _ hone
    obtain rfl := Option.some.inj (hreal.symm.trans hr)
    rw [hcount] at hone
    exact absurd hone (by decide)
  · intro real hr hnot
    obtain rfl := Option.some.inj (hreal.symm.trans hr)
    exact absurd (hfile.symm.trans hnot) (by decide)

/-- Unlinking `./b` in the root directory panics, and unlinking `b` does not. -/
theorem unlink_spelled_panics : FatFs.rootOnly.RemovesEntries (fun _ _ ↦ false) ∧
    linkedFile.Tables FatFs.rootOnly ∧
    resolvePathFromFd ROOT_DIR (fun _ ↦ none) AT_FDCWD ['.', '/', 'b'] =
      some (ROOT_DIR, ['.', '/', 'b']) ∧
    linkedFile.sysUnlinkat FatFs.rootOnly ROOT_DIR (fun _ ↦ none) AT_FDCWD ['.', '/', 'b'] = none ∧
    (linkedFile.sysUnlinkat FatFs.rootOnly ROOT_DIR (fun _ ↦ none) AT_FDCWD ['b']).isSome = true ∧
    ¬linkedFile.UnlinksByName FatFs.rootOnly ROOT_DIR ['.', '/', 'b'] := by
  have hnone : linkedFile.tryRemoveLink FatFs.rootOnly ROOT_DIR ['.', '/', 'b'] = none :=
    Option.isNone_iff_eq_none.mp (by decide +kernel)
  have hresolve : resolvePathFromFd ROOT_DIR (fun _ ↦ none) AT_FDCWD ['.', '/', 'b'] =
      some (ROOT_DIR, ['.', '/', 'b']) := by decide +kernel
  refine ⟨FatFs.removesEntries_rootOnly, tables_linkedFile, hresolve, ?_, ?_, ?_⟩
  · rw [sysUnlinkat, hresolve]
    dsimp only
    rw [hnone, Option.map_none]
  · have hresolve' : resolvePathFromFd ROOT_DIR (fun _ ↦ none) AT_FDCWD ['b'] =
        some (ROOT_DIR, ['b']) := by decide +kernel
    rw [sysUnlinkat, hresolve']
    dsimp only
    rw [Option.isSome_map]
    decide +kernel
  · rintro ⟨r, hcall, -⟩
    exact absurd (hnone.symm.trans hcall) (by simp)

end LinkState

end Maturin
