import Maturin.Base.Error
import Maturin.File.Link
import Mathlib.Data.Set.Insert

/-!
# Unlinking the names of a file

A file is linked with `sys_linkat` and then its names are unlinked in some order. The real name of
the file is on the disk, so it opens whether the table has it or not: unlinking it while the file
has other names takes it out of the table only, and the name still opens. Each unlink of another
name takes away just that name, as long as nothing on the disk answers to it. So the names go one
by one, as they should, when the real name is unlinked last or not at all.
-/

namespace Maturin

/-! ## Making links -/

/-- `resolve_path_from_fd`, where `dir` is what `get_dir_from_fd` returns for the descriptor. -/
def resolvePathFromDir (dir : Option (List Char)) (filePath : List Char) :
    Option (List Char × List Char) :=
  if filePath.head? = some '/' then
    if 1 < filePath.length then some (ROOT_DIR, filePath.tail) else some (ROOT_DIR, filePath)
  else dir.map fun dir ↦ (dir, filePath)

namespace LinkState

variable {σ Γ D F : Type}

/-- The arguments of a call of `sys_linkat`; a descriptor is replaced by its directory. -/
structure LinkatCall where
  oldDir : Option (List Char)
  oldPath : List Char
  newDir : Option (List Char)
  newPath : List Char

/-- `sys_linkat`. -/
def sysLinkat (K : FatFs σ D F) (s : LinkState σ Γ) (call : LinkatCall) :
    Except ErrorNo ℕ × LinkState σ Γ :=
  match resolvePathFromDir call.oldDir call.oldPath with
  | some (oldPath, oldFile) =>
    match resolvePathFromDir call.newDir call.newPath with
    | some (newPath, newFile) =>
      match s.tryAddLink K oldPath oldFile newPath newFile with
      | (true, s) => (.ok 0, s)
      | (false, s) => (.error .EINVAL, s)
    | none => (.error .EINVAL, s)
  | none => (.error .EINVAL, s)

/-- Any number of calls of `sys_linkat`, from empty tables. -/
def linked (K : FatFs σ D F) (disk : Disk σ Γ) (calls : List LinkatCall) : LinkState σ Γ :=
  calls.foldl (fun s call ↦ (s.sysLinkat K call).2) ⟨OrdMap.empty, OrdMap.empty, disk⟩

variable {K : FatFs σ D F} {s s' : LinkState σ Γ} {k n v : FileDisc}

/-- As long as nothing is unlinked, the table has the real name of each of its names; all its names
are normal, and those that are not real are not on the disk. -/
structure Linked (K : FatFs σ D F) (s : LinkState σ Γ) : Prop extends s.Counted K where
  name_normal : ∀ {n v}, s.map.get n = some v → n.Normal
  self_named : ∀ {v}, s.counts.get v ≠ none → s.map.get v = some v
  fresh : ∀ {n v}, s.map.get n = some v → n = v ∨ s.disk.fileExists K n = false

/-- A state after a call of `sys_linkat` is the state after a call of `try_add_link`, if any. -/
theorem sysLinkat_cases (s : LinkState σ Γ) (call : LinkatCall) :
    (s.sysLinkat K call).2 = s ∨ ∃ oldPath oldFile newPath newFile,
      (s.sysLinkat K call).2 = (s.tryAddLink K oldPath oldFile newPath newFile).2 := by
  rw [sysLinkat]
  rcases resolvePathFromDir call.oldDir call.oldPath with - | ⟨oldPath, oldFile⟩
  · exact Or.inl rfl
  rcases resolvePathFromDir call.newDir call.newPath with - | ⟨newPath, newFile⟩
  · exact Or.inl rfl
  refine Or.inr ⟨oldPath, oldFile, newPath, newFile, ?_⟩
  dsimp only
  split <;> rename_i heq <;> rw [heq]

theorem Linked.tryAddLink (hs : s.Linked K) (oldPath oldFile newPath newFile : List Char) :
    (s.tryAddLink K oldPath oldFile newPath newFile).2.Linked K ∧
      (s.tryAddLink K oldPath oldFile newPath newFile).2.disk = s.disk := by
  rcases hs.tryAddLink_cases oldPath oldFile newPath newFile with
    heq | ⟨old, new, hold, hnew, hnormal, hfile, hnone, hself, hget, heq⟩
  · rw [heq]
    exact ⟨hs, rfl⟩
  rw [heq]
  have hmeets : s.counts.get old ≠ none → s.map.get old ≠ none := by
    intro hcount
    rw [hs.self_named hcount]
    exact Option.some_ne_none old
  have hcounts : (s.addLink old new).counts =
    s.counts.insert old ((s.counts.get old).getD 1 + 1) := rfl
  refine ⟨⟨hs.addLink hnormal hfile hnone hself hget hmeets, fun {n v} hn ↦ ?_, fun {v} hv ↦ ?_,
    fun {n v} hn ↦ ?_⟩, rfl⟩
  · rw [get_addLink hget] at hn
    split at hn
    · rename_i hor
      rcases hor with rfl | rfl
      · exact hnormal
      · exact (hs.map_normal hnew).1
    · exact hs.name_normal hn
  · rw [get_addLink hget]
    rcases eq_or_ne v old with rfl | hne
    · rw [if_pos (Or.inl rfl)]
    · rw [hcounts, OrdMap.get_insert_of_ne hne] at hv
      have hvself := hs.self_named hv
      rw [if_neg, hvself]
      rintro (heq | rfl)
      · exact hne heq
      · exact absurd (hget.symm.trans hvself) (by simp)
  · rw [get_addLink hget] at hn
    split at hn
    · rename_i hor
      rcases hor with rfl | rfl
      · exact Or.inl (Option.some.inj hn)
      · exact Or.inr hnone
    · exact hs.fresh hn

theorem linked_linked (disk : Disk σ Γ) (calls : List LinkatCall) :
    (linked K disk calls).Linked K ∧ (linked K disk calls).disk = disk := by
  have hstart : (⟨OrdMap.empty, OrdMap.empty, disk⟩ : LinkState σ Γ).Linked K :=
    ⟨counted_empty disk, fun hn ↦ absurd hn (by simp), fun hv ↦ absurd OrdMap.get_empty hv,
      fun hn ↦ absurd hn (by simp)⟩
  rw [linked]
  suffices hfold : ∀ s : LinkState σ Γ, s.Linked K → s.disk = disk →
      (calls.foldl (fun s call ↦ (s.sysLinkat K call).2) s).Linked K ∧
        (calls.foldl (fun s call ↦ (s.sysLinkat K call).2) s).disk = disk from hfold _ hstart rfl
  induction calls with
  | nil => exact fun s hs hdisk ↦ ⟨hs, hdisk⟩
  | cons call calls ih =>
    intro s hs hdisk
    rw [List.foldl_cons]
    rcases sysLinkat_cases (K := K) s call with heq | ⟨oldPath, oldFile, newPath, newFile, heq⟩
    · rw [heq]
      exact ih s hs hdisk
    · obtain ⟨hs', hdisk'⟩ := hs.tryAddLink oldPath oldFile newPath newFile
      rw [heq]
      exact ih _ hs' (hdisk'.trans hdisk)

/-! ## One unlink -/

/-- What the unlink of the name `n` should do to the file `v` with the names `R`: `n` no longer
opens, the other names open the same on an unchanged disk, and the file goes if `n` was the last
name. -/
structure RemovesName (K : FatFs σ D F) (s : LinkState σ Γ) (v : FileDisc) (R : Set FileDisc)
    (n : FileDisc) (s' : LinkState σ Γ) : Prop where
  gone : ∀ flags : OpenFlags, flags.contains OpenFlags.CREATE = false →
    s'.openFile K n.path n.file flags = none
  others : ∀ m ∈ R, m ≠ n → s'.disk = s.disk ∧
    (s'.openFile K m.path m.file OpenFlags.RDONLY).isSome = true ∧
    ∀ flags : OpenFlags, flags.contains OpenFlags.CREATE = false →
      s'.openFile K m.path m.file flags = s.openFile K m.path m.file flags
  deleted : s'.disk.fileExists K v = false ↔ R ⊆ {n}

/-- Every successful unlink of a sequence of names does what it should, where `R` are the names that
are left. -/
def EachUnlink (K : FatFs σ D F) (v : FileDisc) :
    Set FileDisc → LinkState σ Γ → List FileDisc → Prop
  | _, _, [] => True
  | R, s, n :: ns => ∀ s', s.tryRemoveLink K n.path n.file = some (true, s') →
      RemovesName K s v R n s' ∧ EachUnlink K v (R \ {n}) s' ns

/-- The order of the names in which that is so: the real name comes last, after all other names, or
not at all. It must not stand on the FAT disk as well if the file is in a virtual directory, and
nothing may stand on the disk under another name. -/
structure UnlinkOrder (K : FatFs σ D F) (d : Disk σ Γ) (v : FileDisc) (R : Set FileDisc)
    (ns : List FileDisc) : Prop where
  vacant : ∀ n ∈ ns, n ≠ v → d.Vacant K n
  last : v ∈ ns → (∀ m ∈ R, m ∈ ns) ∧ ns.getLast? = some v ∧
    (d.virtDir v.path ≠ none → d.FatVacant K v)

/-- The names of a file whose real name is `v`, in the course of unlinking: the table takes them to
`v`, and the real name is one of them. -/
structure NamesOf (K : FatFs σ D F) (s : LinkState σ Γ) (v : FileDisc) (R : Set FileDisc) :
    Prop extends s.Counted K where
  mem_iff : ∀ m, m ∈ R ↔ s.parseFileName m = v
  real : s.map.get v = some v ∨ s.map.get v = none ∧ s.counts.get v = none
  name_normal : ∀ m ∈ R, m.Normal
  isFile : s.disk.IsFile K v

namespace NamesOf

variable {R : Set FileDisc}

theorem mem_real (h : NamesOf K s v R) : v ∈ R := by
  rw [h.mem_iff]
  rcases h.real with hself | ⟨hnone, -⟩
  · exact parseFileName_of_some hself
  · exact parseFileName_of_none hnone

/-- A name other than the real one is in the table. -/
theorem get_of_ne (h : NamesOf K s v R) (hn : n ∈ R) (hne : n ≠ v) : s.map.get n = some v := by
  have hparse := (h.mem_iff n).mp hn
  cases hget : s.map.get n with
  | none => exact absurd ((parseFileName_of_none hget).symm.trans hparse) hne
  | some w => rw [← hparse, parseFileName_of_some hget]

theorem openFile_of_mem (h : NamesOf K s v R) (hn : n ∈ R) (flags : OpenFlags) :
    s.openFile K n.path n.file flags = s.disk.openFile K v flags := by
  rw [openFile_of_normal (h.name_normal n hn), (h.mem_iff n).mp hn]

/-- A name with another one beside it is taken out of the table, and the file stays. -/
theorem tryRemoveLink_of_ne (h : NamesOf K s v R) (hn : n ∈ R) {m : FileDisc} (hm : m ∈ R)
    (hne : m ≠ n) : ∃ c, s.map.get n = some v ∧ s.counts.get v = some c ∧ 1 < c ∧
      s.tryRemoveLink K n.path n.file =
        some (true, ⟨s.map.remove n, s.counts.insert v (c - 1), s.disk⟩) := by
  have hreal : s.map.get v = some v := by
    refine h.real.resolve_right fun hnone ↦ ?_
    obtain ⟨w, hw, hwv⟩ : ∃ w ∈ R, w ≠ v := by
      rcases eq_or_ne n v with rfl | hnv
      · exact ⟨m, hm, hne⟩
      · exact ⟨n, hn, hnv⟩
    exact h.notMem_of_none hnone.2 w (h.get_of_ne hw hwv)
  have hget : ∀ w ∈ R, s.map.get w = some v := by
    intro w hw
    rcases eq_or_ne w v with rfl | hwv
    · exact hreal
    · exact h.get_of_ne hw hwv
  obtain ⟨c, hcount⟩ := h.counted hreal
  have hlt : 1 < c := by
    have hperm := OrdMap.perm_values_remove (OrdMap.get_eq_some.mp (hget n hn))
    have hpos : 0 < (s.map.remove n).values.count v := by
      rw [List.count_pos_iff, OrdMap.mem_values]
      refine ⟨m, OrdMap.get_eq_some.mp ?_⟩
      rw [OrdMap.get_remove_of_ne hne, hget m hm]
    rw [← h.count hcount, length_names, hperm.count_eq, List.count_cons_self]
    omega
  refine ⟨c, hget n hn, hcount, hlt, ?_⟩
  rw [h.tryRemoveLink_of_some (h.name_normal n hn) (hget n hn) hcount, if_neg (by omega)]

/-- The unlink of a name other than the real one does what it should if and only if the disk has
nothing under the name. -/
theorem unlink_of_ne (h : NamesOf K s v R) (hK : K.Lawful) (hn : n ∈ R) (hne : n ≠ v) :
    ∃ s', s.tryRemoveLink K n.path n.file = some (true, s') ∧ NamesOf K s' v (R \ {n}) ∧
      s'.disk = s.disk ∧ (RemovesName K s v R n s' ↔ s.disk.Vacant K n) := by
  obtain ⟨c, hget, hcount, hlt, hrem⟩ := h.tryRemoveLink_of_ne hn h.mem_real hne.symm
  have hreal := h.real.resolve_right fun hnone ↦ h.notMem_of_none hnone.2 n hget
  refine ⟨_, hrem, ⟨h.toCounted.remove_oneOfMany hget hcount hlt, fun m ↦ ?_, Or.inl ?_,
    fun m hm ↦ h.name_normal m hm.1, h.isFile⟩, rfl, ?_⟩
  · rw [Set.mem_sdiff, Set.mem_singleton_iff, h.mem_iff, parseFileName, parseFileName]
    rcases eq_or_ne m n with rfl | hmn
    · rw [OrdMap.get_remove_self, Option.getD_none]
      exact iff_of_false (fun hm ↦ hm.2 rfl) hne
    · rw [OrdMap.get_remove_of_ne hmn, and_iff_left hmn]
  · rw [OrdMap.get_remove_of_ne hne.symm, hreal]
  · have hopen : ∀ flags, openFile K
        (⟨s.map.remove n, s.counts.insert v (c - 1), s.disk⟩ : LinkState σ Γ) n.path n.file flags =
          s.disk.openFile K n flags := by
      intro flags
      rw [openFile_of_normal (h.name_normal n hn), parseFileName_of_none OrdMap.get_remove_self]
    refine ⟨fun hremoves flags hflags ↦ ?_, fun hvacant ↦ ⟨fun flags hflags ↦ ?_,
      fun m hm hmn ↦ ?_, ?_⟩⟩
    · rw [← hopen]
      exact hremoves.gone flags hflags
    · rw [hopen]
      exact hvacant flags hflags
    · have hother : ∀ flags, openFile K
          (⟨s.map.remove n, s.counts.insert v (c - 1), s.disk⟩ : LinkState σ Γ)
            m.path m.file flags =
            s.disk.openFile K v flags := by
        intro flags
        rw [openFile_of_normal (h.name_normal m hm), parseFileName, OrdMap.get_remove_of_ne hmn,
          ← (h.mem_iff m).mp hm, parseFileName]
      refine ⟨rfl, ?_, fun flags _ ↦ ?_⟩
      · rw [hother]
        exact h.isFile.isSome_openFile hK
      · rw [hother, h.openFile_of_mem hm]
    · rw [h.isFile.exist]
      refine iff_of_false (by simp) fun hsub ↦ hne ?_
      exact (Set.mem_singleton_iff.mp (hsub h.mem_real)).symm

/-- The unlink of the real name does not do what it should while there are other names. -/
theorem unlink_real_of_ne (h : NamesOf K s v R) (hK : K.Lawful) {m : FileDisc} (hm : m ∈ R)
    (hne : m ≠ v) : ∃ s', s.tryRemoveLink K v.path v.file = some (true, s') ∧
      ¬ RemovesName K s v R v s' := by
  obtain ⟨c, -, -, -, hrem⟩ := h.tryRemoveLink_of_ne h.mem_real hm hne
  refine ⟨_, hrem, fun hremoves ↦ ?_⟩
  have hgone := hremoves.gone OpenFlags.RDONLY (by decide)
  rw [openFile_of_normal (h.name_normal v h.mem_real),
    parseFileName_of_none OrdMap.get_remove_self] at hgone
  have hsome := h.isFile.isSome_openFile hK
  rw [hgone] at hsome
  exact absurd hsome (by simp)

/-- The unlink of the real name, when it is the last one, does what it should unless the name is
on the FAT disk as well. -/
theorem unlink_last (h : NamesOf K s v R) (hK : K.Lawful) (hR : R ⊆ {v}) :
    (∀ s', s.tryRemoveLink K v.path v.file = some (true, s') → RemovesName K s v R v s') ↔
      (s.disk.virtDir v.path ≠ none → s.disk.FatVacant K v) := by
  have hR' : R = {v} := hR.antisymm (Set.singleton_subset_iff.mpr h.mem_real)
  have hnormal := h.name_normal v h.mem_real
  obtain ⟨map, counts, hget, hrem⟩ : ∃ map counts, map.get v = none ∧
      s.tryRemoveLink K v.path v.file =
        (s.disk.removeFile K v).map fun disk ↦ (true, ⟨map, counts, disk⟩) := by
    rcases h.real with hreal | ⟨hnone, hcount⟩
    · obtain ⟨c, hcount⟩ := h.counted hreal
      have hone : c - 1 = 0 := by
        have hperm := OrdMap.perm_values_remove (OrdMap.get_eq_some.mp hreal)
        have hzero : (s.map.remove v).values.count v = 0 := by
          rw [List.count_eq_zero, OrdMap.mem_values]
          rintro ⟨n, hn⟩
          obtain ⟨hmem, hnv⟩ := OrdMap.mem_remove.mp hn
          have hnR : n ∈ R :=
            (h.mem_iff n).mpr (parseFileName_of_some (OrdMap.get_eq_some.mpr hmem))
          exact hnv (hR hnR)
        rw [← h.count hcount, length_names, hperm.count_eq, List.count_cons_self, hzero]
      refine ⟨s.map.remove v, s.counts.remove v, OrdMap.get_remove_self, ?_⟩
      rw [h.tryRemoveLink_of_some hnormal hreal hcount, if_pos hone]
    · refine ⟨s.map, s.counts.remove v, hnone, ?_⟩
      rw [h.tryRemoveLink_of_none hnormal hnone, if_pos h.isFile.exist, if_pos hcount]
  -- the name stands for itself afterwards, so that it opens what is left on the disk
  have hremoves : ∀ disk, s.disk.removeFile K v = some disk →
      (RemovesName K s v R v ⟨map, counts, disk⟩ ↔ disk.Vacant K v) := by
    intro disk hdisk
    have hopen : ∀ flags, openFile K (⟨map, counts, disk⟩ : LinkState σ Γ) v.path v.file flags =
        disk.openFile K v flags := by
      intro flags
      rw [openFile_of_normal hnormal, parseFileName_of_none hget]
    refine ⟨fun hr flags hflags ↦ ?_, fun hvacant ↦ ⟨fun flags hflags ↦ ?_,
      fun m hm hmv ↦ absurd (hR hm) hmv, ?_⟩⟩
    · rw [← hopen]
      exact hr.gone flags hflags
    · rw [hopen]
      exact hvacant flags hflags
    · rw [Disk.fileExists_removeFile hK h.isFile.exist h.isFile.bare hdisk h.isFile.exist]
      exact iff_of_true (Or.inl rfl) hR
  constructor
  · intro hall hvirt
    obtain ⟨disk, hdisk⟩ := h.isFile.exists_removeFile hvirt
    rw [hdisk, Option.map_some] at hrem
    exact (h.isFile.vacant_iff hK hdisk).mp ((hremoves disk hdisk).mp (hall _ hrem)) hvirt
  · intro hvacant s' hs'
    obtain ⟨disk, hdisk, heq⟩ := Option.map_eq_some_iff.mp (hrem.symm.trans hs')
    obtain ⟨-, rfl⟩ := Prod.mk.inj heq
    exact (hremoves disk hdisk).mpr ((h.isFile.vacant_iff hK hdisk).mpr hvacant)

end NamesOf

/-! ## Sequences of unlinks -/

variable {R : Set FileDisc} {ns : List FileDisc}

/-- The order after a name other than the real one. -/
theorem unlinkOrder_cons {d : Disk σ Γ} (hne : n ≠ v) :
    UnlinkOrder K d v R (n :: ns) ↔ d.Vacant K n ∧ UnlinkOrder K d v (R \ {n}) ns := by
  have hmem : v ∈ n :: ns ↔ v ∈ ns := by
    rw [List.mem_cons, or_iff_right hne.symm]
  constructor
  · rintro ⟨hvacant, hlast⟩
    refine ⟨hvacant n List.mem_cons_self hne,
      fun m hm ↦ hvacant m (List.mem_cons_of_mem n hm), fun hv ↦ ?_⟩
    obtain ⟨hall, hend, hfat⟩ := hlast (hmem.mpr hv)
    refine ⟨fun m hm ↦ ?_, ?_, hfat⟩
    · exact (List.mem_cons.mp (hall m hm.1)).resolve_left hm.2
    · rwa [List.getLast?_cons_of_ne_nil (List.ne_nil_of_mem hv)] at hend
  · rintro ⟨hn, hvacant, hlast⟩
    refine ⟨fun m hm hmv ↦ ?_, fun hv ↦ ?_⟩
    · rcases List.mem_cons.mp hm with rfl | hm
      · exact hn
      · exact hvacant m hm hmv
    · obtain ⟨hall, hend, hfat⟩ := hlast (hmem.mp hv)
      refine ⟨fun m hm ↦ ?_, ?_, hfat⟩
      · rcases eq_or_ne m n with rfl | hmn
        · exact List.mem_cons_self
        · exact List.mem_cons_of_mem n (hall m ⟨hm, hmn⟩)
      · rwa [List.getLast?_cons_of_ne_nil (List.ne_nil_of_mem (hmem.mp hv))]

/-- Unlinks of names of a file do what they should if and only if they come in the right order. -/
theorem NamesOf.eachUnlink_iff (h : NamesOf K s v R) (hK : K.Lawful) (hnodup : ns.Nodup)
    (hsub : ∀ n ∈ ns, n ∈ R) : EachUnlink K v R s ns ↔ UnlinkOrder K s.disk v R ns := by
  induction ns generalizing s R with
  | nil =>
    exact iff_of_true trivial ⟨fun _ hn ↦ absurd hn List.not_mem_nil,
      fun hv ↦ absurd hv List.not_mem_nil⟩
  | cons n ns ih =>
    obtain ⟨hnotMem, hnodup'⟩ := List.nodup_cons.mp hnodup
    rw [EachUnlink]
    rcases eq_or_ne n v with rfl | hne
    · by_cases hR : R ⊆ {n}
      · -- the real name is the last one
        have hnil : ns = [] := by
          rw [List.eq_nil_iff_forall_not_mem]
          intro m hm
          obtain rfl := hR (hsub m (List.mem_cons_of_mem n hm))
          exact hnotMem hm
        subst hnil
        have hlast := h.unlink_last hK hR
        refine ⟨fun hall ↦ ⟨fun m hm hmn ↦ absurd (List.mem_singleton.mp hm) hmn, fun _ ↦
          ⟨fun m hm ↦ List.mem_singleton.mpr (hR hm), rfl, hlast.mp fun s' hs' ↦ (hall s' hs').1⟩⟩,
          fun horder s' hs' ↦ ⟨?_, trivial⟩⟩
        exact hlast.mpr (horder.last List.mem_cons_self).2.2 s' hs'
      · -- the real name goes first
        obtain ⟨m, hm, hmn⟩ := Set.not_subset.mp hR
        obtain ⟨s', hs', hnot⟩ := h.unlink_real_of_ne hK hm hmn
        refine iff_of_false (fun hall ↦ hnot (hall s' hs').1) fun horder ↦ ?_
        obtain ⟨hall, hend, -⟩ := horder.last List.mem_cons_self
        have hmem := (List.mem_cons.mp (hall m hm)).resolve_left hmn
        rw [List.getLast?_cons_of_ne_nil (List.ne_nil_of_mem hmem)] at hend
        exact hnotMem (List.mem_of_getLast? hend)
    · obtain ⟨s', hs', hnames, hdisk, hremoves⟩ :=
        h.unlink_of_ne hK (hsub n List.mem_cons_self) hne
      have hrest := ih hnames hnodup' fun m hm ↦
        ⟨hsub m (List.mem_cons_of_mem n hm), fun heq ↦ hnotMem (heq ▸ hm)⟩
      rw [hdisk] at hrest
      rw [unlinkOrder_cons hne, ← hremoves, ← hrest]
      refine ⟨fun hall ↦ hall s' hs', fun hall t ht ↦ ?_⟩
      obtain ⟨-, rfl⟩ := Prod.mk.inj (Option.some.inj (hs'.symm.trans ht))
      exact hall

/-- The names of a file after any calls of `sys_linkat`. -/
theorem namesOf_linked {disk : Disk σ Γ} (calls : List LinkatCall) (hnormal : v.Normal)
    (hfile : disk.IsFile K v) :
    NamesOf K (linked K disk calls) v {n | (linked K disk calls).parseFileName n = v} := by
  obtain ⟨hs, hdisk⟩ := linked_linked (K := K) disk calls
  refine ⟨hs.toCounted, fun m ↦ Iff.rfl, ?_, fun m hm ↦ ?_, by rwa [hdisk]⟩
  · cases hget : (linked K disk calls).map.get v with
    | none =>
      refine Or.inr ⟨rfl, ?_⟩
      by_contra hcount
      exact absurd (hget.symm.trans (hs.self_named hcount)) (by simp)
    | some w =>
      rcases hs.fresh hget with rfl | hnone
      · exact Or.inl rfl
      · rw [hdisk, hfile.exist] at hnone
        exact absurd hnone (by simp)
  · cases hget : (linked K disk calls).map.get m with
    | none =>
      obtain rfl : m = v := (parseFileName_of_none hget).symm.trans hm
      exact hnormal
    | some w => exact hs.name_normal hget

/-- A file is linked by any calls of `sys_linkat`, and then some of its names are unlinked, each
once. Each successful unlink takes away its name and nothing else, and the last one the file, if
and only if the real name is unlinked after all other names or not at all, and nothing on the disk
answers to a name that has been unlinked. -/
theorem unlink_removes_one (hK : K.Lawful) (disk : Disk σ Γ) (calls : List LinkatCall)
    (hnormal : v.Normal) (hfile : disk.IsFile K v) (hnodup : ns.Nodup)
    (hnames : ∀ n ∈ ns, (linked K disk calls).parseFileName n = v) :
    EachUnlink K v {n | (linked K disk calls).parseFileName n = v} (linked K disk calls) ns ↔
      UnlinkOrder K disk v {n | (linked K disk calls).parseFileName n = v} ns := by
  have hiff := (namesOf_linked calls hnormal hfile).eachUnlink_iff hK hnodup hnames
  rwa [(linked_linked disk calls).2] at hiff

/-- A disk with the file `a`, after `b` has been linked to it. -/
def twoNames : LinkState (List (List Char)) Unit :=
  linked FatFs.flat ⟨[['a']], OrdMap.empty⟩ [⟨some ROOT_DIR, ['a'], some ROOT_DIR, ['b']⟩]

/-- The link is unlinked first and the real name last, and all is as it should be. -/
theorem unlink_removes_one_last : EachUnlink FatFs.flat (rootName 'a')
    {n | twoNames.parseFileName n = rootName 'a'} twoNames [rootName 'b', rootName 'a'] := by
  have hvirt : (⟨[['a']], OrdMap.empty⟩ : Disk _ Unit).virtDir (rootName 'a').path = none := rfl
  have hfile : Disk.IsFile FatFs.flat (⟨[['a']], OrdMap.empty⟩ : Disk _ Unit) (rootName 'a') :=
    ⟨by decide +kernel, by decide, fun _ _ _ hdir ↦ absurd (hvirt.symm.trans hdir) (by simp)⟩
  have hentries : twoNames.map.entries =
      [(rootName 'a', rootName 'a'), (rootName 'b', rootName 'a')] := by decide +kernel
  refine (unlink_removes_one FatFs.flat_lawful _ _ (normal_rootName (by decide)) hfile
    (by decide) (by decide +kernel)).mpr
      ⟨fun n hn hne flags _ ↦ ?_, fun _ ↦ ⟨fun n hn ↦ ?_, rfl, ?_⟩⟩
  · have hb : n = rootName 'b' := by
      simpa [hne] using hn
    have hopen := Disk.openFat_eq_none (d := (⟨[['a']], OrdMap.empty⟩ : Disk _ Unit))
      (k := rootName 'b') (K := FatFs.flat) (by decide +kernel) FatFs.dir_flat (by decide)
      (by decide) flags
    rw [hb]
    exact hopen
  · have hn' : twoNames.parseFileName n = rootName 'a' := hn
    cases hget : twoNames.map.get n with
    | none =>
      rw [parseFileName_of_none hget] at hn'
      simp [hn']
    | some w =>
      rw [OrdMap.get_eq_some, OrdMap.mem_def, hentries] at hget
      rcases List.mem_cons.mp hget with heq | hget
      · simp [(Prod.mk.inj heq).1]
      · simp [(Prod.mk.inj (List.mem_singleton.mp hget)).1]
  · exact fun hne ↦ absurd hvirt hne

/-- The real name is unlinked first: it still opens. -/
theorem unlink_real_first_opens : ¬ EachUnlink FatFs.flat (rootName 'a')
    {n | twoNames.parseFileName n = rootName 'a'} twoNames [rootName 'a', rootName 'b'] := by
  have hrun : (twoNames.tryRemoveLink FatFs.flat ROOT_DIR ['a']).any (fun x ↦
      x.1 && (x.2.openFile FatFs.flat ROOT_DIR ['a'] OpenFlags.RDONLY).isSome) = true := by
    decide +kernel
  obtain ⟨⟨r, s⟩, hs, hs'⟩ := Option.any_eq_true _ _ |>.mp hrun
  rw [Bool.and_eq_true] at hs'
  obtain ⟨rfl, hopen⟩ := hs'
  intro hall
  have hgone := (hall s hs).1.gone OpenFlags.RDONLY (by decide)
  exact absurd (hgone ▸ hopen) (by simp)

end LinkState

end Maturin
