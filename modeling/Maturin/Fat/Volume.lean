import Maturin.Fat.Clusters
import Mathlib.Data.Finset.Card
import Mathlib.Order.Interval.Finset.Nat

/-!
# A mounted volume

What `fs.rs` keeps of a volume beside the disk: the count of free clusters, the place where the
search for one begins, and the flags of the boot sector. All changes of the table go through the
functions of `FileSystem`; they keep the count exact and the data of all clusters as they are.
-/

namespace Maturin.Fatfs

/-! ## Where things are -/

/-- `FsStatusFlags`. -/
structure FsStatusFlags where
  dirty : Bool
  ioError : Bool
  deriving DecidableEq

/-- `encode` -/
def FsStatusFlags.encode (self : FsStatusFlags) : UInt8 :=
  (if self.dirty then 1 else 0) ||| (if self.ioError then 2 else 0)

/-- The numbers of the boot sector that the functions use. The table lies between the flags and the
clusters. -/
structure Layout extends FatArea where
  bytesPerSector : ℕ
  sectorsPerCluster : ℕ
  firstDataSector : ℕ
  statusFlags : FsStatusFlags
  cluster_pos : 0 < sectorsPerCluster * bytesPerSector
  flags_lt : 0x41 < fat.start
  fat_le : fat.start + fat.mirrors * fat.size ≤ firstDataSector * bytesPerSector

namespace Layout

variable {L : Layout} {c c' k k' x : ℕ}

/-- `bytes_from_sectors` -/
def bytesFromSectors (L : Layout) (sectors : ℕ) : ℕ := sectors * L.bytesPerSector

/-- `sectors_from_clusters` -/
def sectorsFromClusters (L : Layout) (clusters : ℕ) : ℕ := clusters * L.sectorsPerCluster

/-- `cluster_size` -/
def clusterSize (L : Layout) : ℕ := L.sectorsPerCluster * L.bytesPerSector

/-- `clusters_from_bytes` -/
def clustersFromBytes (L : Layout) (bytes : ℕ) : ℕ := (bytes + L.clusterSize - 1) / L.clusterSize

/-- `bytes_from_clusters` -/
def bytesFromClusters (L : Layout) (clusters : ℕ) : ℕ :=
  L.bytesFromSectors (L.sectorsFromClusters clusters)

/-- `sector_from_cluster` -/
def sectorFromCluster (L : Layout) (cluster : ℕ) : ℕ :=
  L.firstDataSector + L.sectorsFromClusters (cluster - RESERVED_FAT_ENTRIES)

/-- `offset_from_cluster` -/
def offsetFromCluster (L : Layout) (cluster : ℕ) : ℕ :=
  L.bytesFromSectors (L.sectorFromCluster cluster)

theorem clusterSize_pos (L : Layout) : 0 < L.clusterSize := L.cluster_pos

theorem offsetFromCluster_eq (L : Layout) (cluster : ℕ) : L.offsetFromCluster cluster =
    L.firstDataSector * L.bytesPerSector + (cluster - RESERVED_FAT_ENTRIES) * L.clusterSize := by
  rw [offsetFromCluster, bytesFromSectors, sectorFromCluster, sectorsFromClusters, Nat.add_mul,
    Nat.mul_assoc]
  rfl

/-- The byte is one of the cluster. -/
def InCluster (L : Layout) (c x : ℕ) : Prop :=
  L.offsetFromCluster c ≤ x ∧ x < L.offsetFromCluster c + L.clusterSize

/-- The clusters do not meet. -/
theorem offset_ne (hc : L.IsCluster c) (hc' : L.IsCluster c') (hne : c ≠ c')
    (hx : L.InCluster c x) : ¬L.InCluster c' x := by
  rintro ⟨hle', hlt'⟩
  obtain ⟨hle, hlt⟩ := hx
  rw [offsetFromCluster_eq] at hle hlt hle' hlt'
  obtain ⟨d, rfl⟩ := Nat.exists_eq_add_of_le hc.1
  obtain ⟨d', rfl⟩ := Nat.exists_eq_add_of_le hc'.1
  rw [Nat.add_sub_cancel_left] at hle hlt hle' hlt'
  have hdd' : d < d' + 1 := Nat.lt_of_mul_lt_mul_right (a := L.clusterSize) (by
    rw [Nat.succ_mul]; omega)
  have hd'd : d' < d + 1 := Nat.lt_of_mul_lt_mul_right (a := L.clusterSize) (by
    rw [Nat.succ_mul]; omega)
  omega

/-- The clusters are behind the table. -/
theorem outside_of_inCluster (h : L.InCluster c x) : L.Outside x := by
  have hfat := L.fat_le
  obtain ⟨hle, -⟩ := h
  rw [offsetFromCluster_eq] at hle
  exact .inr (by omega)

end Layout

/-! ## The functions -/

/-- `FsInfoSector`. -/
structure FsInfoSector where
  freeClusterCount : Option ℕ
  nextFreeCluster : Option ℕ
  dirty : Bool

namespace FsInfoSector

/-- `map_free_clusters` -/
def mapFreeClusters (self : FsInfoSector) (mapFn : ℕ → ℕ) : FsInfoSector :=
  match self.freeClusterCount with
  | some n => { self with freeClusterCount := some (mapFn n), dirty := true }
  | none => self

/-- `set_next_free_cluster` -/
def setNextFreeCluster (self : FsInfoSector) (cluster : ℕ) : FsInfoSector :=
  { self with nextFreeCluster := some cluster, dirty := true }

/-- `set_free_cluster_count` -/
def setFreeClusterCount (self : FsInfoSector) (freeClusterCount : ℕ) : FsInfoSector :=
  { self with freeClusterCount := some freeClusterCount, dirty := true }

@[simp] theorem mapFreeClusters_count (self : FsInfoSector) (mapFn : ℕ → ℕ) :
    (self.mapFreeClusters mapFn).freeClusterCount = self.freeClusterCount.map mapFn := by
  rw [mapFreeClusters]
  cases h : self.freeClusterCount with
  | none => exact h
  | some n => rfl

@[simp] theorem mapFreeClusters_next (self : FsInfoSector) (mapFn : ℕ → ℕ) :
    (self.mapFreeClusters mapFn).nextFreeCluster = self.nextFreeCluster := by
  rw [mapFreeClusters]
  cases self.freeClusterCount <;> rfl

end FsInfoSector

/-- `FileSystem`, of which the layout is fixed. -/
structure FileSystem where
  disk : ByteMem
  fsInfo : FsInfoSector
  currentStatusFlags : FsStatusFlags

namespace FileSystem

/-- `set_dirty_flag`: the flags read on mount are not taken back. -/
def setDirtyFlag (L : Layout) (dirty : Bool) (self : FileSystem) : FileSystem :=
  let flags := { L.statusFlags with dirty := L.statusFlags.dirty || dirty }
  if flags = self.currentStatusFlags then self
  else
    let offset := if L.fatType = .fat32 then 0x041 else 0x025
    { self with
      disk := self.disk.writeBytes offset [flags.encode]
      currentStatusFlags := flags }

/-- `alloc_cluster`; each write to the table sets the dirty flag. -/
def allocCluster (L : Layout) (prevCluster : Option ℕ) (zero : Bool) (self : FileSystem) :
    Option (ℕ × FileSystem) :=
  let hint := self.fsInfo.nextFreeCluster
  (Fatfs.allocCluster L.fatType L.fat self.disk prevCluster hint L.totalClusters).map
    fun (cluster, disk) ↦
      let self := setDirtyFlag L true { self with disk := disk }
      let disk := if zero then self.disk.fill (L.offsetFromCluster cluster) L.clusterSize 0
        else self.disk
      (cluster, { self with
        disk := disk
        fsInfo := (self.fsInfo.setNextFreeCluster (cluster + 1)).mapFreeClusters (· - 1) })

/-- `truncate_cluster_chain`; no chain has more clusters than there are. -/
def truncateClusterChain (L : Layout) (cluster : ℕ) (self : FileSystem) : FileSystem :=
  let (numFree, disk) :=
    ClusterIterator.truncate L.fatType L.fat L.totalClusters self.disk (some cluster)
  let self := setDirtyFlag L true { self with disk := disk }
  { self with fsInfo := self.fsInfo.mapFreeClusters (· + numFree) }

/-- `free_cluster_chain` -/
def freeClusterChain (L : Layout) (cluster : ℕ) (self : FileSystem) : FileSystem :=
  let (numFree, disk) :=
    ClusterIterator.freeLoop L.fatType L.fat L.totalClusters self.disk (some cluster)
  let self := setDirtyFlag L true { self with disk := disk }
  { self with fsInfo := self.fsInfo.mapFreeClusters (· + numFree) }

/-- `recalc_free_clusters` -/
def recalcFreeClusters (L : Layout) (self : FileSystem) : ℕ × FileSystem :=
  let freeClusterCount := countFreeClusters L.fatType L.fat self.disk L.totalClusters
  (freeClusterCount, { self with fsInfo := self.fsInfo.setFreeClusterCount freeClusterCount })

/-- The free clusters that `stats` gives -/
def stats (L : Layout) (self : FileSystem) : ℕ × FileSystem :=
  match self.fsInfo.freeClusterCount with
  | some n => (n, self)
  | none => recalcFreeClusters L self

end FileSystem

/-! ## What stays -/

section

variable {A : FatArea} {disk disk' : ByteMem} {chain : List ℕ} {n : ℕ}

namespace FatArea

/-- The table is what is on its part of the disk. -/
theorem table_congr (h : ∀ x, ¬A.Outside x → disk' x = disk x) : A.table disk' = A.table disk := by
  funext c
  rw [table, table]
  split_ifs with hc
  · have hfits := A.fits c hc
    have hsize : A.fat.size ≤ A.fat.mirrors * A.fat.size := Nat.le_mul_of_pos_left _ A.mirrors_pos
    have hload : ∀ k offset, offset + k ≤ A.fatType.offset c + A.fatType.width →
        A.fat.load k offset disk' = A.fat.load k offset disk := fun k offset hle ↦ by
      refine ByteMem.load_congr fun x hl hr ↦ h x ?_
      rw [FatType.Fits] at hfits
      rw [Outside]
      omega
    cases ht : A.fatType <;> rw [ht] at hload
    · have hword : A.fat.load 2 (c + c / 2) disk' = A.fat.load 2 (c + c / 2) disk :=
        hload 2 _ (Nat.le_refl _)
      simp only [readFat, Fat12.get, Fat12.getRaw, hword]
    · have hword : A.fat.load 2 (c * 2) disk' = A.fat.load 2 (c * 2) disk :=
        hload 2 _ (Nat.le_refl _)
      simp only [readFat, Fat16.get, Fat16.getRaw, hword]
    · have hword : A.fat.load 4 (c * 4) disk' = A.fat.load 4 (c * 4) disk :=
        hload 4 _ (Nat.le_refl _)
      simp only [readFat, Fat32.get, Fat32.getRaw, hword]
  · rfl

theorem mirrored_congr (h : ∀ x, ¬A.Outside x → disk' x = disk x)
    (hmirrored : A.fat.Mirrored disk) : A.fat.Mirrored disk' := by
  intro i hi k hk
  have hmul : i * A.fat.size + A.fat.size ≤ A.fat.mirrors * A.fat.size := by
    rw [← Nat.succ_mul]
    exact Nat.mul_le_mul_right _ hi
  rw [h _ fun hx ↦ by rw [Outside] at hx; omega, h _ fun hx ↦ by rw [Outside] at hx; omega]
  exact hmirrored i hi k hk

/-- The clusters that are free -/
def freeClusters (A : FatArea) (disk : ByteMem) : Finset ℕ :=
  {c ∈ Finset.Ico RESERVED_FAT_ENTRIES (A.totalClusters + RESERVED_FAT_ENTRIES) |
    A.table disk c = .free}

theorem mem_freeClusters : n ∈ A.freeClusters disk ↔ A.IsCluster n ∧ A.table disk n = .free := by
  rw [freeClusters, Finset.mem_filter, Finset.mem_Ico]
  rfl

theorem card_alloc (hn : n ∈ A.freeClusters disk)
    (h : ∀ c, A.IsCluster c → (A.table disk' c = .free ↔ A.table disk c = .free ∧ c ≠ n)) :
    (A.freeClusters disk').card = (A.freeClusters disk).card - 1 := by
  rw [← Finset.card_erase_of_mem hn]
  congr 1
  ext c
  rw [Finset.mem_erase, mem_freeClusters, mem_freeClusters]
  constructor
  · rintro ⟨hc, hfree⟩
    obtain ⟨hwas, hne⟩ := (h c hc).mp hfree
    exact ⟨hne, hc, hwas⟩
  · rintro ⟨hne, hc, hwas⟩
    exact ⟨hc, (h c hc).mpr ⟨hwas, hne⟩⟩

theorem card_release (hnodup : chain.Nodup) (hclusters : ∀ c ∈ chain, A.IsCluster c)
    (hused : ∀ c ∈ chain, A.table disk c ≠ .free)
    (h : ∀ c, A.IsCluster c → (A.table disk' c = .free ↔ A.table disk c = .free ∨ c ∈ chain)) :
    (A.freeClusters disk').card = (A.freeClusters disk).card + chain.length := by
  have hdisjoint : Disjoint (A.freeClusters disk) chain.toFinset :=
    Finset.disjoint_left.mpr fun c hfree hc ↦
      hused c (List.mem_toFinset.mp hc) (mem_freeClusters.mp hfree).2
  rw [← List.toFinset_card_of_nodup hnodup, ← Finset.card_union_of_disjoint hdisjoint]
  congr 1
  ext c
  rw [Finset.mem_union, mem_freeClusters, mem_freeClusters, List.mem_toFinset]
  constructor
  · rintro ⟨hc, hfree⟩
    exact ((h c hc).mp hfree).imp_left fun hwas ↦ ⟨hc, hwas⟩
  · rintro (⟨hc, hwas⟩ | hc)
    · exact ⟨hc, (h c hc).mpr (.inl hwas)⟩
    · exact ⟨hclusters c hc, (h c (hclusters c hc)).mpr (.inr hc)⟩

/-- A chain is not longer than there are clusters. -/
theorem length_le (hnodup : chain.Nodup) (hclusters : ∀ c ∈ chain, A.IsCluster c) :
    chain.length ≤ A.totalClusters := by
  have hsub : chain.toFinset ⊆
      Finset.Ico RESERVED_FAT_ENTRIES (A.totalClusters + RESERVED_FAT_ENTRIES) := fun c hc ↦
    Finset.mem_Ico.mpr (hclusters c (List.mem_toFinset.mp hc))
  have hcard := Finset.card_le_card hsub
  rw [List.toFinset_card_of_nodup hnodup, Nat.card_Ico, Nat.add_sub_cancel] at hcard
  exact hcard

end FatArea

end

namespace FileSystem

variable {L : Layout} {fs fs' : FileSystem} {chain : List ℕ} {n c x : ℕ} {prev : Option ℕ}
  {zero dirty : Bool}

theorem setDirtyFlag_fsInfo : (setDirtyFlag L dirty fs).fsInfo = fs.fsInfo := by
  rw [setDirtyFlag]
  dsimp only
  split_ifs <;> rfl

/-- The flags are in the boot sector. -/
theorem setDirtyFlag_disk (hx : 0x41 < x) : (setDirtyFlag L dirty fs).disk x = fs.disk x := by
  rw [setDirtyFlag]
  dsimp only
  split_ifs
  · rfl
  all_goals exact ByteMem.writeBytes_of_notMem (.inr (by simp; omega))

theorem setDirtyFlag_table : L.table (setDirtyFlag L dirty fs).disk = L.table fs.disk := by
  refine L.table_congr fun x hx ↦ setDirtyFlag_disk ?_
  have hlt := L.flags_lt
  rw [FatArea.Outside] at hx
  omega

theorem setDirtyFlag_mirrored (h : L.fat.Mirrored fs.disk) :
    L.fat.Mirrored (setDirtyFlag L dirty fs).disk := by
  refine L.mirrored_congr (fun x hx ↦ setDirtyFlag_disk ?_) h
  have hlt := L.flags_lt
  rw [FatArea.Outside] at hx
  omega

theorem setDirtyFlag_inCluster (hx : L.InCluster c x) :
    (setDirtyFlag L dirty fs).disk x = fs.disk x := by
  have hlt := L.flags_lt
  have hle := L.fat_le
  obtain ⟨hx, -⟩ := hx
  rw [L.offsetFromCluster_eq] at hx
  exact setDirtyFlag_disk (by omega)

/-- What is kept beside the disk is right. -/
structure Ok (L : Layout) (fs : FileSystem) : Prop where
  count : ∀ n, fs.fsInfo.freeClusterCount = some n → n = (L.freeClusters fs.disk).card
  hint : ∀ n, fs.fsInfo.nextFreeCluster = some n → RESERVED_FAT_ENTRIES ≤ n

theorem freeClusters_congr (h : L.table fs'.disk = L.table fs.disk) :
    L.freeClusters fs'.disk = L.freeClusters fs.disk := by
  rw [FatArea.freeClusters, FatArea.freeClusters, h]

theorem Ok.congr (h : fs.Ok L) (hinfo : fs'.fsInfo = fs.fsInfo)
    (htable : L.table fs'.disk = L.table fs.disk) : fs'.Ok L where
  count := by
    rw [hinfo, freeClusters_congr htable]
    exact h.count
  hint := by
    rw [hinfo]
    exact h.hint

/-- The table after a cluster was put behind another one -/
def linkedTable (table : ℕ → FatValue) (n : ℕ) : Option ℕ → ℕ → FatValue
  | none => Function.update table n .endOfChain
  | some p => Function.update (Function.update table n .endOfChain) p (.data n)

theorem linkedTable_of_ne (hn : c ≠ n) (hprev : prev ≠ some c) (table : ℕ → FatValue) :
    linkedTable table n prev c = table c := by
  cases prev with
  | none => exact Function.update_of_ne hn ..
  | some p =>
    rw [linkedTable, Function.update_of_ne fun heq : c = p ↦ hprev (congrArg some heq.symm),
      Function.update_of_ne hn]

theorem linkedTable_eq_free {table : ℕ → FatValue}
    (hused : ∀ p, prev = some p → table p ≠ .free) :
    linkedTable table n prev c = .free ↔ table c = .free ∧ c ≠ n := by
  cases prev with
  | none =>
    rw [linkedTable, Function.update_apply]
    split_ifs with hc
    · exact iff_of_false (fun h ↦ by cases h) fun h ↦ h.2 hc
    · exact (and_iff_left hc).symm
  | some p =>
    rw [linkedTable, Function.update_apply, Function.update_apply]
    split_ifs with hp hc
    · exact iff_of_false (fun h ↦ by cases h) fun h ↦ hused p rfl (hp ▸ h.1)
    · exact iff_of_false (fun h ↦ by cases h) fun h ↦ h.2 hc
    · exact (and_iff_left hc).symm

theorem table_writeLink {disk : ByteMem} (hn : L.IsCluster n)
    (hprev : ∀ p, prev = some p → L.IsCluster p) :
    L.table (writeLink L.fatType L.fat disk prev n) = linkedTable (L.table disk) n prev := by
  have hend : L.table (writeFat L.fatType L.fat disk n .endOfChain) =
      Function.update (L.table disk) n .endOfChain := L.table_writeFat hn trivial
  cases prev with
  | none => exact hend
  | some p =>
    rw [writeLink, L.table_writeFat (hprev p rfl) (L.valid_data hn), hend]
    rfl

theorem mirrored_writeLink {disk : ByteMem} (hn : L.IsCluster n)
    (hprev : ∀ p, prev = some p → L.IsCluster p) (h : L.fat.Mirrored disk) :
    L.fat.Mirrored (writeLink L.fatType L.fat disk prev n) := by
  have hend : L.fat.Mirrored (writeFat L.fatType L.fat disk n .endOfChain) :=
    mirrored_writeFat h (L.fits n hn.2)
  cases prev with
  | none => exact hend
  | some p => exact mirrored_writeFat hend (L.fits p (hprev p rfl).2)

theorem writeLink_outside {disk : ByteMem} (hn : L.IsCluster n)
    (hprev : ∀ p, prev = some p → L.IsCluster p) (hx : L.Outside x) :
    writeLink L.fatType L.fat disk prev n x = disk x := by
  cases prev with
  | none => exact L.writeFat_apply_outside hn hx
  | some p =>
    rw [writeLink, L.writeFat_apply_outside (hprev p rfl) hx, L.writeFat_apply_outside hn hx]

/-- **What `alloc_cluster` does**: it takes a free cluster and puts it behind the one before, or
there is none. -/
theorem allocCluster_spec (zero : Bool) (h : fs.Ok L) (hprev : ∀ p, prev = some p → L.IsCluster p)
    (hused : ∀ p, prev = some p → L.table fs.disk p ≠ .free) :
    (∃ n fs', L.IsCluster n ∧ L.table fs.disk n = .free ∧
      fs.allocCluster L prev zero = some (n, fs') ∧ fs'.Ok L ∧
      L.table fs'.disk = linkedTable (L.table fs.disk) n prev ∧
      (L.fat.Mirrored fs.disk → L.fat.Mirrored fs'.disk) ∧
      ∀ c x, L.IsCluster c → c ≠ n → L.InCluster c x → fs'.disk x = fs.disk x) ∨
    ((∀ n, L.IsCluster n → L.table fs.disk n ≠ .free) ∧ fs.allocCluster L prev zero = none) := by
  rcases L.allocCluster_cases fs.disk prev h.hint with ⟨n, hn, hfree, halloc⟩ | ⟨hno, halloc⟩
  · generalize hdisk : writeLink L.fatType L.fat fs.disk prev n = disk at halloc
    generalize hfs₁ : setDirtyFlag L true { fs with disk := disk } = fs₁
    have htable₁ : L.table fs₁.disk = linkedTable (L.table fs.disk) n prev := by
      rw [← hfs₁, setDirtyFlag_table, ← table_writeLink hn hprev, hdisk]
    have hmirrored₁ : L.fat.Mirrored fs.disk → L.fat.Mirrored fs₁.disk := fun hm ↦ by
      rw [← hfs₁]
      refine setDirtyFlag_mirrored ?_
      rw [← hdisk]
      exact mirrored_writeLink hn hprev hm
    have hkeep₁ : ∀ c x, L.InCluster c x → fs₁.disk x = fs.disk x := fun c x hx ↦ by
      rw [← hfs₁, setDirtyFlag_inCluster hx, ← hdisk]
      exact writeLink_outside hn hprev (Layout.outside_of_inCluster hx)
    have hinfo₁ : fs₁.fsInfo = fs.fsInfo := by rw [← hfs₁, setDirtyFlag_fsInfo]
    have halloc' : fs.allocCluster L prev zero = some (n, { fs₁ with
        disk := if zero then fs₁.disk.fill (L.offsetFromCluster n) L.clusterSize 0 else fs₁.disk
        fsInfo := (fs₁.fsInfo.setNextFreeCluster (n + 1)).mapFreeClusters (· - 1) }) := by
      rw [allocCluster, halloc, Option.map_some]
      dsimp only
      rw [hfs₁]
    have hfill : ∀ x, ¬L.InCluster n x →
        (if zero then fs₁.disk.fill (L.offsetFromCluster n) L.clusterSize 0 else fs₁.disk) x =
          fs₁.disk x := fun x hx ↦ by
      rw [Layout.InCluster] at hx
      split_ifs
      · exact ByteMem.fill_of_notMem (by omega)
      · rfl
    generalize (if zero then fs₁.disk.fill (L.offsetFromCluster n) L.clusterSize 0
      else fs₁.disk) = disk' at halloc' hfill
    have hinfat : ∀ x, ¬L.Outside x → disk' x = fs₁.disk x :=
      fun x hx ↦ hfill x fun hin ↦ hx (Layout.outside_of_inCluster hin)
    have htable' : L.table disk' = linkedTable (L.table fs.disk) n prev :=
      (L.table_congr hinfat).trans htable₁
    refine .inl ⟨n, _, hn, hfree, halloc', ⟨fun k hk ↦ ?_, fun k hk ↦ ?_⟩, htable',
      fun hm ↦ L.mirrored_congr hinfat (hmirrored₁ hm), fun c x hc hne hx ↦ ?_⟩
    · rw [FsInfoSector.mapFreeClusters_count, hinfo₁] at hk
      obtain ⟨m, hm, rfl⟩ := Option.map_eq_some_iff.mp hk
      rw [h.count m hm]
      refine (FatArea.card_alloc (FatArea.mem_freeClusters.mpr ⟨hn, hfree⟩) fun c hc ↦ ?_).symm
      rw [htable']
      exact linkedTable_eq_free hused
    · rw [FsInfoSector.mapFreeClusters_next] at hk
      obtain rfl := Option.some.inj hk
      exact Nat.le_succ_of_le hn.1
    · rw [← hkeep₁ c x hx]
      exact hfill x (Layout.offset_ne hc hn hne hx)
  · refine .inr ⟨hno, ?_⟩
    rw [allocCluster, halloc]
    rfl

/-- What both functions do that give clusters back -/
theorem release_spec {numFree : ℕ} {disk : ByteMem} {gone : List ℕ} (h : fs.Ok L)
    (hnodup : gone.Nodup) (hclusters : ∀ c ∈ gone, L.IsCluster c)
    (hused : ∀ c ∈ gone, L.table fs.disk c ≠ .free) (hnum : numFree = gone.length)
    (htable : ∀ c, L.IsCluster c →
      (L.table disk c = .free ↔ L.table fs.disk c = .free ∨ c ∈ gone))
    (hfs' : fs' = { setDirtyFlag L true { fs with disk := disk } with
      fsInfo := (setDirtyFlag L true { fs with disk := disk }).fsInfo.mapFreeClusters
        (· + numFree) }) :
    fs'.Ok L ∧ L.table fs'.disk = L.table disk ∧
      (L.fat.Mirrored disk → L.fat.Mirrored fs'.disk) ∧
      ∀ c x, L.InCluster c x → fs'.disk x = disk x := by
  subst hfs' hnum
  have htable' : L.table (setDirtyFlag L true { fs with disk := disk }).disk = L.table disk :=
    setDirtyFlag_table
  have hmirrored : L.fat.Mirrored disk →
      L.fat.Mirrored (setDirtyFlag L true { fs with disk := disk }).disk :=
    fun hm ↦ setDirtyFlag_mirrored hm
  refine ⟨⟨fun k hk ↦ ?_, fun k hk ↦ h.hint k ?_⟩, htable', hmirrored,
    fun c x hx ↦ setDirtyFlag_inCluster hx⟩
  · rw [FsInfoSector.mapFreeClusters_count, setDirtyFlag_fsInfo] at hk
    obtain ⟨m, hm, rfl⟩ := Option.map_eq_some_iff.mp hk
    rw [h.count m hm]
    refine (FatArea.card_release hnodup hclusters hused fun c hc ↦ ?_).symm
    rw [htable']
    exact htable c hc
  · rwa [FsInfoSector.mapFreeClusters_next, setDirtyFlag_fsInfo] at hk

/-- **What `free_cluster_chain` does**: the clusters of the chain are free. -/
theorem freeClusterChain_spec (h : fs.Ok L) (hlinked : Linked (L.next fs.disk) chain)
    (hclusters : ∀ c ∈ chain, L.IsCluster c) (hused : ∀ c ∈ chain, L.table fs.disk c ≠ .free)
    (hhead : chain.head? = some n) :
    (fs.freeClusterChain L n).Ok L ∧
      (∀ c, L.table (fs.freeClusterChain L n).disk c =
        if c ∈ chain then .free else L.table fs.disk c) ∧
      (L.fat.Mirrored fs.disk → L.fat.Mirrored (fs.freeClusterChain L n).disk) ∧
      ∀ c x, L.InCluster c x → (fs.freeClusterChain L n).disk x = fs.disk x := by
  obtain ⟨disk, hloop, htable, hmirrored, houtside⟩ :=
    L.freeLoop_eq (L.length_le hlinked.nodup hclusters) hlinked hclusters
  have hfree : ∀ c, L.IsCluster c →
      (L.table disk c = .free ↔ L.table fs.disk c = .free ∨ c ∈ chain) := fun c _ ↦ by
    rw [htable]
    split_ifs with hc
    · exact iff_of_true rfl (.inr hc)
    · exact (or_iff_left hc).symm
  rw [hhead] at hloop
  have hfs' : fs.freeClusterChain L n = { setDirtyFlag L true { fs with disk := disk } with
      fsInfo := (setDirtyFlag L true { fs with disk := disk }).fsInfo.mapFreeClusters
        (· + chain.length) } := by
    rw [freeClusterChain, hloop]
  obtain ⟨hok, htable', hmirrored', hdata⟩ :=
    release_spec h hlinked.nodup hclusters hused rfl hfree hfs'
  refine ⟨hok, fun c ↦ ?_, fun hm ↦ hmirrored' (hmirrored hm), fun c x hx ↦ ?_⟩
  · rw [htable', htable]
  · rw [hdata c x hx, houtside x (Layout.outside_of_inCluster hx)]

/-- **What `truncate_cluster_chain` does**: the chain ends at the cluster, and those behind it are
free. -/
theorem truncateClusterChain_spec {k : ℕ} (h : fs.Ok L) (hlinked : Linked (L.next fs.disk) chain)
    (hclusters : ∀ c ∈ chain, L.IsCluster c) (hused : ∀ c ∈ chain, L.table fs.disk c ≠ .free)
    (hk : chain[k]? = some n) :
    (fs.truncateClusterChain L n).Ok L ∧
      (∀ c, L.table (fs.truncateClusterChain L n).disk c =
        if c ∈ chain.drop (k + 1) then .free
        else if c = n then .endOfChain else L.table fs.disk c) ∧
      (L.fat.Mirrored fs.disk → L.fat.Mirrored (fs.truncateClusterChain L n).disk) ∧
      ∀ c x, L.InCluster c x → (fs.truncateClusterChain L n).disk x = fs.disk x := by
  obtain ⟨disk, hloop, htable, hmirrored, houtside⟩ :=
    L.truncate_eq (L.length_le hlinked.nodup hclusters) hlinked hclusters hk
  have hmem : ∀ c ∈ chain.drop (k + 1), c ∈ chain := fun c hc ↦ List.mem_of_mem_drop hc
  have hfree : ∀ c, L.IsCluster c →
      (L.table disk c = .free ↔ L.table fs.disk c = .free ∨ c ∈ chain.drop (k + 1)) :=
    fun c _ ↦ by
      rw [htable]
      split_ifs with hc hn
      · exact iff_of_true rfl (.inr hc)
      · subst hn
        exact iff_of_false (fun h ↦ by cases h)
          (not_or.mpr ⟨hused c (List.mem_of_getElem? hk), hc⟩)
      · exact (or_iff_left hc).symm
  have hfs' : fs.truncateClusterChain L n = { setDirtyFlag L true { fs with disk := disk } with
      fsInfo := (setDirtyFlag L true { fs with disk := disk }).fsInfo.mapFreeClusters
        (· + (chain.length - (k + 1))) } := by
    rw [truncateClusterChain, hloop]
  obtain ⟨hok, htable', hmirrored', hdata⟩ :=
    release_spec h (hlinked.nodup.sublist (List.drop_sublist _ _))
      (fun c hc ↦ hclusters c (hmem c hc)) (fun c hc ↦ hused c (hmem c hc))
      List.length_drop.symm hfree hfs'
  refine ⟨hok, fun c ↦ ?_, fun hm ↦ hmirrored' (hmirrored hm), fun c x hx ↦ ?_⟩
  · rw [htable', htable]
  · rw [hdata c x hx, houtside x (Layout.outside_of_inCluster hx)]

/-- What `stats` gives is right. -/
theorem stats_spec (h : fs.Ok L) : (fs.stats L).1 = (L.freeClusters fs.disk).card := by
  rw [stats]
  cases hcount : fs.fsInfo.freeClusterCount with
  | some n => exact h.count n hcount
  | none =>
    dsimp only [recalcFreeClusters]
    rw [countFreeClusters_eq, List.countP_eq_length_filter,
      ← List.toFinset_card_of_nodup (List.Nodup.filter _ List.nodup_range')]
    congr 1
    ext c
    rw [List.mem_toFinset, List.mem_filter, List.mem_range'_1, FatArea.mem_freeClusters,
      Nat.add_comm RESERVED_FAT_ENTRIES]
    exact and_congr_right fun hc ↦ FatArea.rawFree_iff_table hc

end FileSystem

end Maturin.Fatfs
