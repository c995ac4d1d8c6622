import Maturin.Fat.Search
import Maturin.Lib.Chain

/-!
# Chains of clusters

`alloc_cluster` and the `ClusterIterator` of `table.rs`. Seen as a map from clusters to values, the
table is changed by them at the places that they name: a new cluster is the end of its chain, and a
chain that is freed or cut leaves free clusters behind.
-/

namespace Maturin.Fatfs

/-- Where the table of a volume is, and how many clusters there are -/
structure FatArea where
  fatType : FatType
  fat : DiskSlice
  totalClusters : ℕ
  mirrors_pos : 0 < fat.mirrors
  fits : ∀ cluster < totalClusters + RESERVED_FAT_ENTRIES, fatType.Fits fat cluster
  clusters_le : totalClusters + RESERVED_FAT_ENTRIES ≤ fatType.bad

/-! ## The functions -/

/-- The next cluster, if a value is one -/
def FatValue.next : FatValue → Option ℕ
  | .data n => some n
  | .free | .bad | .endOfChain => none

/-- `get_next_cluster` -/
def getNextCluster (t : FatType) (fat : DiskSlice) (disk : ByteMem) (cluster : ℕ) : Option ℕ :=
  (readFat t fat disk cluster).next

/-- The first cluster that `alloc_cluster` looks at -/
def startCluster (hint : Option ℕ) (endCluster : ℕ) : ℕ :=
  match hint with
  | some n => if n < endCluster then n else RESERVED_FAT_ENTRIES
  | none => RESERVED_FAT_ENTRIES

/-- What `alloc_cluster` writes: the new cluster ends the chain of the one before. -/
def writeLink (t : FatType) (fat : DiskSlice) (disk : ByteMem) (prevCluster : Option ℕ)
    (newCluster : ℕ) : ByteMem :=
  let disk := writeFat t fat disk newCluster .endOfChain
  match prevCluster with
  | some n => writeFat t fat disk n (.data newCluster)
  | none => disk

/-- `alloc_cluster` of `table.rs`: the new cluster and the disk; `none` is `NotEnoughSpace`. -/
def allocCluster (t : FatType) (fat : DiskSlice) (disk : ByteMem) (prevCluster hint : Option ℕ)
    (totalClusters : ℕ) : Option (ℕ × ByteMem) :=
  let endCluster := totalClusters + RESERVED_FAT_ENTRIES
  let start := startCluster hint endCluster
  let newCluster := match findFreeCluster t fat disk start endCluster with
    | some n => some n
    | none =>
      if start > RESERVED_FAT_ENTRIES then findFreeCluster t fat disk RESERVED_FAT_ENTRIES start
      else none
  newCluster.map fun newCluster ↦ (newCluster, writeLink t fat disk prevCluster newCluster)

namespace ClusterIterator

/-- `next` of an iterator that stands at a cluster -/
def next (t : FatType) (fat : DiskSlice) (disk : ByteMem) (cluster : Option ℕ) : Option ℕ :=
  cluster.bind (getNextCluster t fat disk)

/-- The rounds of `free`: the number of clusters, and the disk -/
def freeLoop (t : FatType) (fat : DiskSlice) : ℕ → ByteMem → Option ℕ → ℕ × ByteMem
  | _, disk, none => (0, disk)
  | 0, disk, some _ => (0, disk)
  | rounds + 1, disk, some n =>
    let cluster := next t fat disk (some n)
    let disk := writeFat t fat disk n .free
    let (numFree, disk) := freeLoop t fat rounds disk cluster
    (numFree + 1, disk)

/-- `truncate` -/
def truncate (t : FatType) (fat : DiskSlice) (rounds : ℕ) (disk : ByteMem) :
    Option ℕ → ℕ × ByteMem
  | some n =>
    let cluster := next t fat disk (some n)
    let disk := writeFat t fat disk n .endOfChain
    freeLoop t fat rounds disk cluster
  | none => (0, disk)

end ClusterIterator

/-! ## The table as a map -/

namespace FatArea

variable {A : FatArea} {disk disk' : ByteMem} {cluster cluster' n : ℕ} {value : FatValue}
  {chain : List ℕ}

/-- The clusters of the volume -/
def IsCluster (A : FatArea) (cluster : ℕ) : Prop :=
  RESERVED_FAT_ENTRIES ≤ cluster ∧ cluster < A.totalClusters + RESERVED_FAT_ENTRIES

/-- The value of each cluster; there are no others. -/
def table (A : FatArea) (disk : ByteMem) (cluster : ℕ) : FatValue :=
  if cluster < A.totalClusters + RESERVED_FAT_ENTRIES then readFat A.fatType A.fat disk cluster
  else .bad

/-- The successors of the clusters -/
def next (A : FatArea) (disk : ByteMem) (cluster : ℕ) : Option ℕ := (A.table disk cluster).next

theorem lt_special (h : cluster < A.totalClusters + RESERVED_FAT_ENTRIES) :
    cluster < 0x0FFFFFF7 := by
  have hle := A.clusters_le
  have hbad : A.fatType.bad ≤ 0x0FFFFFF7 := by cases A.fatType <;> decide
  omega

/-- A cluster may be written as the next one. -/
theorem valid_data (h : A.IsCluster n) : (FatValue.data n).Valid A.fatType.bad :=
  ⟨Nat.lt_of_lt_of_le Nat.two_pos h.1, Nat.lt_of_lt_of_le h.2 A.clusters_le⟩

/-- Writing an entry is updating the map. -/
theorem table_writeFat (h : A.IsCluster cluster) (hvalid : value.Valid A.fatType.bad) :
    A.table (writeFat A.fatType A.fat disk cluster value) =
      Function.update (A.table disk) cluster value := by
  funext c
  rw [Function.update_apply, table, table]
  by_cases hc : c < A.totalClusters + RESERVED_FAT_ENTRIES
  · rw [if_pos hc, if_pos hc]
    exact readFat_writeFat A.mirrors_pos (A.fits cluster h.2) (A.fits c hc) hvalid (lt_special hc)
  · rw [if_neg hc, if_neg hc, if_neg fun heq : c = cluster ↦ hc (heq ▸ h.2)]

theorem getNextCluster_eq (h : A.IsCluster cluster) :
    getNextCluster A.fatType A.fat disk cluster = A.next disk cluster := by
  rw [next, table, if_pos h.2]
  rfl

theorem rawFree_iff_table (h : A.IsCluster cluster) :
    rawFree A.fatType A.fat disk cluster = true ↔ A.table disk cluster = .free := by
  rw [rawFree_iff (lt_special h.2), table, if_pos h.2]

/-- The rest of the disk is left alone. -/
def Outside (A : FatArea) (x : ℕ) : Prop :=
  x < A.fat.start ∨ A.fat.start + A.fat.mirrors * A.fat.size ≤ x

theorem writeFat_apply_outside {x : ℕ} (h : A.IsCluster cluster) (hx : A.Outside x) :
    writeFat A.fatType A.fat disk cluster value x = disk x :=
  writeFat_outside (A.fits cluster h.2) hx

/-! ## Allocation -/

/-- A free cluster is found from a place on. -/
theorem findFreeCluster_some {start stop : ℕ} (hstart : RESERVED_FAT_ENTRIES ≤ start)
    (hle : start ≤ stop) (hstop : stop ≤ A.totalClusters + RESERVED_FAT_ENTRIES)
    (h : findFreeCluster A.fatType A.fat disk start stop = some n) :
    A.IsCluster n ∧ A.table disk n = .free := by
  rw [← Nat.add_sub_cancel' hle, findFreeCluster_eq] at h
  have hmem := List.mem_range'_1.mp (List.mem_of_find?_eq_some h)
  have hcluster : A.IsCluster n := ⟨by omega, by omega⟩
  exact ⟨hcluster, (rawFree_iff_table hcluster).mp (List.find?_some h)⟩

theorem findFreeCluster_none {start stop : ℕ} (hstart : RESERVED_FAT_ENTRIES ≤ start)
    (hle : start ≤ stop) (hstop : stop ≤ A.totalClusters + RESERVED_FAT_ENTRIES)
    (h : findFreeCluster A.fatType A.fat disk start stop = none) (hn : start ≤ n) (hn' : n < stop) :
    A.table disk n ≠ .free := by
  rw [← Nat.add_sub_cancel' hle, findFreeCluster_eq] at h
  have hcluster : A.IsCluster n := ⟨by omega, by omega⟩
  have hno := List.find?_eq_none.mp h n (List.mem_range'_1.mpr ⟨hn, by omega⟩)
  exact fun hfree ↦ hno ((rawFree_iff_table hcluster).mpr hfree)

theorem startCluster_le {hint : Option ℕ} (hhint : ∀ n, hint = some n → RESERVED_FAT_ENTRIES ≤ n) :
    RESERVED_FAT_ENTRIES ≤ startCluster hint (A.totalClusters + RESERVED_FAT_ENTRIES) ∧
      startCluster hint (A.totalClusters + RESERVED_FAT_ENTRIES) ≤
        A.totalClusters + RESERVED_FAT_ENTRIES := by
  cases hint with
  | none => exact ⟨Nat.le_refl _, Nat.le_add_left _ _⟩
  | some n =>
    have hn := hhint n rfl
    rw [startCluster]
    split_ifs with hlt
    · exact ⟨hn, Nat.le_of_lt hlt⟩
    · exact ⟨Nat.le_refl _, Nat.le_add_left _ _⟩

/-- **Allocation finds a free cluster**, and fails only where there is none. -/
theorem allocCluster_cases (disk : ByteMem) (prev : Option ℕ) {hint : Option ℕ}
    (hhint : ∀ n, hint = some n → RESERVED_FAT_ENTRIES ≤ n) :
    (∃ n, A.IsCluster n ∧ A.table disk n = .free ∧
      allocCluster A.fatType A.fat disk prev hint A.totalClusters =
        some (n, writeLink A.fatType A.fat disk prev n)) ∨
    ((∀ n, A.IsCluster n → A.table disk n ≠ .free) ∧
      allocCluster A.fatType A.fat disk prev hint A.totalClusters = none) := by
  obtain ⟨hstart, hstop⟩ := startCluster_le (A := A) hhint
  rw [allocCluster]
  generalize startCluster hint (A.totalClusters + RESERVED_FAT_ENTRIES) = start at hstart hstop ⊢
  cases hfirst : findFreeCluster A.fatType A.fat disk start
      (A.totalClusters + RESERVED_FAT_ENTRIES) with
  | some n =>
    obtain ⟨hcluster, hfree⟩ := findFreeCluster_some hstart hstop (Nat.le_refl _) hfirst
    exact .inl ⟨n, hcluster, hfree, rfl⟩
  | none =>
    have hbehind := fun n ↦
      findFreeCluster_none (n := n) hstart hstop (Nat.le_refl _) hfirst
    by_cases hgt : start > RESERVED_FAT_ENTRIES
    · dsimp only
      rw [if_pos hgt]
      cases hsecond : findFreeCluster A.fatType A.fat disk RESERVED_FAT_ENTRIES start with
      | some n =>
        obtain ⟨hcluster, hfree⟩ :=
          findFreeCluster_some (Nat.le_refl _) hstart hstop hsecond
        exact .inl ⟨n, hcluster, hfree, rfl⟩
      | none =>
        refine .inr ⟨fun n hn ↦ ?_, rfl⟩
        rcases Nat.lt_or_ge n start with hlt | hge
        · exact findFreeCluster_none (Nat.le_refl _) hstart hstop hsecond hn.1 hlt
        · exact hbehind n hge hn.2
    · dsimp only
      rw [if_neg hgt]
      exact .inr ⟨fun n hn ↦ hbehind n (Nat.le_trans (Nat.le_of_not_gt hgt) hn.1) hn.2, rfl⟩

/-! ## Freeing -/

/-- **A chain is freed.** As many clusters are free as the chain is long, and all others stay. -/
theorem freeLoop_eq {rounds : ℕ} (hrounds : chain.length ≤ rounds)
    (hlinked : Linked (A.next disk) chain) (hclusters : ∀ c ∈ chain, A.IsCluster c) :
    ∃ disk', ClusterIterator.freeLoop A.fatType A.fat rounds disk chain.head? =
        (chain.length, disk') ∧
      (∀ c, A.table disk' c = if c ∈ chain then .free else A.table disk c) ∧
      (A.fat.Mirrored disk → A.fat.Mirrored disk') ∧ ∀ x, A.Outside x → disk' x = disk x := by
  induction chain generalizing disk rounds with
  | nil =>
    refine ⟨disk, ?_, fun c ↦ (if_neg List.not_mem_nil).symm, id, fun x _ ↦ rfl⟩
    cases rounds <;> rfl
  | cons n chain ih =>
    obtain ⟨rounds, rfl⟩ := Nat.exists_eq_add_one.mpr (Nat.lt_of_lt_of_le (Nat.succ_pos _) hrounds)
    obtain ⟨hhead, htail⟩ := Linked.cons_iff.mp hlinked
    have hn : A.IsCluster n := hclusters n List.mem_cons_self
    have hnot : n ∉ chain := (List.nodup_cons.mp hlinked.nodup).1
    have htable : A.table (writeFat A.fatType A.fat disk n .free) =
        Function.update (A.table disk) n .free := A.table_writeFat hn trivial
    have hrest : Linked (A.next (writeFat A.fatType A.fat disk n .free)) chain :=
      htail.congr fun c hc ↦ by
        rw [next, next, htable, Function.update_of_ne fun heq : c = n ↦ hnot (heq ▸ hc)]
    obtain ⟨disk', hloop, htable', hmirrored, houtside⟩ := ih (Nat.le_of_succ_le_succ hrounds) hrest
      fun c hc ↦ hclusters c (List.mem_cons_of_mem n hc)
    refine ⟨disk', ?_, fun c ↦ ?_, fun hm ↦ hmirrored (mirrored_writeFat hm (A.fits n hn.2)),
      fun x hx ↦ ?_⟩
    · rw [List.head?_cons, ClusterIterator.freeLoop, ClusterIterator.next, Option.bind_some,
        getNextCluster_eq hn, hhead, hloop]
      rfl
    · rw [htable', htable, Function.update_apply]
      by_cases hc : c ∈ chain
      · rw [if_pos hc, if_pos (List.mem_cons_of_mem n hc)]
      · rw [if_neg hc]
        exact if_congr (by simp [hc]) rfl rfl
    · rw [houtside x hx, writeFat_apply_outside hn hx]

/-- **A chain is cut** behind one of its clusters, and what came behind it is free. -/
theorem truncate_eq {rounds k : ℕ} (hrounds : chain.length ≤ rounds)
    (hlinked : Linked (A.next disk) chain) (hclusters : ∀ c ∈ chain, A.IsCluster c)
    (hk : chain[k]? = some n) :
    ∃ disk', ClusterIterator.truncate A.fatType A.fat rounds disk (some n) =
        (chain.length - (k + 1), disk') ∧
      (∀ c, A.table disk' c = if c ∈ chain.drop (k + 1) then .free
        else if c = n then .endOfChain else A.table disk c) ∧
      (A.fat.Mirrored disk → A.fat.Mirrored disk') ∧ ∀ x, A.Outside x → disk' x = disk x := by
  have hmem : n ∈ chain := List.mem_of_getElem? hk
  have hn := hclusters n hmem
  have htable : A.table (writeFat A.fatType A.fat disk n .endOfChain) =
      Function.update (A.table disk) n .endOfChain := A.table_writeFat hn trivial
  have hnot : n ∉ chain.drop (k + 1) := hlinked.notMem_drop hk
  have hrest : Linked (A.next (writeFat A.fatType A.fat disk n .endOfChain)) (chain.drop (k + 1)) :=
    (hlinked.drop (k + 1)).congr fun c hc ↦ by
      rw [next, next, htable, Function.update_of_ne fun heq : c = n ↦ hnot (heq ▸ hc)]
  obtain ⟨disk', hloop, htable', hmirrored, houtside⟩ := freeLoop_eq
    (show (chain.drop (k + 1)).length ≤ rounds by rw [List.length_drop]; omega) hrest fun c hc ↦
      hclusters c (List.mem_of_mem_drop hc)
  refine ⟨disk', ?_, fun c ↦ ?_, fun hm ↦ hmirrored (mirrored_writeFat hm (A.fits n hn.2)),
    fun x hx ↦ ?_⟩
  · rw [ClusterIterator.truncate, ClusterIterator.next, Option.bind_some, getNextCluster_eq hn,
      hlinked.next_getElem? hk, ← List.head?_drop, hloop, List.length_drop]
  · rw [htable', htable, Function.update_apply]
  · rw [houtside x hx, writeFat_apply_outside hn hx]

end FatArea

end Maturin.Fatfs
