import Maturin.Fat.Volume
import Maturin.File.FatFile

/-!
# Files on a volume

`File` of the crate `fatfs`: a position, the cluster of the byte before it, and the size and the
first cluster that the directory entry has. The bytes are in the clusters of a chain. Seen from
outside a file is its bytes and a position in them, as in `FsFile`.
-/

namespace Maturin.Fatfs

/-! ## The functions -/

/-- What the functions of a file change in its directory entry, but for times -/
structure DirEntryEditor where
  size : ℕ
  firstClusterHi : ℕ
  firstClusterLo : ℕ

namespace DirEntryEditor

/-- `first_cluster` -/
def firstCluster (t : FatType) (self : DirEntryEditor) : Option ℕ :=
  let firstClusterHi := if t = .fat32 then self.firstClusterHi else 0
  let n := firstClusterHi <<< 16 ||| self.firstClusterLo
  if n = 0 then none else some n

/-- `set_first_cluster` -/
def setFirstCluster (t : FatType) (cluster : Option ℕ) (self : DirEntryEditor) : DirEntryEditor :=
  let n := cluster.getD 0
  { self with
    firstClusterHi := if t = .fat32 then n >>> 16 % 2 ^ 16 else self.firstClusterHi
    firstClusterLo := n &&& 0xFFFF }

/-- The entry names the cluster that was put into it. -/
theorem firstCluster_setFirstCluster {t : FatType} {cluster : Option ℕ} (entry : DirEntryEditor)
    (h : ∀ n, cluster = some n → 0 < n ∧ n < t.bad) :
    (entry.setFirstCluster t cluster).firstCluster t = cluster := by
  have hmask : ∀ n : ℕ, n &&& 0xFFFF = n % 2 ^ 16 := fun n ↦ Nat.and_two_pow_sub_one_eq_mod n 16
  have hparts : ∀ n < t.bad, (if t = .fat32 then n >>> 16 % 2 ^ 16 else 0) <<< 16 |||
      n &&& 0xFFFF = n := fun n hn ↦ by
    rw [hmask, Nat.shiftLeft_eq, Nat.mul_comm,
      ← Nat.two_pow_add_eq_or_of_lt (Nat.mod_lt n (by decide)), Nat.shiftRight_eq_div_pow]
    cases t <;> simp only [FatType.bad, reduceCtorEq, if_true, if_false] at hn ⊢ <;> omega
  have hhi : (if t = .fat32 then (entry.setFirstCluster t cluster).firstClusterHi else 0) =
      if t = .fat32 then cluster.getD 0 >>> 16 % 2 ^ 16 else 0 := by
    split_ifs with ht
    · exact if_pos ht
    · rfl
  have hlt : cluster.getD 0 < t.bad := by
    cases cluster with
    | none => cases t <;> decide
    | some n => exact (h n rfl).2
  have hlo : (entry.setFirstCluster t cluster).firstClusterLo = cluster.getD 0 &&& 0xFFFF := rfl
  rw [firstCluster, hhi, hlo, hparts _ hlt]
  cases cluster with
  | none => rfl
  | some n => exact if_neg (Nat.ne_of_gt (h n rfl).1)

end DirEntryEditor

/-- What a call gives. -/
inductive FileOut
  | bytes (bytes : List UInt8)
  | written (n : ℕ)
  | position (n : ℕ)
  | truncated
  | invalidInput
  | notEnoughSpace
  | panicked
  deriving DecidableEq

/-- `File`, but for directories. -/
structure File where
  firstCluster : Option ℕ
  currentCluster : Option ℕ
  offset : ℕ
  entry : DirEntryEditor

namespace File

/-- `new` -/
def new (firstCluster : Option ℕ) (entry : DirEntryEditor) : File where
  firstCluster := firstCluster
  currentCluster := none
  offset := 0
  entry := entry

/-- The cluster behind the current one, or the first one -/
def nextCluster (L : Layout) (disk : ByteMem) (self : File) : Option ℕ :=
  match self.currentCluster with
  | none => self.firstCluster
  | some n => ClusterIterator.next L.fatType L.fat disk (some n)

/-- `read` -/
def read (L : Layout) (len : ℕ) (fs : FileSystem) (self : File) : List UInt8 × File :=
  let currentCluster :=
    if self.offset % L.clusterSize = 0 then self.nextCluster L fs.disk else self.currentCluster
  match currentCluster with
  | none => ([], self)
  | some currentCluster =>
    let offsetInCluster := self.offset % L.clusterSize
    let bytesLeftInCluster := L.clusterSize - offsetInCluster
    let bytesLeftInFile := self.entry.size - self.offset
    let readSize := min (min len bytesLeftInCluster) bytesLeftInFile
    if readSize = 0 then ([], self)
    else
      let offsetInFs := L.offsetFromCluster currentCluster + offsetInCluster
      (fs.disk.readBytes offsetInFs readSize,
        { self with offset := self.offset + readSize, currentCluster := some currentCluster })

/-- `set_first_cluster` -/
def setFirstCluster (L : Layout) (cluster : ℕ) (self : File) : File :=
  { self with
    firstCluster := some cluster
    entry := self.entry.setFirstCluster L.fatType (some cluster) }

/-- The cluster that is written, and what is changed to get it -/
def clusterForWrite (L : Layout) (fs : FileSystem) (self : File) :
    Except FileOut (ℕ × FileSystem × File) :=
  if self.offset % L.clusterSize = 0 then
    match self.nextCluster L fs.disk with
    | some n => .ok (n, fs, self)
    | none =>
      match fs.allocCluster L self.currentCluster false with
      | none => .error .notEnoughSpace
      | some (newCluster, fs) =>
        .ok (newCluster, fs,
          if self.firstCluster.isNone then self.setFirstCluster L newCluster else self)
  else
    match self.currentCluster with
    | some n => .ok (n, fs, self)
    | none => .error .panicked

/-- `update_dir_entry_after_write` -/
def updateDirEntryAfterWrite (self : File) : File :=
  if self.offset > self.entry.size then
    { self with entry := { self.entry with size := self.offset } }
  else self

/-- `write` -/
def write (L : Layout) (buf : List UInt8) (fs : FileSystem) (self : File) :
    FileOut × FileSystem × File :=
  let offsetInCluster := self.offset % L.clusterSize
  let bytesLeftInCluster := L.clusterSize - offsetInCluster
  let bytesLeftUntilMaxFileSize := MAX_FILE_SIZE - self.offset
  let writeSize := min (min buf.length bytesLeftInCluster) bytesLeftUntilMaxFileSize
  if writeSize = 0 then (.written 0, fs, self)
  else
    let fs := fs.setDirtyFlag L true
    match self.clusterForWrite L fs with
    | .error e => (e, fs, self)
    | .ok (currentCluster, fs, self) =>
      let offsetInFs := L.offsetFromCluster currentCluster + offsetInCluster
      let self := { self with
        offset := self.offset + writeSize
        currentCluster := some currentCluster }
      (.written writeSize, { fs with disk := fs.disk.writeBytes offsetInFs (buf.take writeSize) },
        self.updateDirEntryAfterWrite)

/-- Where a move leads -/
def newOffset (self : File) : SeekFrom → ℤ
  | .start pos => pos
  | .end_ delta => self.entry.size + delta
  | .current delta => self.offset + delta

/-- The rounds of `seek`: the cluster, and the position if the chain ends before the new one -/
def skipLoop (L : Layout) (disk : ByteMem) : ℕ → ℕ → ℕ → ℕ × Option ℕ
  | 0, _, cluster => (cluster, none)
  | left + 1, i, cluster =>
    match ClusterIterator.next L.fatType L.fat disk (some cluster) with
    | some n => skipLoop L disk left (i + 1) n
    | none => (cluster, some (L.bytesFromClusters (i + 1)))

/-- Where `seek` ends, and the cluster before that place -/
def clusterFor (L : Layout) (disk : ByteMem) (newOffset : ℕ) (self : File) : ℕ × Option ℕ :=
  let newOffsetInClusters := L.clustersFromBytes newOffset
  let oldOffsetInClusters := L.clustersFromBytes self.offset
  if newOffset = 0 then (newOffset, none)
  else if newOffsetInClusters = oldOffsetInClusters then (newOffset, self.currentCluster)
  else
    match self.firstCluster with
    | some firstCluster =>
      let (cluster, ends) := skipLoop L disk (newOffsetInClusters - 1) 0 firstCluster
      (ends.getD newOffset, some cluster)
    | none => (0, none)

/-- `seek` -/
def seek (L : Layout) (pos : SeekFrom) (fs : FileSystem) (self : File) : FileOut × File :=
  if 0 ≤ self.newOffset pos ∧ self.newOffset pos ≤ MAX_FILE_SIZE then
    let newOffset := min (self.newOffset pos).toNat self.entry.size
    if newOffset = self.offset then (.position self.offset, self)
    else
      let (newOffset, newCluster) := self.clusterFor L fs.disk newOffset
      (.position newOffset, { self with offset := newOffset, currentCluster := newCluster })
  else (.invalidInput, self)

/-- `truncate` -/
def truncate (L : Layout) (fs : FileSystem) (self : File) : FileSystem × File :=
  let entry := { self.entry with size := self.offset }
  let entry := if self.offset = 0 then entry.setFirstCluster L.fatType none else entry
  match self.currentCluster with
  | some currentCluster => (fs.truncateClusterChain L currentCluster, { self with entry := entry })
  | none =>
    match self.firstCluster with
    | some n => (fs.freeClusterChain L n, { self with entry := entry, firstCluster := none })
    | none => (fs, { self with entry := entry })

end File

end Maturin.Fatfs
