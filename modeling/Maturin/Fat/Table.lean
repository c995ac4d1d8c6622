import Maturin.Lib.Bytes

/-!
# The file allocation table

The entries of `table.rs` of the crate `fatfs`. An entry has 12, 16 or 32 bits: of 12 bits two share
three bytes, and of 32 bits the upper four are kept as they are. The table is on the disk in several
copies, all of which are written and the first of which is read.
-/

namespace Maturin.Fatfs

/-- `FatType`. -/
inductive FatType
  | fat12
  | fat16
  | fat32
  deriving DecidableEq

/-- `FatValue`. -/
inductive FatValue
  | free
  | data (n : ℕ)
  | bad
  | endOfChain
  deriving DecidableEq

/-- `RESERVED_FAT_ENTRIES`: the numbers of clusters start at two. -/
def RESERVED_FAT_ENTRIES : ℕ := 2

/-! ## Copies on the disk -/

/-- `DiskSlice`: a range of the disk, and the copies of it that follow each other. -/
structure DiskSlice where
  start : ℕ
  size : ℕ
  mirrors : ℕ

namespace DiskSlice

variable {fat : DiskSlice} {disk : ByteMem} {n k offset offset' v x i j : ℕ}

/-- Read `n` bytes at an offset of the first copy. -/
def load (fat : DiskSlice) (n offset : ℕ) (disk : ByteMem) : ℕ := disk.load n (fat.start + offset)

/-- Write `n` bytes at an offset of the first `i` copies. -/
def storeCopies (fat : DiskSlice) (n offset v : ℕ) : ℕ → ByteMem → ByteMem
  | 0, disk => disk
  | i + 1, disk =>
    (fat.storeCopies n offset v i disk).store n (fat.start + offset + i * fat.size) v

/-- Write `n` bytes at an offset of all copies. -/
def store (fat : DiskSlice) (n offset v : ℕ) (disk : ByteMem) : ByteMem :=
  fat.storeCopies n offset v fat.mirrors disk

/-- The copies are the same. -/
def Mirrored (fat : DiskSlice) (disk : ByteMem) : Prop :=
  ∀ i < fat.mirrors, ∀ k < fat.size, disk (fat.start + k + i * fat.size) = disk (fat.start + k)

theorem storeCopies_outside (hoffset : offset + n ≤ fat.size)
    (h : x < fat.start ∨ fat.start + i * fat.size ≤ x) :
    fat.storeCopies n offset v i disk x = disk x := by
  induction i with
  | zero => rfl
  | succ i ih =>
    rw [Nat.succ_mul] at h
    rw [storeCopies, ByteMem.store_of_notMem (by omega), ih (by omega)]

/-- What is written in one copy -/
theorem storeCopies_apply (hoffset : offset + n ≤ fat.size) (hj : j < i) (hk : k < fat.size) :
    fat.storeCopies n offset v i disk (fat.start + k + j * fat.size) =
      disk.store n (fat.start + offset + j * fat.size) v (fat.start + k + j * fat.size) := by
  induction i with
  | zero => exact absurd hj (Nat.not_lt_zero j)
  | succ i ih =>
    rw [storeCopies]
    rcases Nat.lt_or_eq_of_le (Nat.le_of_lt_succ hj) with hlt | rfl
    · have hmul : j * fat.size + fat.size ≤ i * fat.size := by
        rw [← Nat.succ_mul]
        exact Nat.mul_le_mul_right _ hlt
      rw [ByteMem.store_of_notMem (by omega), ih hlt]
    · by_cases hin : offset ≤ k ∧ k < offset + n
      · exact ByteMem.store_congr (by omega)
      · rw [ByteMem.store_of_notMem (by omega), ByteMem.store_of_notMem (by omega),
          storeCopies_outside hoffset (by omega)]

theorem store_outside (hoffset : offset + n ≤ fat.size)
    (h : x < fat.start ∨ fat.start + fat.mirrors * fat.size ≤ x) :
    fat.store n offset v disk x = disk x := storeCopies_outside hoffset h

/-- The first copy is written as if it were the only one. -/
theorem store_apply (hoffset : offset + n ≤ fat.size) (hmirrors : 0 < fat.mirrors)
    (hk : k < fat.size) :
    fat.store n offset v disk (fat.start + k) =
      disk.store n (fat.start + offset) v (fat.start + k) := by
  have happly : fat.storeCopies n offset v fat.mirrors disk (fat.start + k + 0 * fat.size) =
      disk.store n (fat.start + offset + 0 * fat.size) v (fat.start + k + 0 * fat.size) :=
    storeCopies_apply hoffset hmirrors hk
  rw [Nat.zero_mul, Nat.add_zero, Nat.add_zero] at happly
  exact happly

theorem load_store (hoffset : offset + n ≤ fat.size) (hmirrors : 0 < fat.mirrors)
    (hoffset' : offset' + k ≤ fat.size) :
    fat.load k offset' (fat.store n offset v disk) =
      (disk.store n (fat.start + offset) v).load k (fat.start + offset') := by
  refine ByteMem.load_congr fun x hl hr ↦ ?_
  obtain ⟨d, rfl⟩ := Nat.exists_eq_add_of_le (Nat.le_trans (Nat.le_add_right _ offset') hl)
  exact store_apply hoffset hmirrors (by omega)

theorem load_store_self (hoffset : offset + n ≤ fat.size) (hmirrors : 0 < fat.mirrors)
    (hv : v < 256 ^ n) : fat.load n offset (fat.store n offset v disk) = v :=
  (load_store hoffset hmirrors hoffset).trans (ByteMem.load_store hv)

theorem load_store_of_disjoint (hoffset : offset + n ≤ fat.size) (hmirrors : 0 < fat.mirrors)
    (hoffset' : offset' + k ≤ fat.size) (h : offset' + k ≤ offset ∨ offset + n ≤ offset') :
    fat.load k offset' (fat.store n offset v disk) = fat.load k offset' disk :=
  (load_store hoffset hmirrors hoffset').trans (ByteMem.load_store_of_disjoint (by omega))

/-- Entries of one width, side by side -/
theorem load_store_entry {cluster cluster' : ℕ} (hmirrors : 0 < fat.mirrors)
    (hfits : cluster * n + n ≤ fat.size) (hfits' : cluster' * n + n ≤ fat.size)
    (hv : v < 256 ^ n) :
    fat.load n (cluster' * n) (fat.store n (cluster * n) v disk) =
      if cluster' = cluster then v else fat.load n (cluster' * n) disk := by
  split_ifs with heq
  · rw [heq, fat.load_store_self hfits hmirrors hv]
  · refine fat.load_store_of_disjoint hfits hmirrors hfits' ?_
    rcases Nat.lt_or_gt_of_ne heq with hlt | hlt <;> have hmul := Nat.mul_le_mul_right n hlt <;>
      rw [Nat.succ_mul] at hmul
    · exact .inl hmul
    · exact .inr hmul

/-- Two bytes are a byte and another one. -/
theorem load_two (fat : DiskSlice) (disk : ByteMem) (offset : ℕ) : fat.load 2 offset disk =
    fat.load 1 offset disk + 256 * fat.load 1 (offset + 1) disk := by
  rw [load, ByteMem.load, ByteMem.load, load, load, ByteMem.load, ByteMem.load, ByteMem.load,
    Nat.add_assoc, ByteMem.load]
  rfl

theorem load_lt : fat.load n offset disk < 256 ^ n := ByteMem.load_lt n disk _

/-- **The copies stay the same.** -/
theorem Mirrored.store (h : fat.Mirrored disk) (hoffset : offset + n ≤ fat.size) :
    fat.Mirrored (fat.store n offset v disk) := by
  intro i hi k hk
  rw [store_apply hoffset (Nat.zero_lt_of_lt hi) hk, DiskSlice.store,
    storeCopies_apply hoffset hi hk, ByteMem.store_add]
  by_cases hin : offset ≤ k ∧ k < offset + n
  · exact ByteMem.store_congr (by omega)
  · rw [ByteMem.store_of_notMem (by omega), ByteMem.store_of_notMem (by omega)]
    exact h i hi k hk

end DiskSlice

/-! ## Entries -/

variable {fat : DiskSlice} {disk : ByteMem} {cluster cluster' raw mark old : ℕ} {value : FatValue}
  {t : FatType}

/-- The value of an entry. The numbers from the one of a bad cluster on are no clusters. -/
def FatValue.decode (bad raw : ℕ) : FatValue :=
  if raw = 0 then .free
  else if raw = bad then .bad
  else if bad + 1 ≤ raw ∧ raw ≤ bad + 8 then .endOfChain
  else .data raw

/-- The number that is written for a value. -/
def FatValue.encode (bad : ℕ) : FatValue → ℕ
  | .free => 0
  | .bad => bad
  | .endOfChain => bad + 8
  | .data n => n

/-- May the value be written? -/
def FatValue.Valid (bad : ℕ) : FatValue → Prop
  | .data n => 0 < n ∧ n < bad
  | _ => True

theorem FatValue.decode_encode (hmark : 0 < mark) (hvalid : value.Valid mark) :
    FatValue.decode mark (value.encode mark) = value := by
  cases value with
  | free => exact if_pos rfl
  | bad => rw [decode, encode, if_neg (by omega), if_pos rfl]
  | endOfChain =>
    rw [decode, encode, if_neg (by omega), if_neg (by omega), if_pos (by omega)]
  | data n =>
    have hn : 0 < n ∧ n < mark := hvalid
    rw [decode, encode, if_neg (by omega), if_neg (by omega), if_neg (by omega)]

theorem FatValue.encode_le (hvalid : value.Valid mark) : value.encode mark ≤ mark + 8 := by
  cases value with
  | data n => exact Nat.le_trans (Nat.le_of_lt hvalid.2) (Nat.le_add_right mark 8)
  | free => exact Nat.zero_le _
  | bad => exact Nat.le_add_right mark 8
  | endOfChain => exact Nat.le_refl _

namespace Fat12

/-- `Fat12::get_raw` -/
def getRaw (fat : DiskSlice) (disk : ByteMem) (cluster : ℕ) : ℕ :=
  let packedVal := fat.load 2 (cluster + cluster / 2) disk
  if cluster &&& 1 = 0 then packedVal &&& 0x0FFF else packedVal >>> 4

/-- `Fat12::get` -/
def get (fat : DiskSlice) (disk : ByteMem) (cluster : ℕ) : FatValue :=
  .decode 0xFF7 (getRaw fat disk cluster)

/-- The word that holds an entry after a number was put into it -/
def pack (cluster raw oldPacked : ℕ) : ℕ :=
  if cluster &&& 1 = 0 then (oldPacked &&& 0xF000) ||| raw % 2 ^ 16
  else (oldPacked &&& 0x000F) ||| (raw % 2 ^ 16) <<< 4 % 2 ^ 16

/-- `Fat12::set_raw` -/
def setRaw (fat : DiskSlice) (disk : ByteMem) (cluster raw : ℕ) : ByteMem :=
  let fatOffset := cluster + cluster / 2
  fat.store 2 fatOffset (pack cluster raw (fat.load 2 fatOffset disk)) disk

/-- `Fat12::set` -/
def set (fat : DiskSlice) (disk : ByteMem) (cluster : ℕ) (value : FatValue) : ByteMem :=
  setRaw fat disk cluster (value.encode 0xFF7)

theorem and_one_eq_zero : cluster &&& 1 = 0 ↔ cluster % 2 = 0 := by
  rw [show cluster &&& 1 = cluster % 2 from Nat.and_two_pow_sub_one_eq_mod cluster 1]

theorem getRaw_eq : getRaw fat disk cluster =
    if cluster % 2 = 0 then fat.load 2 (cluster + cluster / 2) disk % 4096
    else fat.load 2 (cluster + cluster / 2) disk / 16 := by
  have hand : ∀ a : ℕ, a &&& 0x0FFF = a % 4096 := fun a ↦ Nat.and_two_pow_sub_one_eq_mod a 12
  rw [getRaw, hand, Nat.shiftRight_eq_div_pow]
  exact if_congr and_one_eq_zero rfl rfl

/-- The other entry keeps its part of the word. -/
theorem pack_eq (hraw : raw < 4096) (hold : old < 65536) : pack cluster raw old =
    if cluster % 2 = 0 then old / 4096 * 4096 + raw else raw * 16 + old % 16 := by
  rw [pack]
  refine if_congr and_one_eq_zero ?_ ?_
  · have hdiv : (old &&& 0xF000) / 2 ^ 12 = old / 4096 := by
      rw [Nat.and_div_two_pow, show 0xF000 / 2 ^ 12 = 2 ^ 4 - 1 from rfl,
        Nat.and_two_pow_sub_one_eq_mod]
      omega
    have hmod : (old &&& 0xF000) % 2 ^ 12 = 0 := by
      rw [Nat.and_mod_two_pow, show 0xF000 % 2 ^ 12 = 0 from rfl, Nat.and_zero]
    have hhigh : old &&& 0xF000 = 2 ^ 12 * (old / 4096) := by
      have hall := Nat.div_add_mod (old &&& 0xF000) (2 ^ 12)
      rw [hdiv, hmod] at hall
      exact hall.symm
    rw [hhigh, Nat.mod_eq_of_lt (by omega), ← Nat.two_pow_add_eq_or_of_lt hraw]
    omega
  · have hlow : old &&& 0x000F = old % 16 := Nat.and_two_pow_sub_one_eq_mod old 4
    have hshift : (raw % 2 ^ 16) <<< 4 % 2 ^ 16 = 2 ^ 4 * raw := by
      rw [Nat.shiftLeft_eq]
      omega
    rw [hlow, hshift, Nat.or_comm,
      ← Nat.two_pow_add_eq_or_of_lt (show old % 16 < 2 ^ 4 by omega)]
    omega

/-- **An entry of twelve bits is written alone**, though it shares a byte with its neighbour. -/
theorem getRaw_setRaw (hmirrors : 0 < fat.mirrors) (hfits : cluster + cluster / 2 + 2 ≤ fat.size)
    (hfits' : cluster' + cluster' / 2 + 2 ≤ fat.size) (hraw : raw < 4096) :
    getRaw fat (setRaw fat disk cluster raw) cluster' =
      if cluster' = cluster then raw else getRaw fat disk cluster' := by
  have hold : fat.load 2 (cluster + cluster / 2) disk < 65536 := fat.load_lt
  have hpack : pack cluster raw (fat.load 2 (cluster + cluster / 2) disk) = _ := pack_eq hraw hold
  have hlt : pack cluster raw (fat.load 2 (cluster + cluster / 2) disk) < 256 ^ 2 := by
    rw [hpack]
    split_ifs <;> omega
  rw [getRaw_eq, getRaw_eq, setRaw]
  have hself : fat.load 2 (cluster + cluster / 2) (fat.store 2 (cluster + cluster / 2)
      (pack cluster raw (fat.load 2 (cluster + cluster / 2) disk)) disk) = _ :=
    fat.load_store_self hfits hmirrors hlt
  have hother : ∀ k offset, offset + k ≤ fat.size →
      offset + k ≤ cluster + cluster / 2 ∨ cluster + cluster / 2 + 2 ≤ offset →
        fat.load k offset (fat.store 2 (cluster + cluster / 2)
          (pack cluster raw (fat.load 2 (cluster + cluster / 2) disk)) disk) =
            fat.load k offset disk :=
    fun k offset hle hdisjoint ↦ fat.load_store_of_disjoint hfits hmirrors hle hdisjoint
  by_cases heq : cluster' = cluster
  · rw [heq, if_pos rfl, hself, hpack]
    split_ifs <;> omega
  rw [if_neg heq]
  by_cases hfar : cluster' + cluster' / 2 + 2 ≤ cluster + cluster / 2 ∨
      cluster + cluster / 2 + 2 ≤ cluster' + cluster' / 2
  · rw [hother 2 _ hfits' hfar]
  -- the neighbour shares the byte in the middle
  generalize fat.store 2 (cluster + cluster / 2)
    (pack cluster raw (fat.load 2 (cluster + cluster / 2) disk)) disk = disk' at hself hother ⊢
  rw [hpack, fat.load_two disk', fat.load_two disk] at hself
  have hlow : fat.load 1 (cluster + cluster / 2) disk < 256 := fat.load_lt
  have hhigh : fat.load 1 (cluster + cluster / 2 + 1) disk < 256 := fat.load_lt
  have hlow' : fat.load 1 (cluster + cluster / 2) disk' < 256 := fat.load_lt
  have hhigh' : fat.load 1 (cluster + cluster / 2 + 1) disk' < 256 := fat.load_lt
  by_cases heven : cluster % 2 = 0
  · obtain rfl : cluster' = cluster + 1 := by omega
    rw [if_pos heven] at hself
    have hnext : cluster + 1 + (cluster + 1) / 2 = cluster + cluster / 2 + 1 := by omega
    rw [if_neg (by omega), if_neg (by omega), hnext, fat.load_two disk', fat.load_two disk,
      hother 1 (cluster + cluster / 2 + 1 + 1) (by omega) (by omega)]
    omega
  · obtain rfl : cluster = cluster' + 1 := by omega
    rw [if_neg heven] at hself
    have hnext : cluster' + 1 + (cluster' + 1) / 2 = cluster' + cluster' / 2 + 1 := by omega
    rw [hnext] at hself hlow hhigh hlow' hhigh' hother
    rw [if_pos (by omega), if_pos (by omega), fat.load_two disk', fat.load_two disk,
      hother 1 (cluster' + cluster' / 2) (by omega) (by omega)]
    omega

end Fat12

namespace Fat16

/-- `Fat16::get_raw` -/
def getRaw (fat : DiskSlice) (disk : ByteMem) (cluster : ℕ) : ℕ := fat.load 2 (cluster * 2) disk

/-- `Fat16::get` -/
def get (fat : DiskSlice) (disk : ByteMem) (cluster : ℕ) : FatValue :=
  .decode 0xFFF7 (getRaw fat disk cluster)

/-- `Fat16::set_raw` -/
def setRaw (fat : DiskSlice) (disk : ByteMem) (cluster raw : ℕ) : ByteMem :=
  fat.store 2 (cluster * 2) raw disk

/-- `Fat16::set` -/
def set (fat : DiskSlice) (disk : ByteMem) (cluster : ℕ) (value : FatValue) : ByteMem :=
  setRaw fat disk cluster (value.encode 0xFFF7)

theorem getRaw_setRaw (hmirrors : 0 < fat.mirrors) (hfits : cluster * 2 + 2 ≤ fat.size)
    (hfits' : cluster' * 2 + 2 ≤ fat.size) (hraw : raw < 65536) :
    getRaw fat (setRaw fat disk cluster raw) cluster' =
      if cluster' = cluster then raw else getRaw fat disk cluster' :=
  fat.load_store_entry hmirrors hfits hfits' hraw

end Fat16

namespace Fat32

/-- `Fat32::get_raw` -/
def getRaw (fat : DiskSlice) (disk : ByteMem) (cluster : ℕ) : ℕ := fat.load 4 (cluster * 4) disk

/-- The clusters with a special value as their number -/
def Special (cluster : ℕ) : Prop := 0x0FFFFFF7 ≤ cluster ∧ cluster ≤ 0x0FFFFFFF

instance (cluster : ℕ) : Decidable (Special cluster) := inferInstanceAs (Decidable (_ ∧ _))

/-- `Fat32::get` -/
def get (fat : DiskSlice) (disk : ByteMem) (cluster : ℕ) : FatValue :=
  match FatValue.decode 0x0FFFFFF7 (getRaw fat disk cluster &&& 0x0FFFFFFF) with
  | .free => if Special cluster then .bad else .free
  | .data n => if Special cluster then .bad else .data n
  | .bad => .bad
  | .endOfChain => .endOfChain

/-- `Fat32::set_raw` -/
def setRaw (fat : DiskSlice) (disk : ByteMem) (cluster raw : ℕ) : ByteMem :=
  fat.store 4 (cluster * 4) raw disk

/-- `Fat32::set`, but for the panic when one of the special clusters is to be free -/
def set (fat : DiskSlice) (disk : ByteMem) (cluster : ℕ) (value : FatValue) : ByteMem :=
  let oldReservedBits := getRaw fat disk cluster &&& 0xF0000000
  setRaw fat disk cluster (value.encode 0x0FFFFFF7 ||| oldReservedBits)

theorem get_of_not_special (h : ¬Special cluster) : get fat disk cluster =
    .decode 0x0FFFFFF7 (getRaw fat disk cluster &&& 0x0FFFFFFF) := by
  rw [get, if_neg h]
  cases FatValue.decode 0x0FFFFFF7 (getRaw fat disk cluster &&& 0x0FFFFFFF) with
  | data n => exact if_neg h
  | free | bad | endOfChain => rfl

theorem getRaw_setRaw (hmirrors : 0 < fat.mirrors) (hfits : cluster * 4 + 4 ≤ fat.size)
    (hfits' : cluster' * 4 + 4 ≤ fat.size) (hraw : raw < 2 ^ 32) :
    getRaw fat (setRaw fat disk cluster raw) cluster' =
      if cluster' = cluster then raw else getRaw fat disk cluster' :=
  fat.load_store_entry hmirrors hfits hfits' hraw

/-- The entry and the bits that are kept -/
theorem or_reserved (hraw : raw < 2 ^ 28) (hold : old < 2 ^ 32) :
    raw ||| (old &&& 0xF0000000) = 2 ^ 28 * (old / 2 ^ 28) + raw := by
  have hdiv : (old &&& 0xF0000000) / 2 ^ 28 = old / 2 ^ 28 := by
    rw [Nat.and_div_two_pow, show 0xF0000000 / 2 ^ 28 = 2 ^ 4 - 1 from rfl,
      Nat.and_two_pow_sub_one_eq_mod]
    omega
  have hmod : (old &&& 0xF0000000) % 2 ^ 28 = 0 := by
    rw [Nat.and_mod_two_pow, show 0xF0000000 % 2 ^ 28 = 0 from rfl, Nat.and_zero]
  have hhigh : old &&& 0xF0000000 = 2 ^ 28 * (old / 2 ^ 28) := by
    have hall := Nat.div_add_mod (old &&& 0xF0000000) (2 ^ 28)
    rw [hdiv, hmod] at hall
    exact hall.symm
  rw [hhigh, Nat.or_comm, Nat.two_pow_add_eq_or_of_lt hraw]

/-- **The upper four bits are kept**, and the others are what is written. -/
theorem getRaw_set (hmirrors : 0 < fat.mirrors) (hfits : cluster * 4 + 4 ≤ fat.size)
    (hfits' : cluster' * 4 + 4 ≤ fat.size) (hvalid : value.Valid 0x0FFFFFF7) :
    getRaw fat (set fat disk cluster value) cluster' =
      if cluster' = cluster
        then 2 ^ 28 * (getRaw fat disk cluster / 2 ^ 28) + value.encode 0x0FFFFFF7
      else getRaw fat disk cluster' := by
  have hle := FatValue.encode_le hvalid
  have hold : getRaw fat disk cluster < 2 ^ 32 := fat.load_lt
  rw [set, or_reserved (by omega) hold, getRaw_setRaw hmirrors hfits hfits' (by omega)]

theorem and_mask (raw : ℕ) : raw &&& 0x0FFFFFFF = raw % 2 ^ 28 :=
  Nat.and_two_pow_sub_one_eq_mod raw 28

end Fat32

/-! ## All types -/

/-- Where the entry of a cluster is, and how many bytes are read for it -/
def FatType.offset : FatType → ℕ → ℕ
  | .fat12, cluster => cluster + cluster / 2
  | .fat16, cluster => cluster * 2
  | .fat32, cluster => cluster * 4

def FatType.width : FatType → ℕ
  | .fat12 | .fat16 => 2
  | .fat32 => 4

/-- The number that stands for a bad cluster -/
def FatType.bad : FatType → ℕ
  | .fat12 => 0xFF7
  | .fat16 => 0xFFF7
  | .fat32 => 0x0FFFFFF7

/-- `read_fat` -/
def readFat (t : FatType) (fat : DiskSlice) (disk : ByteMem) (cluster : ℕ) : FatValue :=
  match t with
  | .fat12 => Fat12.get fat disk cluster
  | .fat16 => Fat16.get fat disk cluster
  | .fat32 => Fat32.get fat disk cluster

/-- `write_fat` -/
def writeFat (t : FatType) (fat : DiskSlice) (disk : ByteMem) (cluster : ℕ) (value : FatValue) :
    ByteMem :=
  match t with
  | .fat12 => Fat12.set fat disk cluster value
  | .fat16 => Fat16.set fat disk cluster value
  | .fat32 => Fat32.set fat disk cluster value

/-- Is the entry of a cluster in the table? -/
def FatType.Fits (t : FatType) (fat : DiskSlice) (cluster : ℕ) : Prop :=
  t.offset cluster + t.width ≤ fat.size

/-- **The table is a map.** What is written for a cluster is read again, and the values of the other
clusters stay as they are. -/
theorem readFat_writeFat (hmirrors : 0 < fat.mirrors) (hfits : t.Fits fat cluster)
    (hfits' : t.Fits fat cluster') (hvalid : value.Valid t.bad) (hcluster : cluster' < 0x0FFFFFF7) :
    readFat t fat (writeFat t fat disk cluster value) cluster' =
      if cluster' = cluster then value else readFat t fat disk cluster' := by
  have hle := FatValue.encode_le hvalid
  cases t with
  | fat12 =>
    have hraw : value.encode 0xFF7 < 4096 := Nat.lt_succ_of_le hle
    have hdecode : FatValue.decode 0xFF7 (value.encode 0xFF7) = value :=
      FatValue.decode_encode (by decide) hvalid
    rw [readFat, readFat, writeFat, Fat12.get, Fat12.get, Fat12.set,
      Fat12.getRaw_setRaw hmirrors hfits hfits' hraw, apply_ite (FatValue.decode 0xFF7), hdecode]
  | fat16 =>
    have hraw : value.encode 0xFFF7 < 65536 := Nat.lt_succ_of_le hle
    have hdecode : FatValue.decode 0xFFF7 (value.encode 0xFFF7) = value :=
      FatValue.decode_encode (by decide) hvalid
    rw [readFat, readFat, writeFat, Fat16.get, Fat16.get, Fat16.set,
      Fat16.getRaw_setRaw hmirrors hfits hfits' hraw, apply_ite (FatValue.decode 0xFFF7), hdecode]
  | fat32 =>
    have hraw : value.encode 0x0FFFFFF7 < 2 ^ 28 := Nat.lt_succ_of_le hle
    have hspecial : ¬Fat32.Special cluster' := fun h ↦ absurd h.1 (Nat.not_le.mpr hcluster)
    rw [readFat, readFat, writeFat, Fat32.get_of_not_special hspecial,
      Fat32.get_of_not_special hspecial, Fat32.getRaw_set hmirrors hfits hfits' hvalid]
    split_ifs
    · rw [Fat32.and_mask, Nat.mul_add_mod, Nat.mod_eq_of_lt hraw]
      exact FatValue.decode_encode (by decide) hvalid
    · rfl

/-- Where `write_fat` writes -/
theorem exists_writeFat_eq (t : FatType) (fat : DiskSlice) (disk : ByteMem) (cluster : ℕ)
    (value : FatValue) : ∃ v, writeFat t fat disk cluster value =
      fat.store t.width (t.offset cluster) v disk := by
  cases t <;> exact ⟨_, rfl⟩

/-- The rest of the disk is left alone. -/
theorem writeFat_outside {x : ℕ} (hfits : t.Fits fat cluster)
    (hx : x < fat.start ∨ fat.start + fat.mirrors * fat.size ≤ x) :
    writeFat t fat disk cluster value x = disk x := by
  obtain ⟨v, hv⟩ := exists_writeFat_eq t fat disk cluster value
  rw [hv, fat.store_outside hfits hx]

theorem mirrored_writeFat (h : fat.Mirrored disk) (hfits : t.Fits fat cluster) :
    fat.Mirrored (writeFat t fat disk cluster value) := by
  obtain ⟨v, hv⟩ := exists_writeFat_eq t fat disk cluster value
  rw [hv]
  exact h.store hfits

end Maturin.Fatfs
