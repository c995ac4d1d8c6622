import Maturin.Fat.Table

/-!
# Looking for free clusters

`find_free` and `count_free` of `table.rs` read the table from front to back without another seek.
Of entries with 12 bits the first one of a pair is read with two bytes, and the second one with the
byte that comes next and with what is left of them.
-/

namespace Maturin.Fatfs

variable {fat : DiskSlice} {disk : ByteMem} {left pos cluster packed width : ℕ} {value : ℕ → ℕ}

/-! ## The loops -/

namespace Fat12

/-- The rounds of `find_free`; none is left when `cluster` is `end_cluster`. -/
def findFreeLoop (fat : DiskSlice) (disk : ByteMem) : ℕ → ℕ → ℕ → ℕ → Option ℕ
  | 0, _, _, _ => none
  | left + 1, pos, cluster, packedVal =>
    let val := if cluster &&& 1 = 0 then packedVal &&& 0x0FFF else packedVal >>> 4
    if val = 0 then some cluster
    else if (cluster + 1) &&& 1 = 0 then
      findFreeLoop fat disk left (pos + 2) (cluster + 1) (fat.load 2 pos disk)
    else
      let nextByte := fat.load 1 pos disk
      findFreeLoop fat disk left (pos + 1) (cluster + 1) (packedVal >>> 8 ||| nextByte <<< 8)

/-- `Fat12::find_free` -/
def findFree (fat : DiskSlice) (disk : ByteMem) (startCluster endCluster : ℕ) : Option ℕ :=
  let fatOffset := startCluster + startCluster / 2
  findFreeLoop fat disk (endCluster - startCluster) (fatOffset + 2) startCluster
    (fat.load 2 fatOffset disk)

/-- The rounds of `count_free` -/
def countFreeLoop (fat : DiskSlice) (disk : ByteMem) : ℕ → ℕ → ℕ → ℕ → ℕ → ℕ
  | 0, _, _, _, count => count
  | left + 1, pos, cluster, prevPackedVal, count =>
    let packedVal := if cluster &&& 1 = 0 then fat.load 2 pos disk else fat.load 1 pos disk
    let pos := if cluster &&& 1 = 0 then pos + 2 else pos + 1
    let val := if cluster &&& 1 = 0 then packedVal &&& 0x0FFF
      else packedVal <<< 8 ||| prevPackedVal >>> 12
    countFreeLoop fat disk left pos (cluster + 1) packedVal (if val = 0 then count + 1 else count)

/-- `Fat12::count_free` -/
def countFree (fat : DiskSlice) (disk : ByteMem) (endCluster : ℕ) : ℕ :=
  countFreeLoop fat disk (endCluster - RESERVED_FAT_ENTRIES) (RESERVED_FAT_ENTRIES * 3 / 2)
    RESERVED_FAT_ENTRIES 0 0

end Fat12

/-- The rounds of `find_free` where an entry has whole bytes -/
def findFreeLoop (width : ℕ) (value : ℕ → ℕ) (fat : DiskSlice) (disk : ByteMem) :
    ℕ → ℕ → ℕ → Option ℕ
  | 0, _, _ => none
  | left + 1, pos, cluster =>
    if value (fat.load width pos disk) = 0 then some cluster
    else findFreeLoop width value fat disk left (pos + width) (cluster + 1)

/-- The rounds of `count_free` where an entry has whole bytes -/
def countFreeLoop (width : ℕ) (value : ℕ → ℕ) (fat : DiskSlice) (disk : ByteMem) :
    ℕ → ℕ → ℕ → ℕ
  | 0, _, count => count
  | left + 1, pos, count =>
    countFreeLoop width value fat disk left (pos + width)
      (if value (fat.load width pos disk) = 0 then count + 1 else count)

/-- `Fat16::find_free` -/
def Fat16.findFree (fat : DiskSlice) (disk : ByteMem) (startCluster endCluster : ℕ) : Option ℕ :=
  findFreeLoop 2 id fat disk (endCluster - startCluster) (startCluster * 2) startCluster

/-- `Fat16::count_free` -/
def Fat16.countFree (fat : DiskSlice) (disk : ByteMem) (endCluster : ℕ) : ℕ :=
  countFreeLoop 2 id fat disk (endCluster - RESERVED_FAT_ENTRIES) (RESERVED_FAT_ENTRIES * 2) 0

/-- `Fat32::find_free` -/
def Fat32.findFree (fat : DiskSlice) (disk : ByteMem) (startCluster endCluster : ℕ) : Option ℕ :=
  findFreeLoop 4 (· &&& 0x0FFFFFFF) fat disk (endCluster - startCluster) (startCluster * 4)
    startCluster

/-- `Fat32::count_free` -/
def Fat32.countFree (fat : DiskSlice) (disk : ByteMem) (endCluster : ℕ) : ℕ :=
  countFreeLoop 4 (· &&& 0x0FFFFFFF) fat disk (endCluster - RESERVED_FAT_ENTRIES)
    (RESERVED_FAT_ENTRIES * 4) 0

/-- `find_free_cluster`; `none` is the error `NotEnoughSpace`. -/
def findFreeCluster (t : FatType) (fat : DiskSlice) (disk : ByteMem)
    (startCluster endCluster : ℕ) : Option ℕ :=
  match t with
  | .fat12 => Fat12.findFree fat disk startCluster endCluster
  | .fat16 => Fat16.findFree fat disk startCluster endCluster
  | .fat32 => Fat32.findFree fat disk startCluster endCluster

/-- `count_free_clusters` -/
def countFreeClusters (t : FatType) (fat : DiskSlice) (disk : ByteMem) (totalClusters : ℕ) : ℕ :=
  let endCluster := totalClusters + RESERVED_FAT_ENTRIES
  match t with
  | .fat12 => Fat12.countFree fat disk endCluster
  | .fat16 => Fat16.countFree fat disk endCluster
  | .fat32 => Fat32.countFree fat disk endCluster

/-! ## What they find -/

/-- Is the number of an entry, without the bits that are kept, zero? -/
def rawFree (t : FatType) (fat : DiskSlice) (disk : ByteMem) (cluster : ℕ) : Bool :=
  match t with
  | .fat12 => Fat12.getRaw fat disk cluster = 0
  | .fat16 => Fat16.getRaw fat disk cluster = 0
  | .fat32 => Fat32.getRaw fat disk cluster &&& 0x0FFFFFFF = 0

theorem findFreeLoop_eq (left cluster : ℕ) :
    findFreeLoop width value fat disk left (cluster * width) cluster =
      (List.range' cluster left).find? fun c ↦ value (fat.load width (c * width) disk) = 0 := by
  induction left generalizing cluster with
  | zero => rfl
  | succ left ih =>
    rw [findFreeLoop, List.range'_succ, List.find?_cons, ← Nat.add_one_mul, ih]
    by_cases h : value (fat.load width (cluster * width) disk) = 0
    · rw [if_pos h, decide_eq_true h]
    · rw [if_neg h, decide_eq_false h]

/-- One more is counted, in the loop or at its end. -/
theorem count_step (p : Prop) [Decidable p] (count rest : ℕ) :
    (if p then count + 1 else count) + rest =
      count + (rest + if decide p = true then 1 else 0) := by
  by_cases hp : p
  · rw [if_pos hp, if_pos (decide_eq_true hp)]
    omega
  · rw [if_neg hp, if_neg (by rwa [decide_eq_true_eq]), Nat.add_zero]

theorem countFreeLoop_eq (left cluster count : ℕ) :
    countFreeLoop width value fat disk left (cluster * width) count =
      count + (List.range' cluster left).countP fun c ↦
        value (fat.load width (c * width) disk) = 0 := by
  induction left generalizing cluster count with
  | zero => rfl
  | succ left ih =>
    rw [countFreeLoop, List.range'_succ, List.countP_cons, ← Nat.add_one_mul, ih, count_step]

namespace Fat12

/-- The word of the second entry of a pair, from that of the first one and the next byte -/
theorem load_next (offset : ℕ) :
    fat.load 2 offset disk >>> 8 ||| fat.load 1 (offset + 2) disk <<< 8 =
      fat.load 2 (offset + 1) disk := by
  have hlow : fat.load 1 offset disk < 256 := fat.load_lt
  have hhigh : fat.load 1 (offset + 1) disk < 2 ^ 8 := fat.load_lt
  have hshift : fat.load 2 offset disk >>> 8 = fat.load 1 (offset + 1) disk := by
    rw [fat.load_two, Nat.shiftRight_eq_div_pow]
    omega
  rw [hshift, fat.load_two disk (offset + 1), Nat.shiftLeft_eq, Nat.or_comm, Nat.mul_comm,
    ← Nat.two_pow_add_eq_or_of_lt hhigh, Nat.add_comm]

theorem findFreeLoop_eq (left cluster : ℕ) :
    findFreeLoop fat disk left (cluster + cluster / 2 + 2) cluster
        (fat.load 2 (cluster + cluster / 2) disk) =
      (List.range' cluster left).find? fun c ↦ getRaw fat disk c = 0 := by
  induction left generalizing cluster with
  | zero => rfl
  | succ left ih =>
    rw [findFreeLoop, List.range'_succ, List.find?_cons, ← ih]
    by_cases h : getRaw fat disk cluster = 0
    · rw [decide_eq_true h]
      exact if_pos h
    · rw [decide_eq_false h]
      refine (if_neg h).trans ?_
      dsimp only
      split_ifs with hodd
      · rw [and_one_eq_zero] at hodd
        rw [show cluster + 1 + (cluster + 1) / 2 = cluster + cluster / 2 + 2 by omega]
      · rw [and_one_eq_zero] at hodd
        rw [load_next, show cluster + 1 + (cluster + 1) / 2 = cluster + cluster / 2 + 1 by omega]

/-- The two parts of the second entry of a pair are put together at other places than in `get`, but
they are zero at the same time. -/
theorem split_eq_zero (fat : DiskSlice) (disk : ByteMem) (offset : ℕ) :
    fat.load 1 (offset + 1 + 1) disk <<< 8 ||| fat.load 2 offset disk >>> 12 = 0 ↔
      fat.load 2 (offset + 1) disk / 16 = 0 := by
  have hlow : fat.load 1 offset disk < 256 := fat.load_lt
  have hhigh : fat.load 1 (offset + 1) disk < 256 := fat.load_lt
  rw [Nat.or_eq_zero_iff, Nat.shiftLeft_eq, Nat.shiftRight_eq_div_pow, fat.load_two disk offset,
    fat.load_two disk (offset + 1)]
  omega

/-- Where the loop that counts stands before a cluster: the bytes of a pair that were read, and what
was read last -/
structure CountsAt (fat : DiskSlice) (disk : ByteMem) (cluster pos prevPackedVal : ℕ) : Prop where
  even : cluster % 2 = 0 → pos = cluster + cluster / 2
  odd : cluster % 2 = 1 → pos = cluster + cluster / 2 + 1 ∧
    prevPackedVal = fat.load 2 (cluster + cluster / 2 - 1) disk

theorem countFreeLoop_eq (left cluster pos prev count : ℕ)
    (h : CountsAt fat disk cluster pos prev) :
    countFreeLoop fat disk left pos cluster prev count =
      count + (List.range' cluster left).countP fun c ↦ getRaw fat disk c = 0 := by
  induction left generalizing cluster pos prev count with
  | zero => rfl
  | succ left ih =>
    rw [countFreeLoop, List.range'_succ, List.countP_cons]
    rcases Nat.mod_two_eq_zero_or_one cluster with heven | hodd
    · obtain rfl := h.even heven
      have hcond : cluster &&& 1 = 0 := and_one_eq_zero.mpr heven
      simp only [hcond, if_true]
      rw [ih _ _ _ _ ⟨fun hmod ↦ by omega, fun _ ↦ ⟨by omega, ?_⟩⟩, count_step, getRaw,
        if_pos hcond]
      · rw [show cluster + 1 + (cluster + 1) / 2 - 1 = cluster + cluster / 2 by omega]
    · obtain ⟨rfl, rfl⟩ := h.odd hodd
      have hcond : ¬cluster &&& 1 = 0 := fun hzero ↦ by
        rw [and_one_eq_zero] at hzero
        omega
      simp only [hcond, if_false]
      have hzero : fat.load 1 (cluster + cluster / 2 + 1) disk <<< 8 |||
          fat.load 2 (cluster + cluster / 2 - 1) disk >>> 12 = 0 ↔ getRaw fat disk cluster = 0 := by
        have hsplit := split_eq_zero fat disk (cluster + cluster / 2 - 1)
        rw [Nat.sub_add_cancel (by omega)] at hsplit
        rw [hsplit, getRaw, if_neg hcond, Nat.shiftRight_eq_div_pow]
      rw [ih _ _ _ _ ⟨fun hmod ↦ by omega, fun hmod ↦ by omega⟩, count_step]
      simp only [hzero]

end Fat12

variable {t : FatType}

theorem FatValue.decode_eq_free {mark raw : ℕ} : FatValue.decode mark raw = .free ↔ raw = 0 := by
  rw [decode]
  split_ifs with hzero
  · exact iff_of_true rfl hzero
  all_goals exact iff_of_false (fun h ↦ by cases h) hzero

/-- The loops and `get` take the same clusters to be free. -/
theorem rawFree_iff (hcluster : cluster < 0x0FFFFFF7) :
    rawFree t fat disk cluster = true ↔ readFat t fat disk cluster = .free := by
  cases t with
  | fat12 => exact decide_eq_true_iff.trans FatValue.decode_eq_free.symm
  | fat16 => exact decide_eq_true_iff.trans FatValue.decode_eq_free.symm
  | fat32 =>
    have hspecial : ¬Fat32.Special cluster := fun h ↦ absurd h.1 (Nat.not_le.mpr hcluster)
    rw [readFat, Fat32.get_of_not_special hspecial]
    exact decide_eq_true_iff.trans FatValue.decode_eq_free.symm

/-- The first free cluster of a range is found. -/
theorem findFreeCluster_eq (t : FatType) (fat : DiskSlice) (disk : ByteMem) (start left : ℕ) :
    findFreeCluster t fat disk start (start + left) =
      (List.range' start left).find? (rawFree t fat disk) := by
  cases t with
  | fat12 =>
    rw [findFreeCluster, Fat12.findFree, Nat.add_sub_cancel_left]
    exact Fat12.findFreeLoop_eq left start
  | fat16 =>
    rw [findFreeCluster, Fat16.findFree, Nat.add_sub_cancel_left]
    exact findFreeLoop_eq left start
  | fat32 =>
    rw [findFreeCluster, Fat32.findFree, Nat.add_sub_cancel_left]
    exact findFreeLoop_eq left start

/-- The free clusters are counted. -/
theorem countFreeClusters_eq (t : FatType) (fat : DiskSlice) (disk : ByteMem) (total : ℕ) :
    countFreeClusters t fat disk total =
      (List.range' RESERVED_FAT_ENTRIES total).countP (rawFree t fat disk) := by
  cases t with
  | fat12 =>
    rw [countFreeClusters, Fat12.countFree, Nat.add_sub_cancel]
    exact (Fat12.countFreeLoop_eq total RESERVED_FAT_ENTRIES (RESERVED_FAT_ENTRIES * 3 / 2) 0 0
      ⟨fun _ ↦ rfl, nofun⟩).trans (Nat.zero_add _)
  | fat16 =>
    rw [countFreeClusters, Fat16.countFree, Nat.add_sub_cancel]
    exact (countFreeLoop_eq total RESERVED_FAT_ENTRIES 0).trans (Nat.zero_add _)
  | fat32 =>
    rw [countFreeClusters, Fat32.countFree, Nat.add_sub_cancel]
    exact (countFreeLoop_eq total RESERVED_FAT_ENTRIES 0).trans (Nat.zero_add _)

end Maturin.Fatfs
