import Maturin.File.FatFile

/-!
# Moving in a file of the file system

`FatFile::seek` is to move to the place that its argument names, and to fill the file with zeros up
to there if it is shorter. The zeros are one call of `fatfs::File::write`, which ends at the next
boundary of a cluster, and the number of bytes that it wrote is not looked at. So a move far behind
the end stops short of its target, and it reports the target all the same. A relative move reports
where the first of the inner moves led, which is the end of the file. And a move that is counted
from the end fills nothing.
-/

namespace Maturin

namespace FsFile

/-- The bytes that one call of `write` can put behind the end of the file. -/
def room (self : FsFile) : ℕ :=
  min (self.clusterSize - self.bytes.length % self.clusterSize) (MAX_FILE_SIZE - self.bytes.length)

variable {self : FsFile} {n : ℕ}

theorem withOffset_clusterSize : (self.withOffset n).clusterSize = self.clusterSize := rfl

theorem room_pos (h : self.bytes.length < MAX_FILE_SIZE) : 0 < self.room :=
  lt_min (Nat.sub_pos_of_lt (Nat.mod_lt _ self.clusterSize_pos)) (Nat.sub_pos_of_lt h)

/-- Zeros that are written at the end of the file stand behind it, as far as there is room. -/
theorem write_zeros_bytes :
    ((self.withOffset self.bytes.length).write (List.replicate n 0)).2.bytes
      = self.bytes ++ List.replicate (min n self.room) 0 := by
  rw [write]
  dsimp only
  rw [leftInCluster, withOffset_offset le_rfl, withOffset_bytes, List.take_length,
    List.drop_eq_nil_of_le (Nat.le_add_right _ _), List.append_nil, List.take_replicate,
    List.length_replicate, room, withOffset_clusterSize]
  generalize self.clusterSize - self.bytes.length % self.clusterSize = left
  congr 2
  omega

theorem seek_of_not {pos : SeekFrom}
    (h : ¬(0 ≤ self.newOffset pos ∧ self.newOffset pos ≤ MAX_FILE_SIZE)) :
    self.seek pos = (none, self) := if_neg h

end FsFile

namespace FatFile

variable {file : FsFile} {seekfrom : SeekFrom} {t : ℕ}

/-- Is a move behind the end of the file one that writes zeros? -/
def Fills (file : FsFile) : SeekFrom → Prop
  | .start pos => pos - file.bytes.length ≤ FS_IMG_SIZE
  | .end_ _ => False
  | .current _ => True

instance : Decidable (Fills file seekfrom) :=
  match seekfrom with
  | .start _ => inferInstanceAs (Decidable (_ ≤ _))
  | .end_ _ => inferInstanceAs (Decidable False)
  | .current _ => inferInstanceAs (Decidable True)

/-- The zeros that a move to `t` puts behind the end of the file. -/
def zerosAdded (file : FsFile) (seekfrom : SeekFrom) (t : ℕ) : ℕ :=
  if Fills file seekfrom then min (t - file.bytes.length) file.room else 0

theorem zerosAdded_of_fills (h : Fills file seekfrom) :
    zerosAdded file seekfrom t = min (t - file.bytes.length) file.room := if_pos h

theorem zerosAdded_of_not (h : ¬Fills file seekfrom) : zerosAdded file seekfrom t = 0 := if_neg h

/-- What a move to `t` reports. -/
def reported (file : FsFile) : SeekFrom → ℕ → ℕ
  | .start pos, _ => pos
  | .end_ _, t => min t file.bytes.length
  | .current _, t => min t file.bytes.length

/-- The end of a move: zeros are written under a condition, and then the position is set. -/
def settle (file : FsFile) (fills : Prop) [Decidable fills] (t : ℕ) : FsFile :=
  ((if fills then ((file.withOffset file.bytes.length).write
      (List.replicate (t - file.bytes.length) 0)).2
    else file.withOffset file.bytes.length).seek (.start t)).2

theorem settle_spec {fills : Prop} [Decidable fills] (ht : t ≤ MAX_FILE_SIZE)
    (hfills : fills ↔ file.bytes.length < t ∧ Fills file seekfrom) :
    (settle file fills t).bytes
        = file.bytes ++ List.replicate (zerosAdded file seekfrom t) 0 ∧
      (settle file fills t).offset = min t (file.bytes.length + zerosAdded file seekfrom t) := by
  have hbytes : (settle file fills t).bytes
      = file.bytes ++ List.replicate (zerosAdded file seekfrom t) 0 := by
    rw [settle, FsFile.seek_start ht, FsFile.withOffset_bytes]
    by_cases hfill : fills
    · rw [if_pos hfill, zerosAdded_of_fills (hfills.mp hfill).2, FsFile.write_zeros_bytes]
    · rw [if_neg hfill, FsFile.withOffset_bytes]
      by_cases h : Fills file seekfrom
      · have hle : t ≤ file.bytes.length := not_lt.mp fun hlt ↦ hfill (hfills.mpr ⟨hlt, h⟩)
        rw [zerosAdded_of_fills h, Nat.sub_eq_zero_of_le hle, Nat.zero_min, List.replicate_zero,
          List.append_nil]
      · rw [zerosAdded_of_not h, List.replicate_zero, List.append_nil]
  refine ⟨hbytes, ?_⟩
  have hlen := congrArg List.length hbytes
  rw [List.length_append, List.length_replicate] at hlen
  rw [← hlen, settle, FsFile.seek_start ht]
  rfl

/-- A move to a place that is a number of 32 bits. -/
theorem seek_spec (h : file.newOffset seekfrom = t) (ht : t ≤ MAX_FILE_SIZE) :
    (seek seekfrom file).1 = some (reported file seekfrom t) ∧
      (seek seekfrom file).2.bytes
        = file.bytes ++ List.replicate (zerosAdded file seekfrom t) 0 ∧
      (seek seekfrom file).2.offset
        = min t (file.bytes.length + zerosAdded file seekfrom t) := by
  cases seekfrom with
  | start pos =>
    obtain rfl : pos = t := Int.ofNat_inj.mp h
    have hseek : seek (.start pos) file = (some pos, settle file (file.bytes.length < pos ∧
        pos - file.bytes.length ≤ FS_IMG_SIZE) pos) := by
      rw [seek, FsFile.seek_start ht]
      dsimp only
      rw [FsFile.seek_end, FsFile.withOffset_withOffset, FsFile.withOffset_bytes]
      dsimp only
      rw [FsFile.withOffset_offset le_rfl, settle]
      refine Prod.ext ?_ rfl
      change (if pos > 0 then some pos else some (file.withOffset pos).offset) = some pos
      split_ifs with hpos
      · rfl
      · obtain rfl : pos = 0 := by omega
        rw [FsFile.withOffset_offset (Nat.zero_le _)]
    rw [hseek]
    exact ⟨rfl, settle_spec ht Iff.rfl⟩
  | end_ delta =>
    rw [seek, FsFile.seek_of_eq h ht]
    dsimp only
    rw [zerosAdded_of_not id, List.replicate_zero, List.append_nil, Nat.add_zero]
    exact ⟨rfl, rfl, rfl⟩
  | current delta =>
    have htoNat : ((file.offset : ℤ) + delta).toNat = t := by
      rw [← Int.toNat_natCast t]
      exact congrArg Int.toNat h
    have hseek : seek (.current delta) file
        = (some (min t file.bytes.length), settle file (file.bytes.length < t) t) := by
      rw [seek, FsFile.seek_of_eq h ht]
      dsimp only
      rw [FsFile.seek_end, FsFile.withOffset_withOffset, FsFile.withOffset_bytes, htoNat]
      dsimp only
      rw [FsFile.withOffset_offset le_rfl, settle]
      rfl
    rw [hseek]
    exact ⟨rfl, settle_spec ht ⟨fun hlt ↦ ⟨hlt, trivial⟩, And.left⟩⟩

/-- A place that is no number of 32 bits is not moved to. -/
theorem seek_of_not
    (h : ¬(0 ≤ file.newOffset seekfrom ∧ file.newOffset seekfrom ≤ MAX_FILE_SIZE)) :
    (seek seekfrom file).2 = file := by
  rw [seek, FsFile.seek_of_not h]
  cases seekfrom <;> rfl

/-- A move from the start reports its target. -/
theorem seek_start_fst (pos : ℕ) : (seek (.start pos) file).1 = some pos := by
  rcases le_or_gt pos MAX_FILE_SIZE with hle | hlt
  · exact (seek_spec rfl hle).1
  · rw [seek_start_of_lt hlt]

/-- The move leads behind the end of the file and writes zeros. -/
def LeadsPast (file : FsFile) (seekfrom : SeekFrom) : Prop :=
  file.bytes.length < file.newOffset seekfrom ∧ file.newOffset seekfrom ≤ MAX_FILE_SIZE ∧
    Fills file seekfrom

instance : Decidable (LeadsPast file seekfrom) := inferInstanceAs (Decidable (_ ∧ _ ∧ _))

/-- A move changes the file by zeros at its end, if at all. -/
theorem seek_bytes (file : FsFile) (seekfrom : SeekFrom) : ∃ k,
    (seek seekfrom file).2.bytes = file.bytes ++ List.replicate k 0 ∧
      (k = 0 ↔ ¬LeadsPast file seekfrom) := by
  by_cases h : 0 ≤ file.newOffset seekfrom ∧ file.newOffset seekfrom ≤ MAX_FILE_SIZE
  · obtain ⟨t, ht⟩ := Int.eq_ofNat_of_zero_le h.1
    have hmax : t ≤ MAX_FILE_SIZE := Int.ofNat_le.mp (ht ▸ h.2)
    refine ⟨zerosAdded file seekfrom t, (seek_spec ht hmax).2.1, ?_⟩
    rw [LeadsPast, ht]
    by_cases hfills : Fills file seekfrom
    · rw [zerosAdded_of_fills hfills]
      rcases le_or_gt t file.bytes.length with hle | hlt
      · rw [Nat.sub_eq_zero_of_le hle, Nat.zero_min]
        exact iff_of_true rfl fun hlt ↦ absurd (Int.ofNat_lt.mp hlt.1) (not_lt.mpr hle)
      · have hroom := file.room_pos (hlt.trans_le hmax)
        refine iff_of_false (by omega) (not_not.mpr ⟨Int.ofNat_lt.mpr hlt, ?_, hfills⟩)
        exact Int.ofNat_le.mpr hmax
    · rw [zerosAdded_of_not hfills]
      exact iff_of_true rfl fun hlt ↦ hfills hlt.2.2
  · rw [seek_of_not h]
    refine ⟨0, (List.append_nil _).symm, iff_of_true rfl fun hlt ↦ h ⟨?_, hlt.2.1⟩⟩
    exact (Int.natCast_nonneg _).trans hlt.1.le

/-- The move does what it is asked for: it reports its target and is there, and the file is filled
with zeros up to it if it was shorter. -/
def MovesTo (file : FsFile) (seekfrom : SeekFrom) (t : ℕ) : Prop :=
  ∀ r, (seek seekfrom file).1 = some r → r = t ∧ (seek seekfrom file).2.offset = t ∧
    (seek seekfrom file).2.bytes.length = max file.bytes.length t ∧
    (seek seekfrom file).2.bytes = file.bytes ++ List.replicate (t - file.bytes.length) 0

/-- A move within the image does what it is asked for if and only if it does not lead behind the end
of the file, or it is counted from the start and leads at most to the end of the cluster in which
the file ends. -/
theorem movesTo_iff (h : file.newOffset seekfrom = t) (ht : t ≤ FS_IMG_SIZE) :
    MovesTo file seekfrom t ↔ t ≤ file.bytes.length ∨ ((∃ pos, seekfrom = .start pos) ∧
      t - file.bytes.length ≤ file.clusterSize - file.bytes.length % file.clusterSize) := by
  have hmax : t ≤ MAX_FILE_SIZE := ht.trans (by decide)
  obtain ⟨hr, hbytes, hoffset⟩ := seek_spec h hmax
  have hmoves : MovesTo file seekfrom t ↔ reported file seekfrom t = t ∧
      zerosAdded file seekfrom t = t - file.bytes.length := by
    constructor
    · intro hall
      obtain ⟨hrt, -, -, hall⟩ := hall _ hr
      rw [hbytes, List.append_cancel_left_eq] at hall
      have hlen := congrArg List.length hall
      rw [List.length_replicate, List.length_replicate] at hlen
      exact ⟨hrt, hlen⟩
    · rintro ⟨hrt, hzeros⟩ r hr'
      rw [hr] at hr'
      rw [hbytes, hoffset, hzeros, List.length_append, List.length_replicate]
      exact ⟨(Option.some.inj hr').symm.trans hrt, by omega, by omega, rfl⟩
  rw [hmoves]
  -- the zeros that the seek adds end with the cluster
  have hroom : min (t - file.bytes.length) file.room = t - file.bytes.length ↔
      t - file.bytes.length ≤ file.clusterSize - file.bytes.length % file.clusterSize := by
    rw [FsFile.room, min_eq_left_iff, le_min_iff, and_iff_left (Nat.sub_le_sub_right hmax _)]
  cases seekfrom with
  | start pos =>
    obtain rfl : pos = t := Int.ofNat_inj.mp h
    rw [zerosAdded_of_fills ((Nat.sub_le _ _).trans ht), hroom]
    constructor
    · exact fun hall ↦ .inr ⟨⟨pos, rfl⟩, hall.2⟩
    · rintro (hle | hle)
      · exact ⟨rfl, (Nat.sub_eq_zero_of_le hle).trans_le (Nat.zero_le _)⟩
      · exact ⟨rfl, hle.2⟩
  | end_ delta =>
    rw [zerosAdded_of_not id]
    constructor
    · exact fun hall ↦ .inl (min_eq_left_iff.mp hall.1)
    · rintro (hle | ⟨⟨_, heq⟩, -⟩)
      · exact ⟨min_eq_left hle, (Nat.sub_eq_zero_of_le hle).symm⟩
      · cases heq
  | current delta =>
    constructor
    · exact fun hall ↦ .inl (min_eq_left_iff.mp hall.1)
    · rintro (hle | ⟨⟨_, heq⟩, -⟩)
      · refine ⟨min_eq_left hle, ?_⟩
        have hfills : Fills file (.current delta) := trivial
        rw [zerosAdded_of_fills hfills, Nat.sub_eq_zero_of_le hle, Nat.zero_min]
      · cases heq

/-- A file of three bytes, in clusters of 512. -/
def threeBytes : FsFile where
  clusterSize := 512
  bytes := [1, 2, 3]
  offset := 1
  clusterSize_pos := by decide
  size_le := by decide
  offset_le := by decide

/-- A move behind the end, within the cluster. -/
theorem movesTo_iff_cluster : MovesTo threeBytes (.start 512) 512 ↔ 512 ≤ 3 ∨
    ((∃ pos, SeekFrom.start 512 = .start pos) ∧ 512 - 3 ≤ 512 - 3 % 512) :=
  movesTo_iff rfl (by decide)

/-- A move past the cluster reports its target and stops at the end of the cluster. -/
theorem not_movesTo : ∃ (file : FsFile) (seekfrom : SeekFrom) (t : ℕ),
    file.newOffset seekfrom = t ∧ t ≤ FS_IMG_SIZE ∧ ¬MovesTo file seekfrom t := by
  refine ⟨threeBytes, .start 1000, 1000, rfl, by decide, fun h ↦ ?_⟩
  have hoffset : (seek (.start 1000) threeBytes).2.offset = 512 := by decide +kernel
  have hr : (seek (.start 1000) threeBytes).1 = some 1000 := by decide +kernel
  have hcontra := (h 1000 hr).2.1
  rw [hoffset] at hcontra
  exact absurd hcontra (by decide)

/-! ## Queries -/

/-- Moving to the end of the file and back: the position and the length. -/
def measure (file : FsFile) : (ℕ × ℕ) × FsFile :=
  let file := (file.seek (.current 0)).2
  let prePos := file.offset
  let file := (file.seek (.end_ 0)).2
  let len := file.offset
  ((prePos, len), (file.seek (.start prePos)).2)

/-- `ready_to_read` -/
def readyToRead (self : FatFile) (file : FsFile) : Bool × FsFile :=
  if !self.readable then (false, file)
  else
    let ((prePos, len), file) := measure file
    (prePos ≠ len, file)

/-- `ready_to_write` -/
def readyToWrite (self : FatFile) (file : FsFile) : Bool × FsFile :=
  if !self.writable then (false, file)
  else
    let ((prePos, len), file) := measure file
    (prePos ≠ len, file)

theorem measure_eq : measure file = ((file.offset, file.bytes.length), file) := by
  have hle : file.offset ≤ MAX_FILE_SIZE := file.offset_le.trans file.size_le
  have hfirst : file.seek (.current 0) = (some file.offset, file) := by
    rw [FsFile.seek_of_eq (n := file.offset) (Int.add_zero _) hle, FsFile.withOffset_self]
  rw [measure, hfirst]
  dsimp only
  rw [FsFile.seek_end]
  dsimp only
  rw [FsFile.seek_start hle, FsFile.withOffset_withOffset, FsFile.withOffset_self,
    FsFile.withOffset_offset le_rfl]

theorem readyToRead_eq (self : FatFile) (file : FsFile) : self.readyToRead file
    = (self.readable && decide (file.offset ≠ file.bytes.length), file) := by
  rw [readyToRead, measure_eq]
  cases self.readable <;> rfl

theorem readyToWrite_eq (self : FatFile) (file : FsFile) : self.readyToWrite file
    = (self.writable && decide (file.offset ≠ file.bytes.length), file) := by
  rw [readyToWrite, measure_eq]
  cases self.writable <;> rfl

end FatFile

end Maturin
