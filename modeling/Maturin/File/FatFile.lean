import Maturin.Memory.World

/-!
# Files of the file system

`FatFile` of `file/device/fat_file.rs` over `fatfs::File`, and the methods of the trait `File` that
read and write at an offset. A `fatfs::File` is its bytes and a position in them. It reads and
writes at most up to the end of a cluster, and a position past the end of the file is moved to the
end; `FatFile` calls it until the buffer is treated. The image is sound and has a free cluster, so
that no access of the disk fails.
-/

namespace Maturin

/-- The largest size of a file. -/
def MAX_FILE_SIZE : ℕ := 0xFFFFFFFF

/-- The size of the image of the file system. -/
def FS_IMG_SIZE : ℕ := 0x2000000

/-- Where to move the position of a file. -/
inductive SeekFrom
  | start (pos : ℕ)
  | end_ (delta : ℤ)
  | current (delta : ℤ)

/-- `fatfs::File` -/
structure FsFile where
  clusterSize : ℕ
  bytes : List UInt8
  offset : ℕ
  clusterSize_pos : 0 < clusterSize
  size_le : bytes.length ≤ MAX_FILE_SIZE
  offset_le : offset ≤ bytes.length

namespace FsFile

/-- The usual size of a cluster. -/
theorem cluster_pos : 0 < 512 := by decide

theorem abc_size_le : ([97, 98, 99] : List UInt8).length ≤ MAX_FILE_SIZE := by decide

theorem abc_offset_le : 0 ≤ ([97, 98, 99] : List UInt8).length := by decide

/-- The bytes that are left in the cluster of the position. -/
def leftInCluster (self : FsFile) : ℕ := self.clusterSize - self.offset % self.clusterSize

theorem leftInCluster_pos (self : FsFile) : 0 < self.leftInCluster :=
  Nat.sub_pos_of_lt (Nat.mod_lt _ self.clusterSize_pos)

/-- The file with the position at `pos`, or at the end if the file is shorter. -/
def withOffset (self : FsFile) (pos : ℕ) : FsFile where
  clusterSize := self.clusterSize
  bytes := self.bytes
  offset := min pos self.bytes.length
  clusterSize_pos := self.clusterSize_pos
  size_le := self.size_le
  offset_le := min_le_right _ _

/-- Read at most `len` bytes: those that were read, and the file afterwards. -/
def read (self : FsFile) (len : ℕ) : List UInt8 × FsFile :=
  let readSize := min (min len self.leftInCluster) (self.bytes.length - self.offset)
  ((self.bytes.drop self.offset).take readSize, self.withOffset (self.offset + readSize))

/-- Write bytes: the number of bytes written, and the file afterwards. -/
def write (self : FsFile) (buf : List UInt8) : ℕ × FsFile :=
  let writeSize := min (min buf.length self.leftInCluster) (MAX_FILE_SIZE - self.offset)
  (writeSize,
    { clusterSize := self.clusterSize
      bytes := self.bytes.take self.offset ++ buf.take writeSize ++
        self.bytes.drop (self.offset + writeSize)
      offset := self.offset + writeSize
      clusterSize_pos := self.clusterSize_pos
      size_le := by
        have hsize := self.size_le
        have hoffset := self.offset_le
        simp only [List.length_append, List.length_take, List.length_drop]
        omega
      offset_le := by
        have hoffset := self.offset_le
        simp only [List.length_append, List.length_take, List.length_drop]
        omega })

/-- Where a move leads. -/
def newOffset (self : FsFile) : SeekFrom → ℤ
  | .start pos => pos
  | .end_ delta => self.bytes.length + delta
  | .current delta => self.offset + delta

/-- Move the position, unless the new one is no number of 32 bits. -/
def seek (self : FsFile) (pos : SeekFrom) : Option ℕ × FsFile :=
  if 0 ≤ self.newOffset pos ∧ self.newOffset pos ≤ MAX_FILE_SIZE then
    let file := self.withOffset (self.newOffset pos).toNat
    (some file.offset, file)
  else (none, self)

end FsFile

/-- A file as a process has it open. -/
structure FatFile where
  readable : Bool
  writable : Bool

namespace FatFile

/-- The loop of `read`; a round that does not end it reads at least one byte. -/
def readLoop : ℕ → FsFile → ℕ → List UInt8 × FsFile
  | 0, file, _ => ([], file)
  | rounds + 1, file, len =>
    if len > 0 then
      let (bytes, file) := file.read len
      if bytes.length = 0 then ([], file)
      else
        let (rest, file) := readLoop rounds file (len - bytes.length)
        (bytes ++ rest, file)
    else ([], file)

/-- Read into a buffer: the number of bytes read, and the buffer after the call. -/
def read (self : FatFile) (buf : List UInt8) (file : FsFile) :
    (Option ℕ × List UInt8) × FsFile :=
  if !self.readable then ((none, buf), file)
  else
    let (bytes, file) := readLoop buf.length file buf.length
    ((some bytes.length, bytes ++ buf.drop bytes.length), file)

/-- The loop of `write`; a round that does not end it writes at least one byte. -/
def writeLoop : ℕ → FsFile → List UInt8 → ℕ × FsFile
  | 0, file, _ => (0, file)
  | rounds + 1, file, buf =>
    if buf.length > 0 then
      let (n, file) := file.write buf
      if n = 0 then (0, file)
      else
        let (rest, file) := writeLoop rounds file (buf.drop n)
        (n + rest, file)
    else (0, file)

/-- Write a buffer: the number of bytes written. -/
def write (self : FatFile) (buf : List UInt8) (file : FsFile) : Option ℕ × FsFile :=
  if !self.writable then (none, file)
  else
    let (n, file) := writeLoop buf.length file buf
    (some n, file)

/-- Move the position. A file that ends before it is filled with zeros, at most to the end of a
cluster; a position that is no number of 32 bits is returned without moving there. -/
def seek (seekfrom : SeekFrom) (file : FsFile) : Option ℕ × FsFile :=
  let posBeforeSeek := file.offset
  match file.seek seekfrom with
  | (some pos, file) =>
    match seekfrom with
    | .start origin =>
      let file := (file.seek (.end_ 0)).2
      let len := file.offset
      let file := if len < origin ∧ origin - len ≤ FS_IMG_SIZE then
        (file.write (List.replicate (origin - len) 0)).2 else file
      let file := (file.seek (.start origin)).2
      (if origin > 0 then some origin else some pos, file)
    | .end_ _ => (some pos, file)
    | .current origin =>
      let file := (file.seek (.end_ 0)).2
      let len := file.offset
      let pos' := ((posBeforeSeek : ℤ) + origin).toNat
      let file := if len < pos' then (file.write (List.replicate (pos' - len) 0)).2 else file
      let file := (file.seek (.start pos')).2
      (some pos, file)
  | (none, file) =>
    match seekfrom with
    | .start pos => (if pos > 0 then some pos else none, file)
    | _ => (none, file)

/-- `read_from_offset` of the trait `File`. The position is to be restored by a relative move, whose
`unwrap` fails for no file of less than 2 GiB. -/
def readFromOffset (self : FatFile) (pos : ℕ) (buf : List UInt8) (file : FsFile) :
    (Option ℕ × List UInt8) × FsFile :=
  match seek (.current 0) file with
  | (none, file) => ((none, buf), file)
  | (some oldPos, file) =>
    match seek (.start pos) file with
    | (none, file) => ((none, buf), file)
    | (some _, file) =>
      let (readLen, file) := self.read buf file
      (readLen, (seek (.current oldPos) file).2)

/-- `write_to_offset` of the trait `File` -/
def writeToOffset (self : FatFile) (pos : ℕ) (buf : List UInt8) (file : FsFile) :
    Option ℕ × FsFile :=
  match seek (.current 0) file with
  | (none, file) => (none, file)
  | (some oldPos, file) =>
    match seek (.start pos) file with
    | (none, file) => (none, file)
    | (some _, file) =>
      let (writeLen, file) := self.write buf file
      (writeLen, (seek (.current oldPos) file).2)

end FatFile

/-! ## The contents of a file -/

namespace FsFile

variable {self : FsFile} {n len : ℕ}

/-- The byte at a position, and zeros behind the end. -/
def contents (self : FsFile) : ByteMem := fun i ↦ self.bytes[i]?.getD 0

theorem ext_fields {f g : FsFile} (hc : f.clusterSize = g.clusterSize) (hb : f.bytes = g.bytes)
    (ho : f.offset = g.offset) : f = g := by
  obtain ⟨c, b, o, _, _, _⟩ := f
  obtain ⟨c', b', o', _, _, _⟩ := g
  obtain rfl : c = c' := hc
  obtain rfl : b = b' := hb
  obtain rfl : o = o' := ho
  rfl

@[simp] theorem withOffset_bytes : (self.withOffset n).bytes = self.bytes := rfl

@[simp] theorem withOffset_contents : (self.withOffset n).contents = self.contents := rfl

theorem withOffset_offset (h : n ≤ self.bytes.length) : (self.withOffset n).offset = n :=
  min_eq_left h

theorem withOffset_withOffset {m : ℕ} : (self.withOffset m).withOffset n = self.withOffset n := rfl

@[simp] theorem withOffset_self : self.withOffset self.offset = self :=
  ext_fields rfl rfl (withOffset_offset self.offset_le)

/-- Moving to the end or further moves to the end. -/
theorem withOffset_of_ge (h : self.bytes.length ≤ n) :
    self.withOffset n = self.withOffset self.bytes.length :=
  ext_fields rfl rfl ((min_eq_right h).trans (min_self _).symm)

theorem seek_of_eq {pos : SeekFrom} (h : self.newOffset pos = n) (hn : n ≤ MAX_FILE_SIZE) :
    self.seek pos = (some (self.withOffset n).offset, self.withOffset n) := by
  rw [seek, h, if_pos ⟨Int.natCast_nonneg n, Int.ofNat_le.mpr hn⟩, Int.toNat_natCast]

theorem seek_start (h : n ≤ MAX_FILE_SIZE) :
    self.seek (.start n) = (some (self.withOffset n).offset, self.withOffset n) :=
  seek_of_eq rfl h

theorem seek_start_of_lt (h : MAX_FILE_SIZE < n) : self.seek (.start n) = (none, self) := by
  refine if_neg fun hle ↦ ?_
  exact absurd (Int.ofNat_le.mp hle.2) (not_le.mpr h)

theorem seek_end : self.seek (.end_ 0)
    = (some self.bytes.length, self.withOffset self.bytes.length) := by
  rw [seek_of_eq (n := self.bytes.length) (Int.add_zero _) self.size_le, withOffset_offset le_rfl]

theorem seek_contents (pos : SeekFrom) : (self.seek pos).2.contents = self.contents := by
  rw [seek]
  split_ifs <;> rfl

/-- Zeros at the end change nothing. -/
theorem write_zeros_contents (h : self.offset = self.bytes.length) :
    (self.write (List.replicate n 0)).2.contents = self.contents := by
  funext i
  have hbytes : (self.write (List.replicate n 0)).2.bytes
      = self.bytes ++ List.replicate (self.write (List.replicate n 0)).1 0 := by
    rw [write]
    dsimp only
    rw [h, List.take_length, List.drop_eq_nil_of_le (Nat.le_add_right _ _), List.append_nil,
      List.take_replicate, List.length_replicate]
    congr 2
    omega
  rw [contents, contents, hbytes]
  rcases lt_or_ge i self.bytes.length with hi | hi
  · rw [List.getElem?_append_left hi]
  · rw [List.getElem?_append_right hi, List.getElem?_eq_none hi, List.getElem?_replicate]
    split_ifs <;> rfl

end FsFile

namespace FatFile

variable {file : FsFile} {len pos : ℕ}

/-- The loop reads what is left of the file, as far as it is asked for. -/
theorem readLoop_eq (rounds : ℕ) (hlen : len ≤ rounds) : readLoop rounds file len
    = ((file.bytes.drop file.offset).take len, file.withOffset (file.offset + len)) := by
  induction rounds generalizing file len with
  | zero =>
    obtain rfl : len = 0 := by omega
    rw [readLoop, List.take_zero, Nat.add_zero, FsFile.withOffset_self]
  | succ rounds ih =>
    rw [readLoop]
    by_cases hpos : len > 0
    · rw [if_pos hpos, FsFile.read]
      have hleft := file.leftInCluster_pos
      have hoffset := file.offset_le
      set n := min (min len file.leftInCluster) (file.bytes.length - file.offset) with hn
      have hbytes : ((file.bytes.drop file.offset).take n).length = n := by
        rw [List.length_take, List.length_drop]
        omega
      dsimp only
      rw [hbytes]
      split_ifs with hzero
      · -- nothing is read at the end of the file
        have hend : file.offset = file.bytes.length := by omega
        rw [hzero, Nat.add_zero, FsFile.withOffset_self, List.drop_eq_nil_of_le hend.ge,
          List.take_nil, FsFile.withOffset_of_ge (by omega), ← hend, FsFile.withOffset_self]
      · have hrounds : len - n ≤ rounds := by omega
        have hsum : n + (len - n) = len := by omega
        rw [ih hrounds, FsFile.withOffset_bytes, FsFile.withOffset_offset (by omega),
          ← List.drop_drop, ← List.take_add, FsFile.withOffset_withOffset,
          hsum, Nat.add_assoc, hsum]
    · obtain rfl : len = 0 := by omega
      rw [if_neg hpos, List.take_zero, Nat.add_zero, FsFile.withOffset_self]

theorem seek_contents (seekfrom : SeekFrom) :
    (seek seekfrom file).2.contents = file.contents := by
  -- at the end of the file, zeros may be added
  have hfill : ∀ (f : FsFile) (P : Prop) [Decidable P] (n : ℕ), f.contents = file.contents →
      (if P then ((f.seek (.end_ 0)).2.write (List.replicate n 0)).2
        else (f.seek (.end_ 0)).2).contents = file.contents := by
    intro f P _ n hf
    rw [FsFile.seek_end]
    split_ifs
    · rw [FsFile.write_zeros_contents (FsFile.withOffset_offset le_rfl)]
      exact hf
    · exact hf
  have hfirst : (file.seek seekfrom).2.contents = file.contents := FsFile.seek_contents seekfrom
  rw [seek]
  dsimp only
  cases hseek : file.seek seekfrom with
  | mk r f =>
    rw [hseek] at hfirst
    cases r with
    | none => cases seekfrom <;> exact hfirst
    | some pos =>
      cases seekfrom with
      | start origin =>
        dsimp only
        rw [FsFile.seek_contents]
        exact hfill f _ _ hfirst
      | end_ delta => exact hfirst
      | current origin =>
        dsimp only
        rw [FsFile.seek_contents]
        exact hfill f _ _ hfirst

theorem seek_current_zero : seek (.current 0) file = (some file.offset, file) := by
  have hle : file.offset ≤ MAX_FILE_SIZE := file.offset_le.trans file.size_le
  have hfirst : file.seek (.current 0) = (some file.offset, file) := by
    rw [FsFile.seek_of_eq (n := file.offset) (Int.add_zero _) hle, FsFile.withOffset_self]
  rw [seek, hfirst]
  dsimp only
  rw [FsFile.seek_end, Int.add_zero, Int.toNat_natCast]
  dsimp only
  rw [FsFile.withOffset_offset le_rfl, if_neg (not_lt.mpr file.offset_le), FsFile.seek_start hle,
    FsFile.withOffset_withOffset, FsFile.withOffset_self]

/-- After a move the file goes on as it does at the position. -/
theorem exists_seek_start (h : pos ≤ MAX_FILE_SIZE) : ∃ r file', seek (.start pos) file
    = (some r, file') ∧ file'.bytes.drop file'.offset = file.bytes.drop pos := by
  have hfile : ∃ r, seek (.start pos) file = (some r, (seek (.start pos) file).2) := by
    rw [seek, FsFile.seek_start h]
    dsimp only
    rw [← apply_ite some]
    exact ⟨_, rfl⟩
  obtain ⟨r, hr⟩ := hfile
  refine ⟨r, _, hr, ?_⟩
  rw [seek, FsFile.seek_start h]
  dsimp only
  rw [FsFile.seek_end]
  dsimp only
  rw [FsFile.withOffset_withOffset, FsFile.withOffset_bytes, FsFile.withOffset_offset le_rfl]
  split_ifs with hlt
  · -- the file is filled up, but not past the position
    have hlen : ((file.withOffset file.bytes.length).write
        (List.replicate (pos - file.bytes.length) 0)).2.bytes.length ≤ pos := by
      rw [FsFile.write]
      dsimp only
      rw [FsFile.withOffset_offset le_rfl, FsFile.withOffset_bytes, List.take_length,
        List.drop_eq_nil_of_le (Nat.le_add_right _ _), List.append_nil, List.length_append,
        List.length_take, List.length_replicate]
      have := hlt.1
      omega
    rw [FsFile.seek_start h, FsFile.withOffset_bytes, FsFile.withOffset_of_ge hlen,
      FsFile.withOffset_offset le_rfl, List.drop_length, List.drop_eq_nil_of_le hlt.1.le]
  · rw [FsFile.seek_start h, FsFile.withOffset_withOffset, FsFile.withOffset_bytes]
    rcases le_or_gt pos file.bytes.length with hle | hgt
    · rw [FsFile.withOffset_offset hle]
    · rw [FsFile.withOffset_of_ge hgt.le, FsFile.withOffset_offset le_rfl, List.drop_length,
        List.drop_eq_nil_of_le hgt.le]

/-- A position that is no number of 32 bits is not moved to. -/
theorem seek_start_of_lt (h : MAX_FILE_SIZE < pos) :
    seek (.start pos) file = (some pos, file) := by
  rw [seek, FsFile.seek_start_of_lt h]
  exact congrArg (·, file) (if_pos (Nat.zero_lt_of_lt h))

/-! ## Reading at an offset -/

section readFromOffset

variable {self : FatFile} {buf : List UInt8}

/-- Where reading at an offset starts. -/
def readStart (file : FsFile) (pos : ℕ) : ℕ := if pos ≤ MAX_FILE_SIZE then pos else file.offset

/-- The bytes that are read at an offset. -/
def bytesFrom (file : FsFile) (pos len : ℕ) : List UInt8 :=
  (file.bytes.drop (readStart file pos)).take len

/-- Reading at an offset returns what the file holds there, and leaves the rest of the buffer as it
is. -/
theorem readFromOffset_eq (hread : self.readable = true) :
    (self.readFromOffset pos buf file).1 = (some (bytesFrom file pos buf.length).length,
      bytesFrom file pos buf.length ++ buf.drop (bytesFrom file pos buf.length).length) := by
  have hseek : ∃ r file', seek (.start pos) file = (some r, file') ∧
      file'.bytes.drop file'.offset = file.bytes.drop (readStart file pos) := by
    rw [readStart]
    split_ifs with h
    · exact exists_seek_start h
    · exact ⟨pos, file, seek_start_of_lt (not_le.mp h), rfl⟩
  obtain ⟨r, file', hr, hdrop⟩ := hseek
  rw [readFromOffset, seek_current_zero]
  dsimp only
  rw [hr]
  dsimp only
  rw [read, hread, readLoop_eq _ le_rfl, hdrop]
  rfl

theorem readFromOffset_unreadable (hread : self.readable = false) :
    (self.readFromOffset pos buf file).1 = (none, buf) := by
  rw [readFromOffset, seek_current_zero]
  dsimp only
  split
  · rfl
  · rw [read, hread]
    rfl

theorem read_contents : (self.read buf file).2.contents = file.contents := by
  rw [read]
  split_ifs
  · rfl
  · rw [readLoop_eq _ le_rfl]
    rfl

/-- Reading changes no byte, though zeros may be added at the end. -/
theorem readFromOffset_contents :
    (self.readFromOffset pos buf file).2.contents = file.contents := by
  have hstart : (seek (.start pos) file).2.contents = file.contents := seek_contents _
  rw [readFromOffset, seek_current_zero]
  dsimp only
  split
  case h_1 f hseek =>
    rw [hseek] at hstart
    exact hstart
  case h_2 r f hseek =>
    rw [hseek] at hstart
    rw [seek_contents, read_contents]
    exact hstart

end readFromOffset

/-- One open file is all that there is. -/
instance : FileStore FatFile FsFile where
  readFromOffset self pos buf file := self.readFromOffset pos buf file
  writeToOffset self pos buf file := self.writeToOffset pos buf file
  seekFromStart _ pos file := seek (.start pos) file
  length_read self pos buf file := by
    cases hread : self.readable with
    | false => rw [readFromOffset_unreadable hread]
    | true =>
      rw [readFromOffset_eq hread, List.length_append, List.length_drop, bytesFrom,
        List.length_take]
      omega

end FatFile

end Maturin
