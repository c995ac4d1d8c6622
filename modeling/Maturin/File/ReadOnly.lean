import Maturin.Base.Time
import Maturin.File.Disk
import Maturin.File.FatSeek
import Maturin.Lib.Throughout

/-!
# Files that are opened to be read

`write` asks whether the file may be written, and nothing else does. `seek` fills the file with
zeros up to where it leads, and the methods that read and write at an offset call it twice: once to
go to the offset, and once to go back, by the old position counted from where the transfer ended. So
a file that was opened to be read grows when it is moved behind its end, and when a page of it is
read whose distance from the end is less than the position of the file.

`OpenFlags::read_write` gives a file the right to be written as soon as any flag is set, so that one
that is opened with `O_CLOEXEC` alone may be written too.
-/

namespace Maturin

/-- `Kstat`, without the fields that nothing sets. -/
structure Kstat where
  stDev : ℕ
  stIno : ℕ
  stMode : BitVec 32
  stNlink : ℕ
  stUid : ℕ
  stGid : ℕ
  stSize : ℕ
  stAtime : TimeSpec
  stMtime : TimeSpec
  stCtime : TimeSpec

/-- `normal_file_mode` -/
def normalFileMode (fileType : BitVec 32) : BitVec 32 :=
  fileType ||| 1 <<< 7 ||| 1 <<< 7 ||| 1 <<< 4 ||| 1 <<< 5

/-- `StMode::S_IFREG` -/
def S_IFREG : BitVec 32 := 1 <<< 15

/-- `FatFileInnner`: what an open file has besides its bytes. -/
structure FatFileInner where
  atime : TimeSpec
  mtime : TimeSpec
  ctime : TimeSpec
  flags : OpenFlags

namespace FatFile

/-- The file that `open_file` makes of the flags. -/
def ofFlags (flags : OpenFlags) : FatFile := ⟨flags.readWrite.1, flags.readWrite.2⟩

/-- `get_stat`, for a file with so many links. -/
def getStat (nlink : ℕ) (inner : FatFileInner) (file : FsFile) : Kstat × FsFile :=
  let ((_, len), file) := measure file
  ({ stDev := 1
     stIno := 1
     stMode := normalFileMode S_IFREG
     stNlink := nlink % 2 ^ 32
     stUid := 0
     stGid := 0
     stSize := len
     stAtime := inner.atime
     stMtime := inner.mtime
     stCtime := inner.ctime }, file)

theorem getStat_snd (nlink : ℕ) (inner : FatFileInner) (file : FsFile) :
    (getStat nlink inner file).2 = file := by
  rw [getStat, measure_eq]

/-! ## The operations -/

/-- What is done with an open file. -/
inductive Op where
  | read (buf : List UInt8)
  | write (buf : List UInt8)
  | seek (seekfrom : SeekFrom)
  | readFromOffset (pos : ℕ) (buf : List UInt8)
  | writeToOffset (pos : ℕ) (buf : List UInt8)
  | getStat (nlink : ℕ) (inner : FatFileInner)
  | readyToRead
  | readyToWrite

/-- The file after an operation. -/
def step (self : FatFile) (file : FsFile) : Op → FsFile
  | .read buf => (self.read buf file).2
  | .write buf => (self.write buf file).2
  | .seek seekfrom => (seek seekfrom file).2
  | .readFromOffset pos buf => (self.readFromOffset pos buf file).2
  | .writeToOffset pos buf => (self.writeToOffset pos buf file).2
  | .getStat nlink inner => (getStat nlink inner file).2
  | .readyToRead => (self.readyToRead file).2
  | .readyToWrite => (self.readyToWrite file).2

/-- Where a transfer at an offset starts, if the file is not filled up. -/
def startOf (file : FsFile) (pos : ℕ) : ℕ :=
  if pos ≤ MAX_FILE_SIZE then min pos file.bytes.length else file.offset

/-- How much of a buffer is read at a place. -/
def bytesRead (self : FatFile) (file : FsFile) (place : ℕ) (buf : List UInt8) : ℕ :=
  if self.readable then min buf.length (file.bytes.length - place) else 0

/-- How much of a buffer is written at a place. -/
def bytesWritten (self : FatFile) (place : ℕ) (buf : List UInt8) : ℕ :=
  if self.writable then min buf.length (MAX_FILE_SIZE - place) else 0

/-- The buffer stands in the file already, as far as it is written there. -/
def Stands (self : FatFile) (file : FsFile) (place : ℕ) (buf : List UInt8) : Prop :=
  buf.take (self.bytesWritten place buf) <+: file.bytes.drop place

/-- The way back from a transfer that ended at `place` leads behind the end of the file. -/
def ReturnsPast (file : FsFile) (place : ℕ) : Prop :=
  file.bytes.length < place + file.offset ∧ place + file.offset ≤ MAX_FILE_SIZE

/-- The operation finds the file in a state where it changes no byte of it. -/
def Spares (self : FatFile) (file : FsFile) : Op → Prop
  | .read _ | .getStat _ _ | .readyToRead | .readyToWrite => True
  | .write buf => self.Stands file file.offset buf
  | .seek seekfrom => ¬LeadsPast file seekfrom
  | .readFromOffset pos buf => ¬LeadsPast file (.start pos) ∧
      ¬ReturnsPast file (startOf file pos + self.bytesRead file (startOf file pos) buf)
  | .writeToOffset pos buf => ¬LeadsPast file (.start pos) ∧
      self.Stands file (startOf file pos) buf ∧
      ¬ReturnsPast file (startOf file pos + self.bytesWritten (startOf file pos) buf)

/-! ## What an operation changes -/

variable {self : FatFile} {file : FsFile} {seekfrom : SeekFrom} {buf : List UInt8} {pos : ℕ}

/-- The loop writes the buffer at the position, up to the largest size of a file. -/
theorem writeLoop_spec (rounds : ℕ) (h : buf.length ≤ rounds) :
    (writeLoop rounds file buf).2.bytes = file.bytes.take file.offset ++
        buf.take (MAX_FILE_SIZE - file.offset) ++
        file.bytes.drop (file.offset + (buf.take (MAX_FILE_SIZE - file.offset)).length) ∧
      (writeLoop rounds file buf).2.offset =
        file.offset + (buf.take (MAX_FILE_SIZE - file.offset)).length := by
  induction rounds generalizing file buf with
  | zero =>
    obtain rfl := List.length_eq_zero_iff.mp (Nat.le_zero.mp h)
    rw [writeLoop, List.take_nil, List.append_nil, List.length_nil, Nat.add_zero,
      List.take_append_drop]
    exact ⟨rfl, rfl⟩
  | succ rounds ih =>
    rw [writeLoop]
    by_cases hpos : buf.length > 0
    · have hleft := file.leftInCluster_pos
      have hoffset := file.offset_le
      -- what one call of the inner `write` does
      have hn : (file.write buf).1
          = min (min buf.length file.leftInCluster) (MAX_FILE_SIZE - file.offset) := rfl
      have hbytes : (file.write buf).2.bytes = file.bytes.take file.offset ++
          buf.take (file.write buf).1 ++ file.bytes.drop (file.offset + (file.write buf).1) := rfl
      have hplace : (file.write buf).2.offset = file.offset + (file.write buf).1 := rfl
      rw [if_pos hpos]
      generalize file.write buf = r at hn hbytes hplace ⊢
      obtain ⟨n, after⟩ := r
      dsimp only at hn hbytes hplace ⊢
      split_ifs with hzero
      · -- there is no room left
        subst hzero
        have hroom : MAX_FILE_SIZE - file.offset = 0 := by omega
        rw [hroom, List.take_zero, List.length_nil, Nat.add_zero]
        rw [List.take_zero, Nat.add_zero] at hbytes
        exact ⟨hbytes, hplace⟩
      · have hlen : (buf.drop n).length ≤ rounds := by
          rw [List.length_drop]
          omega
        have hsplit : buf.take n ++ (buf.drop n).take (MAX_FILE_SIZE - (file.offset + n))
            = buf.take (MAX_FILE_SIZE - file.offset) := by
          have hsum : MAX_FILE_SIZE - file.offset = n + (MAX_FILE_SIZE - (file.offset + n)) := by
            omega
          rw [hsum, List.take_add]
        have hfront : (file.bytes.take file.offset ++ buf.take n).length = file.offset + n := by
          rw [List.length_append, List.length_take, List.length_take]
          omega
        have hdrop : ∀ m, after.bytes.drop (file.offset + n + m)
            = file.bytes.drop (file.offset + n + m) := by
          intro m
          rw [hbytes, List.drop_append, hfront, Nat.add_sub_cancel_left, List.drop_drop,
            List.drop_eq_nil_of_le (hfront.trans_le (Nat.le_add_right _ m)), List.nil_append]
        have hsum := congrArg List.length hsplit
        rw [List.length_append, List.length_take, min_eq_left (by omega)] at hsum
        obtain ⟨hrest, hend⟩ := @ih after _ hlen
        dsimp only
        rw [hrest, hend, hplace, hdrop, hbytes, List.take_left' hfront, ← hsum, ← hsplit,
          List.append_assoc _ (buf.take n), Nat.add_assoc]
        exact ⟨rfl, rfl⟩
    · obtain rfl := List.length_eq_zero_iff.mp (Nat.eq_zero_of_not_pos hpos)
      rw [if_neg hpos, List.take_nil, List.append_nil, List.length_nil, Nat.add_zero,
        List.take_append_drop]
      exact ⟨rfl, rfl⟩

/-- A write puts the front of the buffer into the file. -/
theorem write_spec :
    (self.write buf file).2.bytes = file.bytes.take file.offset ++
        buf.take (self.bytesWritten file.offset buf) ++
        file.bytes.drop (file.offset + self.bytesWritten file.offset buf) ∧
      (self.write buf file).2.offset = file.offset + self.bytesWritten file.offset buf := by
  rw [write, bytesWritten]
  cases self.writable with
  | false => exact ⟨by simp, rfl⟩
  | true =>
    have htake : buf.take (min buf.length (MAX_FILE_SIZE - file.offset))
        = buf.take (MAX_FILE_SIZE - file.offset) := by
      rw [Nat.min_comm, ← List.take_eq_take_min]
    have hspec := @writeLoop_spec file buf _ le_rfl
    rw [List.length_take, Nat.min_comm, ← htake] at hspec
    exact hspec

theorem write_bytes_iff : (self.write buf file).2.bytes = file.bytes ↔
    self.Stands file file.offset buf := by
  have hlen : (buf.take (self.bytesWritten file.offset buf)).length
      = self.bytesWritten file.offset buf := by
    rw [List.length_take, bytesWritten]
    split_ifs <;> omega
  rw [write_spec.1, Stands]
  nth_rewrite 3 [← List.take_append_drop file.offset file.bytes]
  rw [List.append_assoc, List.append_cancel_left_eq, ← List.drop_drop]
  constructor
  · exact fun heq ↦ ⟨_, heq⟩
  · rintro ⟨rest, heq⟩
    rw [← heq, List.drop_left' hlen]

/-- A write makes no file shorter. -/
theorem length_le_write : file.bytes.length ≤ (self.write buf file).2.bytes.length := by
  have hle : self.bytesWritten file.offset buf ≤ buf.length := by
    rw [bytesWritten]
    split_ifs <;> omega
  have hoffset := file.offset_le
  rw [write_spec.1, List.length_append, List.length_append, List.length_take, List.length_take,
    List.length_drop]
  omega

theorem read_spec : (self.read buf file).2.bytes = file.bytes ∧
    (self.read buf file).2.offset = file.offset + self.bytesRead file file.offset buf := by
  rw [read, bytesRead]
  cases self.readable with
  | false => exact ⟨rfl, rfl⟩
  | true =>
    have hoffset := file.offset_le
    refine ⟨?_, ?_⟩
    · change (readLoop buf.length file buf.length).2.bytes = _
      rw [readLoop_eq _ le_rfl, FsFile.withOffset_bytes]
    · change (readLoop buf.length file buf.length).2.offset = _
      rw [readLoop_eq _ le_rfl, if_pos rfl]
      change min (file.offset + buf.length) file.bytes.length = _
      omega

theorem seek_bytes_iff : (seek seekfrom file).2.bytes = file.bytes ↔ ¬LeadsPast file seekfrom := by
  obtain ⟨k, hbytes, hk⟩ := seek_bytes file seekfrom
  rw [hbytes, ← hk, List.append_right_eq_self, List.replicate_eq_nil_iff]

/-- A move from the start that fills nothing. -/
theorem seek_start_offset (h : ¬LeadsPast file (.start pos)) :
    (seek (.start pos) file).2.offset = startOf file pos := by
  rw [startOf]
  split_ifs with hmax
  · obtain ⟨-, hbytes, hoffset⟩ := seek_spec (rfl : file.newOffset (.start pos) = pos) hmax
    have hlen := congrArg List.length (hbytes.symm.trans (seek_bytes_iff.mpr h))
    rw [List.length_append, List.length_replicate] at hlen
    rw [hoffset, hlen]
  · rw [seek_start_of_lt (not_le.mp hmax)]

/-- Going back after a transfer that changed no byte. -/
theorem leadsPast_current {after : FsFile} (hbytes : after.bytes = file.bytes) :
    LeadsPast after (.current file.offset) ↔ ReturnsPast file after.offset := by
  rw [LeadsPast, ReturnsPast, hbytes]
  change (file.bytes.length : ℤ) < after.offset + file.offset ∧
    (after.offset + file.offset : ℤ) ≤ MAX_FILE_SIZE ∧ True ↔ _
  rw [and_true]
  exact and_congr (by rw [← Int.natCast_add, Int.ofNat_lt])
    (by rw [← Int.natCast_add, Int.ofNat_le])

/-- Going to an offset, doing something there that makes the file no shorter, and going back. -/
theorem there_and_back (act : FsFile → FsFile) {place : ℕ} (C : Prop)
    (hlen : ∀ f, f.bytes.length ≤ (act f).bytes.length)
    (hact : ∀ f : FsFile, f.bytes = file.bytes → f.offset = startOf file pos →
      ((act f).bytes = file.bytes ↔ C) ∧ ((act f).bytes = file.bytes → (act f).offset = place)) :
    (seek (.current file.offset) (act (seek (.start pos) file).2)).2.bytes = file.bytes ↔
      ¬LeadsPast file (.start pos) ∧ C ∧ ¬ReturnsPast file place := by
  obtain ⟨k, hbytes, hk⟩ := seek_bytes file (.start pos)
  obtain ⟨k', hbytes', hk'⟩ := seek_bytes (act (seek (.start pos) file).2) (.current file.offset)
  constructor
  · intro heq
    -- zeros that were added would still be there
    have hle := hlen (seek (.start pos) file).2
    have hlast := congrArg List.length (hbytes'.symm.trans heq)
    rw [hbytes, List.length_append, List.length_replicate] at hle
    rw [List.length_append, List.length_replicate] at hlast
    have hfirst : ¬LeadsPast file (.start pos) := hk.mp (by omega)
    obtain ⟨hC, hplace⟩ := hact _ (seek_bytes_iff.mpr hfirst) (seek_start_offset hfirst)
    obtain rfl : k' = 0 := by omega
    have hkeep : (act (seek (.start pos) file).2).bytes = file.bytes := by
      rw [← heq, hbytes', List.replicate_zero, List.append_nil]
    refine ⟨hfirst, hC.mp hkeep, ?_⟩
    rw [← hplace hkeep, ← leadsPast_current hkeep]
    exact hk'.mp rfl
  · rintro ⟨hfirst, hc, hback⟩
    obtain ⟨hC, hplace⟩ := hact _ (seek_bytes_iff.mpr hfirst) (seek_start_offset hfirst)
    have hkeep := hC.mpr hc
    rw [← hplace hkeep, ← leadsPast_current hkeep, ← seek_bytes_iff] at hback
    exact hback.trans hkeep

/-- An operation changes no byte of the file if and only if it finds it in a state that it
spares. -/
theorem step_bytes_iff (self : FatFile) (file : FsFile) (op : Op) :
    (self.step file op).bytes = file.bytes ↔ self.Spares file op := by
  cases op with
  | read buf => exact iff_of_true read_spec.1 trivial
  | write buf => exact write_bytes_iff
  | seek seekfrom => exact seek_bytes_iff
  | readFromOffset pos buf =>
    have hstep : self.step file (.readFromOffset pos buf) = (seek (.current file.offset)
        (self.read buf (seek (.start pos) file).2).2).2 := by
      rw [step, readFromOffset, seek_current_zero]
      dsimp only
      rw [← Prod.mk.eta (p := seek (.start pos) file), seek_start_fst]
    rw [hstep, there_and_back (fun f ↦ (self.read buf f).2) True
      (fun _ ↦ read_spec.1.symm ▸ le_rfl) fun f hf hstart ↦ ?_]
    · rw [true_and]
      rfl
    · refine ⟨iff_of_true (read_spec.1.trans hf) trivial, fun _ ↦ ?_⟩
      rw [read_spec.2, hstart, bytesRead, hf]
      rfl
  | writeToOffset pos buf =>
    have hstep : self.step file (.writeToOffset pos buf) = (seek (.current file.offset)
        (self.write buf (seek (.start pos) file).2).2).2 := by
      rw [step, writeToOffset, seek_current_zero]
      dsimp only
      rw [← Prod.mk.eta (p := seek (.start pos) file), seek_start_fst]
    rw [hstep, there_and_back (fun f ↦ (self.write buf f).2)
      (self.Stands file (startOf file pos) buf) (fun _ ↦ length_le_write) fun f hf hstart ↦ ?_]
    · rfl
    · refine ⟨?_, fun _ ↦ ?_⟩
      · rw [← hf, write_bytes_iff, Stands, Stands, hstart, hf]
      · rw [write_spec.2, hstart]
  | getStat nlink inner => exact iff_of_true (congrArg _ (getStat_snd nlink inner file)) trivial
  | readyToRead => exact iff_of_true (by rw [step, readyToRead_eq]) trivial
  | readyToWrite => exact iff_of_true (by rw [step, readyToWrite_eq]) trivial

/-- In every state that a run of operations reaches the file is what it was when it was opened, if
and only if each operation finds it in a state that it spares. -/
theorem unchanged_iff (flags : OpenFlags) (file : FsFile) (ops : List Op) :
    (∀ front, front <+: ops → (front.foldl (ofFlags flags).step file).bytes = file.bytes) ↔
      Throughout (ofFlags flags).step (ofFlags flags).Spares file ops := by
  rw [← Throughout.keeps_iff FsFile.bytes]
  have hsteps : (fun s op ↦ ((ofFlags flags).step s op).bytes = s.bytes) = (ofFlags flags).Spares :=
    funext fun s ↦ funext fun op ↦ propext (step_bytes_iff _ s op)
  rw [hsteps]

/-- A file that is opened with no flag grows when it is moved behind its end. -/
theorem changed_by_seek : ∃ flags : OpenFlags, flags.contains OpenFlags.WRONLY = false ∧
    flags.contains OpenFlags.RDWR = false ∧ flags.contains OpenFlags.CREATE = false ∧
    ∃ (file : FsFile) (ops : List Op), ¬∀ front, front <+: ops →
      (front.foldl (ofFlags flags).step file).bytes = file.bytes := by
  refine ⟨OpenFlags.RDONLY, by decide, by decide, by decide, threeBytes, [.seek (.start 10)],
    fun hall ↦ ?_⟩
  have hlen : ([Op.seek (.start 10)].foldl (ofFlags OpenFlags.RDONLY).step threeBytes).bytes.length
      = 10 := by decide +kernel
  rw [hall _ (List.prefix_refl _)] at hlen
  exact absurd hlen (by decide)

end FatFile

end Maturin
