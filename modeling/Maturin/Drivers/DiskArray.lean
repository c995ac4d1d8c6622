import Maturin.Drivers.Device

/-!
# The disk as a byte array with a cursor

What the device is meant to be is a *fixed array*: bytes whose number does not change, with a cursor
in them. A transfer moves as many bytes as there are behind the cursor, and a move succeeds if it
leads to a place in the array.

The device is one whose moves by an `i64` lead to their places modulo `2 ^ 64`. If the array has
less than `2 ^ 63` bytes, then no such place is in it but the one that was asked for.
-/

open Machine

namespace Maturin

/-! ## Fixed arrays -/

/-- The call with other offsets. -/
def StreamCall.map {S S' : Type} (f : S → S') : StreamCall S → StreamCall S'
  | read buf => read buf
  | write buf => write buf
  | seek pos => seek (f pos)

namespace Cursor

/-- A call on an array of a fixed size, where moves lead to `place`. -/
def fixedStep (place : Cursor → SeekFrom → ℤ) (call : StreamCall SeekFrom) (c : Cursor) :
    (Option ℕ × List UInt8) × Cursor :=
  match call with
  | .read buf =>
    let n := min buf.length (c.bytes.length - c.pos)
    ((some n, (c.bytes.drop c.pos).take n ++ buf.drop n), { c with pos := c.pos + n })
  | .write buf =>
    let n := min buf.length (c.bytes.length - c.pos)
    ((some n, buf), ⟨c.bytes.take c.pos ++ buf.take n ++ c.bytes.drop (c.pos + n), c.pos + n⟩)
  | .seek w =>
    if 0 ≤ place c w ∧ place c w ≤ c.bytes.length then
      ((some (place c w).toNat, []), { c with pos := (place c w).toNat })
    else ((none, []), c)

/-- Where a move leads whose sum wraps, if its offset is signed. -/
def wrapped (c : Cursor) : SeekFrom → ℤ
  | .start pos => pos
  | w => c.target w % 2 ^ 64

theorem wrapped_end (c : Cursor) (delta : ℤ) :
    c.wrapped (.end_ delta) = (c.bytes.length + delta) % 2 ^ 64 := rfl

theorem wrapped_current (c : Cursor) (delta : ℤ) :
    c.wrapped (.current delta) = (c.pos + delta) % 2 ^ 64 := rfl

end Cursor

/-- The offset as a number. -/
def Fsio.SeekFrom.offset : Fsio.SeekFrom → Maturin.SeekFrom
  | .start n => .start n.toNat
  | .end_ n => .end_ n.toInt
  | .current n => .current n.toInt

/-- The offset as a number. -/
def Fatfs.SeekFrom.offset : Fatfs.SeekFrom → Maturin.SeekFrom
  | .start n => .start n.toNat
  | .end_ n => .end_ n.toInt
  | .current n => .current n.toInt

theorem Fatfs.SeekFrom.offset_toFsio (pos : Fatfs.SeekFrom) : pos.toFsio.offset = pos.offset := by
  cases pos <;> rfl

theorem StreamCall.map_toFsio (call : StreamCall Fatfs.SeekFrom) :
    (call.map Fatfs.SeekFrom.toFsio).map Fsio.SeekFrom.offset =
      call.map Fatfs.SeekFrom.offset := by
  cases call with
  | read buf => rfl
  | write buf => rfl
  | seek pos => exact congrArg _ pos.offset_toFsio

/-- The answer of a stream that fails with the error `e`. -/
def Stream.answered {ε : Type} (e : ε) (r : Option ℕ × List UInt8) :
    Option (Except ε ℕ × List UInt8) :=
  match r with
  | (some n, buf) => some (.ok n, buf)
  | (none, buf) => some (.error e, buf)

/-- The disk is the array from `start` to `end_`. -/
structure MappedDisk.Represents (s : MappedDisk) (start end_ : BitVec 64) (c : Cursor) : Prop where
  start_eq : s.device.start = start
  end_eq : s.device.end_ = end_
  pos_eq : s.device.pos.toNat = start.toNat + c.pos
  memory_eq : s.memory = .ofBytes start.toNat c.bytes
  length_eq : c.bytes.length = end_.toNat - start.toNat
  pos_le : c.pos ≤ c.bytes.length

/-- To its callers the stream is an array with the bytes of the memory from `start` to `end_`. No
call faults, and so none accesses other bytes. -/
def Stream.IsArray {ε S : Type} (F : Stream ε S MappedDisk) (offset : S → SeekFrom) (e : ε)
    (place : Cursor → SeekFrom → ℤ) (start end_ : BitVec 64) (s : MappedDisk) (c : Cursor) : Prop :=
  ∀ calls, trace F.step calls s =
      (trace (fun call ↦ Cursor.fixedStep place (call.map offset)) calls c).map
        (Prod.map id (Stream.answered e)) ∧
    (after F.step calls s).Represents start end_
      (after (fun call ↦ Cursor.fixedStep place (call.map offset)) calls c)

/-! ## Where moves lead -/

variable {start end_ x d : BitVec 64} {c : Cursor} {s : MappedDisk}

theorem toInt_emod (d : BitVec 64) : d.toInt % 2 ^ 64 = d.toNat := by
  have hlt := d.isLt
  rw [BitVec.toInt_eq_toNat_cond]
  split_ifs <;> omega

theorem add_toInt_emod (n : ℕ) (d : BitVec 64) :
    ((n : ℤ) + d.toInt) % 2 ^ 64 = ((n + d.toNat) % 2 ^ 64 : ℕ) := by
  have hmod := toInt_emod d
  omega

/-- An address is in the image if its distance from the start is. -/
theorem not_outside_iff (hle : start ≤ end_) :
    ¬(x < start ∨ x > end_) ↔ (x - start).toNat ≤ end_.toNat - start.toNat := by
  have hle' := BitVec.le_def.mp hle
  have hx := x.isLt
  have hend := end_.isLt
  rw [gt_iff_lt, BitVec.lt_def, BitVec.lt_def, BitVec.toNat_sub]
  omega

namespace MappedDisk.Represents

variable (h : s.Represents start end_ c)
include h

theorem start_le_end : start ≤ end_ := by
  have hle := BitVec.le_def.mp s.device.start_le_pos
  have hle' := BitVec.le_def.mp s.device.pos_le_end
  rw [h.start_eq] at hle
  rw [h.end_eq] at hle'
  exact BitVec.le_def.mpr (hle.trans hle')

/-- The bytes behind the position -/
theorem left_eq : (s.device.end_ - s.device.pos).toNat = c.bytes.length - c.pos := by
  rw [BitVec.toNat_sub_of_le s.device.pos_le_end, h.end_eq, h.pos_eq, h.length_eq]
  omega

/-- A new position is as far from the start as the place of the move. -/
theorem newPos_sub (pos : Fsio.SeekFrom) :
    ((s.device.newPos pos - start).toNat : ℤ) = c.wrapped pos.offset := by
  have hlt := start.isLt
  have hpos := s.device.pos.isLt
  have hend := end_.isLt
  have hle := BitVec.le_def.mp h.start_le_end
  have hpos_eq := h.pos_eq
  have hlength := h.length_eq
  cases pos with
  | start n =>
    rw [MemoryMappedDevice.newPos, h.start_eq, BitVec.add_comm, BitVec.add_sub_cancel]
    rfl
  | end_ n =>
    rw [Fsio.SeekFrom.offset, Cursor.wrapped_end, add_toInt_emod, MemoryMappedDevice.newPos,
      h.end_eq, BitVec.toNat_sub, BitVec.toNat_add]
    omega
  | current n =>
    rw [Fsio.SeekFrom.offset, Cursor.wrapped_current, add_toInt_emod, MemoryMappedDevice.newPos,
      BitVec.toNat_sub, BitVec.toNat_add]
    omega

/-! ## Calls -/

/-- The position moves on by what was transferred. -/
theorem advance {n : ℕ} (hn : n ≤ (s.device.end_ - s.device.pos).toNat) {bytes : List UInt8}
    {memory : RawMem} (hbytes : bytes.length = c.bytes.length)
    (hmemory : memory = .ofBytes start.toNat bytes) :
    MappedDisk.Represents ⟨s.device.advance n hn, memory⟩ start end_ ⟨bytes, c.pos + n⟩ where
  start_eq := h.start_eq
  end_eq := h.end_eq
  pos_eq := by
    have hle := h.pos_le
    have hend := end_.isLt
    have hstart := BitVec.le_def.mp h.start_le_end
    have hlength := h.length_eq
    rw [h.left_eq] at hn
    rw [MemoryMappedDevice.advance, BitVec.toNat_add, BitVec.toNat_ofNat, h.pos_eq]
    dsimp only
    omega
  memory_eq := hmemory
  length_eq := hbytes.trans h.length_eq
  pos_le := by
    have hle := h.pos_le
    rw [h.left_eq] at hn
    dsimp only
    omega

/-- The bytes that a transfer of `buf` moves -/
theorem min_eq (buf : List UInt8) : min (s.device.end_ - s.device.pos).toNat buf.length =
    min buf.length (c.bytes.length - c.pos) := by
  rw [h.left_eq, min_comm]

theorem read_eq (buf : List UInt8) :
    (MemoryMappedDevice.stream.read buf s).1 =
        Stream.answered .uncategorized (c.fixedStep Cursor.wrapped (.read buf)).1 ∧
      (MemoryMappedDevice.stream.read buf s).2.Represents start end_
        (c.fixedStep Cursor.wrapped (.read buf)).2 := by
  have hle := h.pos_le
  have hload : s.memory.load s.device.pos.toNat
      (min (s.device.end_ - s.device.pos).toNat buf.length) =
        some ((c.bytes.drop c.pos).take (min buf.length (c.bytes.length - c.pos))) := by
    rw [h.min_eq, h.memory_eq, h.pos_eq]
    exact RawMem.load_ofBytes (by omega)
  rw [MemoryMappedDevice.stream, Cursor.fixedStep]
  dsimp only
  rw [MemoryMappedDevice.read, hload]
  dsimp only [Option.map_some]
  rw [← h.min_eq]
  refine ⟨?_, h.advance _ rfl h.memory_eq⟩
  split_ifs with hall
  · rw [hall, List.drop_length, List.append_nil]
    rfl
  · rfl

theorem write_eq (buf : List UInt8) :
    (MemoryMappedDevice.stream.write buf s).1.map (·, buf) =
        Stream.answered .uncategorized (c.fixedStep Cursor.wrapped (.write buf)).1 ∧
      (MemoryMappedDevice.stream.write buf s).2.Represents start end_
        (c.fixedStep Cursor.wrapped (.write buf)).2 := by
  have hle := h.pos_le
  have hdata : (if min (s.device.end_ - s.device.pos).toNat buf.length = buf.length then buf
      else buf.take (min (s.device.end_ - s.device.pos).toNat buf.length)) =
        buf.take (min buf.length (c.bytes.length - c.pos)) := by
    rw [h.min_eq]
    split_ifs with hall
    · rw [hall, List.take_length]
    · rfl
  have htake : (buf.take (min buf.length (c.bytes.length - c.pos))).length =
      min buf.length (c.bytes.length - c.pos) := List.length_take_of_le (min_le_left _ _)
  have hstore : s.memory.store s.device.pos.toNat
      (buf.take (min buf.length (c.bytes.length - c.pos))) =
        some (.ofBytes start.toNat (c.bytes.take c.pos ++
          buf.take (min buf.length (c.bytes.length - c.pos)) ++
          c.bytes.drop (c.pos + min buf.length (c.bytes.length - c.pos)))) := by
    rw [h.memory_eq, h.pos_eq, RawMem.store_ofBytes (by omega), htake]
  rw [MemoryMappedDevice.stream, Cursor.fixedStep]
  dsimp only
  rw [MemoryMappedDevice.write, hdata, hstore]
  dsimp only [Option.map_some]
  rw [← h.min_eq] at htake ⊢
  refine ⟨rfl, h.advance _ ?_ rfl⟩
  have hmin := h.min_eq buf
  rw [List.length_append, List.length_append, htake, List.length_take, List.length_drop]
  omega

theorem seek_eq (pos : Fsio.SeekFrom) :
    some ((MemoryMappedDevice.stream.seek pos s).1, []) =
        Stream.answered .uncategorized (c.fixedStep Cursor.wrapped (.seek pos.offset)).1 ∧
      (MemoryMappedDevice.stream.seek pos s).2.Represents start end_
        (c.fixedStep Cursor.wrapped (.seek pos.offset)).2 := by
  have hsub := h.newPos_sub pos
  have hin := not_outside_iff (x := s.device.newPos pos) h.start_le_end
  obtain ⟨rfl, rfl, hpos, hmemory, hlength, hpos_le⟩ := h
  rw [MemoryMappedDevice.stream, Cursor.fixedStep, ← hsub, Int.toNat_natCast]
  dsimp only
  rw [MemoryMappedDevice.seek]
  split_ifs with hout hplace hplace
  · exact absurd hout (hin.mpr (by omega))
  · exact ⟨rfl, rfl, rfl, hpos, hmemory, hlength, hpos_le⟩
  · refine ⟨rfl, rfl, rfl, ?_, hmemory, hlength, Int.ofNat_le.mp hplace.2⟩
    have hle := BitVec.le_def.mp (BitVec.not_lt.mp (not_or.mp hout).1)
    dsimp only
    rw [BitVec.toNat_sub_of_le (BitVec.le_def.mpr hle)]
    omega
  · exact absurd (hin.mp hout) (by omega)

/-- One call on the device is one on the array. -/
theorem step_eq (call : StreamCall Fsio.SeekFrom) :
    (MemoryMappedDevice.stream.step call s).1 = Stream.answered .uncategorized
        (c.fixedStep Cursor.wrapped (call.map Fsio.SeekFrom.offset)).1 ∧
      (MemoryMappedDevice.stream.step call s).2.Represents start end_
        (c.fixedStep Cursor.wrapped (call.map Fsio.SeekFrom.offset)).2 := by
  cases call with
  | read buf => exact h.read_eq buf
  | write buf => exact h.write_eq buf
  | seek pos => exact h.seek_eq pos

end MappedDisk.Represents

/-- A wrapper renames the offset of a call and the error of its answer. -/
theorem ioWrapper_step {σ : Type} (F : Stream Fsio.ErrorKind Fsio.SeekFrom σ)
    (call : StreamCall Fatfs.SeekFrom) (s : σ) :
    (ioWrapper F).step call s =
      ((F.step (call.map Fatfs.SeekFrom.toFsio) s).1.map fun r ↦ (r.1.mapError .mk, r.2),
        (F.step (call.map Fatfs.SeekFrom.toFsio) s).2) := by
  cases call with
  | read buf => rfl
  | write buf =>
    rw [Stream.step, ioWrapper, StreamCall.map, Stream.step]
    dsimp only
    rw [Option.map_map, Option.map_map]
    rfl
  | seek pos => rfl

/-- One call on the wrapped device is one on the array. -/
theorem MappedDisk.Represents.ioWrapper_step_eq (h : s.Represents start end_ c)
    (call : StreamCall Fatfs.SeekFrom) :
    ((ioWrapper MemoryMappedDevice.stream).step call s).1 = Stream.answered (.mk .uncategorized)
        (c.fixedStep Cursor.wrapped (call.map Fatfs.SeekFrom.offset)).1 ∧
      ((ioWrapper MemoryMappedDevice.stream).step call s).2.Represents start end_
        (c.fixedStep Cursor.wrapped (call.map Fatfs.SeekFrom.offset)).2 := by
  obtain ⟨hanswer, hstate⟩ := h.step_eq (call.map Fatfs.SeekFrom.toFsio)
  rw [call.map_toFsio] at hanswer hstate
  rw [ioWrapper_step, hanswer]
  refine ⟨?_, hstate⟩
  generalize (c.fixedStep Cursor.wrapped (call.map Fatfs.SeekFrom.offset)).1 = r
  obtain ⟨n, buf⟩ := r
  cases n <;> rfl

/-! ## Runs -/

/-- What each call does decides what the stream is. -/
theorem Stream.isArray_of_step {ε S : Type} {F : Stream ε S MappedDisk} {offset : S → SeekFrom}
    {e : ε} {place : Cursor → SeekFrom → ℤ} (h : s.Represents start end_ c)
    (hstep : ∀ call s c, s.Represents start end_ c →
      (F.step call s).1 = Stream.answered e (c.fixedStep place (call.map offset)).1 ∧
        (F.step call s).2.Represents start end_ (c.fixedStep place (call.map offset)).2) :
    F.IsArray offset e place start end_ s c :=
  fun calls ↦ simulates (R := fun (s : MappedDisk) c ↦ s.Represents start end_ c) hstep h calls

/-- An array has no place before its first byte. -/
theorem Stream.IsArray.seek_fails {ε S : Type} {F : Stream ε S MappedDisk} {offset : S → SeekFrom}
    {e : ε} (h : F.IsArray offset e Cursor.target start end_ s c) (pos : S)
    (hneg : c.target (offset pos) < 0) : (F.seek pos s).1 = .error e := by
  obtain ⟨htrace, -⟩ := h [.seek pos]
  have hanswer : some ((F.seek pos s).1, []) =
      Stream.answered e (c.fixedStep Cursor.target (.seek (offset pos))).1 :=
    (Prod.mk.inj (List.cons.inj htrace).1).2
  rw [Cursor.fixedStep, if_neg (by omega)] at hanswer
  exact (Prod.mk.inj (Option.some.inj hanswer)).1

/-- In a short array, no place but the one that was asked for is reached. -/
theorem Cursor.fixedStep_wrapped (hshort : c.bytes.length < 2 ^ 63) (hle : c.pos ≤ c.bytes.length)
    (call : StreamCall Fsio.SeekFrom) :
    c.fixedStep wrapped (call.map Fsio.SeekFrom.offset) =
      c.fixedStep target (call.map Fsio.SeekFrom.offset) := by
  have hin (t : ℤ) (hlow : -2 ^ 63 ≤ t) (hhigh : t < 2 ^ 64) :
      (if 0 ≤ t % 2 ^ 64 ∧ t % 2 ^ 64 ≤ c.bytes.length then
          ((some (t % 2 ^ 64).toNat, []), { c with pos := (t % 2 ^ 64).toNat })
        else ((none, []), c) : (Option ℕ × List UInt8) × Cursor) =
      if 0 ≤ t ∧ t ≤ c.bytes.length then ((some t.toNat, []), { c with pos := t.toNat })
      else ((none, []), c) := by
    by_cases hneg : t < 0
    · rw [if_neg (by omega), if_neg (by omega)]
    · rw [Int.emod_eq_of_lt (by omega) hhigh]
  cases call with
  | read buf => rfl
  | write buf => rfl
  | seek pos =>
    cases pos with
    | start n => rfl
    | end_ n =>
      have hlow := n.le_toInt
      have hhigh := n.toInt_lt
      exact hin (c.bytes.length + n.toInt) (by omega) (by omega)
    | current n =>
      have hlow := n.le_toInt
      have hhigh := n.toInt_lt
      exact hin (c.pos + n.toInt) (by omega) (by omega)

namespace MappedDisk

/-- The disk with the given bytes, before the first call. -/
def new (start end_ : BitVec 64) (h : start ≤ end_) (bytes : List UInt8) : MappedDisk :=
  ⟨.new start end_ h, .ofBytes start.toNat bytes⟩

theorem represents_new (hle : start ≤ end_) {bytes : List UInt8}
    (hbytes : bytes.length = end_.toNat - start.toNat) :
    (new start end_ hle bytes).Represents start end_ ⟨bytes, 0⟩ :=
  ⟨rfl, rfl, rfl, rfl, hbytes, Nat.zero_le _⟩

/-- A move by a signed offset from the start of the array -/
theorem target_current (bytes : List UInt8) (n : BitVec 64) :
    Cursor.target ⟨bytes, 0⟩ (.current n.toInt) = n.toInt := Int.zero_add _

/-- A move to `2 ^ 63` before the start leads to the place as far behind it. -/
theorem seek_min (hle : start ≤ end_) {bytes : List UInt8} (hlong : 2 ^ 63 ≤ bytes.length)
    (hbytes : bytes.length = end_.toNat - start.toNat) {n : BitVec 64} (hn : n.toInt = -2 ^ 63) :
    ((new start end_ hle bytes).device.seek (.current n)).1 = .ok (2 ^ 63) := by
  obtain ⟨hanswer, -⟩ := (represents_new hle hbytes).seek_eq (.current n)
  have hplace : Cursor.wrapped ⟨bytes, 0⟩ (Fsio.SeekFrom.current n).offset = (2 ^ 63 : ℕ) := by
    rw [Fsio.SeekFrom.offset, Cursor.wrapped_current, hn]
    norm_num
  have hin : (2 ^ 63 : ℕ) ≤ (bytes.length : ℤ) := Int.ofNat_le.mpr hlong
  rw [Cursor.fixedStep, hplace, if_pos ⟨Int.natCast_nonneg _, hin⟩, Int.toNat_natCast] at hanswer
  exact (Prod.mk.inj (Option.some.inj hanswer)).1

/-- In a long array the moves of the device wrap. -/
theorem not_isArray_of_long (hle : start ≤ end_) {bytes : List UInt8}
    (hlong : 2 ^ 63 ≤ bytes.length) (hbytes : bytes.length = end_.toNat - start.toNat) :
    ¬MemoryMappedDevice.stream.IsArray Fsio.SeekFrom.offset .uncategorized Cursor.target start end_
        (new start end_ hle bytes) ⟨bytes, 0⟩ ∧
      ¬(ioWrapper MemoryMappedDevice.stream).IsArray Fatfs.SeekFrom.offset ⟨.uncategorized⟩
        Cursor.target start end_ (new start end_ hle bytes) ⟨bytes, 0⟩ := by
  obtain ⟨n, hn⟩ : ∃ n : BitVec 64, n.toInt = -2 ^ 63 := ⟨.intMin 64, by decide⟩
  have hneg : Cursor.target ⟨bytes, 0⟩ (.current n.toInt) < 0 := by
    rw [target_current, hn]
    norm_num
  have hmin := seek_min hle hlong hbytes hn
  refine ⟨fun h ↦ ?_, fun h ↦ ?_⟩
  · have hfails := h.seek_fails (.current n) hneg
    exact absurd (hmin.symm.trans hfails) (by simp)
  · have hfails := h.seek_fails (.current n) hneg
    have hmin' := congrArg (Except.mapError TransferError.mk) hmin
    exact absurd (hmin'.symm.trans hfails) (by simp [Except.mapError])

/-- **The disk is a byte array with a cursor** whose moves wrap where their offset is signed, and
they might as well not wrap exactly if the array has less than `2 ^ 63` bytes. -/
theorem isArray (hle : start ≤ end_) {bytes : List UInt8}
    (hbytes : bytes.length = end_.toNat - start.toNat) :
    MemoryMappedDevice.stream.IsArray Fsio.SeekFrom.offset .uncategorized Cursor.wrapped start end_
        (new start end_ hle bytes) ⟨bytes, 0⟩ ∧
      (ioWrapper MemoryMappedDevice.stream).IsArray Fatfs.SeekFrom.offset ⟨.uncategorized⟩
        Cursor.wrapped start end_ (new start end_ hle bytes) ⟨bytes, 0⟩ ∧
      (MemoryMappedDevice.stream.IsArray Fsio.SeekFrom.offset .uncategorized Cursor.target start
        end_ (new start end_ hle bytes) ⟨bytes, 0⟩ ↔ bytes.length < 2 ^ 63) ∧
      ((ioWrapper MemoryMappedDevice.stream).IsArray Fatfs.SeekFrom.offset ⟨.uncategorized⟩
        Cursor.target start end_ (new start end_ hle bytes) ⟨bytes, 0⟩ ↔
          bytes.length < 2 ^ 63) := by
  have hnew := represents_new hle hbytes
  -- the array keeps its length, and so it stays short
  have hkeeps {s : MappedDisk} {c : Cursor} (hshort : bytes.length < 2 ^ 63)
      (h : s.Represents start end_ c) : c.bytes.length < 2 ^ 63 := by
    rwa [h.length_eq, ← hbytes]
  refine ⟨?_, ?_, ⟨fun h ↦ ?_, fun hshort ↦ ?_⟩, ⟨fun h ↦ ?_, fun hshort ↦ ?_⟩⟩
  · exact Stream.isArray_of_step hnew fun call _ _ h ↦ h.step_eq call
  · exact Stream.isArray_of_step hnew fun call _ _ h ↦ h.ioWrapper_step_eq call
  · by_contra hlong
    exact (not_isArray_of_long hle (not_lt.mp hlong) hbytes).1 h
  · refine Stream.isArray_of_step hnew fun call s c h ↦ ?_
    rw [← Cursor.fixedStep_wrapped (hkeeps hshort h) h.pos_le]
    exact h.step_eq call
  · by_contra hlong
    exact (not_isArray_of_long hle (not_lt.mp hlong) hbytes).2 h
  · refine Stream.isArray_of_step hnew fun call s c h ↦ ?_
    rw [← call.map_toFsio, ← Cursor.fixedStep_wrapped (hkeeps hshort h) h.pos_le, call.map_toFsio]
    exact h.ioWrapper_step_eq call

/-- Four bytes in the upper half of the address space are an array. -/
theorem isArray_four : MemoryMappedDevice.stream.IsArray Fsio.SeekFrom.offset .uncategorized
    Cursor.target 0xffffffff90000000#64 0xffffffff90000004#64
    (new 0xffffffff90000000#64 0xffffffff90000004#64 (by decide) [1, 2, 3, 4])
    ⟨[1, 2, 3, 4], 0⟩ := by
  have hlength : ([1, 2, 3, 4] : List UInt8).length =
    (0xffffffff90000004#64).toNat - (0xffffffff90000000#64).toNat := by decide
  exact (isArray (by decide) hlength).2.2.1.mpr (by decide)

/-- A disk of half of the address space takes a move to before its start for one to its end. -/
theorem not_isArray_half : ∃ hle : 0#64 ≤ BitVec.intMin 64, ∃ bytes : List UInt8,
    bytes.length = (BitVec.intMin 64).toNat - (0#64).toNat ∧
      ¬MemoryMappedDevice.stream.IsArray Fsio.SeekFrom.offset .uncategorized Cursor.target 0#64
        (.intMin 64) (new 0#64 (.intMin 64) hle bytes) ⟨bytes, 0⟩ := by
  have hle : 0#64 ≤ BitVec.intMin 64 := by decide
  have hlength : (List.replicate (2 ^ 63) (0 : UInt8)).length =
      (BitVec.intMin 64).toNat - (0#64).toNat := by
    rw [List.length_replicate]
    decide
  have hlong : 2 ^ 63 ≤ (List.replicate (2 ^ 63) (0 : UInt8)).length := by
    rw [List.length_replicate]
  exact ⟨hle, _, hlength, (not_isArray_of_long hle hlong hlength).1⟩

end MappedDisk

end Maturin
