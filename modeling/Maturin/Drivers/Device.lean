import Maturin.File.BaseFile
import Maturin.Lib.Machine
import Maturin.Lib.RawMem

/-!
# The disk in memory

`MemoryMappedDevice` of `drivers/memory/device.rs` is an image of a file system that is mapped to
the addresses from `start` to `end`, with the address at which it is read and written next. The file
system calls it through an `IoWrapper`, which only renames the offsets and the errors.

The addresses that a move leads to are sums that wrap. An offset that is an `i64` can be that of two
places, one before the image and one in it, but only if the image is so large that half of the
address space does not hold it.
-/

open Machine

namespace Maturin

/-! ## Streams -/

/-- `fsio::SeekFrom`. The offset is a `u64` for `start`, and otherwise an `i64`. -/
inductive Fsio.SeekFrom
  | start (n : BitVec 64)
  | end_ (n : BitVec 64)
  | current (n : BitVec 64)

/-- `fatfs::SeekFrom` -/
inductive Fatfs.SeekFrom
  | start (n : BitVec 64)
  | end_ (n : BitVec 64)
  | current (n : BitVec 64)

/-- The only `fsio::ErrorKind` that the device returns. -/
inductive Fsio.ErrorKind
  | uncategorized
  deriving DecidableEq

/-- A call on a stream, with the kind of offsets that it has. -/
inductive StreamCall (S : Type)
  | read (buf : List UInt8)
  | write (buf : List UInt8)
  | seek (pos : S)

/-- The traits `Read`, `Write` and `Seek` for streams whose state is in `σ`. A call whose access
faults has no answer. -/
structure Stream (ε S σ : Type) where
  /-- The number of bytes read, and the buffer after the call. -/
  read : List UInt8 → σ → Option (Except ε ℕ × List UInt8) × σ
  /-- The number of bytes written. -/
  write : List UInt8 → σ → Option (Except ε ℕ) × σ
  /-- The new position. -/
  seek : S → σ → Except ε ℕ × σ

/-- One call. -/
def Stream.step {ε S σ : Type} (F : Stream ε S σ) (c : StreamCall S) (s : σ) :
    Option (Except ε ℕ × List UInt8) × σ :=
  match c with
  | .read buf => F.read buf s
  | .write buf => ((F.write buf s).1.map (·, buf), (F.write buf s).2)
  | .seek pos => (some ((F.seek pos s).1, []), (F.seek pos s).2)

/-! ## The device -/

structure MemoryMappedDevice where
  start : BitVec 64
  end_ : BitVec 64
  pos : BitVec 64
  start_le_pos : start ≤ pos
  pos_le_end : pos ≤ end_

namespace MemoryMappedDevice

/-- `new`: the position is the start, not 0. -/
def new (start end_ : BitVec 64) (h : start ≤ end_) : MemoryMappedDevice where
  start := start
  end_ := end_
  pos := start
  start_le_pos := BitVec.le_refl start
  pos_le_end := h

/-- `self.pos += n` within the image -/
def advance (self : MemoryMappedDevice) (n : ℕ) (h : n ≤ (self.end_ - self.pos).toNat) :
    MemoryMappedDevice where
  start := self.start
  end_ := self.end_
  pos := self.pos + BitVec.ofNat 64 n
  start_le_pos := by
    have hstart := BitVec.le_def.mp self.start_le_pos
    have hend := BitVec.le_def.mp self.pos_le_end
    rw [BitVec.toNat_sub_of_le self.pos_le_end] at h
    rw [BitVec.le_def, BitVec.toNat_add, BitVec.toNat_ofNat]
    omega
  pos_le_end := by
    have hend := BitVec.le_def.mp self.pos_le_end
    rw [BitVec.toNat_sub_of_le self.pos_le_end] at h
    rw [BitVec.le_def, BitVec.toNat_add, BitVec.toNat_ofNat]
    omega

/-- `read`, if the access does not fault -/
def read (self : MemoryMappedDevice) (buf : List UInt8) (memory : RawMem) :
    Option ((ℕ × List UInt8) × MemoryMappedDevice) :=
  let readLen := min (self.end_ - self.pos).toNat buf.length
  (memory.load self.pos.toNat readLen).map fun data ↦
    ((readLen, if readLen = buf.length then data else data ++ buf.drop readLen),
      self.advance readLen (min_le_left _ _))

/-- `write`, if the access does not fault -/
def write (self : MemoryMappedDevice) (buf : List UInt8) (memory : RawMem) :
    Option (ℕ × MemoryMappedDevice × RawMem) :=
  let writeLen := min (self.end_ - self.pos).toNat buf.length
  (memory.store self.pos.toNat (if writeLen = buf.length then buf else buf.take writeLen)).map
    fun memory ↦ (writeLen, self.advance writeLen (min_le_left _ _), memory)

/-- The new position of `seek`. -/
def newPos (self : MemoryMappedDevice) : Fsio.SeekFrom → BitVec 64
  | .current delta => self.pos + delta
  | .start delta => self.start + delta
  | .end_ delta => self.end_ + delta

/-- `seek` -/
def seek (self : MemoryMappedDevice) (pos : Fsio.SeekFrom) :
    Except Fsio.ErrorKind ℕ × MemoryMappedDevice :=
  if h : self.newPos pos < self.start ∨ self.newPos pos > self.end_ then
    (.error .uncategorized, self)
  else
    (.ok (self.newPos pos - self.start).toNat,
      { start := self.start
        end_ := self.end_
        pos := self.newPos pos
        start_le_pos := BitVec.not_lt.mp (not_or.mp h).1
        pos_le_end := BitVec.not_lt.mp (not_or.mp h).2 })

end MemoryMappedDevice

/-- A device, and the memory that it is in. -/
structure MappedDisk where
  device : MemoryMappedDevice
  memory : RawMem

/-- `MemoryMappedDevice` as a stream -/
def MemoryMappedDevice.stream : Stream Fsio.ErrorKind Fsio.SeekFrom MappedDisk where
  read buf s :=
    match s.device.read buf s.memory with
    | some ((n, buf), device) => (some (.ok n, buf), { s with device })
    | none => (none, s)
  write buf s :=
    match s.device.write buf s.memory with
    | some (n, device, memory) => (some (.ok n), ⟨device, memory⟩)
    | none => (none, s)
  seek pos s := ((s.device.seek pos).1, { s with device := (s.device.seek pos).2 })

/-- `TransferError` -/
structure TransferError where
  inner : Fsio.ErrorKind
  deriving DecidableEq

/-- The `match` of `IoWrapper::seek`. -/
def Fatfs.SeekFrom.toFsio : Fatfs.SeekFrom → Fsio.SeekFrom
  | .start n => .start n
  | .end_ n => .end_ n
  | .current n => .current n

/-- `IoWrapper` around a stream -/
def ioWrapper {σ : Type} (inner : Stream Fsio.ErrorKind Fsio.SeekFrom σ) :
    Stream TransferError Fatfs.SeekFrom σ where
  read buf s := ((inner.read buf s).1.map fun r ↦ (r.1.mapError .mk, r.2), (inner.read buf s).2)
  write buf s := ((inner.write buf s).1.map (·.mapError .mk), (inner.write buf s).2)
  seek pos s := ((inner.seek pos.toFsio s).1.mapError .mk, (inner.seek pos.toFsio s).2)

end Maturin
