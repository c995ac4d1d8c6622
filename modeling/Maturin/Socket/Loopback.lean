import Mathlib.Algebra.Order.Group.Nat
import Mathlib.Logic.Function.Basic

/-!
# The loopback network

`file/socket/loopback.rs`: the data that was sent to a port waits in a queue of the port, which
takes at most 2 MiB. A queue is of bytes, so that neither messages nor their senders can be told
apart. The ephemeral ports of `file/socket/resolution.rs` are handed out in turn.
-/

open Function

namespace Maturin

/-- `u16` -/
abbrev Port := BitVec 16

def SOCKET_BUFFER_SIZE_LIMIT : ℕ := 0x200000

/-- 127.0.0.1 -/
def LOCAL_LOOPBACK_ADDR : BitVec 32 := 0x7f000001

/-- `PortData` -/
structure PortData where
  data : List UInt8
  length_le : data.length ≤ SOCKET_BUFFER_SIZE_LIMIT

namespace PortData

def new : PortData := ⟨[], Nat.zero_le _⟩

/-- Read into a buffer: the number of bytes read, the buffer, and the data that is left. -/
def read (self : PortData) (buf : List UInt8) : (Option ℕ × List UInt8) × PortData :=
  let readLen := min self.data.length buf.length
  ((some readLen, self.data.take readLen ++ buf.drop readLen),
    ⟨self.data.drop readLen, by
      rw [List.length_drop]
      exact (Nat.sub_le ..).trans self.length_le⟩)

/-- Write a buffer: the number of bytes written, and the data afterwards. -/
def write (self : PortData) (buf : List UInt8) : Option ℕ × PortData :=
  let writeLen := min (SOCKET_BUFFER_SIZE_LIMIT - self.data.length) buf.length
  if writeLen = 0 then (none, self)
  else (some writeLen,
    ⟨self.data ++ buf.take writeLen, by
      have hle := self.length_le
      rw [List.length_append, List.length_take]
      omega⟩)

end PortData

/-- The port that `get_ephemeral_port` hands out after another. -/
def nextEphemeral (port : Port) : Port :=
  let port := if port = 0 then 49152 else port
  if port = 65535 then 49152 else port + 1

theorem le_nextEphemeral {port : Port} (h : port = 0 ∨ 49152 ≤ port.toNat) :
    49152 ≤ (nextEphemeral port).toNat := by
  have hadd : ∀ p : Port, 49152 ≤ p.toNat →
      49152 ≤ (if p = 65535 then 49152 else p + 1 : Port).toNat := by
    intro p hp
    split_ifs with hlast
    · decide
    · have hne : p.toNat ≠ 65535 := fun heq ↦ hlast (BitVec.eq_of_toNat_eq heq)
      have hlt := p.isLt
      rw [BitVec.toNat_add, Nat.mod_eq_of_lt]
      · exact hp.trans (Nat.le_add_right _ _)
      · change p.toNat + 1 < 65536
        omega
  rw [nextEphemeral]
  by_cases hzero : port = 0
  · rw [if_pos hzero]
    decide
  · rw [if_neg hzero]
    exact hadd port (h.resolve_left hzero)

/-- `PORT_MAP` and `EPHEMERAL_PORT` -/
structure Net where
  portMap : Port → Option PortData
  ephemeralPort : Port
  ephemeral_ok : ephemeralPort = 0 ∨ 49152 ≤ ephemeralPort.toNat

namespace Net

/-- Nothing was sent yet. -/
def boot : Net := ⟨fun _ ↦ none, 0, .inl rfl⟩

/-- The data of a port changes. -/
def setPort (self : Net) (port : Port) (data : PortData) : Net :=
  { self with portMap := update self.portMap port (some data) }

def canRead (self : Net) (port : Port) : Option ℕ :=
  match self.portMap port with
  | some pd => if pd.data.length > 0 then some pd.data.length else none
  | none => none

def canWrite (self : Net) (port : Port) : Option ℕ :=
  match self.portMap port with
  | some pd =>
    if pd.data.length < SOCKET_BUFFER_SIZE_LIMIT then
      some (SOCKET_BUFFER_SIZE_LIMIT - pd.data.length)
    else none
  | none => some SOCKET_BUFFER_SIZE_LIMIT

/-- `read_from_port`, with the buffer after the call -/
def readFromPort (port : Port) (buf : List UInt8) (self : Net) :
    (Option ℕ × List UInt8) × Net :=
  match self.portMap port with
  | some pd =>
    if pd.data.length > 0 then
      let (r, pd) := pd.read buf
      (r, self.setPort port pd)
    else ((none, buf), self)
  | none => ((none, buf), self)

/-- `write_to_port` -/
def writeToPort (port : Port) (buf : List UInt8) (self : Net) : Option ℕ × Net :=
  match self.portMap port with
  | some pd =>
    let (r, pd) := pd.write buf
    (r, self.setPort port pd)
  | none =>
    let (r, pd) := PortData.new.write buf
    (r, self.setPort port pd)

/-- `get_ephemeral_port` -/
def getEphemeralPort (self : Net) : Port × Net :=
  let port := nextEphemeral self.ephemeralPort
  (port,
    { self with
      ephemeralPort := port
      ephemeral_ok := .inr (le_nextEphemeral self.ephemeral_ok) })

/-! ## Queues -/

variable {self : Net} {port : Port} {buf : List UInt8}

/-- The bytes that wait at a port. -/
def queue (self : Net) (port : Port) : List UInt8 :=
  match self.portMap port with
  | some pd => pd.data
  | none => []

theorem length_queue_le : (self.queue port).length ≤ SOCKET_BUFFER_SIZE_LIMIT := by
  rw [queue]
  split
  · exact PortData.length_le _
  · exact Nat.zero_le _

theorem queue_setPort (data : PortData) (other : Port) :
    (self.setPort port data).queue other =
      if other = port then data.data else self.queue other := by
  rw [queue, setPort]
  dsimp only
  by_cases h : other = port
  · rw [if_pos h, h, update_self]
  · rw [if_neg h, update_of_ne h, queue]

theorem canRead_isSome : (self.canRead port).isSome = true ↔ self.queue port ≠ [] := by
  rw [canRead, queue]
  cases self.portMap port with
  | none => simp
  | some pd =>
    dsimp only
    rw [← List.length_pos_iff]
    split_ifs with h
    · exact iff_of_true rfl h
    · exact iff_of_false (by simp) h

theorem canWrite_isSome :
    (self.canWrite port).isSome = true ↔ (self.queue port).length < SOCKET_BUFFER_SIZE_LIMIT := by
  rw [canWrite, queue]
  cases self.portMap port with
  | none => exact iff_of_true rfl (by decide)
  | some pd =>
    dsimp only
    split_ifs with h
    · exact iff_of_true rfl h
    · exact iff_of_false (by simp) h

/-- A read of an empty queue finds nothing. -/
theorem readFromPort_nil (h : self.queue port = []) :
    self.readFromPort port buf = ((none, buf), self) := by
  rw [queue] at h
  rw [readFromPort]
  cases hport : self.portMap port with
  | none => rfl
  | some pd =>
    rw [hport] at h
    dsimp only at h ⊢
    rw [h]
    rfl

/-- A read takes the front of the queue. -/
theorem readFromPort_spec (buf : List UInt8) (h : self.queue port ≠ []) :
    (self.readFromPort port buf).1 = (some (min (self.queue port).length buf.length),
        (self.queue port).take buf.length ++ buf.drop (self.queue port).length) ∧
      ∀ other, (self.readFromPort port buf).2.queue other =
        if other = port then (self.queue port).drop buf.length else self.queue other := by
  have hqueue : ∀ {pd}, self.portMap port = some pd → self.queue port = pd.data := by
    intro pd hpd
    rw [queue, hpd]
  cases hport : self.portMap port with
  | none => exact absurd (by rw [queue, hport]) h
  | some pd =>
    rw [hqueue hport] at h ⊢
    rw [readFromPort, hport]
    dsimp only
    rw [if_pos (List.length_pos_iff.mpr h), PortData.read]
    dsimp only
    refine ⟨?_, fun other ↦ ?_⟩
    · congr 2
      · rw [List.take_eq_take_iff]
        omega
      · rw [List.drop_eq_drop_iff]
        omega
    · rw [queue_setPort]
      congr 1
      dsimp only
      rw [List.drop_eq_drop_iff]
      omega

/-- The bytes that a write has room for. -/
def room (self : Net) (port : Port) (buf : List UInt8) : ℕ :=
  min (SOCKET_BUFFER_SIZE_LIMIT - (self.queue port).length) buf.length

/-- A write appends to the queue what there is room for. -/
theorem writeToPort_spec (self : Net) (port : Port) (buf : List UInt8) :
    (self.writeToPort port buf).1 =
        (if self.room port buf = 0 then none else some (self.room port buf)) ∧
      ∀ other, (self.writeToPort port buf).2.queue other =
        if other = port then self.queue port ++ buf.take (self.room port buf)
        else self.queue other := by
  have hwrite : ∀ pd : PortData, pd.data = self.queue port →
      (pd.write buf).1 = (if self.room port buf = 0 then none else some (self.room port buf)) ∧
        (pd.write buf).2.data = self.queue port ++ buf.take (self.room port buf) := by
    intro pd hpd
    have hroom : self.room port buf =
        min (SOCKET_BUFFER_SIZE_LIMIT - pd.data.length) buf.length := by
      rw [room, hpd]
    rw [hroom, PortData.write, ← hpd]
    split_ifs with hzero
    · rw [hzero, List.take_zero, List.append_nil]
      exact ⟨rfl, rfl⟩
    · exact ⟨rfl, rfl⟩
  rw [writeToPort]
  cases hport : self.portMap port with
  | none =>
    obtain ⟨hr, hdata⟩ := hwrite .new (by rw [queue, hport]; rfl)
    exact ⟨hr, fun other ↦ by rw [queue_setPort, hdata]⟩
  | some pd =>
    obtain ⟨hr, hdata⟩ := hwrite pd (by rw [queue, hport])
    exact ⟨hr, fun other ↦ by rw [queue_setPort, hdata]⟩

theorem le_getEphemeralPort : 49152 ≤ self.getEphemeralPort.1.toNat :=
  le_nextEphemeral self.ephemeral_ok

end Net

end Maturin
