import Maturin.Lib.Fifo
import Maturin.Socket.Loopback

/-!
# The ports as bounded queues

Each of the four functions of the loopback network holds the lock on all the ports, so that their
calls come one after the other in some order. The network is then one bounded queue for each port:
a port that nobody has written to yet answers like an empty queue, and a write that creates it and
fails leaves one.
-/

open Function Machine

namespace Maturin

namespace Net

variable {net net' : Net} {port : Port} {buf : List UInt8}

/-- A call on a port: the answer, with the buffer after it. -/
def call (c : Port × FifoCall UInt8) (net : Net) : Fifo.Answer UInt8 × Net :=
  match c with
  | (port, .write buf) => (((net.writeToPort port buf).1, buf), (net.writeToPort port buf).2)
  | (port, .read buf) => net.readFromPort port buf
  | (port, .canWrite) => ((net.canWrite port, []), net)
  | (port, .canRead) => ((net.canRead port, []), net)

theorem canRead_eq : net.canRead port = Fifo.positive (net.queue port).length := by
  rw [canRead, queue]
  cases net.portMap port with
  | none => rfl
  | some pd =>
    dsimp only
    rw [Fifo.positive]
    split_ifs with hpos hzero hzero
    · omega
    · rfl
    · rfl
    · omega

theorem canWrite_eq :
    net.canWrite port = Fifo.positive (SOCKET_BUFFER_SIZE_LIMIT - (net.queue port).length) := by
  rw [canWrite, queue]
  cases net.portMap port with
  | none => rfl
  | some pd =>
    dsimp only
    rw [Fifo.positive]
    split_ifs with hlt hzero hzero
    · omega
    · rfl
    · rfl
    · omega

/-- One call is one step of the queue of the port. -/
theorem call_eq (c : Port × FifoCall UInt8) (net : Net) :
    (net.call c).1 = (each (Fifo.step SOCKET_BUFFER_SIZE_LIMIT) c net.queue).1 ∧
      (net.call c).2.queue = (each (Fifo.step SOCKET_BUFFER_SIZE_LIMIT) c net.queue).2 := by
  obtain ⟨port, c⟩ := c
  rw [each_fst, each_snd]
  cases c with
  | write buf =>
    obtain ⟨hr, hqueue⟩ := net.writeToPort_spec port buf
    refine ⟨?_, ?_⟩
    · rw [call, hr]
      rfl
    · funext other
      rw [call, hqueue, update_apply]
      rfl
  | read buf =>
    by_cases hnil : net.queue port = []
    · rw [call, readFromPort_nil hnil, Fifo.step, if_pos hnil, update_eq_self]
      exact ⟨rfl, rfl⟩
    · obtain ⟨hr, hqueue⟩ := readFromPort_spec buf hnil
      rw [call, Fifo.step, if_neg hnil]
      refine ⟨hr, ?_⟩
      funext other
      rw [hqueue, update_apply]
  | canWrite =>
    rw [call, canWrite_eq, Fifo.step, update_eq_self]
    exact ⟨rfl, rfl⟩
  | canRead =>
    rw [call, canRead_eq, Fifo.step, update_eq_self]
    exact ⟨rfl, rfl⟩

/-- The network simulates the queues. -/
theorem simulates_queues (calls : List (Port × FifoCall UInt8)) (net : Net) :
    trace call calls net = trace (each (Fifo.step SOCKET_BUFFER_SIZE_LIMIT)) calls net.queue ∧
      (after call calls net).queue =
        after (each (Fifo.step SOCKET_BUFFER_SIZE_LIMIT)) calls net.queue := by
  refine simulates_id (R := fun (net : Net) q ↦ net.queue = q) ?_ rfl calls
  rintro c net q rfl
  exact net.call_eq c

/-- No calls tell the networks apart. -/
def Alike (net net' : Net) : Prop := ∀ calls, trace call calls net = trace call calls net'

theorem alike_of_queue_eq (h : net.queue = net'.queue) : Alike net net' := by
  intro calls
  rw [(simulates_queues calls net).1, (simulates_queues calls net').1, h]

/-- A call that moves no bytes is not noticed. -/
theorem alike_call {c : FifoCall UInt8} (h : (Fifo.step SOCKET_BUFFER_SIZE_LIMIT c
    (net.queue port)).2 = net.queue port) : Alike (net.call (port, c)).2 net := by
  refine alike_of_queue_eq ?_
  rw [(net.call_eq (port, c)).2, each_snd, h, update_eq_self]

/-! ## One port -/

/-- The bytes that a write accepts. -/
theorem getD_writeToPort (net : Net) (port : Port) (buf : List UInt8) :
    (net.writeToPort port buf).1.getD 0 =
      min (SOCKET_BUFFER_SIZE_LIMIT - (net.queue port).length) buf.length := by
  rw [(net.writeToPort_spec port buf).1, room]
  split_ifs with h
  · exact h.symm
  · rfl

theorem canRead_eq_some {n : ℕ} :
    net.canRead port = some n ↔ 0 < n ∧ (net.queue port).length = n := by
  rw [canRead_eq, Fifo.positive_eq_some]

theorem canWrite_eq_some {m : ℕ} : net.canWrite port = some m ↔
    0 < m ∧ ∀ buf, (net.writeToPort port buf).1.getD 0 = min m buf.length := by
  rw [canWrite_eq, Fifo.positive_eq_some]
  refine and_congr_right fun hpos ↦ ⟨?_, fun h ↦ ?_⟩
  · rintro rfl buf
    exact net.getD_writeToPort port buf
  · -- a buffer that is long enough shows how much room there is
    have hlong := h (List.replicate (m + SOCKET_BUFFER_SIZE_LIMIT) 0)
    rw [getD_writeToPort, List.length_replicate] at hlong
    omega

/-- A write that fails may create its port, which nobody notices. -/
theorem alike_writeToPort (hnone : (net.writeToPort port buf).1 = none) :
    Alike (net.writeToPort port buf).2 net := by
  refine alike_call (c := .write buf) ?_
  have hroom := net.getD_writeToPort port buf
  rw [hnone, Option.getD_none] at hroom
  rw [Fifo.step]
  dsimp only
  rw [← hroom, List.take_zero, List.append_nil]

theorem readFromPort_of_none (hnone : (net.readFromPort port buf).1.1 = none) :
    net.readFromPort port buf = ((none, buf), net) := by
  by_cases hnil : net.queue port = []
  · exact readFromPort_nil hnil
  · rw [(readFromPort_spec buf hnil).1] at hnone
    exact absurd hnone (by simp)

/-- What a port is to those who know its calls and their answers. -/
structure IsFifo (net : Net) (port : Port) (calls : List (FifoCall UInt8))
    (events : List (FifoCall UInt8 × Fifo.Answer UInt8)) : Prop where
  /-- What was read is the front of what was accepted, and the rest is buffered. -/
  flow : events.flatMap Fifo.got ++ net.queue port = events.flatMap Fifo.written
  length_le : (net.queue port).length ≤ SOCKET_BUFFER_SIZE_LIMIT
  /-- The answers are those of a queue that nobody else uses. -/
  alone : events = trace (Fifo.step SOCKET_BUFFER_SIZE_LIMIT) calls []
  canRead_iff : ∀ n, net.canRead port = some n ↔ 0 < n ∧ (net.queue port).length = n
  canWrite_iff : ∀ m, net.canWrite port = some m ↔
    0 < m ∧ ∀ buf, (net.writeToPort port buf).1.getD 0 = min m buf.length
  write_none : ∀ buf, (net.writeToPort port buf).1 = none →
    Alike (net.writeToPort port buf).2 net
  read_none : ∀ buf, (net.readFromPort port buf).1.1 = none →
    (net.readFromPort port buf).1.2 = buf ∧ Alike (net.readFromPort port buf).2 net

/-- **The ports are bounded queues**, in whatever order they are used. -/
theorem isFifo (calls : List (Port × FifoCall UInt8)) (port : Port) :
    (after call calls boot).IsFifo port (callsOn port calls)
      (traceOn port (trace call calls boot)) := by
  obtain ⟨htrace, hafter⟩ := simulates_queues calls boot
  obtain ⟨hon, hqueue⟩ :=
    traceOn_each (Fifo.step SOCKET_BUFFER_SIZE_LIMIT) port calls boot.queue
  have hboot : boot.queue port = [] := rfl
  rw [← htrace, hboot] at hon
  rw [← hafter, hboot] at hqueue
  refine ⟨?_, ?_, hon, fun _ ↦ canRead_eq_some, fun _ ↦ canWrite_eq_some,
    fun _ ↦ alike_writeToPort, fun buf hnone ↦ ?_⟩
  · rw [hon, hqueue, Fifo.got_append_after, List.nil_append]
  · rw [hqueue]
    exact Fifo.length_after_le (Nat.zero_le _) _
  · rw [readFromPort_of_none hnone]
    exact ⟨rfl, fun _ ↦ rfl⟩

end Net

end Maturin
