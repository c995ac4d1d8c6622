import Maturin.File.FatSeek
import Maturin.File.Pipe
import Maturin.Socket.Socket

/-!
# Is a file ready?

`select` and `poll` ask a file whether it is ready and then let the task call it. Each kind of file
has its own code for the answer, beside its code for reading and writing. A file that says that it
can be read is to give a byte, and one that says that it cannot be written is to take none, when the
call follows at once.

The end of a FAT file is where most of them are written, and the code, which is that of
`ready_to_read`, says that nothing can be written there. A socket that listens is asked for requests
and not for data, and a socket whose endpoint is no address of this machine cannot be used although
the port has data.
-/

open Exec

namespace Maturin

/-- The methods of a file that `select` and `poll` rely on. -/
structure Pollable (σ : Type) where
  readyToRead : EStateM Panic σ Bool
  readyToWrite : EStateM Panic σ Bool
  /-- The number of bytes that a read into the buffer gives. -/
  read : List UInt8 → EStateM Panic σ (Option ℕ)
  write : List UInt8 → EStateM Panic σ (Option ℕ)

namespace Pollable

variable {σ : Type}

/-- A buffer of a call; a slice has at most `isize::MAX` bytes. -/
def IsBuffer (buf : List UInt8) : Prop := buf ≠ [] ∧ buf.length < 2 ^ 63

/-- A file that is ready for reading gives a byte to the read that follows. -/
def ReadSound (file : Pollable σ) (s : σ) : Prop :=
  wp file.readyToRead (fun ready t ↦ ready = true →
    ∀ buf, IsBuffer buf → wp (file.read buf) (fun r _ ↦ 0 < r.getD 0) noPanic t) anyPanic s

/-- A file that is not ready for writing takes no byte from the write that follows. -/
def WriteSound (file : Pollable σ) (s : σ) : Prop :=
  wp file.readyToWrite (fun ready t ↦ ready = false →
    ∀ buf, IsBuffer buf → wp (file.write buf) (fun r _ ↦ r.getD 0 = 0) anyPanic t) anyPanic s

end Pollable

open Pollable

/-! ## FAT files -/

namespace FatFile

variable {self : FatFile} {file : FsFile}

def pollable (self : FatFile) : Pollable FsFile where
  readyToRead := modifyGet self.readyToRead
  readyToWrite := modifyGet self.readyToWrite
  read buf := modifyGet fun file ↦ ((self.read buf file).1.1, (self.read buf file).2)
  write buf := modifyGet (self.write buf)

theorem readSound : self.pollable.ReadSound file := by
  rw [ReadSound, pollable, wp_modifyGet, readyToRead_eq]
  intro hready buf hbuf
  rw [Bool.and_eq_true, decide_eq_true_iff] at hready
  have hoffset := file.offset_le
  have hpos := List.length_pos_iff.mpr hbuf.1
  rw [wp_modifyGet, read, hready.1, readLoop_eq _ le_rfl]
  change 0 < ((file.bytes.drop file.offset).take buf.length).length
  rw [List.length_take, List.length_drop]
  omega

/-- The loop writes a byte if there is room. -/
theorem writeLoop_pos_iff {buf : List UInt8} (h : buf ≠ []) :
    0 < (writeLoop buf.length file buf).1 ↔ file.offset < MAX_FILE_SIZE := by
  have hpos := List.length_pos_iff.mpr h
  have hleft := file.leftInCluster_pos
  have hn : (file.write buf).1
      = min (min buf.length file.leftInCluster) (MAX_FILE_SIZE - file.offset) := rfl
  obtain ⟨rounds, hrounds⟩ := Nat.exists_eq_succ_of_ne_zero hpos.ne'
  rw [hrounds, writeLoop, if_pos hpos]
  generalize file.write buf = r at hn ⊢
  obtain ⟨n, after⟩ := r
  dsimp only at hn ⊢
  split_ifs with hzero
  · exact iff_of_false (lt_irrefl 0) (by omega)
  · exact iff_of_true (Nat.add_pos_left (Nat.pos_of_ne_zero hzero) _) (by omega)

theorem writeSound_iff : self.pollable.WriteSound file ↔
    self.writable = false ∨ file.offset ≠ file.bytes.length ∨
      file.bytes.length = MAX_FILE_SIZE := by
  rw [WriteSound, pollable, wp_modifyGet, readyToWrite_eq]
  dsimp only
  cases hwritable : self.writable with
  | false =>
    refine iff_of_true (fun _ buf _ ↦ ?_) (.inl rfl)
    rw [wp_modifyGet, write, hwritable]
    rfl
  | true =>
    rw [Bool.true_and, decide_eq_false_iff_not, or_iff_right (by decide)]
    by_cases hend : file.offset = file.bytes.length
    · have hsize := file.size_le
      have hresult : ∀ buf, (self.write buf file).1.getD 0 = (writeLoop buf.length file buf).1 := by
        intro buf
        rw [write, hwritable]
        rfl
      rw [or_iff_right (not_not.mpr hend)]
      constructor
      · intro h
        -- one byte would be written if there were room
        have hnone := h (not_not.mpr hend) [0] ⟨by simp, by decide⟩
        rw [wp_modifyGet, hresult] at hnone
        have hroom : ¬file.offset < MAX_FILE_SIZE :=
          (writeLoop_pos_iff (List.cons_ne_nil 0 [])).not.mp (by rw [hnone]; exact lt_irrefl 0)
        omega
      · intro hfull _ buf hbuf
        rw [wp_modifyGet, hresult]
        have hroom : ¬0 < (writeLoop buf.length file buf).1 :=
          (writeLoop_pos_iff hbuf.1).not.mpr (by omega)
        omega
    · exact iff_of_true (fun hready ↦ absurd hend hready) (.inl hend)

end FatFile

/-! ## Pipes -/

namespace RingBuffer

/-- `is_full` -/
def isFull (self : RingBuffer) : Bool := self.len = self.sizeLimit

/-- `is_empty` -/
def isEmpty (self : RingBuffer) : Bool := self.len = 0

end RingBuffer

namespace PipeCall

variable {σ φ : Type} [FrameAllocator σ] {c : PipeCall} {ring : RingBuffer} {w : World σ φ}
  {checks : Bool} {strongCount : ℕ}

/-- A call whose task is resumed without any other having used the pipe. The count ends the loop
after three rounds. -/
def finish (checks : Bool) (strongCount : ℕ) :
    ℕ → PipeCall → EStateM Panic (RingBuffer × World σ φ) ℕ
  | 0, c => pure c.len
  | rounds + 1, c => do
    let (c, suspends) ← c.proceed checks strongCount
    if suspends then finish checks strongCount rounds c else pure c.len

theorem wp_locked_cnt {s : RingBuffer × World σ φ} :
    wp (c.locked checks) (fun c' _ ↦ c'.cnt = c.cnt) anyPanic s := by
  have hany : ∀ {α : Type} {x : EStateM Panic (RingBuffer × World σ φ) α}
      {f : α → EStateM Panic (RingBuffer × World σ φ) PipeCall} {s : RingBuffer × World σ φ},
      (∀ a t, wp (f a) (fun c' _ ↦ c'.cnt = c.cnt) anyPanic t) →
      wp (x >>= f) (fun c' _ ↦ c'.cnt = c.cnt) anyPanic s := fun h ↦
    (wp_bind _ _).mpr (wp_mono (wp_true _) (fun a t _ ↦ h a t) fun _ _ hp ↦ hp)
  rw [locked]
  refine hany fun part t ↦ ?_
  split_ifs
  · exact hany fun _ _ ↦ hany fun _ _ ↦ rfl
  · exact hany fun _ _ ↦ hany fun _ _ ↦ rfl

/-- A call suspends its task at most twice. -/
theorem wp_proceed_cnt {s : RingBuffer × World σ φ} :
    wp (c.proceed checks strongCount) (fun r _ ↦ r.2 = true → r.1.cnt = c.cnt + 1 ∧ r.1.cnt ≤ 2)
      anyPanic s := by
  rw [proceed, wp_bind]
  refine wp_imp wp_locked_cnt fun c' t hcnt ↦ ?_
  dsimp only
  split_ifs with hagain hlast
  · exact fun hfalse ↦ absurd hfalse Bool.false_ne_true
  · exact fun _ ↦ ⟨congrArg (· + 1) hcnt, not_lt.mp hlast⟩
  · exact fun hfalse ↦ absurd hfalse Bool.false_ne_true

/-- More rounds change nothing. -/
theorem finish_succ (rounds : ℕ) (h : 3 ≤ rounds + 1 + c.cnt) (s : RingBuffer × World σ φ) :
    (finish checks strongCount (rounds + 2) c).run s
      = (finish checks strongCount (rounds + 1) c).run s := by
  induction rounds generalizing c s with
  | zero =>
    refine run_bind_congr (wp_proceed_cnt) fun r t hr ↦ ?_
    obtain ⟨c', suspends⟩ := r
    cases suspends with
    | false => rfl
    | true =>
      obtain ⟨hcnt, hle⟩ := hr rfl
      dsimp only at hcnt hle
      omega
  | succ rounds ih =>
    refine run_bind_congr (wp_proceed_cnt) fun r t hr ↦ ?_
    obtain ⟨c', suspends⟩ := r
    cases suspends with
    | false => rfl
    | true =>
      obtain ⟨hcnt, -⟩ := hr rfl
      dsimp only at hcnt
      exact ih (by omega) t

theorem wp_proceed_read (hc : c.Ok) (h : ring.Ok w) (hread : c.isRead = true) :
    wp (c.proceed checks strongCount) (fun r t ↦ r.1.Ok ∧ t.1.Ok t.2 ∧ r.1.isRead = true ∧
      c.len + min (c.buf.length - c.len) ring.len ≤ r.1.len) noPanic (ring, w) := by
  rw [proceed, wp_bind]
  refine wp_imp (wp_locked_read hc h hread) fun c' t ht ↦ ?_
  obtain ⟨hok, hring, -, ⟨hside, -⟩, bytes, hmoved, hlen, -⟩ := ht
  have hle : c.len + min (c.buf.length - c.len) ring.len ≤ c'.len := by
    rw [hok.len_eq, hmoved, List.length_append, ← hc.len_eq, hlen]
  have hcounted : ({ c' with cnt := c'.cnt + 1 } : PipeCall).Ok :=
    ⟨hok.buf_lt, hok.len_eq, hok.moved_eq⟩
  dsimp only
  split_ifs
  · exact ⟨hcounted, hring, hside.trans hread, hle⟩
  · exact ⟨hcounted, hring, hside.trans hread, hle⟩
  · exact ⟨hok, hring, hside.trans hread, hle⟩

/-- A read has at the end what it got first. -/
theorem wp_finish_read (rounds : ℕ) (hc : c.Ok) (h : ring.Ok w) (hread : c.isRead = true) :
    wp (finish checks strongCount rounds c) (fun r _ ↦ c.len ≤ r ∧
      (rounds ≠ 0 → c.len + min (c.buf.length - c.len) ring.len ≤ r)) noPanic (ring, w) := by
  induction rounds generalizing c ring w with
  | zero => exact ⟨le_rfl, fun hne ↦ absurd rfl hne⟩
  | succ rounds ih =>
    rw [finish, wp_bind]
    refine wp_imp (wp_proceed_read hc h hread) fun r t ht ↦ ?_
    obtain ⟨c', suspends⟩ := r
    obtain ⟨hok, hring, hside, hle⟩ := ht
    have hmore : c.len ≤ c'.len := (Nat.le_add_right _ _).trans hle
    cases suspends with
    | false => exact ⟨hmore, fun _ ↦ hle⟩
    | true => exact wp_imp (ih hok hring hside) fun r _ hr ↦
        ⟨hmore.trans hr.1, fun _ ↦ hle.trans hr.1⟩

/-- A write to a full pipe moves nothing. -/
theorem wp_proceed_full (hc : c.Ok) (h : ring.Ok w) (hwrite : c.isRead = false)
    (hfull : ring.len = ring.sizeLimit) :
    wp (c.proceed checks strongCount) (fun r t ↦ r.1.Ok ∧ t.1.Ok t.2 ∧ r.1.isRead = false ∧
      t.1.len = t.1.sizeLimit ∧ r.1.len = c.len) anyPanic (ring, w) := by
  rw [proceed, wp_bind]
  refine wp_mono (wp_locked hc h) (fun c' t ht ↦ ?_) fun _ _ _ ↦ trivial
  obtain ⟨hok, hring, hlimit, ⟨hside, -⟩, bytes, hmoved, hmoves⟩ := ht
  have hlen : t.1.len = ring.len + bytes.length := by
    rw [Moves, if_neg (by rw [hwrite]; decide)] at hmoves
    have hcontents := congrArg List.length hmoves
    rwa [List.length_append, RingBuffer.length_contents, RingBuffer.length_contents] at hcontents
  have hle := hring.len_le
  -- nothing moves, because there is no room
  have hbytes : bytes.length = 0 := by omega
  have hsame : c'.len = c.len := by
    rw [hok.len_eq, hmoved, List.length_append, ← hc.len_eq, hbytes, Nat.add_zero]
  have hcounted : ({ c' with cnt := c'.cnt + 1 } : PipeCall).Ok :=
    ⟨hok.buf_lt, hok.len_eq, hok.moved_eq⟩
  have hstill : t.1.len = t.1.sizeLimit := by omega
  dsimp only
  split_ifs
  · exact ⟨hcounted, hring, hside.trans hwrite, hstill, hsame⟩
  · exact ⟨hcounted, hring, hside.trans hwrite, hstill, hsame⟩
  · exact ⟨hok, hring, hside.trans hwrite, hstill, hsame⟩

theorem wp_finish_full (rounds : ℕ) (hc : c.Ok) (h : ring.Ok w) (hwrite : c.isRead = false)
    (hfull : ring.len = ring.sizeLimit) :
    wp (finish checks strongCount rounds c) (fun r _ ↦ r = c.len) anyPanic (ring, w) := by
  induction rounds generalizing c ring w with
  | zero => rfl
  | succ rounds ih =>
    rw [finish, wp_bind]
    refine wp_imp (wp_proceed_full hc h hwrite hfull) fun r t ht ↦ ?_
    obtain ⟨c', suspends⟩ := r
    obtain ⟨hok, hring, hside, hstill, hsame⟩ := ht
    dsimp only at hsame
    cases suspends with
    | false => exact hsame
    | true => exact wp_imp (ih hok hring hside hstill) fun r _ hr ↦ hr.trans hsame

end PipeCall

/-- The limit of every pipe. -/
def PIPE_SIZE_LIMIT : ℕ := 0x40_000

/-- One end of a pipe. -/
structure Pipe where
  isRead : Bool
  /-- `Arc::strong_count(&self.data)` -/
  strongCount : ℕ

namespace Pipe

variable {σ φ : Type} [FrameAllocator σ] {self : Pipe} {ring : RingBuffer} {w : World σ φ}
  {checks : Bool}

def pollable (checks : Bool) (self : Pipe) : Pollable (RingBuffer × World σ φ) where
  readyToRead := do
    let s ← get
    pure (self.isRead && !s.1.isEmpty)
  readyToWrite := do
    let s ← get
    pure (!self.isRead && !s.1.isFull)
  read buf :=
    if self.isRead then some <$> PipeCall.finish checks self.strongCount 3 (.start true buf)
    else pure none
  write buf :=
    if self.isRead then pure none
    else some <$> PipeCall.finish checks self.strongCount 3 (.start false buf)

theorem readSound (h : ring.Ok w) : (self.pollable checks).ReadSound (ring, w) := by
  rw [ReadSound, pollable, wp_bind, wp_get, wp_pure]
  intro hready buf hbuf
  rw [Bool.and_eq_true, Bool.not_eq_true', RingBuffer.isEmpty, decide_eq_false_iff_not] at hready
  have hpos := List.length_pos_iff.mpr hbuf.1
  dsimp only
  rw [if_pos hready.1, wp_map]
  refine wp_imp (PipeCall.wp_finish_read 3 (.start hbuf.2) h rfl) fun r _ hr ↦ ?_
  have hle := hr.2 (by decide)
  change 0 + min (buf.length - 0) ring.len ≤ r at hle
  have hlen : ring.len ≠ 0 := hready.2
  change 0 < r
  omega

theorem writeSound (h : ring.Ok w) : (self.pollable checks).WriteSound (ring, w) := by
  rw [WriteSound, pollable, wp_bind, wp_get, wp_pure]
  intro hready buf hbuf
  cases hside : self.isRead with
  | true => rfl
  | false =>
    rw [hside, Bool.not_false, Bool.true_and, Bool.not_eq_false', RingBuffer.isFull,
      decide_eq_true_iff] at hready
    refine (wp_map _ _).mpr ?_
    exact wp_imp (PipeCall.wp_finish_full 3 (.start hbuf.2) h rfl hready) fun _ _ hr ↦ hr

end Pipe

/-! ## Sockets -/

namespace Socket

variable {self : Socket} {net : Net} {checks : Bool}

def pollable (checks : Bool) (self : Socket) : Pollable Net where
  readyToRead := self.readyToRead checks
  readyToWrite := self.readyToWrite
  read buf := Prod.fst <$> self.read checks buf
  write buf := self.write checks buf

/-- The port at which `ready_to_read` looks, unless it panics. -/
def polledPort (checks : Bool) (self : Socket) (port : Port) : Option Port :=
  if self.isListening then
    if checks ∧ 2 ^ 16 ≤ port.toNat + 100 then none else some (port + 100)
  else some port

/-- A read moves a byte if it looks at its own machine and the port has data. -/
theorem wp_read_iff {buf : List UInt8} (hbuf : buf ≠ []) {ip : BitVec 32} {port : Port}
    (h : self.localEndpoint = some (.ip ip port)) :
    wp (Prod.fst <$> self.read checks buf) (fun r _ ↦ 0 < r.getD 0) noPanic net ↔
      isLoopback ip = true ∧ net.queue port ≠ [] := by
  have hpos := List.length_pos_iff.mpr hbuf
  rw [wp_map, read, recvfrom, h]
  dsimp only [Option.getD_some]
  by_cases hip : isLoopback ip = true
  · rw [if_pos hip, if_neg (by decide), wp_bind, wp_pure, wp_modifyGet, and_iff_right hip]
    by_cases hqueue : net.queue port = []
    · rw [Net.readFromPort_nil hqueue]
      exact iff_of_false (lt_irrefl 0) (not_not.mpr hqueue)
    · rw [(Net.readFromPort_spec buf hqueue).1]
      have hlen := List.length_pos_iff.mpr hqueue
      exact iff_of_true (lt_min hlen hpos) hqueue
  · rw [if_neg hip]
    exact iff_of_false (lt_irrefl 0) fun hmeets ↦ hip hmeets.1

/-- The socket says that it is ready when the port at which it looks has data. -/
theorem wp_readyToRead {Q : Bool → Net → Prop} {ip : BitVec 32} {port : Port}
    (h : self.localEndpoint = some (.ip ip port)) :
    wp (self.readyToRead checks) Q anyPanic net ↔ ∀ polled,
      self.polledPort checks port = some polled → Q (net.canRead polled).isSome net := by
  rw [readyToRead, h, polledPort]
  cases self.isListening with
  | false =>
    rw [if_neg (by decide)]
    exact ⟨fun hq polled heq ↦ Option.some.inj heq ▸ hq, fun hq ↦ hq port rfl⟩
  | true =>
    dsimp only
    rw [if_pos rfl, if_pos rfl, wp_bind, addPort]
    change wp (if port.toNat + 100 < 2 ^ 16 then _ else _) _ _ _ ↔ _
    by_cases hlt : port.toNat + 100 < 2 ^ 16
    · rw [if_pos hlt, if_neg fun hover ↦ absurd hlt (not_lt.mpr hover.2)]
      exact ⟨fun hq polled heq ↦ Option.some.inj heq ▸ hq, fun hq ↦ hq _ rfl⟩
    · rw [if_neg hlt]
      cases checks with
      | false =>
        rw [if_neg (by decide), if_neg fun hover ↦ Bool.false_ne_true hover.1]
        exact ⟨fun hq polled heq ↦ Option.some.inj heq ▸ hq, fun hq ↦ hq _ rfl⟩
      | true =>
        rw [if_pos rfl, if_pos ⟨rfl, not_lt.mp hlt⟩]
        exact iff_of_true trivial fun polled heq ↦ by cases heq

theorem readSound_iff : (self.pollable checks).ReadSound net ↔
    ∀ ip port polled, self.localEndpoint = some (.ip ip port) →
      self.polledPort checks port = some polled → net.queue polled ≠ [] →
      isLoopback ip = true ∧ net.queue port ≠ [] := by
  change wp (self.readyToRead checks) (fun ready t ↦ ready = true → ∀ buf, IsBuffer buf →
    wp (Prod.fst <$> self.read checks buf) (fun r _ ↦ 0 < r.getD 0) noPanic t) anyPanic net ↔ _
  by_cases hlocal : ∃ ip port, self.localEndpoint = some (.ip ip port)
  · obtain ⟨ip, port, hlocal⟩ := hlocal
    have hread : (∀ buf, IsBuffer buf → wp (Prod.fst <$> self.read checks buf)
        (fun r _ ↦ 0 < r.getD 0) noPanic net) ↔ isLoopback ip = true ∧ net.queue port ≠ [] := by
      refine ⟨fun h ↦ ?_, fun h buf hbuf ↦ (wp_read_iff hbuf.1 hlocal).mpr h⟩
      exact (wp_read_iff (List.cons_ne_nil 0 []) hlocal).mp (h [0] ⟨by simp, by decide⟩)
    rw [wp_readyToRead hlocal, hread]
    constructor
    · intro h ip' port' polled heq hpolled hqueue
      obtain ⟨rfl, rfl⟩ := AddrType.ip.inj (Option.some.inj (hlocal.symm.trans heq))
      exact h polled hpolled (Net.canRead_isSome.mpr hqueue)
    · intro h polled hpolled hready
      exact h ip port polled hlocal hpolled (Net.canRead_isSome.mp hready)
  · -- without an address the socket is never ready
    have hnever : self.readyToRead checks = pure false := by
      rw [readyToRead]
      split
      · exact absurd ⟨_, _, ‹_›⟩ hlocal
      · rfl
    rw [hnever]
    refine iff_of_true (fun hfalse ↦ absurd hfalse Bool.false_ne_true) fun ip port _ heq ↦ ?_
    exact absurd ⟨ip, port, heq⟩ hlocal

/-- A write to a port moves nothing if and only if its queue is full. -/
theorem room_eq_zero_iff {port : Port} {buf : List UInt8} (hbuf : buf ≠ []) :
    net.room port buf = 0 ↔ (net.queue port).length = SOCKET_BUFFER_SIZE_LIMIT := by
  have hpos := List.length_pos_iff.mpr hbuf
  have hle : (net.queue port).length ≤ SOCKET_BUFFER_SIZE_LIMIT := Net.length_queue_le
  rw [Net.room]
  omega

/-- The port to which a socket writes that has a port as its remote endpoint. -/
def writtenPort (net : Net) (port : Port) : Port :=
  if port = 0 then net.getEphemeralPort.1 - 1 else port

theorem wp_write_iff {buf : List UInt8} (hbuf : buf ≠ []) {ip : BitVec 32} {port : Port}
    (h : self.remoteEndpoint = some (.ip ip port)) :
    wp (self.write checks buf) (fun r _ ↦ r.getD 0 = 0) anyPanic net ↔
      (isLoopback ip = true →
        (net.queue (writtenPort net port)).length = SOCKET_BUFFER_SIZE_LIMIT) := by
  -- whatever port it is, a full queue takes nothing
  have hwritten : ∀ (net' : Net) (target : Port), net'.queue target = net.queue target →
      (wp (modifyGet (Net.writeToPort target buf) : EStateM Panic Net (Option ℕ))
        (fun r _ ↦ r.getD 0 = 0) anyPanic net' ↔
        (net.queue target).length = SOCKET_BUFFER_SIZE_LIMIT) := by
    intro net' target hsame
    rw [wp_modifyGet, (Net.writeToPort_spec net' target buf).1, ← hsame, ← room_eq_zero_iff hbuf]
    split_ifs with hroom
    · exact iff_of_true rfl hroom
    · exact Iff.rfl
  rw [write, sendto, h]
  dsimp only [Option.getD_some]
  by_cases hip : isLoopback ip = true
  · rw [if_pos hip, wp_bind, sendPort, if_neg (by decide), writtenPort]
    by_cases hzero : port = 0
    · have hle : 49152 ≤ net.getEphemeralPort.1.toNat := Net.le_getEphemeralPort
      rw [if_pos hzero, if_pos hzero, wp_bind, wp_modifyGet, subPort,
        if_pos (show (1 : Port).toNat ≤ _ from (by decide : 1 ≤ 49152).trans hle), wp_pure,
        hwritten net.getEphemeralPort.2 _ rfl]
      exact ⟨fun hfull _ ↦ hfull, fun hfull ↦ hfull hip⟩
    · rw [if_neg hzero, if_neg hzero, wp_pure, hwritten net _ rfl]
      exact ⟨fun hfull _ ↦ hfull, fun hfull ↦ hfull hip⟩
  · rw [if_neg hip]
    exact iff_of_true rfl fun hyes ↦ absurd hyes hip

theorem writeSound_iff : (self.pollable checks).WriteSound net ↔
    ∀ ip, self.remoteEndpoint = some (.ip ip 0) →
      (net.queue 0).length = SOCKET_BUFFER_SIZE_LIMIT → isLoopback ip = true →
      (net.queue (net.getEphemeralPort.1 - 1)).length = SOCKET_BUFFER_SIZE_LIMIT := by
  change wp self.readyToWrite (fun ready t ↦ ready = false → ∀ buf, IsBuffer buf →
    wp (self.write checks buf) (fun r _ ↦ r.getD 0 = 0) anyPanic t) anyPanic net ↔ _
  by_cases hremote : ∃ ip port, self.remoteEndpoint = some (.ip ip port)
  · obtain ⟨ip, port, hremote⟩ := hremote
    have hfull : (net.canWrite port).isSome = false ↔
        (net.queue port).length = SOCKET_BUFFER_SIZE_LIMIT := by
      rw [← Bool.not_eq_true, Net.canWrite_isSome, not_lt]
      exact (Net.length_queue_le.ge_iff_eq' (b := _)).trans eq_comm
    have hwrite : (∀ buf, IsBuffer buf →
        wp (self.write checks buf) (fun r _ ↦ r.getD 0 = 0) anyPanic net) ↔
          (isLoopback ip = true →
            (net.queue (writtenPort net port)).length = SOCKET_BUFFER_SIZE_LIMIT) := by
      refine ⟨fun h ↦ ?_, fun h buf hbuf ↦ (wp_write_iff hbuf.1 hremote).mpr h⟩
      exact (wp_write_iff (List.cons_ne_nil 0 []) hremote).mp (h [0] ⟨by simp, by decide⟩)
    rw [readyToWrite, hremote]
    dsimp only
    rw [wp_bind, wp_get, wp_pure, hfull, hwrite, writtenPort]
    by_cases hzero : port = 0
    · subst hzero
      rw [if_pos rfl]
      constructor
      · intro h ip' heq
        obtain ⟨rfl, -⟩ := AddrType.ip.inj (Option.some.inj heq)
        exact h
      · exact fun h ↦ h ip rfl
    · rw [if_neg hzero]
      refine iff_of_true (fun h _ ↦ h) fun ip' heq ↦ ?_
      exact absurd (AddrType.ip.inj (Option.some.inj heq)).2 hzero
  · -- without an address the socket is always ready
    have halways : self.readyToWrite = pure true := by
      rw [readyToWrite]
      split
      · exact absurd ⟨_, _, ‹_›⟩ hremote
      · rfl
    rw [halways]
    refine iff_of_true (fun hfalse ↦ absurd hfalse.symm Bool.false_ne_true) fun ip heq ↦ ?_
    exact absurd ⟨ip, 0, heq⟩ hremote

end Socket

/-! ## All files -/

/-- A file that is asked whether it is ready, with its state. -/
inductive PolledFile (σ φ : Type)
  | fat (self : FatFile) (file : FsFile)
  | pipe (self : Pipe) (ring : RingBuffer) (world : World σ φ)
  | socket (self : Socket) (net : Net)

namespace PolledFile

variable {σ φ : Type} [FrameAllocator σ] {checks : Bool} {file : PolledFile σ φ}

/-- The states that a file comes to. The types of the others say what is kept. -/
def Reachable (checks : Bool) : PolledFile σ φ → Prop
  | fat _ _ => True
  | pipe _ ring world => ∃ S : PipeSystem ℕ σ φ,
      PipeSystem.Reach checks PIPE_SIZE_LIMIT S ∧ S.ring = ring ∧ S.world = world
  | socket _ _ => True

/-- What the file says of itself is what the calls that follow do. -/
def ReadySound (checks : Bool) : PolledFile σ φ → Prop
  | fat self file => self.pollable.WriteSound file ∧ self.pollable.ReadSound file
  | pipe self ring world => (self.pollable checks).WriteSound (ring, world) ∧
      (self.pollable checks).ReadSound (ring, world)
  | socket self net => (self.pollable checks).WriteSound net ∧ (self.pollable checks).ReadSound net

/-- When a file tells the truth. -/
def Truthful (checks : Bool) : PolledFile σ φ → Prop
  | fat self file => self.writable = false ∨ file.offset ≠ file.bytes.length ∨
      file.bytes.length = MAX_FILE_SIZE
  | pipe _ _ _ => True
  | socket self net =>
      (∀ ip, self.remoteEndpoint = some (.ip ip 0) →
        (net.queue 0).length = SOCKET_BUFFER_SIZE_LIMIT → Socket.isLoopback ip = true →
        (net.queue (net.getEphemeralPort.1 - 1)).length = SOCKET_BUFFER_SIZE_LIMIT) ∧
      ∀ ip port polled, self.localEndpoint = some (.ip ip port) →
        self.polledPort checks port = some polled → net.queue polled ≠ [] →
        Socket.isLoopback ip = true ∧ net.queue port ≠ []

end PolledFile

end Maturin
