import Maturin.File.RingBuffer
import Maturin.Memory.Bitmap
import Mathlib.Logic.Function.Basic

/-!
# Pipes

Every end of a pipe is an `Arc` of the same locked `RingBuffer`. A call of `read` or `write` moves
what it can under the lock, and when that is not everything it suspends its task and tries again, at
most twice. At every suspension other tasks run: they call the pipe themselves, close an end, or
work elsewhere in memory.

A call between two of its locked sections is a `PipeCall`. What the buffer accepted and served is
recorded beside the state, in the order in which it did so.
-/

open Exec Function

namespace Maturin

variable {τ σ φ : Type}

namespace RingBuffer

variable [FrameAllocator σ]

/-- Other tasks leave the frames of the buffer alone, which are its own as long as it lives. -/
def LeftAlone (ring : RingBuffer) (w w' : World σ φ) : Prop :=
  ∀ p ∈ ring.data.frames, p ∈ w'.inUse ∧ ∀ x, p ≤ x → x < p + PAGE_SIZE → w'.mem x = w.mem x

variable {ring : RingBuffer} {w w' : World σ φ}

theorem Ok.of_leftAlone (hring : ring.Ok w) (h : ring.LeftAlone w w') : ring.Ok w' := by
  have hframes : ∀ p ∈ ring.data.frames, PageAligned p ∧ p < 2 ^ 56 ∧ p ∈ w'.inUse :=
    fun p hp ↦ ⟨(hring.data.frame p hp).1, (hring.data.frame p hp).2.1, (h p hp).1⟩
  exact { hring with data := ⟨hring.data.nodup, hframes, hring.data.size_le⟩ }

/-- Steps elsewhere in memory do not change the queue. -/
theorem Ok.contents_of_leftAlone (hring : ring.Ok w) (h : ring.LeftAlone w w') :
    ring.contents w'.mem = ring.contents w.mem := by
  refine Ring.contents_congr fun i hi ↦ ?_
  refine VirtFileInner.pageByte_congr (fun p hp ↦ (h p hp).2) ?_
  exact (hring.wrap_lt hi).trans_le hring.data.size_le

end RingBuffer

/-! ## Calls -/

/-- A call of `Pipe::read` or `Pipe::write`, before one of its locked sections. -/
structure PipeCall where
  isRead : Bool
  /-- The argument; a read fills it. -/
  buf : List UInt8
  /-- `read_len` or `write_len` -/
  len : ℕ
  cnt : ℕ
  /-- The bytes that the buffer has moved for this call. No function reads it. -/
  moved : List UInt8

namespace PipeCall

/-- The call when it starts. -/
def start (isRead : Bool) (buf : List UInt8) : PipeCall := ⟨isRead, buf, 0, 0, []⟩

variable [FrameAllocator σ]

/-- `read_len += self.data.lock().read(&mut buf[read_len..])`, and the same for a write. -/
def locked (checks : Bool) (c : PipeCall) : EStateM Panic (RingBuffer × World σ φ) PipeCall := do
  let part ← slice c.buf c.len c.buf.length
  if c.isRead then
    let (n, part) ← RingBuffer.read checks part
    let len ← addUsize checks c.len n
    pure { c with buf := c.buf.take c.len ++ part, len, moved := c.moved ++ part.take n }
  else
    let n ← RingBuffer.write checks part
    let len ← addUsize checks c.len n
    pure { c with len, moved := c.moved ++ part.take n }

/-- A locked section and the head of the loop after it. The result is the call with whether it
suspends its task; otherwise it returns `Some(len)`. -/
def proceed (checks : Bool) (strongCount : ℕ) (c : PipeCall) :
    EStateM Panic (RingBuffer × World σ φ) (PipeCall × Bool) := do
  let c ← c.locked checks
  if c.len < c.buf.length ∧ strongCount = 2 then
    let c := { c with cnt := c.cnt + 1 }
    if c.cnt > 2 then pure (c, false) else pure (c, true)
  else pure (c, false)

end PipeCall

/-! ## The tasks that use a pipe -/

/-- A pipe, the calls in progress, and the record of what happened. -/
structure PipeSystem (τ σ φ : Type) where
  ring : RingBuffer
  world : World σ φ
  calls : τ → Option PipeCall
  /-- The bytes that the buffer accepted. -/
  accepted : List UInt8
  /-- The bytes that the buffer served. -/
  served : List UInt8
  /-- The calls that returned, with their results. -/
  returned : List (PipeCall × Option ℕ)

namespace PipeSystem

/-- A new pipe with the given size limit. -/
def new (sizeLimit : ℕ) (world : World σ φ) : PipeSystem τ σ φ :=
  ⟨.new sizeLimit, world, fun _ ↦ none, [], [], []⟩

variable [DecidableEq τ]

/-- A task calls `read` or `write` on an end of the pipe; the wrong end answers `None`. -/
def call (S : PipeSystem τ σ φ) (task : τ) (endIsRead isRead : Bool) (buf : List UInt8) :
    PipeSystem τ σ φ :=
  if endIsRead = isRead then
    { S with calls := update S.calls task (some (.start isRead buf)) }
  else { S with returned := (.start isRead buf, none) :: S.returned }

/-- A task has been through a locked section of its call `c`, which became `c'`. -/
def proceeded (S : PipeSystem τ σ φ) (task : τ) (c c' : PipeCall) (suspends : Bool)
    (ring : RingBuffer) (world : World σ φ) : PipeSystem τ σ φ where
  ring
  world
  calls := update S.calls task (if suspends then some c' else none)
  accepted := if c.isRead then S.accepted else S.accepted ++ c'.moved.drop c.moved.length
  served := if c.isRead then S.served ++ c'.moved.drop c.moved.length else S.served
  returned := if suspends then S.returned else (c', some c'.len) :: S.returned

variable [FrameAllocator σ]

/-- Other tasks leave the frames of the pipe alone, which are the pipe's as long as it lives. -/
def Undisturbed (S : PipeSystem τ σ φ) (world : World σ φ) : Prop :=
  ∀ p ∈ S.ring.data.frames, p ∈ world.inUse ∧
    ∀ x, p ≤ x → x < p + PAGE_SIZE → world.mem x = S.world.mem x

/-- A step of some task. A slice has at most `isize::MAX` bytes. -/
inductive Step (checks : Bool) (S : PipeSystem τ σ φ) : PipeSystem τ σ φ → Prop
  | call (task : τ) (endIsRead isRead : Bool) (buf : List UInt8) (hfree : S.calls task = none)
      (hbuf : buf.length < 2 ^ 63) : Step checks S (S.call task endIsRead isRead buf)
  | proceed (task : τ) (c c' : PipeCall) (strongCount : ℕ) (suspends : Bool) (ring : RingBuffer)
      (world : World σ φ) (hc : S.calls task = some c)
      (hrun : (c.proceed checks strongCount).run (S.ring, S.world) =
        .ok (c', suspends) (ring, world)) :
      Step checks S (S.proceeded task c c' suspends ring world)
  | other (world : World σ φ) (h : S.Undisturbed world) : Step checks S { S with world }

/-- The states that a pipe with the given limit comes to. -/
inductive Reach (checks : Bool) (sizeLimit : ℕ) : PipeSystem τ σ φ → Prop
  | new (h : sizeLimit < 2 ^ 64) (world : World σ φ) : Reach checks sizeLimit (new sizeLimit world)
  | step {S S' : PipeSystem τ σ φ} (h : Reach checks sizeLimit S) (hstep : Step checks S S') :
      Reach checks sizeLimit S'

end PipeSystem

/-! ## What a locked section does -/

namespace PipeCall

/-- The length counts the moved bytes, and the front of the buffer is what was moved. -/
structure Ok (c : PipeCall) : Prop where
  buf_lt : c.buf.length < 2 ^ 63
  len_eq : c.len = c.moved.length
  moved_eq : c.buf.take c.len = c.moved

theorem Ok.start {isRead : Bool} {buf : List UInt8} (h : buf.length < 2 ^ 63) :
    (PipeCall.start isRead buf).Ok := ⟨h, rfl, rfl⟩

theorem Ok.len_le {c : PipeCall} (h : c.Ok) : c.len ≤ c.buf.length := by
  have hlen := congrArg List.length h.moved_eq
  rw [List.length_take, ← h.len_eq] at hlen
  omega

variable [FrameAllocator σ] {c : PipeCall} {ring : RingBuffer} {w : World σ φ} {checks : Bool}

/-- The call when a read has filled `bytes` into its buffer. -/
theorem Ok.filled (hc : c.Ok) {bytes part : List UInt8} {n : ℕ} (hn : n = bytes.length)
    (hpart : c.len + (bytes.length + part.length) = c.buf.length) :
    ({ c with
        buf := c.buf.take c.len ++ (bytes ++ part)
        len := c.len + n
        moved := c.moved ++ bytes } : PipeCall).Ok := by
  subst hn
  have hlen : (c.buf.take c.len).length = c.len := List.length_take_of_le hc.len_le
  refine ⟨?_, ?_, ?_⟩
  · have hlt := hc.buf_lt
    simp only [List.length_append, hlen]
    omega
  · simp only [List.length_append, hc.len_eq]
  · dsimp only
    rw [← List.append_assoc, List.take_left' (by rw [List.length_append, hlen]), hc.moved_eq]

/-- The call when a write has taken `n` bytes from its buffer. -/
theorem Ok.emptied (hc : c.Ok) {n : ℕ} (hn : n ≤ c.buf.length - c.len) :
    ({ c with len := c.len + n, moved := c.moved ++ (c.buf.drop c.len).take n } : PipeCall).Ok := by
  refine ⟨hc.buf_lt, ?_, ?_⟩
  · simp only [List.length_append, List.length_take, List.length_drop, hc.len_eq] at hn ⊢
    omega
  · dsimp only
    rw [List.take_add, hc.moved_eq]

/-- `bytes` went from the front of the queue to a reader, or from a writer to its back. -/
def Moves (isRead : Bool) (bytes queue queue' : List UInt8) : Prop :=
  if isRead then queue = bytes ++ queue' else queue' = queue ++ bytes

/-- The same call, with a buffer of the same length. -/
def Continues (c c' : PipeCall) : Prop :=
  c'.isRead = c.isRead ∧ c'.buf.length = c.buf.length

/-- A locked section of a read takes as many bytes as it wants, or as there are. -/
theorem wp_locked_read (hc : c.Ok) (h : ring.Ok w) (hread : c.isRead = true) :
    wp (c.locked checks) (fun c' t ↦ c'.Ok ∧ t.1.Ok t.2 ∧ t.1.sizeLimit = ring.sizeLimit ∧
      c.Continues c' ∧ ∃ bytes, c'.moved = c.moved ++ bytes ∧
        bytes.length = min (c.buf.length - c.len) ring.len ∧
        ring.contents w.mem = bytes ++ t.1.contents t.2.mem) noPanic (ring, w) := by
  have hle := hc.len_le
  have hlt := hc.buf_lt
  have hpart : (c.buf.drop c.len).length = c.buf.length - c.len := List.length_drop
  rw [locked, wp_bind, wp_slice hle le_rfl, List.take_of_length_le hpart.le, if_pos hread, wp_bind]
  refine wp_imp (ring.wp_read h) fun r t hr ↦ ?_
  obtain ⟨n, part⟩ := r
  obtain ⟨hok, hlimit, hn, hbuf, hcontents⟩ := hr
  dsimp only at hn hbuf hcontents ⊢
  have hmin : n ≤ ring.len := hn ▸ Nat.min_le_right _ _
  have hmin' : n ≤ c.buf.length - c.len := hn ▸ hpart ▸ Nat.min_le_left _ _
  have htake : ((ring.contents w.mem).take n).length = n :=
    List.length_take_of_le (by rwa [RingBuffer.length_contents])
  rw [hbuf, wp_bind, wp_addUsize (by omega), wp_pure, List.take_left' htake]
  have hlen : c.len + (n + ((c.buf.drop c.len).drop n).length) = c.buf.length := by
    rw [List.length_drop, hpart]
    omega
  refine ⟨hc.filled htake.symm (by rwa [htake]), hok, hlimit, ⟨rfl, ?_⟩, _, rfl, ?_, ?_⟩
  · rwa [List.length_append, List.length_append, List.length_take_of_le hle, htake]
  · rw [htake, hn, hpart]
  · rw [hcontents, List.take_append_drop]

/-- A locked section moves some bytes between the call and the queue. -/
theorem wp_locked (hc : c.Ok) (h : ring.Ok w) :
    wp (c.locked checks) (fun c' t ↦ c'.Ok ∧ t.1.Ok t.2 ∧ t.1.sizeLimit = ring.sizeLimit ∧
      c.Continues c' ∧ ∃ bytes, c'.moved = c.moved ++ bytes ∧
        Moves c.isRead bytes (ring.contents w.mem) (t.1.contents t.2.mem)) noFrame (ring, w) := by
  by_cases hread : c.isRead = true
  · refine wp_mono (wp_locked_read hc h hread) (fun c' t ht ↦ ?_) fun _ _ hf ↦ hf.elim
    obtain ⟨hok, hring, hlimit, hcont, bytes, hmoved, -, hcontents⟩ := ht
    refine ⟨hok, hring, hlimit, hcont, bytes, hmoved, ?_⟩
    rwa [Moves, if_pos hread]
  · have hle := hc.len_le
    have hlt := hc.buf_lt
    have hpart : (c.buf.drop c.len).length = c.buf.length - c.len := List.length_drop
    rw [locked, wp_bind, wp_slice hle le_rfl, List.take_of_length_le hpart.le, if_neg hread,
      wp_bind]
    refine wp_imp (ring.wp_write h (by omega)) fun n t hr ↦ ?_
    obtain ⟨hok, hlimit, hn, hcontents⟩ := hr
    have hmin : n ≤ c.buf.length - c.len := hn ▸ hpart ▸ Nat.min_le_left _ _
    rw [wp_bind, wp_addUsize (by omega), wp_pure]
    refine ⟨hc.emptied hmin, hok, hlimit, ⟨rfl, rfl⟩, _, rfl, ?_⟩
    rw [Moves, if_neg hread, hcontents]

/-- A step of a call: a locked section, and then the task suspends or the call returns. -/
theorem wp_proceed {strongCount : ℕ} (hc : c.Ok) (h : ring.Ok w) :
    wp (c.proceed checks strongCount) (fun r t ↦ r.1.Ok ∧ t.1.Ok t.2 ∧
      t.1.sizeLimit = ring.sizeLimit ∧ ∃ bytes, r.1.moved = c.moved ++ bytes ∧
        Moves c.isRead bytes (ring.contents w.mem) (t.1.contents t.2.mem)) noFrame (ring, w) := by
  rw [proceed, wp_bind]
  refine wp_imp (wp_locked hc h) fun c' t ht ↦ ?_
  obtain ⟨hok, hring, hlimit, -, hrest⟩ := ht
  dsimp only
  split_ifs
  · exact ⟨⟨hok.buf_lt, hok.len_eq, hok.moved_eq⟩, hring, hlimit, hrest⟩
  · exact ⟨⟨hok.buf_lt, hok.len_eq, hok.moved_eq⟩, hring, hlimit, hrest⟩
  · exact ⟨hok, hring, hlimit, hrest⟩

end PipeCall

/-! ## Runs -/

namespace PipeSystem

/-- A call that returned says how many bytes it moved, and a read has them in its buffer. -/
def Honest (c : PipeCall) (result : Option ℕ) : Prop :=
  (result = none ∧ c.moved = []) ∨
    (result = some c.moved.length ∧ c.buf.take c.moved.length = c.moved)

theorem honest_of_ok {c : PipeCall} (h : c.Ok) : Honest c (some c.len) := by
  refine Or.inr ⟨by rw [h.len_eq], ?_⟩
  rw [← h.len_eq, h.moved_eq]

variable [FrameAllocator σ]

/-- What every step keeps: what was accepted and not served yet is in the buffer. -/
structure Inv (sizeLimit : ℕ) (S : PipeSystem τ σ φ) : Prop where
  ring : S.ring.Ok S.world
  limit : S.ring.sizeLimit = sizeLimit
  fifo : S.accepted = S.served ++ S.ring.contents S.world.mem
  calls : ∀ task c, S.calls task = some c → c.Ok
  returned : ∀ r ∈ S.returned, Honest r.1 r.2

variable [DecidableEq τ] {S S' : PipeSystem τ σ φ} {checks : Bool} {sizeLimit : ℕ}

omit [DecidableEq τ] in
theorem Inv.other (h : S.Inv sizeLimit) {world : World σ φ} (hother : S.Undisturbed world) :
    ({ S with world } : PipeSystem τ σ φ).Inv sizeLimit :=
  ⟨h.ring.of_leftAlone hother, h.limit,
    h.fifo.trans (by rw [h.ring.contents_of_leftAlone hother]), h.calls, h.returned⟩

/-- A call starts with nothing moved. -/
theorem Inv.call (h : S.Inv sizeLimit) (task : τ) (endIsRead isRead : Bool) {buf : List UInt8}
    (hbuf : buf.length < 2 ^ 63) : (S.call task endIsRead isRead buf).Inv sizeLimit := by
  rw [PipeSystem.call]
  split_ifs
  · refine ⟨h.ring, h.limit, h.fifo, fun task' c hc ↦ ?_, h.returned⟩
    dsimp only at hc
    rcases eq_or_ne task' task with rfl | hne
    · rw [update_self, Option.some.injEq] at hc
      exact hc ▸ .start hbuf
    · rw [update_of_ne hne] at hc
      exact h.calls task' c hc
  · refine ⟨h.ring, h.limit, h.fifo, h.calls, fun r hr ↦ ?_⟩
    rcases List.mem_cons.mp hr with rfl | hr
    · exact Or.inl ⟨rfl, rfl⟩
    · exact h.returned r hr

/-- **Every step keeps the invariant.** -/
theorem Inv.step (h : S.Inv sizeLimit) (hstep : Step checks S S') : S'.Inv sizeLimit := by
  cases hstep with
  | call task endIsRead isRead buf hfree hbuf => exact h.call task endIsRead isRead hbuf
  | other world hother => exact h.other hother
  | proceed task c c' strongCount suspends ring world hc hrun =>
    have hres := wp_ok (PipeCall.wp_proceed (h.calls task c hc) h.ring) hrun
    obtain ⟨hc', hring, hlimit, bytes, hmoved, hmoves⟩ := hres
    dsimp only at hc' hring hlimit hmoved hmoves
    have hdrop : c'.moved.drop c.moved.length = bytes := by rw [hmoved, List.drop_left]
    refine ⟨hring, hlimit.trans h.limit, ?_, fun task' d hd ↦ ?_, fun r hr ↦ ?_⟩
    · simp only [proceeded, hdrop]
      rw [PipeCall.Moves] at hmoves
      split_ifs at hmoves ⊢ with hread
      · rw [h.fifo, hmoves, List.append_assoc]
      · rw [h.fifo, hmoves, List.append_assoc]
    · dsimp only [proceeded] at hd
      rcases eq_or_ne task' task with rfl | hne
      · rw [update_self] at hd
        split_ifs at hd
        exact Option.some.inj hd ▸ hc'
      · rw [update_of_ne hne] at hd
        exact h.calls task' d hd
    · dsimp only [proceeded] at hr
      split_ifs at hr
      · exact h.returned r hr
      · rcases List.mem_cons.mp hr with rfl | hr
        · exact honest_of_ok hc'
        · exact h.returned r hr

theorem Reach.inv (h : Reach checks sizeLimit S) : S.Inv sizeLimit := by
  induction h with
  | new hlimit world =>
    exact ⟨.new hlimit, rfl, rfl, fun _ _ hc ↦ absurd hc (by simp [PipeSystem.new]),
      fun _ hr ↦ absurd hr List.not_mem_nil⟩
  | step _ hstep ih => exact ih.step hstep

/-- **A pipe is a lossless queue.** In every state that calls of any tasks come to, the accepted
bytes are the served ones and then the content of the buffer, which is never longer than the limit;
a call that returned says how many bytes it moved; and the next locked section of a call does not
panic unless there is no frame left, also in a build that checks arithmetic. -/
theorem pipe_fifo (h : Reach checks sizeLimit S) :
    S.accepted = S.served ++ S.ring.contents S.world.mem ∧
    (S.ring.contents S.world.mem).length = S.ring.len ∧ S.ring.len ≤ sizeLimit ∧
    (∀ r ∈ S.returned, Honest r.1 r.2) ∧
    ∀ task c strongCount, S.calls task = some c →
      wp (c.proceed checks strongCount) (fun _ _ ↦ True) noFrame (S.ring, S.world) := by
  have hinv := h.inv
  refine ⟨hinv.fifo, RingBuffer.length_contents, hinv.limit ▸ hinv.ring.len_le, hinv.returned,
    fun task c strongCount hc ↦ ?_⟩
  exact wp_imp (PipeCall.wp_proceed (hinv.calls task c hc) hinv.ring) fun _ _ _ ↦ trivial

/-- A write of three bytes to a pipe for two. -/
theorem pipe_fifo_two : ∃ S : PipeSystem ℕ Bitmap Unit, S.accepted = [1, 2] ∧
    S.accepted = S.served ++ S.ring.contents S.world.mem ∧ S.ring.len ≤ 2 := by
  have hnew : Reach true 2 (new 2 World.boot : PipeSystem ℕ Bitmap Unit) := .new (by decide) _
  have hcall := hnew.step (.call 0 false false [1, 2, 3] rfl (by decide))
  obtain ⟨⟨c', suspends⟩, ⟨ring, world⟩, hrun, hmoved⟩ := exists_of_returns
    (show returns ((PipeCall.start false [1, 2, 3]).proceed true 2) (.new 2, World.boot)
      (fun r _ ↦ r.1.moved == [1, 2]) = true by decide +kernel)
  have hreach := hcall.step (.proceed 0 _ c' 2 suspends ring world rfl hrun)
  obtain ⟨hfifo, -, hlen, -⟩ := pipe_fifo hreach
  exact ⟨_, by simpa [proceeded, PipeCall.start, PipeSystem.call, PipeSystem.new] using hmoved,
    hfifo, hlen⟩

end PipeSystem

end Maturin
