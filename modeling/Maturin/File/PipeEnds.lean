import Maturin.File.Pipe
import Maturin.Lib.Throughout

/-!
# The end of a pipe's data

A writer writes to a pipe and then closes its end, a reader reads until `read` answers `Some(0)`. In
between both are at one of two points of their call: before a locked section, or after it, where
they compare what they have moved with what was asked and look whether the other end is still there.
The buffer may change between the two.

## When the answer is the end

A call gives up after two suspensions, so a read that finds nothing three times answers `Some(0)`
although the write end is open. And a writer may put its last bytes into the buffer and close its
end after the reader's locked section, but before the reader looks at the count. A read without
bytes looks *in time* if the one and the other are not the case, and in a run of which all reads
look in time the answer `Some(0)` is the end of the data.
-/

open Exec Function

namespace Maturin

variable {σ φ : Type}

namespace PipeCall

/-- The head of the loop: the call, and whether it suspends its task and tries again. -/
def again (strongCount : ℕ) (c : PipeCall) : PipeCall × Bool :=
  if c.len < c.buf.length ∧ strongCount = 2 then
    let c := { c with cnt := c.cnt + 1 }
    if c.cnt > 2 then (c, false) else (c, true)
  else (c, false)

/-- What a call does in one go is a locked section and the head of the loop. -/
theorem proceed_eq [FrameAllocator σ] (checks : Bool) (strongCount : ℕ) (c : PipeCall) :
    c.proceed checks strongCount =
      (do return (← c.locked checks).again strongCount :
        EStateM Panic (RingBuffer × World σ φ) (PipeCall × Bool)) := by
  rw [proceed]
  congr 1
  funext c
  dsimp only [again]
  split_ifs <;> rfl

/-- Does the call try again? -/
def Again (strongCount : ℕ) (c : PipeCall) : Prop :=
  c.len < c.buf.length ∧ strongCount = 2 ∧ c.cnt < 2

theorem again_of {strongCount : ℕ} {c : PipeCall} (h : c.Again strongCount) :
    c.again strongCount = ({ c with cnt := c.cnt + 1 }, true) := by
  obtain ⟨hlen, hcount, hcnt⟩ := h
  rw [again, if_pos ⟨hlen, hcount⟩]
  exact if_neg (by dsimp only; omega)

theorem again_of_not {strongCount : ℕ} {c : PipeCall} (h : ¬c.Again strongCount) :
    ∃ cnt, c.again strongCount = ({ c with cnt }, false) := by
  rw [again]
  split_ifs with hloop
  · refine ⟨c.cnt + 1, if_pos ?_⟩
    by_contra hcnt
    exact h ⟨hloop.1, hloop.2, by dsimp only at hcnt; omega⟩
  · exact ⟨c.cnt, rfl⟩

end PipeCall

/-- Where the user of an end is. -/
inductive PipePoint
  | idle
  | locking (c : PipeCall)
  | counting (c : PipeCall)

namespace PipePoint

/-- The call in progress. -/
def call : PipePoint → Option PipeCall
  | idle => none
  | locking c => some c
  | counting c => some c

/-- The bytes that the call in progress has moved. -/
def moved (p : PipePoint) : List UInt8 := (p.call.map PipeCall.moved).getD []

end PipePoint

/-- A pipe with its two users, each of which is named by the `is_read` of its end. -/
structure PipeEnds (σ φ : Type) where
  ring : RingBuffer
  world : World σ φ
  point : Bool → PipePoint
  writeEndOpen : Bool
  /-- The bytes that calls of `write` said they had written. -/
  reported : List UInt8
  /-- The bytes that calls of `read` returned. -/
  obtained : List UInt8
  /-- A read answered `Some(0)`. -/
  eof : Bool

/-- What happens next, to a user or elsewhere. -/
inductive PipeEvent (σ φ : Type)
  | call (isRead : Bool) (buf : List UInt8)
  | locked (isRead : Bool)
  | count (isRead : Bool)
  | close
  | other (world : World σ φ)

namespace PipeEnds

/-- `Pipe::new_pipe`, with the given size limit. -/
def new (sizeLimit : ℕ) (world : World σ φ) : PipeEnds σ φ :=
  ⟨.new sizeLimit, world, fun _ ↦ .idle, true, [], [], false⟩

/-- `Arc::strong_count(&self.data)`. The reader keeps its end. -/
def strongCount (S : PipeEnds σ φ) : ℕ := if S.writeEndOpen then 2 else 1

/-- The user of an end is at another point. -/
def setPoint (S : PipeEnds σ φ) (isRead : Bool) (p : PipePoint) : PipeEnds σ φ :=
  { S with point := update S.point isRead p }

/-- A call returns `Some(len)`. -/
def returns (S : PipeEnds σ φ) (isRead : Bool) (c : PipeCall) : PipeEnds σ φ :=
  if isRead then
    { S.setPoint isRead .idle with
      obtained := S.obtained ++ c.buf.take c.len, eof := S.eof || c.len == 0 }
  else { S.setPoint isRead .idle with reported := S.reported ++ c.buf.take c.len }

variable [FrameAllocator σ]

/-- One event. -/
def step (checks : Bool) (S : PipeEnds σ φ) : PipeEvent σ φ → PipeEnds σ φ
  | .call isRead buf => S.setPoint isRead (.locking (.start isRead buf))
  | .locked isRead =>
    match S.point isRead with
    | .locking c =>
      match (c.locked checks).run (S.ring, S.world) with
      | .ok c (ring, world) => { S with ring, world }.setPoint isRead (.counting c)
      | .error _ _ => S
    | _ => S
  | .count isRead =>
    match S.point isRead with
    | .counting c =>
      match c.again S.strongCount with
      | (c, true) => S.setPoint isRead (.locking c)
      | (c, false) => S.returns isRead c
    | _ => S
  | .close => { S with writeEndOpen := false }
  | .other world => { S with world }

/-- May the event come next? A user makes one call after the other, the writer until it closes its
end, the reader, whose buffers are not empty, until it gets `Some(0)`; and a locked section finds
the frames that it needs. -/
def Valid (checks : Bool) (S : PipeEnds σ φ) : PipeEvent σ φ → Prop
  | .call isRead buf =>
    S.point isRead = .idle ∧ buf.length < 2 ^ 63 ∧
      if isRead then buf ≠ [] ∧ S.eof = false else S.writeEndOpen = true
  | .locked isRead =>
    ∃ c, S.point isRead = .locking c ∧
      ∃ c' t, (c.locked checks).run (S.ring, S.world) = .ok c' t
  | .count isRead => ∃ c, S.point isRead = .counting c
  | .close => S.point false = .idle ∧ S.writeEndOpen = true
  | .other world => S.ring.LeftAlone S.world world

/-- After `Some(0)` nothing more comes, and the reader has all that was written. -/
def Ended (S : PipeEnds σ φ) : Prop :=
  S.eof = true → S.writeEndOpen = false ∧ S.obtained = S.reported

omit [FrameAllocator σ] in
/-- A read that has got nothing looks at the count before its third try is over if the write end is
open, and with nothing in the buffer if it is not. -/
def InTime (S : PipeEnds σ φ) : PipeEvent σ φ → Prop
  | .count true =>
    ∀ c, S.point true = .counting c → c.len = 0 →
      if S.writeEndOpen then c.cnt < 2 else S.ring.len = 0
  | _ => True

/-! ## What an event keeps -/

/-- What the writer has put in is what the reader has got out and then the content of the buffer; a
call in progress is of its end; a closed end and a reader at the end of the data are idle. -/
structure Inv (S : PipeEnds σ φ) : Prop where
  ring : S.ring.Ok S.world
  fifo : S.reported ++ (S.point false).moved =
    S.obtained ++ (S.point true).moved ++ S.ring.contents S.world.mem
  calls : ∀ isRead c, (S.point isRead).call = some c →
    c.Ok ∧ c.isRead = isRead ∧ (isRead = true → c.buf ≠ [])
  closed : S.writeEndOpen = false → S.point false = .idle
  reading : S.eof = true → S.point true = .idle
  ended : S.Ended

variable {checks : Bool} {S : PipeEnds σ φ} {isRead : Bool} {c : PipeCall} {p : PipePoint}

omit [FrameAllocator σ] in
@[simp] theorem setPoint_self : (S.setPoint isRead p).point isRead = p := update_self _ _ _

omit [FrameAllocator σ] in
theorem setPoint_of_ne {other : Bool} (h : other ≠ isRead) :
    (S.setPoint isRead p).point other = S.point other := update_of_ne h _ _

theorem inv_new {sizeLimit : ℕ} (h : sizeLimit < 2 ^ 64) (world : World σ φ) :
    (new sizeLimit world).Inv where
  ring := .new h
  fifo := rfl
  calls := by rintro isRead c ⟨⟩
  closed := fun h ↦ by cases h
  reading := fun _ ↦ rfl
  ended := fun h ↦ by cases h

/-- A user of an end that is neither closed nor at the end of the data comes to another point. -/
theorem Inv.setPoint {ring : RingBuffer} {world : World σ φ} (h : S.Inv) (hring : ring.Ok world)
    (hfifo : S.reported ++ ((S.setPoint isRead p).point false).moved =
      S.obtained ++ ((S.setPoint isRead p).point true).moved ++ ring.contents world.mem)
    (hcall : ∀ c, p.call = some c → c.Ok ∧ c.isRead = isRead ∧ (isRead = true → c.buf ≠ []))
    (hopen : isRead = false → S.writeEndOpen = true) (heof : isRead = true → S.eof = false) :
    ({ S with ring, world }.setPoint isRead p).Inv := by
  refine ⟨hring, hfifo, fun other c hc ↦ ?_, fun hclosed ↦ ?_, fun hread ↦ ?_, h.ended⟩
  · rcases eq_or_ne other isRead with rfl | hne
    · rw [setPoint_self] at hc
      exact hcall c hc
    · rw [setPoint_of_ne hne] at hc
      exact h.calls other c hc
  · rcases eq_or_ne isRead false with rfl | hne
    · exact absurd (hclosed.symm.trans (hopen rfl)) Bool.false_ne_true
    · rw [setPoint_of_ne hne.symm]
      exact h.closed hclosed
  · rcases eq_or_ne isRead true with rfl | hne
    · exact absurd ((heof rfl).symm.trans hread) Bool.false_ne_true
    · rw [setPoint_of_ne hne.symm]
      exact h.reading hread

/-- A user comes to a point with as many bytes moved. -/
theorem Inv.setPoint_of_moved (h : S.Inv) (hmoved : p.moved = (S.point isRead).moved)
    (hcall : ∀ c, p.call = some c → c.Ok ∧ c.isRead = isRead ∧ (isRead = true → c.buf ≠ []))
    (hopen : isRead = false → S.writeEndOpen = true) (heof : isRead = true → S.eof = false) :
    (S.setPoint isRead p).Inv := by
  have hpoint : ∀ other, ((S.setPoint isRead p).point other).moved = (S.point other).moved := by
    intro other
    rcases eq_or_ne other isRead with rfl | hne
    · rw [setPoint_self, hmoved]
    · rw [setPoint_of_ne hne]
  refine h.setPoint h.ring ?_ hcall hopen heof
  rw [hpoint, hpoint]
  exact h.fifo

theorem Inv.call {buf : List UInt8} (h : S.Inv) (hv : S.Valid checks (.call isRead buf)) :
    (S.step checks (.call isRead buf)).Inv := by
  obtain ⟨hidle, hbuf, hend⟩ := hv
  have hcall : ∀ c, (PipePoint.locking (.start isRead buf)).call = some c →
      c.Ok ∧ c.isRead = isRead ∧ (isRead = true → c.buf ≠ []) := by
    rintro c ⟨⟩
    refine ⟨.start hbuf, rfl, fun hread ↦ ?_⟩
    rw [if_pos hread] at hend
    exact hend.1
  refine h.setPoint_of_moved (by rw [hidle]; rfl) hcall (fun hwrite ↦ ?_) fun hread ↦ ?_
  · rwa [if_neg (by rw [hwrite]; decide)] at hend
  · rw [if_pos hread] at hend
    exact hend.2

/-- An end with a call in progress is neither closed nor at the end of the data. -/
theorem Inv.inProgress (h : S.Inv) (hc : (S.point isRead).call = some c) :
    (isRead = false → S.writeEndOpen = true) ∧ (isRead = true → S.eof = false) := by
  constructor
  · rintro rfl
    rw [← Bool.not_eq_false]
    intro hclosed
    rw [h.closed hclosed] at hc
    cases hc
  · rintro rfl
    rw [← Bool.not_eq_true]
    intro heof
    rw [h.reading heof] at hc
    cases hc

/-- A locked section moves bytes between the call and the buffer, which the record does not see. -/
theorem Inv.locked (h : S.Inv) (hv : S.Valid checks (.locked isRead)) :
    (S.step checks (.locked isRead)).Inv := by
  obtain ⟨c, hpoint, c', ⟨ring, world⟩, hrun⟩ := hv
  have hcall : (S.point isRead).call = some c := by rw [hpoint]; rfl
  obtain ⟨hc, hside, hbuf⟩ := h.calls isRead c hcall
  obtain ⟨hopen, heof⟩ := h.inProgress hcall
  obtain ⟨hc', hring, -, ⟨hside', hlen⟩, bytes, hmoved, hmoves⟩ :=
    wp_ok (PipeCall.wp_locked hc h.ring) hrun
  dsimp only at hring hmoves
  simp only [step, hpoint, hrun]
  refine h.setPoint hring ?_ (fun d hd ↦ ?_) hopen heof
  · have hfifo := h.fifo
    have hold : (S.point isRead).moved = c.moved := by rw [hpoint]; rfl
    have hnew : (PipePoint.counting c').moved = c.moved ++ bytes := hmoved
    rw [PipeCall.Moves, hside] at hmoves
    cases isRead with
    | false =>
      rw [setPoint_self, setPoint_of_ne (by decide), hnew, ← List.append_assoc, ← hold, hfifo,
        hmoves, List.append_assoc _ _ bytes]
    | true =>
      rw [setPoint_self, setPoint_of_ne (by decide), hfifo, hnew, hold, hmoves]
      simp only [List.append_assoc]
  · obtain rfl : c' = d := Option.some.inj hd
    refine ⟨hc', hside'.trans hside, fun hread ↦ ?_⟩
    rw [← List.length_pos_iff, hlen, List.length_pos_iff]
    exact hbuf hread

theorem step_count_of_again (hpoint : S.point isRead = .counting c)
    (h : c.Again S.strongCount) :
    S.step checks (.count isRead) =
      S.setPoint isRead (.locking { c with cnt := c.cnt + 1 }) := by
  simp only [step, hpoint, PipeCall.again_of h]

theorem step_count_of_not (hpoint : S.point isRead = .counting c)
    (h : ¬c.Again S.strongCount) : S.step checks (.count isRead) = S.returns isRead c := by
  obtain ⟨cnt, hcnt⟩ := PipeCall.again_of_not h
  simp only [step, hpoint, hcnt]
  rfl

/-- A call that goes on has moved what it had. -/
theorem Inv.count_again (h : S.Inv) (hpoint : S.point isRead = .counting c)
    (hagain : c.Again S.strongCount) : (S.step checks (.count isRead)).Inv := by
  have hcall : (S.point isRead).call = some c := by rw [hpoint]; rfl
  obtain ⟨hc, hside, hbuf⟩ := h.calls isRead c hcall
  obtain ⟨hopen, heof⟩ := h.inProgress hcall
  rw [step_count_of_again hpoint hagain]
  refine h.setPoint_of_moved (by rw [hpoint]; rfl) (fun d hd ↦ ?_) hopen heof
  obtain rfl := Option.some.inj hd
  exact ⟨⟨hc.buf_lt, hc.len_eq, hc.moved_eq⟩, hside, hbuf⟩

omit [FrameAllocator σ] in
theorem point_returns : (S.returns isRead c).point = update S.point isRead .idle := by
  cases isRead <;> rfl

omit [FrameAllocator σ] in
theorem point_returns_self : (S.returns isRead c).point isRead = .idle := by
  rw [point_returns, update_self]

omit [FrameAllocator σ] in
theorem point_returns_of_ne {other : Bool} (h : other ≠ isRead) :
    (S.returns isRead c).point other = S.point other := by
  rw [point_returns, update_of_ne h]

/-- A call that returns has reported what it moved, or given it to the reader. -/
theorem Inv.returns (h : S.Inv) (hpoint : S.point isRead = .counting c)
    (hended : (S.returns isRead c).Ended) : (S.returns isRead c).Inv := by
  obtain ⟨hc, -⟩ := h.calls isRead c (by rw [hpoint]; rfl)
  have hmoved : (S.point isRead).moved = c.buf.take c.len := by
    rw [hpoint, hc.moved_eq]
    rfl
  have hfifo := h.fifo
  have hcalls : ∀ other d, ((S.returns isRead c).point other).call = some d →
      d.Ok ∧ d.isRead = other ∧ (other = true → d.buf ≠ []) := by
    intro other d hd
    rcases eq_or_ne other isRead with rfl | hne
    · rw [point_returns_self] at hd
      cases hd
    · rw [point_returns_of_ne hne] at hd
      exact h.calls other d hd
  cases isRead with
  | false =>
    have hread : (S.returns false c).point true = S.point true := point_returns_of_ne (by decide)
    refine ⟨h.ring, ?_, hcalls, fun _ ↦ point_returns_self, fun heof ↦ hread.trans (h.reading heof),
      hended⟩
    rw [point_returns_self, hread]
    change (S.reported ++ c.buf.take c.len) ++ [] = S.obtained ++ _ ++ S.ring.contents S.world.mem
    rw [List.append_nil, ← hmoved, hfifo]
  | true =>
    have hwrite : (S.returns true c).point false = S.point false := point_returns_of_ne (by decide)
    refine ⟨h.ring, ?_, hcalls, fun hclosed ↦ hwrite.trans (h.closed hclosed),
      fun _ ↦ point_returns_self, hended⟩
    rw [point_returns_self, hwrite]
    change S.reported ++ _ = (S.obtained ++ c.buf.take c.len) ++ [] ++ S.ring.contents S.world.mem
    rw [List.append_nil, ← hmoved, hfifo]

/-- The read that answers `Some(0)` is at the end of the data if the write end is closed and the
buffer empty. -/
theorem Inv.ended_returns_iff (h : S.Inv) (hpoint : S.point true = .counting c) :
    (S.returns true c).Ended ↔ (c.len = 0 → S.writeEndOpen = false ∧ S.ring.len = 0) := by
  have hcall : (S.point true).call = some c := by rw [hpoint]; rfl
  obtain ⟨hc, -⟩ := h.calls true c hcall
  have heof : (S.returns true c).eof = true ↔ c.len = 0 := by
    change (S.eof || c.len == 0) = true ↔ _
    rw [(h.inProgress hcall).2 rfl, Bool.false_or, beq_iff_eq]
  rw [Ended, heof]
  refine forall_congr' fun hlen ↦ and_congr_right fun hclosed ↦ ?_
  have hmoved : c.moved = [] := by rw [← hc.moved_eq, hlen, List.take_zero]
  have hfifo : S.reported = S.obtained ++ S.ring.contents S.world.mem := by
    have hsplit := h.fifo
    rw [h.closed hclosed, hpoint] at hsplit
    simpa [PipePoint.moved, PipePoint.call, hmoved] using hsplit
  change S.obtained ++ c.buf.take c.len = S.reported ↔ _
  rw [hlen, List.take_zero, hfifo, List.append_right_inj, eq_comm, ← List.length_eq_zero_iff,
    RingBuffer.length_contents]

omit [FrameAllocator σ] in
theorem inTime_count_iff (hpoint : S.point true = .counting c) :
    S.InTime (.count true) ↔ (c.len = 0 →
      if S.writeEndOpen then c.cnt < 2 else S.ring.len = 0) := by
  constructor
  · intro h
    exact h c hpoint
  · intro h d hd
    rw [hpoint] at hd
    obtain rfl := PipePoint.counting.inj hd
    exact h

/-- A read that returns without bytes looks in time if the write end is closed and nothing left. -/
theorem Inv.inTime_iff_of_not (h : S.Inv) (hpoint : S.point true = .counting c)
    (hagain : ¬c.Again S.strongCount) :
    S.InTime (.count true) ↔ (c.len = 0 → S.writeEndOpen = false ∧ S.ring.len = 0) := by
  obtain ⟨-, -, hbuf⟩ := h.calls true c (by rw [hpoint]; rfl)
  rw [inTime_count_iff hpoint]
  refine forall_congr' fun hlen ↦ ?_
  have hpos : c.len < c.buf.length := hlen ▸ List.length_pos_iff.mpr (hbuf rfl)
  cases hopen : S.writeEndOpen with
  | false => simp
  | true =>
    have hcnt : ¬c.cnt < 2 := fun hcnt ↦ hagain ⟨hpos, by rw [strongCount, if_pos hopen], hcnt⟩
    simp [hcnt]

omit [FrameAllocator σ] in
theorem inTime_of_again (hpoint : S.point true = .counting c) (hagain : c.Again S.strongCount) :
    S.InTime (.count true) := by
  obtain ⟨-, hcount, hcnt⟩ := hagain
  rw [inTime_count_iff hpoint]
  intro _
  split_ifs with hopen
  · exact hcnt
  · rw [strongCount, if_neg hopen] at hcount
    cases hcount

/-- The look of a read at the count, when it does not try again, decides whether the end that it
reports is the end. -/
theorem Inv.ended_count_iff (h : S.Inv) (hpoint : S.point true = .counting c) :
    (S.step checks (.count true)).Ended ↔ S.InTime (.count true) := by
  by_cases hagain : c.Again S.strongCount
  · rw [step_count_of_again hpoint hagain]
    exact iff_of_true h.ended (inTime_of_again hpoint hagain)
  · rw [step_count_of_not hpoint hagain, h.ended_returns_iff hpoint,
      h.inTime_iff_of_not hpoint hagain]

/-- **Every event among those in time keeps the invariant.** -/
theorem Inv.step {e : PipeEvent σ φ} (h : S.Inv) (hv : S.Valid checks e) (ht : S.InTime e) :
    (S.step checks e).Inv := by
  cases e with
  | call isRead buf => exact h.call hv
  | locked isRead => exact h.locked hv
  | count isRead =>
    obtain ⟨c, hpoint⟩ := hv
    by_cases hagain : c.Again S.strongCount
    · exact h.count_again hpoint hagain
    · rw [step_count_of_not hpoint hagain]
      refine h.returns hpoint ?_
      cases isRead with
      | false =>
        intro heof
        have hreturn := h.ended heof
        exact absurd ((h.inProgress (by rw [hpoint]; rfl)).1 rfl) (by rw [hreturn.1]; decide)
      | true =>
        rw [h.ended_returns_iff hpoint, ← h.inTime_iff_of_not hpoint hagain]
        exact ht
  | close =>
    obtain ⟨hidle, hopen⟩ := hv
    exact ⟨h.ring, h.fifo, h.calls, fun _ ↦ hidle, h.reading,
      fun heof ↦ absurd hopen (by rw [(h.ended heof).1]; decide)⟩
  | other world =>
    exact ⟨h.ring.of_leftAlone hv, h.fifo.trans (by rw [← h.ring.contents_of_leftAlone hv]; rfl),
      h.calls, h.closed, h.reading, h.ended⟩

/-- An event lets the end that the reader sees be the end if and only if it is in time. -/
theorem Inv.ended_step_iff {e : PipeEvent σ φ} (h : S.Inv) (hv : S.Valid checks e) :
    (S.step checks e).Ended ↔ S.InTime e := by
  rcases e with ⟨isRead, buf⟩ | isRead | isRead | _ | world
  · exact iff_of_true (h.step hv trivial).ended trivial
  · exact iff_of_true (h.step hv trivial).ended trivial
  · cases isRead with
    | false => exact iff_of_true (h.step hv trivial).ended trivial
    | true => exact h.ended_count_iff hv.choose_spec
  · exact iff_of_true (h.step hv trivial).ended trivial
  · exact iff_of_true (h.step hv trivial).ended trivial

/-! ## Runs -/

/-- In a run of a pipe, every `Some(0)` that the reader gets is the end of the data. -/
abbrev ReadsToEnd (checks : Bool) (S : PipeEnds σ φ) (events : List (PipeEvent σ φ)) : Prop :=
  Throughout (step checks) (fun S e ↦ (S.step checks e).Ended) S events

theorem readsToEnd_iff_inTime {events : List (PipeEvent σ φ)} (h : S.Inv)
    (hvalid : Throughout (PipeEnds.step checks) (Valid checks) S events) :
    ReadsToEnd checks S events ↔ Throughout (PipeEnds.step checks) InTime S events :=
  Throughout.iff (I := Inv) hvalid h (fun _ _ hs hv ↦ hs.ended_step_iff hv)
    fun _ _ hs hv ht ↦ hs.step hv ht

/-- **A reader sees the end of file only at the end** of the data, in every run of a new pipe, if
and only if each of its reads looks in time. -/
theorem readsToEnd_iff {sizeLimit : ℕ} (hlimit : sizeLimit < 2 ^ 64) (world : World σ φ)
    (events : List (PipeEvent σ φ))
    (hvalid : Throughout (PipeEnds.step checks) (Valid checks) (new sizeLimit world) events) :
    ReadsToEnd checks (new sizeLimit world) events ↔
      Throughout (PipeEnds.step checks) InTime (new sizeLimit world) events :=
  readsToEnd_iff_inTime (inv_new hlimit world) hvalid

/-- A byte is written, the end closed, and the byte is read before the end is seen. -/
def byteRead : List (PipeEvent Bitmap Unit) :=
  [.call false [7], .locked false, .count false, .close, .call true [0], .locked true, .count true,
    .call true [0], .locked true, .count true]

theorem readsToEnd_byteRead : ReadsToEnd false (new 0x40000 World.boot) byteRead := by
  refine (readsToEnd_iff (by decide) _ _ ?_).mpr ?_
  · exact ⟨⟨rfl, by decide, rfl⟩, ⟨_, rfl, _, _, rfl⟩, ⟨_, rfl⟩, ⟨rfl, rfl⟩,
      ⟨rfl, by decide, by decide, rfl⟩, ⟨_, rfl, _, _, rfl⟩, ⟨_, rfl⟩,
      ⟨rfl, by decide, by decide, rfl⟩, ⟨_, rfl, _, _, rfl⟩, ⟨_, rfl⟩, trivial⟩
  · exact ⟨trivial, trivial, trivial, trivial, trivial, trivial,
      (inTime_count_iff rfl).mpr (by decide), trivial, trivial,
      (inTime_count_iff rfl).mpr (by decide), trivial⟩

/-- A reader that finds nothing three times. -/
def emptyRead : List (PipeEvent Bitmap Unit) :=
  [.call true [0], .locked true, .count true, .locked true, .count true, .locked true, .count true]

/-- It is told that the data has ended while the write end is open. -/
theorem not_readsToEnd_emptyRead :
    ¬∀ events : List (PipeEvent Bitmap Unit),
      Throughout (step false) (Valid false) (new 0x40000 World.boot) events →
        ReadsToEnd false (new 0x40000 World.boot) events := by
  intro h
  have hvalid : Throughout (step false) (Valid false) (new 0x40000 World.boot) emptyRead :=
    ⟨⟨rfl, by decide, by decide, rfl⟩, ⟨_, rfl, _, _, rfl⟩, ⟨_, rfl⟩, ⟨_, rfl, _, _, rfl⟩, ⟨_, rfl⟩,
      ⟨_, rfl, _, _, rfl⟩, ⟨_, rfl⟩, trivial⟩
  obtain ⟨-, -, -, -, -, -, hended, -⟩ := h emptyRead hvalid
  exact Bool.false_ne_true (hended rfl).1.symm

end PipeEnds

end Maturin
