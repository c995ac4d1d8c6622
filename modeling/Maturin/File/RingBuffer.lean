import Maturin.File.VirtFile
import Maturin.Lib.Ring

/-!
# The buffer of a pipe

`RingBuffer` of `file/pipe.rs` is a circular buffer in a file in memory: `head` and `end` are where
the next read and the next write start, `len` is the number of bytes in between. Both may be the
limit where 0 is meant. A read takes as many bytes as there are, a write as many as fit; each does
so in two parts when it passes the limit.
-/

open Exec

namespace Maturin

/-- `RingBuffer` -/
structure RingBuffer where
  data : VirtFileInner
  head : ℕ
  end_ : ℕ
  len : ℕ
  sizeLimit : ℕ

variable {σ φ : Type}

namespace RingBuffer

/-- `RingBuffer::new` -/
def new (sizeLimit : ℕ) : RingBuffer := ⟨.new, 0, 0, 0, sizeLimit⟩

/-- Run a program on the file. -/
def onData {α : Type} (x : EStateM Panic (VirtFileInner × World σ φ) α) :
    EStateM Panic (RingBuffer × World σ φ) α := fun s ↦
  match x.run (s.1.data, s.2) with
  | .ok a t => .ok a ({ s.1 with data := t.1 }, t.2)
  | .error e t => .error e ({ s.1 with data := t.1 }, t.2)

theorem wp_onData {α : Type} {x : EStateM Panic (VirtFileInner × World σ φ) α}
    {Q : α → RingBuffer × World σ φ → Prop} {E : Panic → RingBuffer × World σ φ → Prop}
    {s : RingBuffer × World σ φ} :
    wp (onData x) Q E s ↔ wp x (fun a t ↦ Q a ({ s.1 with data := t.1 }, t.2))
      (fun e t ↦ E e ({ s.1 with data := t.1 }, t.2)) (s.1.data, s.2) := by
  rw [wp, wp, EStateM.run, onData]
  cases x.run (s.1.data, s.2) <;> rfl

/-- `self.data.read_inner(&mut buf[start..end_])`, with the new `buf` as its result. -/
def readInto (checks : Bool) (buf : List UInt8) (start end_ : ℕ) :
    EStateM Panic (RingBuffer × World σ φ) (List UInt8) := do
  let part ← slice buf start end_
  let (_, part) ← onData (VirtFileInner.readInner checks part)
  pure (buf.take start ++ part ++ buf.drop end_)

/-- `RingBuffer::read`: the number of bytes read, and the buffer after the call. -/
def read (checks : Bool) (buf : List UInt8) :
    EStateM Panic (RingBuffer × World σ φ) (ℕ × List UInt8) := do
  let self := (← get).1
  let maxLen := min buf.length self.len
  let len ← subUsize checks self.len maxLen
  modify fun s ↦ ({ s.1 with len }, s.2)
  onData (VirtFileInner.setPos self.head)
  let headEnd ← addUsize checks self.head maxLen
  if headEnd ≤ self.sizeLimit then
    let buf ← readInto checks buf 0 maxLen
    modify fun s ↦ ({ s.1 with head := headEnd }, s.2)
    pure (maxLen, buf)
  else
    let first ← subUsize checks self.sizeLimit self.head
    let buf ← readInto checks buf 0 first
    onData (VirtFileInner.setPos 0)
    let buf ← readInto checks buf first maxLen
    let head ← subUsize checks headEnd self.sizeLimit
    modify fun s ↦ ({ s.1 with head }, s.2)
    pure (maxLen, buf)

variable [FrameAllocator σ]

/-- `self.data.write_inner(&buf[start..end_])` -/
def writeFrom (checks : Bool) (buf : List UInt8) (start end_ : ℕ) :
    EStateM Panic (RingBuffer × World σ φ) Unit := do
  let part ← slice buf start end_
  let _ ← onData (VirtFileInner.writeInner checks part)
  pure ()

/-- `RingBuffer::write`: the number of bytes written. -/
def write (checks : Bool) (buf : List UInt8) : EStateM Panic (RingBuffer × World σ φ) ℕ := do
  let self := (← get).1
  let room ← subUsize checks self.sizeLimit self.len
  let maxLen := min buf.length room
  let len ← addUsize checks self.len maxLen
  modify fun s ↦ ({ s.1 with len }, s.2)
  onData (VirtFileInner.setPos self.end_)
  let bufEnd ← addUsize checks self.end_ maxLen
  if bufEnd ≤ self.sizeLimit then
    writeFrom checks buf 0 maxLen
    modify fun s ↦ ({ s.1 with end_ := bufEnd }, s.2)
    pure maxLen
  else
    let first ← subUsize checks self.sizeLimit self.end_
    writeFrom checks buf 0 first
    onData (VirtFileInner.setPos 0)
    writeFrom checks buf first maxLen
    let end_ ← subUsize checks bufEnd self.sizeLimit
    modify fun s ↦ ({ s.1 with end_ }, s.2)
    pure maxLen

/-! ## The queue in the buffer -/

/-- The bytes in the buffer, the oldest one first. -/
def contents (self : RingBuffer) (mem : ByteMem) : List UInt8 :=
  Ring.contents (self.data.byteAt mem) self.sizeLimit self.head self.len

omit [FrameAllocator σ] in
@[simp] theorem length_contents {self : RingBuffer} {mem : ByteMem} :
    (self.contents mem).length = self.len := Ring.length_contents

/-- The cursors agree with the length, and the queue lies in the part of the file that was written.
When the queue passes the limit, the whole file was. -/
structure Ok (ring : RingBuffer) (w : World σ φ) : Prop where
  data : ring.data.Ok w
  limit_lt : ring.sizeLimit < 2 ^ 64
  len_le : ring.len ≤ ring.sizeLimit
  head_le : ring.head ≤ ring.data.size
  size_le : ring.data.size ≤ ring.sizeLimit
  end_eq : ring.end_ = Ring.advance ring.sizeLimit ring.head ring.len
  end_le : ring.end_ ≤ ring.data.size
  full : ring.sizeLimit < ring.head + ring.len → ring.data.size = ring.sizeLimit

variable {self : RingBuffer} {w : World σ φ} {checks : Bool} {buf : List UInt8} {a b pos : ℕ}

theorem Ok.new {sizeLimit : ℕ} (h : sizeLimit < 2 ^ 64) : (RingBuffer.new sizeLimit).Ok w where
  data := .new
  limit_lt := h
  len_le := Nat.zero_le _
  head_le := le_rfl
  size_le := Nat.zero_le _
  end_eq := by simp [RingBuffer.new, Ring.advance]
  end_le := le_rfl
  full := fun h ↦ absurd h (Nat.not_lt_zero _)

theorem Ok.size_small (h : self.Ok w) : self.data.size ≤ 2 ^ 56 :=
  h.data.size_le.trans h.data.length_le

/-- The queue lies within the file. -/
theorem Ok.wrap_lt (h : self.Ok w) {i : ℕ} (hi : i < self.len) :
    Ring.wrap self.sizeLimit (self.head + i) < self.data.size := by
  have hlen := h.len_le
  have hhead := h.head_le
  have hsize := h.size_le
  have hend := h.end_eq
  have hle := h.end_le
  have hfull := h.full
  rw [Ring.advance] at hend
  rw [Ring.wrap]
  split_ifs at hend ⊢ <;> omega

/-! ## Reading -/

omit [FrameAllocator σ] in
theorem wp_setPos {Q : Unit → RingBuffer × World σ φ → Prop}
    {E : Panic → RingBuffer × World σ φ → Prop} :
    wp (onData (VirtFileInner.setPos pos)) Q E (self, w) ↔
      Q () ({ self with data := { self.data with pos } }, w) := by
  rw [wp_onData, VirtFileInner.setPos, wp_modify]

/-- A read into a part of the buffer that does not go past the end of the file fills the part. -/
theorem wp_readInto (h : self.data.Ok w) (hpos : self.data.pos = pos) (hab : a ≤ b)
    (hb : b ≤ buf.length) (hsize : pos + (b - a) ≤ self.data.size) :
    wp (readInto checks buf a b) (fun r t ↦
      r = VirtFileInner.filled (self.data.byteAt w.mem) pos buf a b ∧
      t = ({ self with data := { self.data with pos := pos + (b - a) } }, w))
      noPanic (self, w) := by
  subst hpos
  have hlen : ((buf.drop a).take (b - a)).length = b - a := by
    rw [List.length_take, List.length_drop]
    omega
  have hle : self.data.pos ≤ self.data.size := by omega
  have hmin : min (b - a) (self.data.size - self.data.pos) = b - a := by omega
  rw [readInto, wp_bind, wp_slice hab hb, wp_bind, wp_onData]
  refine wp_imp (VirtFileInner.wp_readInner h hle) fun r t hr ↦ ?_
  obtain ⟨rfl, rfl⟩ := hr
  dsimp only
  rw [hlen, hmin, wp_pure]
  refine ⟨?_, rfl⟩
  rw [VirtFileInner.filled, VirtFileInner.filled, List.take_zero, List.nil_append, Nat.sub_zero,
    List.drop_eq_nil_of_le hlen.le, List.append_nil]

/-- The buffer when `n` bytes were taken out. -/
def taken (self : RingBuffer) (n pos : ℕ) : RingBuffer :=
  { self with
    data := { self.data with pos }
    head := Ring.advance self.sizeLimit self.head n
    len := self.len - n }

theorem Ok.taken (h : self.Ok w) {n : ℕ} (hn : n ≤ self.len) (pos : ℕ) :
    (self.taken n pos).Ok w := by
  have hlen := h.len_le
  have hsize := h.size_le
  have hhead : self.head ≤ self.sizeLimit := h.head_le.trans hsize
  have hend := h.end_eq
  have hle := h.end_le
  have hfull := h.full
  refine ⟨h.data.setPos pos, h.limit_lt, (Nat.sub_le _ _).trans hlen, ?_, hsize, ?_, hle, ?_⟩
  · rw [Ring.advance] at hend
    simp only [RingBuffer.taken, Ring.advance]
    split_ifs at hend ⊢ <;> omega
  · exact hend.trans (Ring.advance_advance hhead hlen hn).symm
  · simp only [RingBuffer.taken, Ring.advance]
    split_ifs <;> omega

theorem Ok.contents_taken (h : self.Ok w) {n : ℕ} (hn : n ≤ self.len) (pos : ℕ) (mem : ByteMem) :
    (self.taken n pos).contents mem = (self.contents mem).drop n :=
  (Ring.drop_contents (h.head_le.trans h.size_le) h.len_le hn).symm

/-- A read takes the oldest bytes out of the queue. -/
theorem wp_read (h : self.Ok w) :
    wp (read checks buf) (fun r t ↦ t.1.Ok t.2 ∧ t.1.sizeLimit = self.sizeLimit ∧
      r.1 = min buf.length self.len ∧ r.2 = (self.contents w.mem).take r.1 ++ buf.drop r.1 ∧
      t.1.contents t.2.mem = (self.contents w.mem).drop r.1) noPanic (self, w) := by
  have hlen := h.len_le
  have hsize := h.size_le
  have hhead := h.head_le
  have hsmall := h.size_small
  have hn : min buf.length self.len ≤ self.len := Nat.min_le_right _ _
  have hbuf : min buf.length self.len ≤ buf.length := Nat.min_le_left _ _
  rw [read, wp_bind, wp_get]
  dsimp only
  generalize min buf.length self.len = n at *
  have hend := h.end_eq
  have hle := h.end_le
  have hfull := h.full
  have hok := fun pos ↦ h.taken hn pos
  have hcontents := fun pos ↦ h.contents_taken hn pos w.mem
  have htake : (self.contents w.mem).take n =
      Ring.contents (self.data.byteAt w.mem) self.sizeLimit self.head n := Ring.take_contents hn
  simp only [taken, Ring.advance] at hok hcontents
  rw [Ring.advance] at hend
  rw [wp_bind, wp_subUsize hn, wp_bind, wp_modify, wp_bind, wp_setPos, wp_bind,
    wp_addUsize (by split_ifs at hend <;> omega)]
  split_ifs at hok hcontents ⊢ with hone
  · -- The bytes that are read were all written.
    have hin : self.head + (n - 0) ≤ self.data.size := by
      split_ifs at hend <;> omega
    rw [wp_bind]
    refine wp_imp (wp_readInto (h.data.setPos _) rfl (Nat.zero_le n) hbuf hin) fun r t hr ↦ ?_
    obtain ⟨rfl, rfl⟩ := hr
    rw [wp_bind, wp_modify, wp_pure]
    refine ⟨hok _, rfl, rfl, ?_, hcontents _⟩
    rw [htake, Ring.contents_of_le hone]
    rfl
  · -- The queue passes the limit, so the file is as long as it.
    have hlimit : self.data.size = self.sizeLimit := hfull (by omega)
    have hfirst : self.sizeLimit - self.head ≤ n := by omega
    have hin : self.head + (self.sizeLimit - self.head - 0) ≤ self.data.size := by omega
    have hin' : 0 + (n - (self.sizeLimit - self.head)) ≤ self.data.size := by omega
    rw [wp_bind, wp_subUsize (by omega), wp_bind]
    refine wp_imp (wp_readInto (h.data.setPos _) rfl (Nat.zero_le _) (hfirst.trans hbuf) hin)
      fun r t hr ↦ ?_
    obtain ⟨rfl, rfl⟩ := hr
    have hlen' : (VirtFileInner.filled (self.data.byteAt w.mem) self.head buf 0
        (self.sizeLimit - self.head)).length = buf.length :=
      VirtFileInner.length_filled (Nat.zero_le _) (hfirst.trans hbuf)
    rw [wp_bind, wp_setPos, wp_bind]
    refine wp_imp (wp_readInto (h.data.setPos _) rfl hfirst (hbuf.trans_eq hlen'.symm) hin')
      fun r t hr ↦ ?_
    obtain ⟨rfl, rfl⟩ := hr
    rw [wp_bind, wp_subUsize (by omega), wp_bind, wp_modify, wp_pure]
    refine ⟨hok _, rfl, rfl, ?_, hcontents _⟩
    dsimp only
    rw [htake, Ring.contents_of_gt (by omega) (by omega)]
    refine (VirtFileInner.filled_twice (Nat.zero_le _) hfirst (hfirst.trans hbuf)).trans ?_
    simp only [List.take_zero, List.nil_append, Nat.sub_zero, Nat.zero_add]
    rfl

/-! ## Writing -/

/-- A write of a part of the buffer puts the whole part into the file. -/
theorem wp_writeFrom (h : self.data.Ok w) (hpos : self.data.pos = pos) (hab : a ≤ b)
    (hb : b ≤ buf.length) (hlt : pos + (b - a) < 2 ^ 64) :
    wp (writeFrom checks buf a b) (fun _ t ↦ ∃ data, t.1 = { self with data } ∧ data.Ok t.2 ∧
      data.size = (if b - a = 0 then self.data.size else max self.data.size (pos + (b - a))) ∧
      ∀ i, i < self.data.size ∨ (pos ≤ i ∧ i < pos + (b - a)) → data.byteAt t.2.mem i =
        ByteMem.writeBytes pos ((buf.drop a).take (b - a)) (self.data.byteAt w.mem) i)
      noFrame (self, w) := by
  subst hpos
  have hlen : ((buf.drop a).take (b - a)).length = b - a := by
    rw [List.length_take, List.length_drop]
    omega
  rw [writeFrom, wp_bind, wp_slice hab hb, wp_bind, wp_onData]
  refine wp_mono (VirtFileInner.wp_writeInner h (by rwa [hlen])) (fun r t hr ↦ ?_) fun _ _ he ↦ he
  obtain ⟨-, hok, -, hsize, hbytes⟩ := hr
  rw [hlen] at hsize hbytes
  rw [wp_pure]
  exact ⟨t.1, rfl, hok, hsize, hbytes⟩

/-- The buffer when `n` bytes were put in. -/
def put (self : RingBuffer) (n : ℕ) (data : VirtFileInner) : RingBuffer :=
  { self with data, end_ := Ring.advance self.sizeLimit self.end_ n, len := self.len + n }

/-- What a write has to do to the file for `put` to be right. -/
structure Puts (ring : RingBuffer) (w : World σ φ) (bs : List UInt8) (data : VirtFileInner)
    (w' : World σ φ) : Prop where
  ok : data.Ok w'
  le_size : ring.data.size ≤ data.size
  size_le : data.size ≤ ring.sizeLimit
  end_le : Ring.advance ring.sizeLimit ring.end_ bs.length ≤ data.size
  full : ring.sizeLimit < ring.head + ring.len + bs.length → data.size = ring.sizeLimit
  old : ∀ i < ring.len, data.byteAt w'.mem (Ring.wrap ring.sizeLimit (ring.head + i)) =
    ring.data.byteAt w.mem (Ring.wrap ring.sizeLimit (ring.head + i))
  new : ∀ i (h : i < bs.length),
    data.byteAt w'.mem (Ring.wrap ring.sizeLimit (ring.end_ + i)) = bs[i]

theorem Puts.ok_put {data : VirtFileInner} {w' : World σ φ} {bs : List UInt8}
    (hp : self.Puts w bs data w') (h : self.Ok w) (hn : self.len + bs.length ≤ self.sizeLimit) :
    (self.put bs.length data).Ok w' ∧
      (self.put bs.length data).contents w'.mem = self.contents w.mem ++ bs := by
  have hhead : self.head ≤ self.sizeLimit := h.head_le.trans h.size_le
  refine ⟨⟨hp.ok, h.limit_lt, hn, h.head_le.trans hp.le_size, hp.size_le, ?_, hp.end_le, ?_⟩, ?_⟩
  · dsimp only [put]
    rw [h.end_eq, Ring.advance_add hhead hn]
  · dsimp only [put]
    rw [← Nat.add_assoc]
    exact hp.full
  · refine Ring.contents_append hhead hn hp.old ?_
    dsimp only [put]
    rw [← h.end_eq]
    exact hp.new

/-- Bytes with room before the limit are put by one write. -/
theorem puts_of_le {n : ℕ} {data : VirtFileInner} {w' : World σ φ} (h : self.Ok w)
    (hput : self.len + n ≤ self.sizeLimit) (hn : n ≤ buf.length)
    (hone : self.end_ + n ≤ self.sizeLimit) (hok : data.Ok w')
    (hsize : data.size = if n = 0 then self.data.size else max self.data.size (self.end_ + n))
    (hbytes : ∀ i, i < self.data.size ∨ (self.end_ ≤ i ∧ i < self.end_ + n) →
      data.byteAt w'.mem i = ByteMem.writeBytes self.end_ (buf.take n) (self.data.byteAt w.mem) i) :
    self.Puts w (buf.take n) data w' := by
  have hle := h.size_le
  have hhead := h.head_le
  have hend := h.end_eq
  have hend_le := h.end_le
  have hfull := h.full
  have htake : (buf.take n).length = n := List.length_take_of_le hn
  have hadv : Ring.advance self.sizeLimit self.end_ n = self.end_ + n := if_pos hone
  rw [Ring.advance] at hend
  refine ⟨hok, ?_, ?_, ?_, ?_, fun i hi ↦ ?_, fun i hi ↦ ?_⟩
  · split_ifs at hsize <;> omega
  · split_ifs at hsize <;> omega
  · rw [htake, hadv]
    split_ifs at hsize <;> omega
  · rw [htake]
    split_ifs at hsize hend <;> omega
  · have hout : Ring.wrap self.sizeLimit (self.head + i) < self.end_ ∨
        self.end_ + (buf.take n).length ≤ Ring.wrap self.sizeLimit (self.head + i) := by
      rw [Ring.wrap, htake]
      split_ifs at hend ⊢ <;> omega
    rw [hbytes _ (Or.inl (h.wrap_lt hi)), ByteMem.writeBytes_of_notMem hout]
  · rw [htake] at hi
    rw [Ring.wrap, if_pos (by omega), hbytes _ (Or.inr (by omega)),
      ByteMem.writeBytes_of_mem (by rwa [htake])]

/-- Bytes that pass the limit are put by two writes, to the end of the file and to its start. -/
theorem puts_of_gt {n : ℕ} {data data' : VirtFileInner} {w₁ w' : World σ φ} (h : self.Ok w)
    (hput : self.len + n ≤ self.sizeLimit) (hn : n ≤ buf.length)
    (hone : ¬ self.end_ + n ≤ self.sizeLimit) (hok : data'.Ok w')
    (hsize₁ : data.size = self.sizeLimit) (hsize₂ : data'.size = self.sizeLimit)
    (hbytes₁ : ∀ i, i < self.data.size ∨ (self.end_ ≤ i ∧ i < self.sizeLimit) →
      data.byteAt w₁.mem i = ByteMem.writeBytes self.end_
        (buf.take (self.sizeLimit - self.end_)) (self.data.byteAt w.mem) i)
    (hbytes₂ : ∀ i < data.size, data'.byteAt w'.mem i = ByteMem.writeBytes 0
      ((buf.drop (self.sizeLimit - self.end_)).take (n - (self.sizeLimit - self.end_)))
      (data.byteAt w₁.mem) i) :
    self.Puts w (buf.take n) data' w' := by
  have hle := h.size_le
  have hhead := h.head_le
  have hend := h.end_eq
  have hend_le := h.end_le
  have hfull := h.full
  have htake : (buf.take n).length = n := List.length_take_of_le hn
  have hadv : Ring.advance self.sizeLimit self.end_ n = self.end_ + n - self.sizeLimit :=
    if_neg hone
  rw [Ring.advance] at hend
  -- The queue does not pass the limit yet, or there would be no room behind it.
  have hnowrap : self.head + self.len ≤ self.sizeLimit := by
    split_ifs at hend <;> omega
  rw [if_pos hnowrap] at hend
  have hlen₁ : (buf.take (self.sizeLimit - self.end_)).length = self.sizeLimit - self.end_ :=
    List.length_take_of_le (by omega)
  have hlen₂ : ((buf.drop (self.sizeLimit - self.end_)).take
      (n - (self.sizeLimit - self.end_))).length = n - (self.sizeLimit - self.end_) := by
    rw [List.length_take, List.length_drop]
    omega
  refine ⟨hok, by omega, by omega, ?_, fun _ ↦ hsize₂, fun i hi ↦ ?_, fun i hi ↦ ?_⟩
  · rw [htake, hadv]
    omega
  · -- The queue lies between the two parts that are written.
    rw [Ring.wrap, if_pos (by omega), hbytes₂ _ (by omega),
      ByteMem.writeBytes_of_notMem (Or.inr (by omega)), hbytes₁ _ (Or.inl (by omega)),
      ByteMem.writeBytes_of_notMem (Or.inl (by omega))]
  · rw [htake] at hi
    rw [Ring.wrap, List.getElem_take]
    split_ifs with hbefore
    · rw [hbytes₂ _ (by omega), ByteMem.writeBytes_of_notMem (Or.inr (by omega)),
        hbytes₁ _ (Or.inr (by omega)), ByteMem.writeBytes_of_mem (by omega), List.getElem_take]
    · have hi' : self.end_ + i - self.sizeLimit = 0 + (i - (self.sizeLimit - self.end_)) := by
        omega
      rw [hbytes₂ _ (by omega), hi', ByteMem.writeBytes_of_mem (by omega),
        List.getElem_take, List.getElem_drop]
      congr 1
      omega

/-- A write adds the front of its argument to the queue, as much as there is room for. -/
theorem wp_write (h : self.Ok w) (hbuf : buf.length < 2 ^ 63) :
    wp (write checks buf) (fun n t ↦ t.1.Ok t.2 ∧ t.1.sizeLimit = self.sizeLimit ∧
      n = min buf.length (self.sizeLimit - self.len) ∧
      t.1.contents t.2.mem = self.contents w.mem ++ buf.take n) noFrame (self, w) := by
  have hlen := h.len_le
  have hlimit := h.limit_lt
  have hle := h.end_le
  have hsmall := h.size_small
  have hsize := h.size_le
  have hroom : min buf.length (self.sizeLimit - self.len) ≤ self.sizeLimit - self.len :=
    Nat.min_le_right _ _
  have hn : min buf.length (self.sizeLimit - self.len) ≤ buf.length := Nat.min_le_left _ _
  rw [write, wp_bind, wp_get]
  dsimp only
  rw [wp_bind, wp_subUsize hlen]
  generalize min buf.length (self.sizeLimit - self.len) = n at *
  have hput : self.len + n ≤ self.sizeLimit := by omega
  -- Whatever the file is in the end, it is enough that the bytes got to their places.
  have hdone : ∀ data w', self.Puts w (buf.take n) data w' →
      (self.put n data).Ok w' ∧ (self.put n data).sizeLimit = self.sizeLimit ∧ n = n ∧
        (self.put n data).contents w'.mem = self.contents w.mem ++ buf.take n := by
    intro data w' hp
    have hok := hp.ok_put h (by rwa [List.length_take_of_le hn])
    rw [List.length_take_of_le hn] at hok
    exact ⟨hok.1, rfl, rfl, hok.2⟩
  rw [wp_bind, wp_addUsize (by omega), wp_bind, wp_modify, wp_bind, wp_setPos, wp_bind,
    wp_addUsize (by omega)]
  split_ifs with hone
  · have hsum : self.end_ + (n - 0) < 2 ^ 64 := by omega
    rw [wp_bind]
    refine wp_imp (wp_writeFrom (h.data.setPos _) rfl (Nat.zero_le n) hn hsum)
      fun _ t ht ↦ ?_
    obtain ⟨data, ht, hok, hsize', hbytes⟩ := ht
    rw [wp_bind, wp_modify, wp_pure, ht]
    rw [Nat.sub_zero] at hsize' hbytes
    rw [List.drop_zero] at hbytes
    have hres := hdone data t.2 (puts_of_le h hput hn hone hok hsize' hbytes)
    rw [put, Ring.advance, if_pos hone] at hres
    exact hres
  · have hfirst : self.sizeLimit - self.end_ ≤ n := by omega
    have hsum : self.end_ + (self.sizeLimit - self.end_ - 0) < 2 ^ 64 := by omega
    have hsum' : 0 + (n - (self.sizeLimit - self.end_)) < 2 ^ 64 := by omega
    rw [wp_bind, wp_subUsize (by omega), wp_bind]
    refine wp_imp (wp_writeFrom (h.data.setPos _) rfl (Nat.zero_le _) (hfirst.trans hn) hsum)
      fun _ t ht ↦ ?_
    obtain ⟨data, ht, hok, hsize₁, hbytes₁⟩ := ht
    obtain ⟨ring, w₁⟩ := t
    dsimp only at ht hok hsize₁ hbytes₁
    subst ht
    rw [wp_bind, wp_setPos, wp_bind]
    refine wp_imp (wp_writeFrom (hok.setPos _) rfl hfirst hn hsum') fun _ t ht ↦ ?_
    obtain ⟨data', ht, hok', hsize₂, hbytes₂⟩ := ht
    rw [wp_bind, wp_subUsize (by omega), wp_bind, wp_modify, wp_pure, ht]
    dsimp only at hsize₂ hbytes₂
    rw [Nat.zero_add] at hsize₂ hbytes₂
    rw [Nat.sub_zero, Nat.add_sub_cancel' (by omega)] at hsize₁ hbytes₁
    rw [List.drop_zero] at hbytes₁
    have hsize₁' : data.size = self.sizeLimit := by
      split_ifs at hsize₁ <;> omega
    have hsize₂' : data'.size = self.sizeLimit := by
      split_ifs at hsize₂ <;> omega
    have hres := hdone data' t.2 (puts_of_gt h hput hn hone hok' hsize₁' hsize₂' hbytes₁
      fun i hi ↦ hbytes₂ i (Or.inl hi))
    rw [put, Ring.advance, if_neg hone] at hres
    exact hres

end RingBuffer

end Maturin
