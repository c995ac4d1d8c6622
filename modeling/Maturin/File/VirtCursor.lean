import Maturin.File.BaseFile
import Maturin.File.VirtFile
import Maturin.Lib.Throughout
import Maturin.Memory.Bitmap
import Maturin.Memory.Teardown

/-!
# Files in memory as byte arrays

The methods of `VirtFileInner`, one after the other. A file in memory is meant to be a byte array
with a cursor that may stand behind the end. It is one as long as the cursor does not do so when
bytes are read or written: `read_inner` subtracts the cursor from the size, and `write_inner` leaves
in a gap what the frames held before. Moves that are counted from the cursor or from the end are
made with numbers of 64 bits that have a sign.
-/

open Exec

namespace Maturin

/-- A buffer, which is no longer than a slice can be. -/
abbrev Buffer := {buf : List UInt8 // buf.length < 2 ^ 63}

namespace SeekFrom

/-- The number is a `u64` or an `i64`. -/
def InRange : SeekFrom → Prop
  | .start pos => pos < 2 ^ 64
  | .end_ delta => -2 ^ 63 ≤ delta ∧ delta < 2 ^ 63
  | .current delta => -2 ^ 63 ≤ delta ∧ delta < 2 ^ 63

instance : DecidablePred InRange
  | .start pos => inferInstanceAs (Decidable (pos < 2 ^ 64))
  | .end_ delta => inferInstanceAs (Decidable (-2 ^ 63 ≤ delta ∧ delta < 2 ^ 63))
  | .current delta => inferInstanceAs (Decidable (-2 ^ 63 ≤ delta ∧ delta < 2 ^ 63))

end SeekFrom

/-- `+` on `i64` -/
def addI64 {τ : Type} (checks : Bool) (a b : ℤ) : EStateM Panic τ ℤ :=
  if -2 ^ 63 ≤ a + b ∧ a + b < 2 ^ 63 then pure (a + b)
  else if checks then throw .overflow else pure ((a + b).bmod (2 ^ 64))

/-! ## Byte arrays -/

/-- The methods of a file in memory. -/
inductive VirtFileInner.Method where
  | read (buf : Buffer)
  | write (buf : Buffer)
  | seek (seekfrom : {w : SeekFrom // w.InRange})
  | clear
  | readFromOffset (pos : ℕ) (buf : Buffer)
  | writeToOffset (pos : ℕ) (buf : Buffer)

/-- What a method returns, and the buffer after a read. -/
abbrev VirtFileInner.Reply := Option ℕ × List UInt8

namespace CursorKind

/-- Files in memory as they are meant to be. -/
def virt : CursorKind where
  readable := true
  writable := true
  grows := false
  limit := 2 ^ 64 - 1
  limit_pos := by decide
  limit_lt := by decide

theorem virt_read {c : Cursor} {buf : List UInt8} : virt.read buf c =
    ((some (min buf.length (c.bytes.length - c.pos)),
      (c.bytes.drop c.pos).take (min buf.length (c.bytes.length - c.pos)) ++
        buf.drop (min buf.length (c.bytes.length - c.pos))),
      { c with pos := c.pos + min buf.length (c.bytes.length - c.pos) }) := rfl

theorem virt_write_nil {c : Cursor} : virt.write [] c = (some 0, c) := by
  have hn : min ([] : List UInt8).length (virt.limit - c.pos) = 0 := Nat.zero_min _
  rw [write, if_pos (by rfl), hn]
  dsimp only
  rw [List.take_nil, overlay, if_pos rfl, Nat.add_zero]

theorem virt_write {c : Cursor} {buf : List UInt8} (h : c.pos + buf.length < 2 ^ 64) :
    virt.write buf c = (some buf.length, ⟨overlay c.bytes c.pos buf, c.pos + buf.length⟩) := by
  have hn : min buf.length (virt.limit - c.pos) = buf.length := by
    change min buf.length (2 ^ 64 - 1 - c.pos) = buf.length
    omega
  rw [write, if_pos (by rfl), hn]
  dsimp only
  rw [List.take_length]

theorem virt_seek {c : Cursor} {w : SeekFrom} (h : c.target w < 2 ^ 64) : virt.seek w c =
    if 0 ≤ c.target w then (some (c.target w).toNat, { c with pos := (c.target w).toNat })
    else (none, c) := by
  have hle : c.target w ≤ virt.limit := by
    change c.target w ≤ (2 ^ 64 - 1 : ℕ)
    omega
  exact if_congr (and_iff_left hle) rfl rfl

/-- What a method does to a byte array with a cursor. -/
def step (k : CursorKind) (c : Cursor) : VirtFileInner.Method → VirtFileInner.Reply × Cursor
  | .read buf => k.read buf.1 c
  | .write buf => (((k.write buf.1 c).1, []), (k.write buf.1 c).2)
  | .seek seekfrom => (((k.seek seekfrom.1 c).1, []), (k.seek seekfrom.1 c).2)
  | .clear => ((none, []), ⟨[], 0⟩)
  | .readFromOffset pos buf => ((k.read buf.1 { c with pos }).1, c)
  | .writeToOffset pos buf => (((k.write buf.1 { c with pos }).1, []),
      ⟨(k.write buf.1 { c with pos }).2.bytes, c.pos⟩)

/-- One method after the other. -/
def run (k : CursorKind) (c : Cursor) :
    List VirtFileInner.Method → List VirtFileInner.Reply × Cursor
  | [] => ([], c)
  | op :: ops => ((k.step c op).1 :: (k.run (k.step c op).2 ops).1, (k.run (k.step c op).2 ops).2)

end CursorKind

namespace Cursor

/-- Bytes are read and written at a place that is not behind the end, and a move leads to a number
that is positive as an `i64`. -/
def Sound (c : Cursor) : VirtFileInner.Method → Prop
  | .read _ => c.pos ≤ c.bytes.length
  | .write buf => buf.1 = [] ∨ c.pos ≤ c.bytes.length
  | .seek ⟨.start _, _⟩ => True
  | .seek ⟨.end_ delta, _⟩ => c.bytes.length + delta < 2 ^ 63
  | .seek ⟨.current delta, _⟩ => c.pos < 2 ^ 63 ∧ c.pos + delta < 2 ^ 63
  | .clear => True
  | .readFromOffset pos _ => pos ≤ c.bytes.length
  | .writeToOffset pos buf => buf.1 = [] ∨ pos ≤ c.bytes.length

instance (c : Cursor) : DecidablePred c.Sound
  | .read _ => inferInstanceAs (Decidable (_ ≤ _))
  | .write _ => inferInstanceAs (Decidable (_ ∨ _))
  | .seek ⟨.start _, _⟩ => inferInstanceAs (Decidable True)
  | .seek ⟨.end_ _, _⟩ => inferInstanceAs (Decidable (_ < _))
  | .seek ⟨.current _, _⟩ => inferInstanceAs (Decidable (_ ∧ _))
  | .clear => inferInstanceAs (Decidable True)
  | .readFromOffset _ _ => inferInstanceAs (Decidable (_ ≤ _))
  | .writeToOffset _ _ => inferInstanceAs (Decidable (_ ∨ _))

end Cursor

/-! ## The methods -/

namespace VirtFileInner

variable {σ φ : Type}

/-- The move of `seek` by `delta`, counted from `base`. -/
def seekBy (checks : Bool) (base : ℕ) (delta : ℤ) :
    EStateM Panic (VirtFileInner × World σ φ) (Option ℕ) := do
  let sum ← addI64 checks (asI64 base) delta
  if sum < 0 then pure none
  else
    setPos sum.toNat
    pure (some sum.toNat)

/-- `seek` -/
def seek (checks : Bool) (seekfrom : SeekFrom) :
    EStateM Panic (VirtFileInner × World σ φ) (Option ℕ) := do
  let self := (← get).1
  match seekfrom with
  | .start pos =>
    setPos pos
    pure (some pos)
  | .current delta => seekBy checks self.pos delta
  | .end_ delta => seekBy checks self.size delta

/-- `read_from_offset` -/
def readFromOffset (checks : Bool) (pos : ℕ) (buf : List UInt8) :
    EStateM Panic (VirtFileInner × World σ φ) (Option ℕ × List UInt8) := do
  let oldPos := (← get).1.pos
  setPos pos
  let readLen ← readInner checks buf
  setPos oldPos
  pure readLen

section alloc

variable [FrameAllocator σ]

/-- `write_to_offset` -/
def writeToOffset (checks : Bool) (pos : ℕ) (buf : List UInt8) :
    EStateM Panic (VirtFileInner × World σ φ) (Option ℕ) := do
  let oldPos := (← get).1.pos
  setPos pos
  let writeLen ← writeInner checks buf
  setPos oldPos
  pure writeLen

/-- `clear` -/
def clear : EStateM Panic (VirtFileInner × World σ φ) Unit := do
  let frames := (← get).1.frames
  modify fun s ↦ (⟨[], 0, 0⟩, s.2)
  onSnd (frames.forM frameDrop)

/-- A method of the file. -/
def step (checks : Bool) : Method → EStateM Panic (VirtFileInner × World σ φ) Reply
  | .read buf => readInner checks buf.1
  | .write buf => (·, []) <$> writeInner checks buf.1
  | .seek seekfrom => (·, []) <$> seek checks seekfrom.1
  | .clear => (fun _ ↦ (none, [])) <$> clear
  | .readFromOffset pos buf => readFromOffset checks pos buf.1
  | .writeToOffset pos buf => (·, []) <$> writeToOffset checks pos buf.1

/-- One method after the other. -/
def run (checks : Bool) : List Method → EStateM Panic (VirtFileInner × World σ φ) (List Reply)
  | [] => pure []
  | op :: ops => do
    let r ← step checks op
    let rs ← run checks ops
    pure (r :: rs)

end alloc

/-- The file as a byte array with a cursor. -/
def view (self : VirtFileInner) (mem : ByteMem) : Cursor :=
  ⟨ByteMem.readBytes (self.byteAt mem) 0 self.size, self.pos⟩

end VirtFileInner

/-! ## Reading and writing an array -/

/-- What is read of a row of bytes is a part of the row. -/
theorem take_drop_readBytes {f : ByteMem} {size pos n : ℕ} (h : pos + n ≤ size) :
    ((ByteMem.readBytes f 0 size).drop pos).take n = ByteMem.readBytes f pos n := by
  obtain ⟨rest, rfl⟩ := Nat.exists_eq_add_of_le h
  rw [Nat.add_assoc, ByteMem.readBytes_add, List.drop_left' ByteMem.length_readBytes,
    ByteMem.readBytes_add, List.take_left' ByteMem.length_readBytes, Nat.zero_add]

theorem readBytes_drop {f : ByteMem} {size pos : ℕ} :
    (ByteMem.readBytes f 0 size).drop pos = ByteMem.readBytes f pos (size - pos) := by
  rcases le_total pos size with hle | hle
  · rw [← take_drop_readBytes (by omega : pos + (size - pos) ≤ size), List.take_of_length_le]
    rw [List.length_drop, ByteMem.length_readBytes]
  · rw [List.drop_eq_nil_of_le (by rwa [ByteMem.length_readBytes]), Nat.sub_eq_zero_of_le hle]
    rfl

/-- Bytes that are laid over a row of bytes from a place in it. -/
theorem overlay_readBytes {f : ByteMem} {size place : ℕ} {data : List UInt8} (h : place ≤ size) :
    overlay (ByteMem.readBytes f 0 size) place data = ByteMem.readBytes
      (ByteMem.writeBytes place data f) 0 (max size (place + data.length)) := by
  rw [overlay]
  split_ifs with hnil
  · rw [hnil, ByteMem.writeBytes_nil, List.length_nil, Nat.add_zero, max_eq_left h]
  · have hend : max size (place + data.length)
        = place + (data.length + (size - (place + data.length))) := by omega
    have hfront : ByteMem.readBytes (ByteMem.writeBytes place data f) 0 place
        = (ByteMem.readBytes f 0 size).take place := by
      have htake := @take_drop_readBytes f size 0 place (by omega)
      rw [List.drop_zero] at htake
      rw [htake]
      exact ByteMem.readBytes_congr fun x _ hx ↦ ByteMem.writeBytes_of_notMem (.inl (by omega))
    have hback : ByteMem.readBytes (ByteMem.writeBytes place data f) (place + data.length)
        (size - (place + data.length))
          = (ByteMem.readBytes f 0 size).drop (place + data.length) := by
      rw [readBytes_drop]
      exact ByteMem.readBytes_congr fun x hx _ ↦ ByteMem.writeBytes_of_notMem (.inr hx)
    rw [ByteMem.length_readBytes, Nat.sub_eq_zero_of_le h, List.replicate_zero, List.append_nil,
      hend, ByteMem.readBytes_add, ByteMem.readBytes_add, Nat.zero_add, hfront,
      ByteMem.readBytes_writeBytes, hback, List.append_assoc]

/-! ## What the methods do -/

theorem wp_addI64 {τ : Type} {checks : Bool} {a b : ℤ} {Q : ℤ → τ → Prop} {E : Panic → τ → Prop}
    {t : τ} (h : -2 ^ 63 ≤ a + b) (hlt : a + b < 2 ^ 63) :
    wp (addI64 checks a b) Q E t ↔ Q (a + b) t := by
  rw [addI64, if_pos ⟨h, hlt⟩, wp_pure]

namespace VirtFileInner

variable {σ φ : Type} {self : VirtFileInner} {w : World σ φ} {checks : Bool} {mem : ByteMem}
  {pos base : ℕ} {delta : ℤ} {buf : List UInt8}

@[simp] theorem length_view_bytes : (self.view mem).bytes.length = self.size :=
  ByteMem.length_readBytes

@[simp] theorem view_pos : (self.view mem).pos = self.pos := rfl

/-- A move leads to where it leads in the array. -/
theorem wp_seekBy (hbase : base < 2 ^ 63) (hmin : -2 ^ 63 ≤ delta) (hlt : base + delta < 2 ^ 63) :
    wp (seekBy checks base delta) (fun r t ↦
      (r, t) = if 0 ≤ base + delta then
        (some (base + delta).toNat, ({ self with pos := (base + delta).toNat }, w))
      else (none, (self, w))) noPanic (self, w) := by
  have hcast : asI64 base = base := if_pos hbase
  rw [seekBy, hcast, wp_bind, wp_addI64 (by omega) hlt]
  split_ifs with hneg
  · omega
  · rw [wp_pure]
  · rw [wp_bind, setPos, wp_modify, wp_pure]
  · omega

variable [FrameAllocator σ]

/-- The file is still sound, and is seen as an array that a method made of another. -/
def Agrees {α : Type} (x : α × Cursor) (r : α) (t : VirtFileInner × World σ φ) : Prop :=
  t.1.Ok t.2 ∧ (r, t.1.view t.2.mem) = x

theorem wp_seekBy_agrees {seekfrom : SeekFrom} (h : self.Ok w)
    (htarget : (self.view w.mem).target seekfrom = base + delta) (hbase : base < 2 ^ 63)
    (hmin : -2 ^ 63 ≤ delta) (hlt : base + delta < 2 ^ 63) :
    wp (seekBy checks base delta) (Agrees (CursorKind.virt.seek seekfrom (self.view w.mem)))
      noFrame (self, w) := by
  refine wp_mono (wp_seekBy hbase hmin hlt) (fun r t hr ↦ ?_) fun _ _ hf ↦ hf.elim
  rw [CursorKind.virt_seek (by omega), htarget]
  split_ifs at hr ⊢
  · obtain ⟨rfl, rfl⟩ := Prod.mk.inj hr
    exact ⟨h.setPos _, rfl⟩
  · obtain ⟨rfl, rfl⟩ := Prod.mk.inj hr
    exact ⟨h, rfl⟩

theorem wp_seek_agrees (h : self.Ok w) (seekfrom : {w : SeekFrom // w.InRange})
    (hsound : (self.view w.mem).Sound (.seek seekfrom)) :
    wp (seek checks seekfrom.1) (Agrees (CursorKind.virt.seek seekfrom.1 (self.view w.mem)))
      noFrame (self, w) := by
  obtain ⟨seekfrom, hrange⟩ := seekfrom
  rw [seek, wp_bind, wp_get]
  cases seekfrom with
  | start pos =>
    have hpos : pos < 2 ^ 64 := hrange
    have htarget : (self.view w.mem).target (.start pos) < 2 ^ 64 := by
      change (pos : ℤ) < 2 ^ 64
      omega
    have hseek : CursorKind.virt.seek (.start pos) (self.view w.mem)
        = (some pos, { self.view w.mem with pos }) := by
      rw [CursorKind.virt_seek htarget]
      exact if_pos (Int.natCast_nonneg pos)
    rw [hseek, wp_bind, setPos, wp_modify, wp_pure]
    exact ⟨h.setPos pos, rfl⟩
  | end_ delta =>
    have hsize := h.size_le.trans h.length_le
    have hlt : (self.size : ℤ) + delta < 2 ^ 63 := by
      rw [← @length_view_bytes self w.mem]
      exact hsound
    have hbase : self.size < 2 ^ 63 := by omega
    refine wp_seekBy_agrees h ?_ hbase hrange.1 hlt
    exact congrArg (fun n : ℕ ↦ (n : ℤ) + delta) length_view_bytes
  | current delta => exact wp_seekBy_agrees h rfl hsound.1 hrange.1 hsound.2

theorem wp_readInner_agrees (h : self.Ok w) (hpos : self.pos ≤ self.size) :
    wp (readInner checks buf) (Agrees (CursorKind.virt.read buf (self.view w.mem)))
      noFrame (self, w) := by
  refine wp_mono (wp_readInner h hpos) (fun r t hr ↦ ?_) fun _ _ hf ↦ hf.elim
  obtain ⟨rfl, rfl⟩ := hr
  refine ⟨h.setPos _, ?_⟩
  have hle : min buf.length (self.size - self.pos) ≤ self.size - self.pos := Nat.min_le_right _ _
  rw [CursorKind.virt_read, length_view_bytes, view_pos]
  generalize min buf.length (self.size - self.pos) = n at *
  have hpart := @take_drop_readBytes (self.byteAt w.mem) self.size self.pos n (by omega)
  rw [filled, Nat.sub_zero, List.take_zero, List.nil_append]
  change ((_, ByteMem.readBytes (self.byteAt w.mem) self.pos n ++ _), _) = _
  rw [← hpart]
  rfl

theorem wp_writeInner_agrees (h : self.Ok w) (hlen : buf.length < 2 ^ 63)
    (hpos : buf = [] ∨ self.pos ≤ self.size) :
    wp (writeInner checks buf) (Agrees (CursorKind.virt.write buf (self.view w.mem)))
      noFrame (self, w) := by
  rcases hpos with rfl | hpos
  · have hrun : writeInner checks [] = (pure (some 0) : EStateM Panic (_ × World σ φ) _) :=
      if_pos rfl
    rw [hrun, wp_pure, CursorKind.virt_write_nil]
    exact ⟨h, rfl⟩
  · have hsize := h.size_le.trans h.length_le
    have hsum : self.pos + buf.length < 2 ^ 64 := by omega
    refine wp_imp (wp_writeInner h hsum) fun r t hr ↦ ?_
    obtain ⟨rfl, hok, hpos', hsize', hbytes⟩ := hr
    refine ⟨hok, ?_⟩
    rw [CursorKind.virt_write (c := self.view w.mem) hsum]
    refine Prod.ext rfl (Cursor.ext ?_ hpos')
    have hend : t.1.size = max self.size (self.pos + buf.length) := by
      rw [hsize']
      split_ifs with hzero
      · omega
      · rfl
    change ByteMem.readBytes _ 0 t.1.size = overlay (ByteMem.readBytes _ 0 self.size) self.pos buf
    rw [overlay_readBytes hpos, hend]
    exact ByteMem.readBytes_congr fun x _ hx ↦ hbytes x (by omega)

/-- A method does to the file what it does to the array. -/
theorem wp_step (h : self.Ok w) {op : Method} (hsound : (self.view w.mem).Sound op) :
    wp (step checks op) (Agrees (CursorKind.virt.step (self.view w.mem) op)) noFrame (self, w) := by
  cases op with
  | read buf =>
    exact wp_readInner_agrees h (hsound.trans_eq length_view_bytes)
  | write buf =>
    have hpos := hsound.imp_right (·.trans_eq length_view_bytes)
    rw [step, wp_map]
    refine wp_imp (wp_writeInner_agrees h buf.2 hpos) fun r t hr ↦ ?_
    obtain ⟨hok, hview⟩ := hr
    refine ⟨hok, ?_⟩
    rw [CursorKind.step, ← hview]
  | seek seekfrom =>
    rw [step, wp_map]
    refine wp_imp (wp_seek_agrees h seekfrom hsound) fun r t hr ↦ ?_
    obtain ⟨hok, hview⟩ := hr
    refine ⟨hok, ?_⟩
    rw [CursorKind.step, ← hview]
  | clear =>
    rw [step, wp_map, clear, wp_bind, wp_get, wp_bind, wp_modify, wp_onSnd]
    refine wp_mono (wp_forM_frameDrop _) (fun _ w' _ ↦ ?_) fun _ _ hf ↦ hf.elim
    exact ⟨Ok.new, rfl⟩
  | readFromOffset pos buf =>
    have hpos : pos ≤ self.size := hsound.trans_eq length_view_bytes
    rw [step, readFromOffset, wp_bind, wp_get, wp_bind, setPos, wp_modify, wp_bind]
    refine wp_imp (wp_readInner_agrees (h.setPos pos) hpos) fun r t hr ↦ ?_
    obtain ⟨hok, hview⟩ := hr
    rw [wp_bind, setPos, wp_modify, wp_pure]
    refine ⟨hok.setPos _, Prod.ext (congrArg Prod.fst hview :) ?_⟩
    -- the position is put back, so that only the bytes count
    have hbytes := congrArg (fun x ↦ x.2.bytes) hview
    exact Cursor.ext hbytes rfl
  | writeToOffset pos buf =>
    have hpos : buf.1 = [] ∨ pos ≤ self.size := hsound.imp_right (·.trans_eq length_view_bytes)
    rw [step, wp_map, writeToOffset, wp_bind, wp_get, wp_bind, setPos, wp_modify, wp_bind]
    refine wp_imp (wp_writeInner_agrees (h.setPos pos) buf.2 hpos) fun r t hr ↦ ?_
    obtain ⟨hok, hview⟩ := hr
    rw [wp_bind, setPos, wp_modify, wp_pure]
    refine ⟨hok.setPos _, Prod.ext ?_ ?_⟩
    · exact congrArg (fun x ↦ (x.1, [])) hview
    · have hbytes := congrArg (fun x ↦ x.2.bytes) hview
      exact Cursor.ext hbytes rfl

/-- As long as no byte is read or written behind the end, the file is the array: its methods return
what those of the array return, and fail only if there is no frame left. -/
theorem wp_run_agrees (h : self.Ok w) {ops : List Method}
    (hsound : Throughout (fun c op ↦ (CursorKind.virt.step c op).2) Cursor.Sound
      (self.view w.mem) ops) :
    wp (run checks ops) (Agrees (CursorKind.virt.run (self.view w.mem) ops)) noFrame (self, w) := by
  induction ops generalizing self w with
  | nil =>
    rw [run, wp_pure]
    exact ⟨h, rfl⟩
  | cons op ops ih =>
    obtain ⟨hop, hops⟩ := hsound
    rw [run, wp_bind]
    refine wp_imp (wp_step h hop) fun r t hr ↦ ?_
    obtain ⟨hok, hview⟩ := hr
    dsimp only at hops
    rw [← hview] at hops
    rw [wp_bind, CursorKind.run, ← hview]
    refine wp_imp (ih hok hops) fun rs t' hrs ↦ ?_
    obtain ⟨hok', hview'⟩ := hrs
    rw [wp_pure, ← hview']
    exact ⟨hok', rfl⟩

/-- Two bytes are written, and the second one is read. -/
def writeThenRead : List Method :=
  [.write ⟨[1, 2], by decide⟩, .seek ⟨.end_ (-1), by decide⟩, .read ⟨[0, 0], by decide⟩]

theorem wp_run_agrees_writeThenRead : wp (run true writeThenRead)
    (Agrees (CursorKind.virt.run (new.view World.boot.mem) writeThenRead)) noFrame
    (new, World.boot) :=
  wp_run_agrees Ok.new (by decide)

/-- Two frames of sevens. -/
def sevens : World Bitmap Unit := { World.boot with mem := fun _ ↦ 7 }

/-- A byte is written behind the end, and the file is read from its start. -/
def gap : List Method :=
  [.seek ⟨.start 1, by decide⟩, .write ⟨[1], by decide⟩, .seek ⟨.start 0, by decide⟩,
    .read ⟨[0, 0], by decide⟩]

/-- A read behind the end. -/
def past : List Method := [.seek ⟨.start 1, by decide⟩, .read ⟨[0], by decide⟩]

/-- A byte that is written behind the end leaves what the frame held before in front of it, and a
read behind the end underflows. -/
theorem not_wp_run_agrees : ∃ (w : World Bitmap Unit) (ops ops' : List Method),
    ¬wp (run false ops) (Agrees (CursorKind.virt.run (new.view w.mem) ops)) noFrame (new, w) ∧
    ¬wp (run true ops') (Agrees (CursorKind.virt.run (new.view w.mem) ops')) noFrame (new, w) := by
  refine ⟨sevens, gap, past, fun h ↦ ?_, fun h ↦ ?_⟩
  · obtain ⟨rs, t, hrun, hrs⟩ := exists_of_returns (x := run false gap) (s := (new, sevens))
      (P := fun rs _ ↦ rs[3]? == some (some 2, [7, 1])) (by decide +kernel)
    have hagree := congrArg (·.1[3]?) (wp_ok h hrun).2
    rw [beq_iff_eq] at hrs
    have hzero : (CursorKind.virt.run (new.view sevens.mem) gap).1[3]? = some (some 2, [0, 1]) := by
      decide +kernel
    exact absurd (hrs.symm.trans (hagree.trans hzero)) (by decide)
  · have hpanic : panicOf (run true past) (new, sevens) = some .overflow := by decide +kernel
    obtain ⟨t, he, -⟩ := exists_of_panicOf hpanic h
    exact absurd he (by decide)

end VirtFileInner

end Maturin
