import Maturin.Base.Slice
import Maturin.Memory.World
import Mathlib.Data.Finset.Card

/-!
# Files in memory

`VirtFileInner` keeps the bytes of a file in frames, one page after the other, with its size and a
cursor. Byte `i` of the file lies in frame `i / PAGE_SIZE` at offset `i % PAGE_SIZE`.

A read copies the bytes from the cursor on into the buffer, as many as there are. A write first
takes the frames it needs from the allocator, which is the only thing that can fail, and then
writes the whole buffer.
-/

open Exec

namespace Maturin

/-- `VirtFileInner` -/
structure VirtFileInner where
  frames : List ℕ
  size : ℕ
  pos : ℕ

variable {σ φ : Type}

/-- The only panic of a write to a file: there is no frame left. -/
def noFrame {τ : Type} : Panic → τ × World σ φ → Prop :=
  fun e t ↦ e = .unwrapNone .writeInner ∧ t.2.oom = true

namespace VirtFileInner

/-- `VirtFileInner::new` -/
def new : VirtFileInner := ⟨[], 0, 0⟩

/-- `set_pos` -/
def setPos (pos : ℕ) : EStateM Panic (VirtFileInner × World σ φ) Unit :=
  modify fun s ↦ ({ s.1 with pos }, s.2)

/-- `frame.as_slice()[start..end_]` -/
def frameSlice (frame start end_ : ℕ) :
    EStateM Panic (VirtFileInner × World σ φ) (List UInt8) := do
  checkRange start end_ PAGE_SIZE
  let s ← get
  pure (ByteMem.readBytes s.2.mem (frame + start) (end_ - start))

/-- `frame.as_slice_mut()[start..end_].copy_from_slice(src)` -/
def copyIntoFrame (frame start end_ : ℕ) (src : List UInt8) :
    EStateM Panic (VirtFileInner × World σ φ) Unit := do
  checkRange start end_ PAGE_SIZE
  if src.length = end_ - start then
    modify fun s ↦ (s.1, s.2.setMem (ByteMem.writeBytes (frame + start) src s.2.mem))
  else throw .lengthMismatch

/-- The loop of `read_inner` over the pages after the first one. -/
def readPages (checks : Bool) (readLen : ℕ) :
    List ℕ → ℕ → List UInt8 → EStateM Panic (VirtFileInner × World σ φ) (List UInt8)
  | [], _, buf => pure buf
  | page :: pages, bufPos, buf => do
    let bufNext ← addUsize checks bufPos PAGE_SIZE
    if bufNext ≤ readLen then
      let bytes ← frameSlice page 0 PAGE_SIZE
      let buf ← copyIntoSlice buf bufPos bufNext bytes
      readPages checks readLen pages bufNext buf
    else
      let rest ← subUsize checks readLen bufPos
      let bytes ← frameSlice page 0 rest
      copyIntoSlice buf bufPos readLen bytes

/-- The part of `read_inner` that fills the buffer. -/
def readAt (checks : Bool) (pos readLen : ℕ) (buf : List UInt8) :
    EStateM Panic (VirtFileInner × World σ φ) (List UInt8) := do
  let self := (← get).1
  let pageNow := addrToPageId pos
  let off := pageOffset pos
  let offEnd ← addUsize checks off readLen
  let frame ← index self.frames pageNow
  if offEnd ≤ PAGE_SIZE then
    let bytes ← frameSlice frame off offEnd
    copyIntoSlice buf 0 readLen bytes
  else
    let first ← subUsize checks PAGE_SIZE off
    let bytes ← frameSlice frame off PAGE_SIZE
    let buf ← copyIntoSlice buf 0 first bytes
    readPages checks readLen (self.frames.drop (pageNow + 1)) first buf

/-- `read_inner`: the number of bytes read, and the buffer after the call. -/
def readInner (checks : Bool) (buf : List UInt8) :
    EStateM Panic (VirtFileInner × World σ φ) (Option ℕ × List UInt8) := do
  let self := (← get).1
  let rest ← subUsize checks self.size self.pos
  let readLen := min buf.length rest
  if readLen = 0 then pure (some 0, buf)
  else
    let buf ← readAt checks self.pos readLen buf
    let pos ← addUsize checks self.pos readLen
    setPos pos
    pure (some readLen, buf)

section write

variable [FrameAllocator σ]

/-- `self.frames.push(Frame::new().unwrap())` -/
def pushFrame : EStateM Panic (VirtFileInner × World σ φ) Unit := do
  match ← onSnd frameNew with
  | some frame => modify fun s ↦ ({ s.1 with frames := s.1.frames ++ [frame] }, s.2)
  | none => throw (.unwrapNone .writeInner)

/-- The loop of `write_inner` that allocates, for so many frames. -/
def growFrames : ℕ → EStateM Panic (VirtFileInner × World σ φ) Unit
  | 0 => pure ()
  | n + 1 => do
    pushFrame
    growFrames n

omit [FrameAllocator σ] in
/-- The loop of `write_inner` over the pages after the first one. -/
def writePages (checks : Bool) (buf : List UInt8) :
    List ℕ → ℕ → EStateM Panic (VirtFileInner × World σ φ) Unit
  | [], _ => pure ()
  | page :: pages, bufPos => do
    let bufNext ← addUsize checks bufPos PAGE_SIZE
    if bufNext ≤ buf.length then
      let bytes ← slice buf bufPos bufNext
      copyIntoFrame page 0 PAGE_SIZE bytes
      writePages checks buf pages bufNext
    else
      let rest ← subUsize checks buf.length bufPos
      let bytes ← slice buf bufPos buf.length
      copyIntoFrame page 0 rest bytes

omit [FrameAllocator σ] in
/-- The part of `write_inner` that copies the buffer. -/
def writeAt (checks : Bool) (pos : ℕ) (buf : List UInt8) :
    EStateM Panic (VirtFileInner × World σ φ) Unit := do
  let self := (← get).1
  let pageNow := addrToPageId pos
  let off := pageOffset pos
  let offEnd ← addUsize checks off buf.length
  let frame ← index self.frames pageNow
  if offEnd ≤ PAGE_SIZE then copyIntoFrame frame off offEnd buf
  else
    let first ← subUsize checks PAGE_SIZE off
    let bytes ← slice buf 0 first
    copyIntoFrame frame off PAGE_SIZE bytes
    writePages checks buf (self.frames.drop (pageNow + 1)) first

/-- `write_inner`: the number of bytes written. -/
def writeInner (checks : Bool) (buf : List UInt8) :
    EStateM Panic (VirtFileInner × World σ φ) (Option ℕ) := do
  if buf.length = 0 then pure (some 0)
  else
    let self := (← get).1
    let bufEnd ← addUsize checks self.pos buf.length
    let last ← subUsize checks bufEnd 1
    growFrames (addrToPageId last + 1 - self.frames.length)
    writeAt checks self.pos buf
    let pos ← addUsize checks self.pos buf.length
    modify fun s ↦ ({ s.1 with pos, size := max s.1.size pos }, s.2)
    pure (some buf.length)

end write

/-! ## The bytes of a file -/

/-- Byte `i` of a row of pages. -/
def pageByte (mem : ByteMem) (pages : List ℕ) : ByteMem :=
  fun i ↦ mem (pages.getD (i / PAGE_SIZE) 0 + i % PAGE_SIZE)

/-- Byte `i` of the file. -/
def byteAt (self : VirtFileInner) (mem : ByteMem) : ByteMem := pageByte mem self.frames

section pageByte

variable {mem mem' : ByteMem} {pages pages' : List ℕ} {p i k n off : ℕ} {bs : List UInt8}

/-- The byte at an offset of a page. -/
theorem pageByte_eq (hk : k < pages.length) (hoff : off < PAGE_SIZE) :
    pageByte mem pages (k * PAGE_SIZE + off) = mem (pages[k] + off) := by
  simp only [PAGE_SIZE] at hoff
  have hdiv : (k * 4096 + off) / 4096 = k := by omega
  have hmod : (k * 4096 + off) % 4096 = off := by omega
  rw [pageByte, hdiv, hmod, List.getD_eq_getElem _ _ hk]

/-- More pages at the end do not change the bytes. -/
theorem pageByte_append (h : i < pages.length * PAGE_SIZE) :
    pageByte mem (pages ++ pages') i = pageByte mem pages i := by
  have hdiv : i / PAGE_SIZE < pages.length := Nat.div_lt_of_lt_mul (by rwa [Nat.mul_comm])
  rw [pageByte, pageByte, List.getD_append _ _ _ _ hdiv]

theorem pageByte_congr (h : ∀ p ∈ pages, ∀ x, p ≤ x → x < p + PAGE_SIZE → mem x = mem' x)
    (hi : i < pages.length * PAGE_SIZE) : pageByte mem pages i = pageByte mem' pages i := by
  have hdiv : i / PAGE_SIZE < pages.length := Nat.div_lt_of_lt_mul (by rwa [Nat.mul_comm])
  rw [pageByte, pageByte, List.getD_eq_getElem _ _ hdiv]
  refine h _ (List.getElem_mem hdiv) _ (by omega) ?_
  have := Nat.mod_lt i (show 0 < PAGE_SIZE by decide)
  omega

/-- The bytes of a part of a page. -/
theorem readBytes_page (hk : k < pages.length) (hn : off + n ≤ PAGE_SIZE) :
    ByteMem.readBytes mem (pages[k] + off) n =
      (List.range n).map fun j ↦ pageByte mem pages (k * PAGE_SIZE + off + j) := by
  refine List.map_congr_left fun j hj ↦ ?_
  rw [List.mem_range] at hj
  rw [Nat.add_assoc (k * PAGE_SIZE), pageByte_eq hk (by omega), Nat.add_assoc]

/-- Writing into one page writes at the page's place in the row. -/
theorem pageByte_writeBytes (hnodup : pages.Nodup) (halign : ∀ p ∈ pages, PageAligned p)
    (hk : k < pages.length) (hoff : off + bs.length ≤ PAGE_SIZE)
    (hi : i < pages.length * PAGE_SIZE) :
    pageByte (ByteMem.writeBytes (pages[k] + off) bs mem) pages i =
      ByteMem.writeBytes (k * PAGE_SIZE + off) bs (pageByte mem pages) i := by
  have hdiv : i / PAGE_SIZE < pages.length := Nat.div_lt_of_lt_mul (by rwa [Nat.mul_comm])
  have hmod := Nat.mod_lt i (show 0 < PAGE_SIZE by decide)
  have hi' : i = i / PAGE_SIZE * PAGE_SIZE + i % PAGE_SIZE := (Nat.div_add_mod' i PAGE_SIZE).symm
  generalize i / PAGE_SIZE = q at *
  generalize i % PAGE_SIZE = r at *
  subst hi'
  rw [pageByte_eq hdiv hmod]
  rcases eq_or_ne q k with rfl | hne
  · rw [ByteMem.writeBytes, ByteMem.writeBytes, pageByte_eq hdiv hmod]
    simp only [Nat.add_le_add_iff_left, Nat.add_sub_add_left]
  · have hpage : pages[q] ≠ pages[k] := fun h ↦ hne ((hnodup.getElem_inj_iff).mp h)
    have hdisj := page_disjoint (halign _ (List.getElem_mem hdiv)) (halign _ (List.getElem_mem hk))
      hpage
    rw [ByteMem.writeBytes_of_notMem (by omega), ByteMem.writeBytes_of_notMem,
      pageByte_eq hdiv hmod]
    simp only [PAGE_SIZE] at *
    omega

end pageByte

/-! ## Reading -/

section read

variable {checks : Bool} {s : VirtFileInner × World σ φ} {buf : List UInt8}
  {readLen bufPos k pos n off : ℕ}

theorem wp_frameSlice {frame : ℕ} {Q : List UInt8 → VirtFileInner × World σ φ → Prop}
    {E : Panic → VirtFileInner × World σ φ → Prop} {start end_ : ℕ} (h : start ≤ end_)
    (hle : end_ ≤ PAGE_SIZE) :
    wp (frameSlice frame start end_) Q E s ↔
      Q (ByteMem.readBytes s.2.mem (frame + start) (end_ - start)) s := by
  rw [frameSlice, wp_bind, wp_checkRange h hle, wp_bind, wp_get, wp_pure]

/-- The buffer when the file's bytes from `pos` on are copied to `[start, end_)` of it. -/
def filled (f : ByteMem) (pos : ℕ) (buf : List UInt8) (start end_ : ℕ) : List UInt8 :=
  buf.take start ++ (List.range (end_ - start)).map (fun i ↦ f (pos + i)) ++ buf.drop end_

theorem filled_self {f : ByteMem} {start : ℕ} : filled f pos buf start start = buf := by
  simp [filled]

theorem take_filled {f : ByteMem} {a b : ℕ} (hab : a ≤ b) (hb : b ≤ buf.length) :
    (filled f pos buf a b).take b =
      buf.take a ++ (List.range (b - a)).map fun i ↦ f (pos + i) := by
  refine List.take_left' ?_
  rw [List.length_append, List.length_take, List.length_map, List.length_range]
  omega

theorem drop_filled {f : ByteMem} {a b c : ℕ} (hab : a ≤ b) (hbc : b ≤ c) (hb : b ≤ buf.length) :
    (filled f pos buf a b).drop c = buf.drop c := by
  have hlen : (buf.take a ++ (List.range (b - a)).map fun i ↦ f (pos + i)).length = b := by
    rw [List.length_append, List.length_take, List.length_map, List.length_range]
    omega
  rw [filled, List.drop_append, hlen, List.drop_eq_nil_of_le (by omega), List.drop_drop,
    List.nil_append, Nat.add_sub_cancel' hbc]

/-- Filling a part and then the part behind it from another place. -/
theorem filled_twice {f : ByteMem} {pos' a b c : ℕ} (hab : a ≤ b) (hbc : b ≤ c)
    (hb : b ≤ buf.length) :
    filled f pos' (filled f pos buf a b) b c = buf.take a ++
      (List.range (b - a)).map (fun i ↦ f (pos + i)) ++
      (List.range (c - b)).map (fun i ↦ f (pos' + i)) ++ buf.drop c := by
  rw [filled, take_filled hab hb, drop_filled hab hbc hb]

/-- Filling a part and then the part behind it. -/
theorem filled_filled {f : ByteMem} {a b c : ℕ} (hab : a ≤ b) (hbc : b ≤ c) (hb : b ≤ buf.length) :
    filled f (pos + (b - a)) (filled f pos buf a b) b c = filled f pos buf a c := by
  have hsplit : c - a = (b - a) + (c - b) := by omega
  rw [filled_twice hab hbc hb, filled, hsplit, List.range_add, List.map_append, List.map_map]
  simp [Function.comp_def, Nat.add_assoc]

theorem length_filled {f : ByteMem} {a b : ℕ} (hab : a ≤ b) (hb : b ≤ buf.length) :
    (filled f pos buf a b).length = buf.length := by
  simp only [filled, List.length_append, List.length_take, List.length_map, List.length_range,
    List.length_drop]
  omega

/-- Copying a part of a page into the buffer. -/
theorem wp_copyPage {pages : List ℕ} {frame start end_ a b : ℕ}
    {Q : List UInt8 → VirtFileInner × World σ φ → Prop}
    {E : Panic → VirtFileInner × World σ φ → Prop} (hk : k < pages.length)
    (hframe : frame = pages[k]) (hstart : start ≤ end_) (hend : end_ ≤ PAGE_SIZE) (hab : a ≤ b)
    (hb : b ≤ buf.length) (hlen : end_ - start = b - a) :
    wp (frameSlice frame start end_) (fun bytes ↦ wp (copyIntoSlice buf a b bytes) Q E) E s ↔
      Q (filled (pageByte s.2.mem pages) (k * PAGE_SIZE + start) buf a b) s := by
  rw [wp_frameSlice hstart hend, wp_copyIntoSlice hab hb (by rw [ByteMem.length_readBytes, hlen]),
    hframe, readBytes_page hk (by omega), filled, hlen]

/-- The loop fills the rest of the buffer from the pages from `k` on. -/
theorem wp_readPages {pages : List ℕ} (hpos : bufPos ≤ readLen) (hbuf : readLen ≤ buf.length)
    (hpages : k * PAGE_SIZE + (readLen - bufPos) ≤ pages.length * PAGE_SIZE)
    (hsmall : readLen + PAGE_SIZE < 2 ^ 64) :
    wp (readPages checks readLen (pages.drop k) bufPos buf) (fun r t ↦ t = s ∧
      r = filled (pageByte s.2.mem pages) (k * PAGE_SIZE) buf bufPos readLen) noPanic s := by
  induction hrest : pages.drop k generalizing k bufPos buf with
  | nil =>
    have hlen : pages.length ≤ k := List.drop_eq_nil_iff.mp hrest
    have hle := Nat.mul_le_mul_right PAGE_SIZE hlen
    obtain rfl : bufPos = readLen := by omega
    rw [readPages, wp_pure]
    exact ⟨rfl, filled_self.symm⟩
  | cons page rest ih =>
    have hk : k < pages.length := by
      by_contra hge
      rw [List.drop_eq_nil_of_le (by omega)] at hrest
      exact absurd hrest (by simp)
    rw [List.drop_eq_getElem_cons hk] at hrest
    have hpage : page = pages[k] := (List.cons.inj hrest).1.symm
    have hnext : pages.drop (k + 1) = rest := (List.cons.inj hrest).2
    rw [readPages, wp_bind, wp_addUsize (by omega), hpage]
    split_ifs with hmore
    · rw [wp_bind]
      simp only [wp_bind]
      rw [wp_copyPage hk rfl (Nat.zero_le _) le_rfl (Nat.le_add_right _ _) (by omega) (by omega),
        Nat.add_zero]
      have hlen : (filled (pageByte s.2.mem pages) (k * PAGE_SIZE) buf bufPos
          (bufPos + PAGE_SIZE)).length = buf.length :=
        length_filled (Nat.le_add_right _ _) (hmore.trans hbuf)
      have hpages' : (k + 1) * PAGE_SIZE + (readLen - (bufPos + PAGE_SIZE)) ≤
          pages.length * PAGE_SIZE := by
        have hle : PAGE_SIZE ≤ readLen - bufPos := Nat.le_sub_of_add_le' hmore
        rwa [Nat.succ_mul, Nat.add_assoc, Nat.sub_add_eq, Nat.add_sub_cancel' hle]
      refine wp_imp (ih hmore (hbuf.trans_eq hlen.symm) hpages' hnext) fun r t hr ↦ ?_
      obtain ⟨rfl, rfl⟩ := hr
      refine ⟨rfl, ?_⟩
      rw [← filled_filled (Nat.le_add_right bufPos PAGE_SIZE) hmore (hmore.trans hbuf),
        Nat.add_sub_cancel_left, Nat.succ_mul]
    · -- the last page
      rw [wp_bind, wp_subUsize hpos, wp_bind,
        wp_copyPage hk rfl (Nat.zero_le _) (by omega) hpos hbuf (by omega), Nat.add_zero]
      exact ⟨rfl, rfl⟩

/-- Filling the buffer from a page and the pages after it. -/
theorem wp_readAt (hlen : 0 < readLen) (hbuf : readLen ≤ buf.length)
    (hpages : pos + readLen ≤ s.1.frames.length * PAGE_SIZE)
    (hsmall : s.1.frames.length * PAGE_SIZE + PAGE_SIZE < 2 ^ 64) :
    wp (readAt checks pos readLen buf) (fun r t ↦ t = s ∧
      r = filled (s.1.byteAt s.2.mem) pos buf 0 readLen) noPanic s := by
  have hoff : pos % PAGE_SIZE < PAGE_SIZE := Nat.mod_lt _ (by decide)
  have hpos : pos / PAGE_SIZE * PAGE_SIZE + pos % PAGE_SIZE = pos := Nat.div_add_mod' pos PAGE_SIZE
  have hk : pos / PAGE_SIZE < s.1.frames.length :=
    Nat.div_lt_of_lt_mul (by rw [Nat.mul_comm]; omega)
  rw [readAt, wp_bind, wp_get]
  dsimp only
  rw [addrToPageId, pageOffset, wp_bind, wp_addUsize (by omega), wp_bind, wp_index hk, byteAt]
  generalize pos / PAGE_SIZE = k at *
  generalize pos % PAGE_SIZE = off at *
  split_ifs with hone
  · rw [wp_bind, wp_copyPage hk rfl (Nat.le_add_right _ _) hone (Nat.zero_le _)
      hbuf (by omega), hpos]
    exact ⟨rfl, rfl⟩
  · rw [wp_bind, wp_subUsize hoff.le, wp_bind]
    simp only [wp_bind]
    rw [wp_copyPage hk rfl hoff.le le_rfl (Nat.zero_le _) (by omega) (by omega), hpos]
    have hfirst : PAGE_SIZE - off ≤ readLen := by omega
    have hnext : pos + (PAGE_SIZE - off - 0) = (k + 1) * PAGE_SIZE := by
      rw [Nat.succ_mul]
      omega
    have hbuf' : (filled (pageByte s.2.mem s.1.frames) pos buf 0 (PAGE_SIZE - off)).length =
        buf.length := length_filled (Nat.zero_le _) (hfirst.trans hbuf)
    refine wp_imp (wp_readPages hfirst (hbuf.trans_eq hbuf'.symm) ?_ (by omega)) fun r t hr ↦ ?_
    · rw [← hnext]
      omega
    · obtain ⟨rfl, rfl⟩ := hr
      refine ⟨rfl, ?_⟩
      rw [← filled_filled (Nat.zero_le _) hfirst (hfirst.trans hbuf), hnext]

end read

/-! ## Files whose frames are their own -/

/-- The frames are distinct pages in use, and there are enough of them. -/
structure Ok [FrameAllocator σ] (file : VirtFileInner) (w : World σ φ) : Prop where
  nodup : file.frames.Nodup
  frame : ∀ p ∈ file.frames, PageAligned p ∧ p < 2 ^ 56 ∧ p ∈ w.inUse
  size_le : file.size ≤ file.frames.length * PAGE_SIZE

namespace Ok

variable [FrameAllocator σ] {self : VirtFileInner} {w : World σ φ}

theorem new : VirtFileInner.new.Ok w :=
  ⟨List.nodup_nil, fun _ hp ↦ absurd hp List.not_mem_nil, Nat.zero_le _⟩

/-- There are no more frames than pages of physical memory. -/
theorem length_le (h : self.Ok w) : self.frames.length * PAGE_SIZE ≤ 2 ^ 56 := by
  have hinj : (self.frames.map (· / PAGE_SIZE)).Nodup := by
    refine (List.nodup_map_iff_inj_on h.nodup).mpr fun p hp q hq heq ↦ ?_
    have hp' := (h.frame p hp).1
    have hq' := (h.frame q hq).1
    simp only [PageAligned, PAGE_SIZE] at *
    omega
  have hsub : (self.frames.map (· / PAGE_SIZE)).toFinset ⊆ Finset.range (2 ^ 44) := by
    intro k hk
    obtain ⟨p, hp, rfl⟩ := List.mem_map.mp (List.mem_toFinset.mp hk)
    have hlt := (h.frame p hp).2.1
    rw [Finset.mem_range]
    simp only [PAGE_SIZE]
    omega
  have hcard := Finset.card_le_card hsub
  rw [List.toFinset_card_of_nodup hinj, List.length_map, Finset.card_range] at hcard
  simp only [PAGE_SIZE]
  omega

theorem setPos (h : self.Ok w) (pos : ℕ) : ({ self with pos } : VirtFileInner).Ok w :=
  ⟨h.nodup, h.frame, h.size_le⟩

end Ok

section readInner

variable [FrameAllocator σ] {self : VirtFileInner} {w : World σ φ} {checks : Bool}
  {buf : List UInt8}

/-- A read fills the front of the buffer with the bytes from the cursor on. -/
theorem wp_readInner (h : self.Ok w) (hpos : self.pos ≤ self.size) :
    wp (readInner checks buf) (fun r t ↦
      r = (some (min buf.length (self.size - self.pos)), filled (self.byteAt w.mem) self.pos buf 0
        (min buf.length (self.size - self.pos))) ∧
      t = ({ self with pos := self.pos + min buf.length (self.size - self.pos) }, w))
      noPanic (self, w) := by
  have hsmall := h.length_le
  have hsize := h.size_le
  rw [readInner, wp_bind, wp_get]
  dsimp only
  rw [wp_bind, wp_subUsize hpos]
  have hle : min buf.length (self.size - self.pos) ≤ self.size - self.pos := Nat.min_le_right _ _
  have hle' : min buf.length (self.size - self.pos) ≤ buf.length := Nat.min_le_left _ _
  generalize min buf.length (self.size - self.pos) = n at *
  split_ifs with hzero
  · subst hzero
    rw [wp_pure, filled_self]
    exact ⟨rfl, rfl⟩
  · rw [wp_bind]
    refine wp_imp (wp_readAt (Nat.pos_of_ne_zero hzero) hle' (by dsimp only; omega)
      (by simp only [PAGE_SIZE] at hsmall ⊢; omega)) fun r t hr ↦ ?_
    obtain ⟨rfl, rfl⟩ := hr
    rw [wp_bind, wp_addUsize (by omega), wp_bind, setPos, wp_modify, wp_pure]
    exact ⟨rfl, rfl⟩

end readInner

/-! ## Writing -/

section write

variable {checks : Bool} {s : VirtFileInner × World σ φ} {buf : List UInt8} {pages : List ℕ}
  {bufPos k pos : ℕ}

theorem wp_copyIntoFrame {frame start end_ : ℕ} {src : List UInt8}
    {Q : Unit → VirtFileInner × World σ φ → Prop} {E : Panic → VirtFileInner × World σ φ → Prop}
    (h : start ≤ end_) (hle : end_ ≤ PAGE_SIZE) (hlen : src.length = end_ - start) :
    wp (copyIntoFrame frame start end_ src) Q E s ↔
      Q () (s.1, s.2.setMem (ByteMem.writeBytes (frame + start) src s.2.mem)) := by
  rw [copyIntoFrame, wp_bind, wp_checkRange h hle, if_pos hlen, wp_modify]

/-- The state after writing `src` at the place `pos` of the pages. -/
def Overwritten (pages : List ℕ) (pos : ℕ) (src : List UInt8)
    (s t : VirtFileInner × World σ φ) : Prop :=
  ∃ mem, t = (s.1, s.2.setMem mem) ∧ ∀ i < pages.length * PAGE_SIZE,
    pageByte mem pages i = ByteMem.writeBytes pos src (pageByte s.2.mem pages) i

theorem Overwritten.append {t u : VirtFileInner × World σ φ} {src src' : List UInt8}
    (h : Overwritten pages pos src s t) (h' : Overwritten pages (pos + src.length) src' t u) :
    Overwritten pages pos (src ++ src') s u := by
  obtain ⟨mem, rfl, hmem⟩ := h
  obtain ⟨mem', rfl, hmem'⟩ := h'
  refine ⟨mem', rfl, fun i hi ↦ ?_⟩
  rw [hmem' i hi, ByteMem.writeBytes_append]
  exact ByteMem.writeBytes_congr (hmem i hi)

/-- Writing within one page. -/
theorem overwritten_page {off : ℕ} {src : List UInt8} (hnodup : pages.Nodup)
    (halign : ∀ p ∈ pages, PageAligned p) (hk : k < pages.length)
    (hoff : off + src.length ≤ PAGE_SIZE) :
    Overwritten pages (k * PAGE_SIZE + off) src s
      (s.1, s.2.setMem (ByteMem.writeBytes (pages[k] + off) src s.2.mem)) :=
  ⟨_, rfl, fun _ hi ↦ pageByte_writeBytes hnodup halign hk hoff hi⟩

/-- The loop writes the rest of the buffer to the pages from `k` on. -/
theorem wp_writePages (hnodup : pages.Nodup) (halign : ∀ p ∈ pages, PageAligned p)
    (hpos : bufPos ≤ buf.length)
    (hpages : k * PAGE_SIZE + (buf.length - bufPos) ≤ pages.length * PAGE_SIZE)
    (hsmall : buf.length + PAGE_SIZE < 2 ^ 64) :
    wp (writePages checks buf (pages.drop k) bufPos) (fun _ t ↦
      Overwritten pages (k * PAGE_SIZE) (buf.drop bufPos) s t) noPanic s := by
  induction hrest : pages.drop k generalizing k bufPos s with
  | nil =>
    have hlen : pages.length ≤ k := List.drop_eq_nil_iff.mp hrest
    have hle := Nat.mul_le_mul_right PAGE_SIZE hlen
    rw [writePages, wp_pure, List.drop_eq_nil_of_le (by omega)]
    exact ⟨s.2.mem, rfl, fun i _ ↦ (ByteMem.writeBytes_of_notMem (by simp; omega)).symm⟩
  | cons page rest ih =>
    have hk : k < pages.length := by
      by_contra hge
      rw [List.drop_eq_nil_of_le (by omega)] at hrest
      exact absurd hrest (by simp)
    rw [List.drop_eq_getElem_cons hk] at hrest
    have hpage : page = pages[k] := (List.cons.inj hrest).1.symm
    have hnext : pages.drop (k + 1) = rest := (List.cons.inj hrest).2
    rw [writePages, wp_bind, wp_addUsize (by omega), hpage]
    split_ifs with hmore
    · have hlen : ((buf.drop bufPos).take PAGE_SIZE).length = PAGE_SIZE := by
        rw [List.length_take, List.length_drop]
        omega
      have hoff : 0 + ((buf.drop bufPos).take PAGE_SIZE).length ≤ PAGE_SIZE := by
        rw [hlen, Nat.zero_add]
      have hone := overwritten_page (s := s) hnodup halign hk hoff
      have hpages' : (k + 1) * PAGE_SIZE + (buf.length - (bufPos + PAGE_SIZE)) ≤
          pages.length * PAGE_SIZE := by
        have hle : PAGE_SIZE ≤ buf.length - bufPos := Nat.le_sub_of_add_le' hmore
        rwa [Nat.succ_mul, Nat.add_assoc, Nat.sub_add_eq, Nat.add_sub_cancel' hle]
      rw [wp_bind, wp_slice (Nat.le_add_right _ _) hmore, Nat.add_sub_cancel_left, wp_bind,
        wp_copyIntoFrame (Nat.zero_le _) le_rfl (by rw [hlen, Nat.sub_zero])]
      refine wp_imp (ih hmore hpages' hnext) fun _ t ht ↦ ?_
      rw [← List.take_append_drop PAGE_SIZE (buf.drop bufPos), List.drop_drop]
      rw [Nat.add_zero] at hone
      refine hone.append ?_
      rwa [hlen, ← Nat.succ_mul]
    · -- the last page
      rw [wp_bind, wp_subUsize hpos, wp_bind, wp_slice hpos le_rfl,
        wp_copyIntoFrame (Nat.zero_le _) (by omega)
          (by rw [List.length_take, List.length_drop]; simp),
        List.take_of_length_le (by rw [List.length_drop])]
      have hoff : 0 + (buf.drop bufPos).length ≤ PAGE_SIZE := by
        rw [List.length_drop]
        omega
      have hone := overwritten_page (s := s) hnodup halign hk hoff
      rwa [Nat.add_zero] at hone

/-- Writing the buffer to a page and the pages after it. -/
theorem wp_writeAt (hnodup : s.1.frames.Nodup) (halign : ∀ p ∈ s.1.frames, PageAligned p)
    (hlen : 0 < buf.length) (hpages : pos + buf.length ≤ s.1.frames.length * PAGE_SIZE)
    (hsmall : s.1.frames.length * PAGE_SIZE + PAGE_SIZE < 2 ^ 64) :
    wp (writeAt checks pos buf) (fun _ t ↦ Overwritten s.1.frames pos buf s t) noPanic s := by
  have hoff : pos % PAGE_SIZE < PAGE_SIZE := Nat.mod_lt _ (by decide)
  have hpos : pos / PAGE_SIZE * PAGE_SIZE + pos % PAGE_SIZE = pos := Nat.div_add_mod' pos PAGE_SIZE
  have hk : pos / PAGE_SIZE < s.1.frames.length :=
    Nat.div_lt_of_lt_mul (by rw [Nat.mul_comm]; omega)
  rw [writeAt, wp_bind, wp_get]
  dsimp only
  rw [addrToPageId, pageOffset, wp_bind, wp_addUsize (by omega), wp_bind, wp_index hk]
  generalize pos / PAGE_SIZE = k at *
  generalize pos % PAGE_SIZE = off at *
  subst hpos
  split_ifs with hone
  · rw [wp_copyIntoFrame (Nat.le_add_right _ _) hone (by omega)]
    exact overwritten_page hnodup halign hk hone
  · -- the rest of the first page, and then whole pages
    have hfirst : (buf.take (PAGE_SIZE - off)).length = PAGE_SIZE - off := by
      rw [List.length_take]
      omega
    have hle : PAGE_SIZE - off ≤ buf.length := by omega
    have hnext : k * PAGE_SIZE + off + (PAGE_SIZE - off) = (k + 1) * PAGE_SIZE := by
      rw [Nat.succ_mul]
      omega
    have hoff' : off + (buf.take (PAGE_SIZE - off)).length ≤ PAGE_SIZE := by
      rw [hfirst]
      omega
    have hpage := overwritten_page (s := s) hnodup halign hk hoff'
    rw [wp_bind, wp_subUsize hoff.le, wp_bind, wp_slice (Nat.zero_le _) hle, Nat.sub_zero,
      List.drop_zero, wp_bind, wp_copyIntoFrame hoff.le le_rfl hfirst]
    have hpages' : (k + 1) * PAGE_SIZE + (buf.length - (PAGE_SIZE - off)) ≤
        s.1.frames.length * PAGE_SIZE := by
      rwa [← hnext, Nat.add_assoc _ (PAGE_SIZE - off), Nat.add_sub_cancel' hle]
    refine wp_imp (wp_writePages hnodup halign hle hpages' (by omega)) fun _ t ht ↦ ?_
    have happ := hpage.append (u := t) (by rwa [hfirst, hnext])
    rwa [List.take_append_drop] at happ

end write

section writeInner

variable [FrameAllocator σ] {self : VirtFileInner} {w : World σ φ} {checks : Bool}
  {buf : List UInt8}

/-- The loop allocates its frames or fails at an allocation. -/
theorem wp_growFrames (n : ℕ) (h : self.Ok w) :
    wp (growFrames n) (fun _ t ↦ ∃ fresh : List ℕ, fresh.length = n ∧
      t.1 = { self with frames := self.frames ++ fresh } ∧ t.1.Ok t.2 ∧ t.2.mem = w.mem)
      noFrame (self, w) := by
  induction n generalizing self w with
  | zero =>
    rw [growFrames, wp_pure]
    exact ⟨[], rfl, by rw [List.append_nil], h, rfl⟩
  | succ n ih =>
    rw [growFrames, wp_bind, pushFrame, wp_bind, wp_onSnd]
    refine wp_mono wp_frameNew (fun r w₁ hr ↦ ?_) fun _ _ hf ↦ hf.elim
    cases r with
    | none =>
      rw [wp_throw]
      exact ⟨rfl, by rw [hr]⟩
    | some p =>
      obtain ⟨hp, halign, hlt, huse, hmem, -⟩ := hr
      rw [wp_modify]
      -- the new frame was in no use, so it is none of the old ones
      have hok : ({ self with frames := self.frames ++ [p] } : VirtFileInner).Ok w₁ := by
        refine ⟨?_, fun q hq ↦ ?_, ?_⟩
        · rw [List.nodup_append]
          refine ⟨h.nodup, List.nodup_singleton p, fun q hq q' hq' ↦ ?_⟩
          rintro rfl
          exact hp (List.mem_singleton.mp hq' ▸ (h.frame q hq).2.2)
        · rw [huse]
          rcases List.mem_append.mp hq with hq | hq
          · have hq' := h.frame q hq
            exact ⟨hq'.1, hq'.2.1, Set.mem_insert_of_mem p hq'.2.2⟩
          · obtain rfl := List.mem_singleton.mp hq
            exact ⟨halign, hlt, Set.mem_insert q _⟩
        · have hsize := h.size_le
          rw [List.length_append, List.length_singleton, Nat.succ_mul]
          exact hsize.trans (Nat.le_add_right _ _)
      refine wp_imp (ih hok) fun _ t ht ↦ ?_
      obtain ⟨fresh, hlen, ht₁, hok', hmem'⟩ := ht
      refine ⟨p :: fresh, by rw [List.length_cons, hlen], ?_, hok', hmem'.trans hmem⟩
      rw [ht₁, List.append_assoc, List.singleton_append]

/-- A write puts the whole buffer into the file, unless there is no frame left. -/
theorem wp_writeInner (h : self.Ok w) (hlen : self.pos + buf.length < 2 ^ 64) :
    wp (writeInner checks buf) (fun r t ↦ r = some buf.length ∧ t.1.Ok t.2 ∧
      t.1.pos = self.pos + buf.length ∧
      t.1.size = (if buf.length = 0 then self.size else max self.size (self.pos + buf.length)) ∧
      ∀ i, i < self.size ∨ (self.pos ≤ i ∧ i < self.pos + buf.length) →
        t.1.byteAt t.2.mem i = ByteMem.writeBytes self.pos buf (self.byteAt w.mem) i)
      noFrame (self, w) := by
  rw [writeInner]
  split_ifs with hzero
  · rw [wp_pure]
    obtain rfl := List.length_eq_zero_iff.mp hzero
    exact ⟨rfl, h, rfl, rfl, fun i _ ↦ (ByteMem.writeBytes_of_notMem (by simp; omega)).symm⟩
  · rw [wp_bind, wp_get]
    dsimp only
    rw [wp_bind, wp_addUsize hlen, wp_bind, wp_subUsize (by omega), wp_bind]
    refine wp_imp (wp_growFrames _ h) fun _ t ht ↦ ?_
    obtain ⟨fresh, hfresh, ht, hok, hmem⟩ := ht
    obtain ⟨file, w₁⟩ := t
    dsimp only at ht hok hmem
    subst ht
    have hcap := hok.length_le
    have hsize := h.size_le
    have hcover : self.pos + buf.length ≤ (self.frames ++ fresh).length * PAGE_SIZE := by
      rw [List.length_append, hfresh]
      simp only [addrToPageId, PAGE_SIZE]
      omega
    rw [wp_bind]
    refine wp_mono (wp_writeAt hok.nodup (fun p hp ↦ (hok.frame p hp).1)
      (Nat.pos_of_ne_zero hzero) hcover (by simp only [PAGE_SIZE] at hcap ⊢; omega))
      (fun _ t ht ↦ ?_) fun _ _ hf ↦ hf.elim
    obtain ⟨mem, rfl, hbytes⟩ := ht
    rw [wp_bind, wp_addUsize hlen, wp_bind, wp_modify, wp_pure]
    refine ⟨rfl, ⟨hok.nodup, hok.frame, ?_⟩, rfl, rfl, fun i hi ↦ ?_⟩
    · have hle := hok.size_le
      exact max_le hle hcover
    · have hi' : i < (self.frames ++ fresh).length * PAGE_SIZE := by
        have hle := hok.size_le
        dsimp only at hle
        omega
      rw [byteAt, World.setMem_mem, hbytes i hi']
      dsimp only
      rw [hmem]
      rcases hi with hi | hi
      · exact ByteMem.writeBytes_congr (pageByte_append (hi.trans_le hsize))
      · obtain ⟨j, rfl⟩ := Nat.exists_eq_add_of_le hi.1
        have hj : j < buf.length := by omega
        rw [ByteMem.writeBytes_of_mem hj, ByteMem.writeBytes_of_mem hj]

end writeInner

end VirtFileInner

end Maturin
