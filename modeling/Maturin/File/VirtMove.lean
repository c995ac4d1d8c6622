import Maturin.File.VirtCursor

/-!
# Where a method leaves the cursor

The methods of `VirtFileInner` in any state: also where the cursor is behind the end, where numbers
wrap and where the frames are those of another file. Unless it panics, a method leaves the cursor
where it is just if there is nothing to read or to write, or if a move is refused or leads to where
the cursor is.
-/

open Exec

namespace Maturin

namespace VirtFileInner

variable {σ φ : Type}

/-- Where a move by `delta` leads, as an `i64`. -/
def movedBy (base : ℕ) (delta : ℤ) : ℤ := (asI64 base + delta).bmod (2 ^ 64)

/-- The method leaves the cursor where it is: there is no room or nothing to read, nothing is
written, or the move leads nowhere else. -/
def Stays (self : VirtFileInner) : Method → Prop
  | .read buf => buf.1 = [] ∨ self.pos = self.size
  | .write buf => buf.1 = []
  | .seek ⟨.start pos, _⟩ => pos = self.pos
  | .seek ⟨.end_ delta, _⟩ => movedBy self.size delta < 0 ∨ movedBy self.size delta = self.pos
  | .seek ⟨.current delta, _⟩ => movedBy self.pos delta < 0 ∨ movedBy self.pos delta = self.pos
  | .clear => self.pos = 0
  | .readFromOffset _ _ => True
  | .writeToOffset _ _ => True

/-- The size and the cursor are of type `usize`. -/
def Usize (self : VirtFileInner) : Prop := self.size < 2 ^ 64 ∧ self.pos < 2 ^ 64

/-! ## What a method does to the cursor -/

section maintains

variable {τ : Type} {I : τ → Prop} {checks : Bool} {a b : ℕ}

theorem maintains_addUsize : Maintains I (addUsize checks a b) := by
  rw [addUsize]
  split_ifs
  · exact .pure _
  · exact .throw _
  · exact .pure _

theorem maintains_subUsize : Maintains I (subUsize checks a b) := by
  rw [subUsize]
  split_ifs
  · exact .pure _
  · exact .throw _
  · exact .pure _

theorem maintains_checkRange (len : ℕ) : Maintains I (checkRange a b len) := by
  rw [checkRange]
  split_ifs
  · exact .pure _
  · exact .throw _

theorem maintains_slice (l : List UInt8) : Maintains I (slice l a b) :=
  (maintains_checkRange _).bind fun _ ↦ .pure _

theorem maintains_copyIntoSlice (dst src : List UInt8) :
    Maintains I (copyIntoSlice dst a b src) := by
  refine (maintains_checkRange _).bind fun _ ↦ ?_
  split_ifs
  · exact .pure _
  · exact .throw _

theorem maintains_index {α : Type} (l : List α) : Maintains I (index l a) := by
  rw [index]
  split
  · exact .pure _
  · exact .throw _

end maintains

section cursor

variable {checks : Bool} {self : VirtFileInner} {w : World σ φ} {n p : ℕ}

/-- The size and the cursor of the file. -/
def At (n p : ℕ) (s : VirtFileInner × World σ φ) : Prop := s.1.size = n ∧ s.1.pos = p

theorem maintains_frameSlice (frame start end_ : ℕ) :
    Maintains (At n p (σ := σ) (φ := φ)) (frameSlice frame start end_) :=
  (maintains_checkRange _).bind fun _ ↦ Maintains.get.bind fun _ ↦ .pure _

theorem maintains_copyIntoFrame (frame start end_ : ℕ) (src : List UInt8) :
    Maintains (At n p (σ := σ) (φ := φ)) (copyIntoFrame frame start end_ src) := by
  refine (maintains_checkRange _).bind fun _ ↦ ?_
  split_ifs
  · exact .modify fun _ hs ↦ hs
  · exact .throw _

theorem maintains_readPages (readLen : ℕ) (pages : List ℕ) (bufPos : ℕ) (buf : List UInt8) :
    Maintains (At n p (σ := σ) (φ := φ)) (readPages checks readLen pages bufPos buf) := by
  induction pages generalizing bufPos buf with
  | nil => exact .pure _
  | cons page pages ih =>
    rw [readPages]
    generalize PAGE_SIZE = size
    refine maintains_addUsize.bind fun _ ↦ ?_
    split_ifs
    · exact (maintains_frameSlice _ _ _).bind fun _ ↦ (maintains_copyIntoSlice _ _).bind fun _ ↦
        ih _ _
    · exact maintains_subUsize.bind fun _ ↦ (maintains_frameSlice _ _ _).bind fun _ ↦
        maintains_copyIntoSlice _ _

theorem maintains_readAt (pos readLen : ℕ) (buf : List UInt8) :
    Maintains (At n p (σ := σ) (φ := φ)) (readAt checks pos readLen buf) := by
  rw [readAt]
  refine Maintains.get.bind fun _ ↦ ?_
  dsimp only
  refine maintains_addUsize.bind fun _ ↦ (maintains_index _).bind fun _ ↦ ?_
  split_ifs
  · exact (maintains_frameSlice _ _ _).bind fun _ ↦ maintains_copyIntoSlice _ _
  · exact maintains_subUsize.bind fun _ ↦ (maintains_frameSlice _ _ _).bind fun _ ↦
      (maintains_copyIntoSlice _ _).bind fun _ ↦ maintains_readPages _ _ _ _

theorem maintains_writePages (buf : List UInt8) (pages : List ℕ) (bufPos : ℕ) :
    Maintains (At n p (σ := σ) (φ := φ)) (writePages checks buf pages bufPos) := by
  induction pages generalizing bufPos with
  | nil => exact .pure _
  | cons page pages ih =>
    rw [writePages]
    generalize PAGE_SIZE = size
    refine maintains_addUsize.bind fun _ ↦ ?_
    split_ifs
    · exact (maintains_slice _).bind fun _ ↦ (maintains_copyIntoFrame _ _ _ _).bind fun _ ↦ ih _
    · exact maintains_subUsize.bind fun _ ↦ (maintains_slice _).bind fun _ ↦
        maintains_copyIntoFrame _ _ _ _

theorem maintains_writeAt (pos : ℕ) (buf : List UInt8) :
    Maintains (At n p (σ := σ) (φ := φ)) (writeAt checks pos buf) := by
  rw [writeAt]
  refine Maintains.get.bind fun _ ↦ ?_
  dsimp only
  refine maintains_addUsize.bind fun _ ↦ (maintains_index _).bind fun _ ↦ ?_
  split_ifs
  · exact maintains_copyIntoFrame _ _ _ _
  · exact maintains_subUsize.bind fun _ ↦ (maintains_slice _).bind fun _ ↦
      (maintains_copyIntoFrame _ _ _ _).bind fun _ ↦ maintains_writePages _ _ _

variable [FrameAllocator σ]

theorem maintains_growFrames (k : ℕ) :
    Maintains (At n p (σ := σ) (φ := φ)) (growFrames k) := by
  induction k with
  | zero => exact .pure _
  | succ k ih =>
    refine Maintains.bind ?_ fun _ ↦ ih
    refine Maintains.bind (Maintains.onSnd fun _ ↦ ?_) fun frame ↦ ?_
    · intro u hu
      exact wp_mono wp_frameNew (fun _ _ _ ↦ hu) fun _ _ _ ↦ hu
    · cases frame with
      | some frame => exact .modify fun _ hs ↦ hs
      | none => exact .throw _

end cursor

section step

variable {checks : Bool} {self : VirtFileInner} {w : World σ φ} {buf : List UInt8} {base : ℕ}
  {delta : ℤ}

theorem wp_addUsize_of {τ : Type} {a b : ℕ} {Q : ℕ → τ → Prop} {t : τ} (h : Q (wadd a b) t) :
    wp (addUsize checks a b) Q anyPanic t := by
  rw [addUsize]
  split_ifs with hlt
  · rwa [wadd, Nat.mod_eq_of_lt hlt] at h
  · trivial
  · exact h

theorem wp_subUsize_of {τ : Type} {a b : ℕ} {Q : ℕ → τ → Prop} {t : τ}
    (h : ∀ d, (a < 2 ^ 64 → b < 2 ^ 64 → d = wsub a b) → Q d t) :
    wp (subUsize checks a b) Q anyPanic t := by
  rw [subUsize]
  split_ifs with hle
  · refine h _ fun ha _ ↦ ?_
    rw [wsub]
    omega
  · trivial
  · exact h _ fun _ _ ↦ rfl

/-- A read moves the cursor if there is room and something to read. -/
theorem wp_readInner_cursor (hlen : buf.length < 2 ^ 63) (hsize : self.size < 2 ^ 64) :
    wp (readInner checks buf) (fun _ t ↦ t.1.size < 2 ^ 64 ∧ (self.pos < 2 ^ 64 →
      t.1.pos < 2 ^ 64 ∧ (t.1.pos = self.pos ↔ buf = [] ∨ self.pos = self.size)))
      anyPanic (self, w) := by
  rw [readInner, wp_bind, wp_get, wp_bind]
  refine wp_subUsize_of fun rest hrest ↦ ?_
  dsimp only at hrest ⊢
  rw [← List.length_eq_zero_iff]
  split_ifs with hzero
  · rw [wp_pure]
    refine ⟨hsize, fun hpos ↦ ⟨hpos, iff_of_true rfl ?_⟩⟩
    have hwsub := hrest hsize hpos
    rw [wsub] at hwsub
    omega
  · rw [wp_bind]
    refine wp_mono (maintains_readAt _ _ _ _ ⟨rfl, rfl⟩) (fun _ t ht ↦ ?_) fun _ _ _ ↦ trivial
    rw [wp_bind]
    refine wp_addUsize_of ?_
    rw [wp_bind, setPos, wp_modify, wp_pure]
    refine ⟨ht.1.trans_lt hsize, fun hpos ↦ ?_⟩
    have hwsub := hrest hsize hpos
    rw [wsub] at hwsub
    dsimp only
    rw [wadd]
    omega

variable [FrameAllocator σ]

/-- A write moves the cursor if something is written. -/
theorem wp_writeInner_cursor (hlen : buf.length < 2 ^ 63) (hsize : self.size < 2 ^ 64) :
    wp (writeInner checks buf) (fun _ t ↦ t.1.size < 2 ^ 64 ∧ (self.pos < 2 ^ 64 →
      t.1.pos < 2 ^ 64 ∧ (t.1.pos = self.pos ↔ buf = []))) anyPanic (self, w) := by
  rw [writeInner, ← List.length_eq_zero_iff]
  split_ifs with hzero
  · rw [wp_pure]
    exact ⟨hsize, fun hpos ↦ ⟨hpos, iff_of_true rfl hzero⟩⟩
  · rw [wp_bind, wp_get, wp_bind]
    refine wp_addUsize_of ?_
    rw [wp_bind]
    refine wp_subUsize_of fun last _ ↦ ?_
    rw [wp_bind]
    refine wp_mono (maintains_growFrames _ _ ⟨rfl, rfl⟩) (fun _ t ht ↦ ?_) fun _ _ _ ↦ trivial
    rw [wp_bind]
    refine wp_mono (maintains_writeAt _ _ _ ht) (fun _ t ht ↦ ?_) fun _ _ _ ↦ trivial
    rw [wp_bind]
    refine wp_addUsize_of ?_
    have hsum : wadd self.pos buf.length < 2 ^ 64 := Nat.mod_lt _ (Nat.two_pow_pos 64)
    rw [wp_bind, wp_modify, wp_pure]
    refine ⟨max_lt (ht.1.trans_lt hsize) hsum, fun hpos ↦ ⟨hsum, iff_of_false ?_ hzero⟩⟩
    dsimp only
    rw [wadd]
    omega

omit [FrameAllocator σ] in
theorem wp_addI64_of {τ : Type} {a b : ℤ} {Q : ℤ → τ → Prop} {t : τ}
    (h : Q ((a + b).bmod (2 ^ 64)) t) : wp (addI64 checks a b) Q anyPanic t := by
  rw [addI64]
  split_ifs with hin
  · have hsame : (a + b).bmod (2 ^ 64) = a + b :=
      Int.bmod_eq_of_le (by norm_num; exact hin.1) (by norm_num; exact hin.2)
    rwa [hsame] at h
  · trivial
  · exact h

omit [FrameAllocator σ] in
/-- A move by a number leads where the sum leads, unless this is negative. -/
theorem wp_seekBy_cursor (h : self.Usize) : wp (seekBy checks base delta) (fun _ t ↦ t.1.Usize ∧
    (t.1.pos = self.pos ↔ movedBy base delta < 0 ∨ movedBy base delta = self.pos))
      anyPanic (self, w) := by
  rw [seekBy, wp_bind]
  refine wp_addI64_of ?_
  rw [← movedBy]
  have hlt : movedBy base delta < 2 ^ 63 := by
    have hmod := @Int.bmod_lt (asI64 base + delta) (2 ^ 64) (Nat.two_pow_pos 64)
    rw [← movedBy] at hmod
    omega
  split_ifs with hneg
  · rw [wp_pure]
    exact ⟨h, iff_of_true rfl (.inl hneg)⟩
  · rw [wp_bind, setPos, wp_modify, wp_pure]
    refine ⟨⟨h.1, ?_⟩, ?_⟩
    · dsimp only
      omega
    · dsimp only
      omega

/-- A method leaves a size and a cursor of type `usize`, and moves the cursor unless it is one that
does not. -/
theorem wp_step_cursor (h : self.Usize) (m : Method) : wp (step checks m)
    (fun _ t ↦ t.1.Usize ∧ (t.1.pos = self.pos ↔ self.Stays m)) anyPanic (self, w) := by
  cases m with
  | read buf =>
    refine wp_imp (wp_readInner_cursor buf.2 h.1) fun _ t ht ↦ ?_
    obtain ⟨hpos, hiff⟩ := ht.2 h.2
    exact ⟨⟨ht.1, hpos⟩, hiff⟩
  | write buf =>
    rw [step, wp_map]
    refine wp_imp (wp_writeInner_cursor buf.2 h.1) fun _ t ht ↦ ?_
    obtain ⟨hpos, hiff⟩ := ht.2 h.2
    exact ⟨⟨ht.1, hpos⟩, hiff⟩
  | seek seekfrom =>
    obtain ⟨seekfrom, hrange⟩ := seekfrom
    rw [step, wp_map, seek, wp_bind, wp_get]
    cases seekfrom with
    | start pos =>
      rw [wp_bind, setPos, wp_modify, wp_pure]
      exact ⟨⟨h.1, hrange⟩, Iff.rfl⟩
    | end_ delta => exact wp_seekBy_cursor h
    | current delta => exact wp_seekBy_cursor h
  | clear =>
    rw [step, wp_map, clear, wp_bind, wp_get, wp_bind, wp_modify, wp_onSnd]
    refine wp_mono (wp_forM_frameDrop _) (fun _ w' _ ↦ ?_) fun _ _ hf ↦ hf.elim
    exact ⟨⟨Nat.two_pow_pos 64, Nat.two_pow_pos 64⟩, eq_comm⟩
  | readFromOffset pos buf =>
    rw [step, readFromOffset, wp_bind, wp_get, wp_bind, setPos, wp_modify, wp_bind]
    have hsize : ({ self with pos } : VirtFileInner).size < 2 ^ 64 := h.1
    refine wp_imp (wp_readInner_cursor buf.2 hsize) fun _ t ht ↦ ?_
    rw [wp_bind, setPos, wp_modify, wp_pure]
    exact ⟨⟨ht.1, h.2⟩, iff_of_true rfl trivial⟩
  | writeToOffset pos buf =>
    rw [step, wp_map, writeToOffset, wp_bind, wp_get, wp_bind, setPos, wp_modify, wp_bind]
    have hsize : ({ self with pos } : VirtFileInner).size < 2 ^ 64 := h.1
    refine wp_imp (wp_writeInner_cursor buf.2 hsize) fun _ t ht ↦ ?_
    rw [wp_bind, setPos, wp_modify, wp_pure]
    exact ⟨⟨ht.1, h.2⟩, iff_of_true rfl trivial⟩

end step

end VirtFileInner

end Maturin
