import Maturin.Base.Addr
import Maturin.Base.Error
import Maturin.File.BaseFile
import Maturin.File.ReadOnly
import Maturin.Lib.Bytes

/-!
# Calls that read at a given offset

`sys_pread` moves the file to the offset and reads, and does not move it back. `sys_sendfile64` with
an offset moves the file there too; the position that it remembers is the one after this move, so
that it goes back to the offset, and only where the transfer succeeds. Without an offset it goes
back by what was read and not written, but not where nothing could be written.

What they leave behind is told from what the file itself does: the place to which a move leads and
the number of bytes that a read takes.
-/

namespace Maturin

variable {σ : Type*}

/-- `SENDFILE_BUFFER_SIZE` -/
def SENDFILE_BUFFER_SIZE : ℕ := 0x2000

/-- `sys_pread`. Whether the page of the buffer is the user's is `valid`, and `file` is the file of
the descriptor. -/
def sysPread (valid : ℕ → Bool) (file : Option (BaseFile σ)) (buf count offset : ℕ)
    (t : ByteMem × σ) : Except ErrorNo ℕ × (ByteMem × σ) :=
  if !valid buf then (.error .EFAULT, t)
  else
    match file with
    | none => (.error .EINVAL, t)
    | some file =>
      match file.seek (.start offset) t.2 with
      | (none, s) => (.error .EINVAL, (t.1, s))
      | (some pos, s) =>
        if pos = offset then
          let ((readLen, slice), s) := file.read (ByteMem.readBytes t.1 buf count) s
          (match readLen with
            | some n => .ok n
            | none => .error .EINVAL, (ByteMem.writeBytes buf slice t.1, s))
        else (.error .EINVAL, (t.1, s))

/-- `sys_sendfile64` from reading on. -/
def sendBuffer (inFile outFile : BaseFile σ) (currentPos offset count : ℕ) (t : ByteMem × σ) :
    Except ErrorNo ℕ × (ByteMem × σ) :=
  match inFile.read (List.replicate (min count SENDFILE_BUFFER_SIZE) 0) t.2 with
  | ((none, _), s) => (.error .EINVAL, (t.1, s))
  | ((some readLen, buf), s) =>
    match outFile.write (buf.take readLen) s with
    | (none, s) => (.error .EINVAL, (t.1, s))
    | (some writeLen, s) =>
      if offset ≠ 0 then
        (.ok writeLen, (ByteMem.store 8 offset (wadd (ByteMem.load 8 t.1 offset) writeLen) t.1,
          (inFile.seek (.start currentPos) s).2))
      else if writeLen ≠ readLen then
        (.ok writeLen, (t.1, (inFile.seek (.current (writeLen - readLen)) s).2))
      else (.ok writeLen, (t.1, s))

/-- `sys_sendfile64` -/
def sysSendfile64 (valid : ℕ → Bool) (outFile inFile : Option (BaseFile σ)) (offset count : ℕ)
    (t : ByteMem × σ) : Except ErrorNo ℕ × (ByteMem × σ) :=
  match outFile, inFile with
  | some outFile, some inFile =>
    if offset = 0 then
      let (currentPos, s) := inFile.seek (.current 0) t.2
      sendBuffer inFile outFile (currentPos.getD 0) offset count (t.1, s)
    else if !valid offset then (.error .EFAULT, t)
    else
      match inFile.seek (.start (ByteMem.load 8 t.1 offset)) t.2 with
      | (some pos, s) => sendBuffer inFile outFile pos offset count (t.1, s)
      | (none, s) => (.error .ESPIPE, (t.1, s))
  | _, _ => (.error .EBADF, t)

/-! ## What a file does to its position -/

/-- The file has a position, and keeps it as the trait `File` says. A move from the start that it
reports may lead anywhere. -/
structure BaseFile.Positioned (F : BaseFile σ) (pos : σ → ℕ) : Prop where
  read_pos : ∀ buf s, pos (F.read buf s).2 = pos s + (F.read buf s).1.1.getD 0
  write_pos : ∀ buf s, pos (F.write buf s).2 = pos s + (F.write buf s).1.getD 0
  write_le : ∀ buf s n, (F.write buf s).1 = some n → n ≤ buf.length
  seek_none : ∀ w s, (F.seek w s).1 = none → pos (F.seek w s).2 = pos s
  seek_start : ∀ t s r, (F.seek (.start t) s).1 = some r → r = t
  seek_back : ∀ (d : ℕ) s, d ≤ pos s → pos (F.seek (.current (-d)) s).2 = pos s - d

/-- Writing `n` bytes to the file `G` moves the position by `drift n`: not at all if it is the one
of another file, and by `n` if it is the position of `G`. -/
structure BaseFile.Outlet (G : BaseFile σ) (pos : σ → ℕ) (drift : ℕ → ℕ) : Prop where
  drift_zero : drift 0 = 0
  write_pos : ∀ buf s, pos (G.write buf s).2 = pos s + drift ((G.write buf s).1.getD 0)
  write_le : ∀ buf s n, (G.write buf s).1 = some n → n ≤ buf.length

/-- What becomes of a transfer from one file to another: nothing is read, or so much is read and
nothing is written, or so much is written. -/
inductive Sent
  | unread
  | unwritten (readLen : ℕ)
  | written (readLen writeLen : ℕ)

/-- What the files do when at most `count` bytes are sent, and their state then. -/
def sent (inFile outFile : BaseFile σ) (count : ℕ) (s : σ) : Sent × σ :=
  match inFile.read (List.replicate (min count SENDFILE_BUFFER_SIZE) 0) s with
  | ((none, _), s) => (.unread, s)
  | ((some readLen, buf), s) =>
    match outFile.write (buf.take readLen) s with
    | (none, s) => (.unwritten readLen, s)
    | (some writeLen, s) => (.written readLen writeLen, s)

variable {F G : BaseFile σ} {pos : σ → ℕ} {drift : ℕ → ℕ} {valid : ℕ → Bool} {t : ByteMem × σ}
  {buf count offset : ℕ}

/-- Where the files are after sending. -/
theorem pos_sent (hF : F.Positioned pos) (hG : G.Outlet pos drift) (count : ℕ) (s : σ) :
    match sent F G count s with
    | (.unread, s') => pos s' = pos s
    | (.unwritten n, s') => pos s' = pos s + n
    | (.written n w, s') => pos s' = pos s + n + drift w ∧ w ≤ n := by
  have hread := hF.read_pos (List.replicate (min count SENDFILE_BUFFER_SIZE) 0) s
  rw [sent]
  generalize F.read (List.replicate (min count SENDFILE_BUFFER_SIZE) 0) s = r at hread ⊢
  obtain ⟨⟨_ | n, buf⟩, s₁⟩ := r
  · exact hread
  · have hwrite := hG.write_pos (buf.take n) s₁
    have hle := hG.write_le (buf.take n) s₁
    dsimp only at hread ⊢
    generalize G.write (buf.take n) s₁ = r at hwrite hle ⊢
    obtain ⟨_ | w, s₂⟩ := r
    · change pos s₂ = pos s₁ + drift 0 at hwrite
      rw [hG.drift_zero] at hwrite
      exact hwrite.trans hread
    · refine ⟨?_, (hle w rfl).trans (List.length_take_le n buf)⟩
      change pos s₁ = pos s + n at hread
      rw [← hread]
      exact hwrite

/-- `sys_sendfile64` from reading on, by what becomes of the transfer. -/
theorem sendBuffer_eq (inFile outFile : BaseFile σ) (currentPos offset count : ℕ)
    (t : ByteMem × σ) : sendBuffer inFile outFile currentPos offset count t =
      match sent inFile outFile count t.2 with
      | (.unread, s) => (.error .EINVAL, (t.1, s))
      | (.unwritten _, s) => (.error .EINVAL, (t.1, s))
      | (.written n w, s) =>
        if offset ≠ 0 then
          (.ok w, (ByteMem.store 8 offset (wadd (ByteMem.load 8 t.1 offset) w) t.1,
            (inFile.seek (.start currentPos) s).2))
        else if w ≠ n then (.ok w, (t.1, (inFile.seek (.current (w - n)) s).2))
        else (.ok w, (t.1, s)) := by
  rw [sendBuffer, sent]
  rcases inFile.read (List.replicate (min count SENDFILE_BUFFER_SIZE) 0) t.2 with ⟨⟨_ | n, buf⟩, s⟩
  · rfl
  · dsimp only
    rcases outFile.write (buf.take n) s with ⟨_ | w, s⟩ <;> rfl

/-- A file whose position is read may be written too. -/
theorem BaseFile.Positioned.outlet (h : F.Positioned pos) : F.Outlet pos id where
  drift_zero := rfl
  write_pos := h.write_pos
  write_le := h.write_le

/-- A file of the file system keeps its position as the trait says. -/
theorem FatFile.positioned (self : FatFile) : self.baseFile.Positioned FsFile.offset where
  read_pos buf file := by
    have hread : (self.read buf file).1.1.getD 0 = self.bytesRead file file.offset buf := by
      rw [FatFile.read, bytesRead, readLoop_eq _ le_rfl]
      cases self.readable with
      | false => rfl
      | true =>
        change ((file.bytes.drop file.offset).take buf.length).length = _
        rw [List.length_take, List.length_drop]
        rfl
    change (self.read buf file).2.offset = file.offset + (self.read buf file).1.1.getD 0
    rw [read_spec.2, hread]
  write_pos buf file := by
    change (self.write buf file).2.offset = file.offset + (self.write buf file).1.getD 0
    rw [FatFile.write]
    cases self.writable with
    | false => rfl
    | true => exact (writeLoop_le _ _ _).2
  write_le _ _ _ := write_le
  seek_none w file hnone := by
    change (FatFile.seek w file).1 = none at hnone
    change (FatFile.seek w file).2.offset = file.offset
    by_cases h : 0 ≤ file.newOffset w ∧ file.newOffset w ≤ MAX_FILE_SIZE
    · obtain ⟨place, hplace⟩ := Int.eq_ofNat_of_zero_le h.1
      have hspec := seek_spec hplace (Int.ofNat_le.mp (hplace ▸ h.2))
      exact absurd (hspec.1.symm.trans hnone) (Option.some_ne_none _)
    · rw [seek_of_not h]
  seek_start place file r hr := Option.some.inj (hr.symm.trans (seek_start_fst place))
  seek_back d file hd := by
    have hplace : file.newOffset (.current (-d)) = (file.offset - d : ℕ) := by
      rw [Int.ofNat_sub hd]
      rfl
    have hle := file.offset_le
    have hsize := file.size_le
    have hspec := (seek_spec hplace (by omega)).2.2
    change (FatFile.seek (.current (-d)) file).2.offset = file.offset - d
    rw [hspec]
    omega

/-! ## The positions that the calls leave behind -/

/-- `sys_pread` leaves the position where it was. -/
def PreadKeeps (pos : σ → ℕ) (valid : ℕ → Bool) (F : BaseFile σ) (buf count offset : ℕ)
    (t : ByteMem × σ) : Prop :=
  pos (sysPread valid (some F) buf count offset t).2.2 = pos t.2

/-- The file cannot be moved to the offset, or the read there ends where the file was. -/
def PreadReturns (pos : σ → ℕ) (F : BaseFile σ) (slice : List UInt8) (offset : ℕ) (s : σ) : Prop :=
  (F.seek (.start offset) s).1 = none ∨ pos (F.seek (.start offset) s).2 +
    (F.read slice (F.seek (.start offset) s).2).1.1.getD 0 = pos s

/-- With an offset, `sys_sendfile64` leaves the position where it was, and adds to the offset what
was written. -/
def SendKeeps (pos : σ → ℕ) (valid : ℕ → Bool) (F G : BaseFile σ) (offset count : ℕ)
    (t : ByteMem × σ) : Prop :=
  let r := sysSendfile64 valid (some G) (some F) offset count t
  pos r.2.2 = pos t.2 ∧ r.2.1 = match r.1 with
    | .ok w => ByteMem.store 8 offset (wadd (ByteMem.load 8 t.1 offset) w) t.1
    | .error _ => t.1

/-- The file cannot be moved to the offset, or it is where it was at the end: after the second move
there if something was written, and else after what was read. -/
def SendReturns (pos : σ → ℕ) (F G : BaseFile σ) (offset count : ℕ) (s : σ) : Prop :=
  (F.seek (.start offset) s).1 = none ∨
    match sent F G count (F.seek (.start offset) s).2 with
    | (.unread, _) => pos (F.seek (.start offset) s).2 = pos s
    | (.unwritten n, _) => pos (F.seek (.start offset) s).2 + n = pos s
    | (.written _ _, s') => pos (F.seek (.start offset) s').2 = pos s

/-- Without an offset, `sys_sendfile64` moves the position by what was written. -/
def SendAdvances (pos : σ → ℕ) (valid : ℕ → Bool) (F G : BaseFile σ) (count : ℕ)
    (t : ByteMem × σ) : Prop :=
  let r := sysSendfile64 valid (some G) (some F) 0 count t
  r.2.1 = t.1 ∧ pos r.2.2 = pos t.2 + match r.1 with
    | .ok w => w
    | .error _ => 0

/-- Nothing is read that cannot be written, and writing does not move the position itself. -/
def SendSettles (F G : BaseFile σ) (drift : ℕ → ℕ) (count : ℕ) (s : σ) : Prop :=
  match sent F G count (F.seek (.current 0) s).2 with
  | (.unread, _) => True
  | (.unwritten n, _) => n = 0
  | (.written _ w, _) => drift w = 0

theorem preadKeeps_iff (h : F.Positioned pos) : PreadKeeps pos valid F buf count offset t ↔
    valid buf = false ∨ PreadReturns pos F (ByteMem.readBytes t.1 buf count) offset t.2 := by
  have hnone := h.seek_none (.start offset) t.2
  have hstart := h.seek_start offset t.2
  rw [PreadKeeps, PreadReturns, sysPread]
  cases valid buf with
  | false => exact iff_of_true rfl (.inl rfl)
  | true =>
    generalize F.seek (.start offset) t.2 = r at hnone hstart ⊢
    obtain ⟨_ | n, s⟩ := r
    · exact iff_of_true (hnone rfl) (.inr (.inl rfl))
    · obtain rfl := hstart n rfl
      rw [← h.read_pos]
      simp

theorem sendKeeps_iff (hF : F.Positioned pos) (hG : G.Outlet pos drift) (hoffset : offset ≠ 0) :
    SendKeeps pos valid F G offset count t ↔
      valid offset = false ∨ SendReturns pos F G (ByteMem.load 8 t.1 offset) count t.2 := by
  have hnone := hF.seek_none (.start (ByteMem.load 8 t.1 offset)) t.2
  have hstart := hF.seek_start (ByteMem.load 8 t.1 offset) t.2
  rw [SendKeeps, SendReturns, sysSendfile64]
  dsimp only
  rw [if_neg hoffset]
  cases valid offset with
  | false => exact iff_of_true ⟨rfl, rfl⟩ (.inl rfl)
  | true =>
    generalize F.seek (.start (ByteMem.load 8 t.1 offset)) t.2 = r at hnone hstart ⊢
    obtain ⟨_ | n, s⟩ := r
    · exact iff_of_true ⟨hnone rfl, rfl⟩ (.inr (.inl rfl))
    · obtain rfl := hstart n rfl
      have hsent := pos_sent hF hG count s
      simp only [Bool.not_true, Bool.false_eq_true, if_false, sendBuffer_eq, reduceCtorEq, false_or]
      generalize sent F G count s = r at hsent ⊢
      obtain ⟨_ | n | ⟨n, w⟩, s'⟩ := r
      · rw [and_iff_left rfl]
        exact Eq.congr_left hsent
      · rw [and_iff_left rfl]
        exact Eq.congr_left hsent
      · dsimp only
        rw [if_pos hoffset]
        exact and_iff_left rfl

theorem sendAdvances_iff (hF : F.Positioned pos) (hG : G.Outlet pos drift) :
    SendAdvances pos valid F G count t ↔ SendSettles F G drift count t.2 := by
  have hhere := hF.seek_back 0 t.2 (Nat.zero_le _)
  rw [Nat.sub_zero, Int.ofNat_zero, Int.neg_zero] at hhere
  rw [SendAdvances, SendSettles, sysSendfile64]
  dsimp only
  rw [if_pos rfl, sendBuffer_eq]
  have hsent := pos_sent hF hG count (F.seek (.current 0) t.2).2
  dsimp only
  generalize sent F G count (F.seek (.current 0) t.2).2 = r at hsent ⊢
  obtain ⟨_ | n | ⟨n, w⟩, s'⟩ := r
  · exact iff_of_true ⟨rfl, hsent.trans hhere⟩ trivial
  · dsimp only at hsent ⊢
    rw [and_iff_right rfl, hsent, hhere]
    omega
  · obtain ⟨hpos, hle⟩ := hsent
    rw [hhere] at hpos
    dsimp only
    rw [if_neg (not_not.mpr rfl)]
    split_ifs with hne
    · have hback := hF.seek_back (n - w) s' (by omega)
      have hdelta : (-((n - w : ℕ) : ℤ)) = (w : ℤ) - n := by omega
      rw [hdelta] at hback
      dsimp only
      rw [and_iff_right rfl, hback, hpos]
      omega
    · obtain rfl : w = n := not_not.mp hne
      dsimp only
      rw [and_iff_right rfl, hpos]
      omega

namespace BaseFile.IsCursor

variable {k : CursorKind} {view : σ → Cursor} {s : σ} {slice : List UInt8}

theorem pos_read (h : F.IsCursor k view) (slice : List UInt8) (s : σ) :
    (view (F.read slice s).2).pos = (view s).pos + (F.read slice s).1.1.getD 0 := by
  rw [(h.read slice s).1, (h.read slice s).2, CursorKind.read]
  split_ifs <;> rfl

/-- A byte array keeps its position as the trait says. -/
theorem positioned (h : F.IsCursor k view) : F.Positioned fun s ↦ (view s).pos where
  read_pos := h.pos_read
  write_pos slice s := by
    rw [(h.write slice s).1, (h.write slice s).2, CursorKind.write]
    split_ifs <;> rfl
  write_le slice s n hn := by
    rw [(h.write slice s).1, CursorKind.write] at hn
    split_ifs at hn
    obtain rfl := Option.some.inj hn
    exact min_le_left _ _
  seek_none w s hnone := by
    rw [(h.seek w s).1, CursorKind.seek] at hnone
    rw [(h.seek w s).2, CursorKind.seek]
    split_ifs at hnone ⊢
    rfl
  seek_start place s r hr := by
    rw [(h.seek (.start place) s).1, CursorKind.seek] at hr
    split_ifs at hr
    exact (Option.some.inj hr).symm
  seek_back d s hd := by
    have htarget : (view s).target (.current (-d)) = ((view s).pos - d : ℕ) := by
      rw [Int.ofNat_sub hd]
      rfl
    have hle := (h.ok s).pos_le
    rw [(h.seek (.current (-d)) s).2, CursorKind.seek_of_eq htarget (by omega)]

/-- `sys_pread` leaves the cursor of a byte array where it was if and only if the array cannot be
moved to the offset, or what it holds there, up to the size of the buffer, ends at the cursor. -/
theorem preadReturns_iff (h : F.IsCursor k view) :
    PreadReturns (fun s ↦ (view s).pos) F slice offset s ↔ k.limit < offset ∨
      offset + (if k.readable then min slice.length ((view s).bytes.length - offset) else 0)
        = (view s).pos := by
  rcases lt_or_ge k.limit offset with hlt | hle
  · obtain ⟨s', hseek, -⟩ := h.seek_start_of_lt s hlt
    exact iff_of_true (.inl (by rw [hseek])) (.inl hlt)
  · obtain ⟨s', hseek, hview⟩ := h.exists_seek_start s hle
    have hfill : (k.filled (view s).bytes offset).length - offset
        = (view s).bytes.length - offset := by
      rw [CursorKind.filled]
      split_ifs
      · rw [List.length_append, List.length_replicate]
        omega
      · rfl
    rw [PreadReturns, hseek, or_iff_right (not_lt.mpr hle)]
    dsimp only
    rw [(h.read slice s').1, hview, CursorKind.read]
    dsimp only
    rw [hfill]
    simp only [reduceCtorEq, false_or]
    split_ifs <;> rfl

end BaseFile.IsCursor

end Maturin
