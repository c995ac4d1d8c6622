import Maturin.File.FatFile

/-!
# The trait `File`

The methods of `base_file::File` that move data, for any kind of file, and the two default methods
that read and write at an offset. These remember the position, go to the offset, transfer, and are
to go back. They go back by a move that is counted from where the transfer ended, not from the
start, so that the file is left at the sum of the two positions.

What a file is meant to be is a *byte array with a cursor*: it can be moved to every position up to
a largest one, a read takes what stands behind the cursor, and a write replaces it. There are two
kinds, as a move behind the end may leave the array alone, so that only a write fills the gap, or
fill it with zeros at once.
-/

namespace Maturin

variable {σ : Type*}

/-- The methods of the trait `File` that move data, for files whose state is in `σ`. -/
structure BaseFile (σ : Type*) where
  /-- The number of bytes read, and the buffer after the call. -/
  read : List UInt8 → σ → (Option ℕ × List UInt8) × σ
  /-- The number of bytes written. -/
  write : List UInt8 → σ → Option ℕ × σ
  /-- The new position. -/
  seek : SeekFrom → σ → Option ℕ × σ

/-- `n as i64` -/
def asI64 (n : ℕ) : ℤ := if n < 2 ^ 63 then n else n - 2 ^ 64

namespace BaseFile

/-- `read_from_offset`, or `none` if the `unwrap` of the move back panics. -/
def readFromOffset (F : BaseFile σ) (pos : ℕ) (buf : List UInt8) (s : σ) :
    Option ((Option ℕ × List UInt8) × σ) :=
  match F.seek (.current 0) s with
  | (none, s) => some ((none, buf), s)
  | (some oldPos, s) =>
    match F.seek (.start pos) s with
    | (none, s) => some ((none, buf), s)
    | (some _, s) =>
      let (readLen, s) := F.read buf s
      match F.seek (.current (asI64 oldPos)) s with
      | (none, _) => none
      | (some _, s) => some (readLen, s)

/-- `write_to_offset`, or `none` if the `unwrap` of the move back panics. -/
def writeToOffset (F : BaseFile σ) (pos : ℕ) (buf : List UInt8) (s : σ) :
    Option (Option ℕ × σ) :=
  match F.seek (.current 0) s with
  | (none, s) => some (none, s)
  | (some oldPos, s) =>
    match F.seek (.start pos) s with
    | (none, s) => some (none, s)
    | (some _, s) =>
      let (writeLen, s) := F.write buf s
      match F.seek (.current (asI64 oldPos)) s with
      | (none, _) => none
      | (some _, s) => some (writeLen, s)

end BaseFile

/-! ## Byte arrays with a cursor -/

/-- A byte array with a cursor. -/
@[ext]
structure Cursor where
  bytes : List UInt8
  pos : ℕ

/-- What a kind of byte arrays with a cursor permits. -/
structure CursorKind where
  readable : Bool
  writable : Bool
  /-- A move behind the end fills the array with zeros. -/
  grows : Bool
  /-- The last position. -/
  limit : ℕ
  limit_pos : 0 < limit
  limit_lt : limit < 2 ^ 64

/-- The array with `data` at a place, and zeros in between if the place is behind the end. -/
def overlay (bytes : List UInt8) (place : ℕ) (data : List UInt8) : List UInt8 :=
  if data = [] then bytes
  else bytes.take place ++ List.replicate (place - bytes.length) 0 ++ data ++
    bytes.drop (place + data.length)

namespace Cursor

/-- Where a move leads. -/
def target (c : Cursor) : SeekFrom → ℤ
  | .start pos => pos
  | .end_ delta => c.bytes.length + delta
  | .current delta => c.pos + delta

end Cursor

namespace CursorKind

/-- The array as it is when the cursor goes to `t`. -/
def filled (k : CursorKind) (bytes : List UInt8) (t : ℕ) : List UInt8 :=
  if k.grows then bytes ++ List.replicate (t - bytes.length) 0 else bytes

/-- Move the cursor. -/
def seek (k : CursorKind) (w : SeekFrom) (c : Cursor) : Option ℕ × Cursor :=
  if 0 ≤ c.target w ∧ c.target w ≤ k.limit then
    (some (c.target w).toNat, ⟨k.filled c.bytes (c.target w).toNat, (c.target w).toNat⟩)
  else (none, c)

/-- Read behind the cursor. -/
def read (k : CursorKind) (buf : List UInt8) (c : Cursor) : (Option ℕ × List UInt8) × Cursor :=
  if k.readable then
    let n := min buf.length (c.bytes.length - c.pos)
    ((some n, (c.bytes.drop c.pos).take n ++ buf.drop n), { c with pos := c.pos + n })
  else ((none, buf), c)

/-- Write behind the cursor, up to the last position. -/
def write (k : CursorKind) (buf : List UInt8) (c : Cursor) : Option ℕ × Cursor :=
  if k.writable then
    let n := min buf.length (k.limit - c.pos)
    (some n, ⟨overlay c.bytes c.pos (buf.take n), c.pos + n⟩)
  else (none, c)

/-- The array fits, and the cursor is in it if the array grows with it. -/
structure Ok (k : CursorKind) (c : Cursor) : Prop where
  length_le : c.bytes.length ≤ k.limit
  pos_le : c.pos ≤ k.limit
  pos_le_length : k.grows = true → c.pos ≤ c.bytes.length

variable {k : CursorKind} {c : Cursor} {t : ℕ} {buf : List UInt8} {w : SeekFrom}

theorem filled_of_le (h : t ≤ c.bytes.length) : k.filled c.bytes t = c.bytes := by
  rw [filled, Nat.sub_eq_zero_of_le h, List.replicate_zero, List.append_nil, ite_self]

theorem seek_of_eq (h : c.target w = t) (ht : t ≤ k.limit) :
    k.seek w c = (some t, ⟨k.filled c.bytes t, t⟩) := by
  rw [seek, h, if_pos ⟨Int.natCast_nonneg t, Int.ofNat_le.mpr ht⟩, Int.toNat_natCast]

/-- A move to where the cursor is changes nothing. -/
theorem Ok.seek_self (hok : k.Ok c) (h : c.target w = c.pos) : k.seek w c = (some c.pos, c) := by
  have hfill : k.filled c.bytes c.pos = c.bytes := by
    cases hgrows : k.grows with
    | false => rw [filled, hgrows, if_neg Bool.false_ne_true]
    | true => exact filled_of_le (hok.pos_le_length hgrows)
  rw [seek_of_eq h hok.pos_le, hfill]

end CursorKind

theorem length_overlay (bytes : List UInt8) (place : ℕ) {data : List UInt8} (h : data ≠ []) :
    (overlay bytes place data).length = max bytes.length (place + data.length) := by
  rw [overlay, if_neg h, List.length_append, List.length_append, List.length_append,
    List.length_take, List.length_replicate, List.length_drop]
  omega

namespace CursorKind.Ok

variable {k : CursorKind} {c : Cursor}

theorem seek (hok : k.Ok c) (w : SeekFrom) : k.Ok (k.seek w c).2 := by
  rw [CursorKind.seek]
  split_ifs with hin
  · have hle : (c.target w).toNat ≤ k.limit := Int.toNat_le.mpr hin.2
    have hlen := hok.length_le
    refine ⟨?_, hle, fun hgrows ↦ ?_⟩
    · rw [filled]
      split_ifs
      · rw [List.length_append, List.length_replicate]
        omega
      · exact hlen
    · rw [filled, if_pos hgrows, List.length_append, List.length_replicate]
      dsimp only
      omega
  · exact hok

theorem read (hok : k.Ok c) (buf : List UInt8) : k.Ok (k.read buf c).2 := by
  rw [CursorKind.read]
  have hlen := hok.length_le
  have hpos := hok.pos_le
  split_ifs
  · refine ⟨hlen, ?_, fun hgrows ↦ ?_⟩
    · dsimp only
      omega
    · have hin := hok.pos_le_length hgrows
      dsimp only
      omega
  · exact hok

theorem write (hok : k.Ok c) (buf : List UInt8) : k.Ok (k.write buf c).2 := by
  rw [CursorKind.write]
  have hlen := hok.length_le
  have hpos := hok.pos_le
  split_ifs
  · set n := min buf.length (k.limit - c.pos) with hn
    have htake : (buf.take n).length = n := by
      rw [List.length_take]
      omega
    by_cases hnil : buf.take n = []
    · have hzero : n = 0 := by rw [← htake, hnil, List.length_nil]
      have hover : overlay c.bytes c.pos (buf.take n) = c.bytes := if_pos hnil
      dsimp only
      rw [hover, hzero]
      exact hok
    · have hover := length_overlay c.bytes c.pos hnil
      rw [htake] at hover
      refine ⟨?_, ?_, fun _ ↦ ?_⟩
      · rw [hover]
        omega
      · dsimp only
        omega
      · rw [hover]
        exact le_max_right _ _
  · exact hok

end CursorKind.Ok

/-! ## Files that are byte arrays -/

namespace BaseFile

/-- The file is seen as a byte array with a cursor, and its methods do to it what they do to the
array. -/
structure IsCursor (F : BaseFile σ) (k : CursorKind) (view : σ → Cursor) : Prop where
  ok : ∀ s, k.Ok (view s)
  read : ∀ buf s, (F.read buf s).1 = (k.read buf (view s)).1 ∧
    view (F.read buf s).2 = (k.read buf (view s)).2
  write : ∀ buf s, (F.write buf s).1 = (k.write buf (view s)).1 ∧
    view (F.write buf s).2 = (k.write buf (view s)).2
  seek : ∀ w s, (F.seek w s).1 = (k.seek w (view s)).1 ∧
    view (F.seek w s).2 = (k.seek w (view s)).2

/-- Reading at an offset returns what a read there returns, and leaves the file as it is. -/
def ReadsAt (F : BaseFile σ) (k : CursorKind) (view : σ → Cursor) (pos : ℕ) (buf : List UInt8)
    (s : σ) : Prop :=
  ∃ r s', F.readFromOffset pos buf s = some (r, s') ∧ view s' = view s ∧
    r = if pos ≤ k.limit then (k.read buf { view s with pos }).1 else (none, buf)

/-- Writing at an offset does what a write there does, and leaves the cursor where it is. -/
def WritesAt (F : BaseFile σ) (k : CursorKind) (view : σ → Cursor) (pos : ℕ) (buf : List UInt8)
    (s : σ) : Prop :=
  ∃ r s', F.writeToOffset pos buf s = some (r, s') ∧ (view s').pos = (view s).pos ∧
    (r, (view s').bytes) = if pos ≤ k.limit then
      ((k.write buf { view s with pos }).1, (k.write buf { view s with pos }).2.bytes)
    else (none, (view s).bytes)

/-- The last match of the default methods. -/
theorem match_back_iff {α : Type*} {x : Option ℕ × σ} {a r : α} {s' : σ} :
    (match x with
      | (none, _) => none
      | (some _, s) => some (a, s)) = some (r, s') ↔ a = r ∧ ∃ n, x = (some n, s') := by
  obtain ⟨_ | n, t⟩ := x <;> simp

namespace IsCursor

variable {F : BaseFile σ} {k : CursorKind} {view : σ → Cursor} {s : σ} {pos old : ℕ}
  {buf : List UInt8}

/-- Asking for the position. -/
theorem exists_seek_here (h : F.IsCursor k view) (s : σ) :
    ∃ s', F.seek (.current 0) s = (some (view s).pos, s') ∧ view s' = view s := by
  have hself := (h.ok s).seek_self (w := .current 0) (Int.add_zero _)
  obtain ⟨hr, hview⟩ := h.seek (.current 0) s
  rw [hself] at hr hview
  exact ⟨_, Prod.ext hr rfl, hview⟩

theorem exists_seek_start (h : F.IsCursor k view) (s : σ) (hpos : pos ≤ k.limit) :
    ∃ s', F.seek (.start pos) s = (some pos, s') ∧
      view s' = ⟨k.filled (view s).bytes pos, pos⟩ := by
  obtain ⟨hr, hview⟩ := h.seek (.start pos) s
  rw [CursorKind.seek_of_eq rfl hpos] at hr hview
  exact ⟨_, Prod.ext hr rfl, hview⟩

theorem seek_start_of_lt (h : F.IsCursor k view) (s : σ) (hpos : k.limit < pos) :
    ∃ s', F.seek (.start pos) s = (none, s') ∧ view s' = view s := by
  obtain ⟨hr, hview⟩ := h.seek (.start pos) s
  have hseek : k.seek (.start pos) (view s) = (none, view s) :=
    if_neg fun hle ↦ absurd (Int.ofNat_le.mp hle.2) (not_le.mpr hpos)
  rw [hseek] at hr hview
  exact ⟨_, Prod.ext hr rfl, hview⟩

/-- The way back leads to the old position only from the start of the file. -/
theorem back_iff (h : F.IsCursor k view) (s : σ) (hold : old ≤ k.limit) :
    (∃ r s', F.seek (.current (asI64 old)) s = (some r, s') ∧ (view s').pos = old) ↔
      (view s).pos = 0 ∧ old < 2 ^ 63 := by
  obtain ⟨hr, hview⟩ := h.seek (.current (asI64 old)) s
  have hle := (h.ok s).pos_le
  have hlt := k.limit_lt
  constructor
  · rintro ⟨r, s', hseek, hpos⟩
    rw [hseek, CursorKind.seek] at hr hview
    split_ifs at hr hview with hin
    -- the cursor is at the sum of the positions, of which the old one may count as negative
    have htarget : ((view s).pos + asI64 old).toNat = old :=
      (congrArg Cursor.pos hview).symm.trans hpos
    change 0 ≤ ((view s).pos + asI64 old : ℤ) ∧ _ at hin
    rw [asI64] at htarget hin
    split_ifs at htarget hin <;> omega
  · rintro ⟨hzero, hsmall⟩
    have htarget : (view s).target (.current (asI64 old)) = old := by
      rw [asI64, if_pos hsmall]
      change ((view s).pos : ℤ) + old = old
      rw [hzero]
      exact Int.zero_add _
    rw [CursorKind.seek_of_eq htarget hold] at hr hview
    exact ⟨old, _, Prod.ext hr rfl, congrArg Cursor.pos hview⟩

/-- The way back changes no byte of an array in which the old position is one. -/
theorem bytes_of_back (h : F.IsCursor k view) {s s' : σ} {r : ℕ}
    (hgrows : k.grows = true → old ≤ (view s).bytes.length)
    (hseek : F.seek (.current (asI64 old)) s = (some r, s')) (hpos : (view s').pos = old) :
    (view s').bytes = (view s).bytes := by
  obtain ⟨hr, hview⟩ := h.seek (.current (asI64 old)) s
  rw [hseek, CursorKind.seek] at hr hview
  split_ifs at hr hview
  have hold := (congrArg Cursor.pos hview).symm.trans hpos
  have hbytes := congrArg Cursor.bytes hview
  dsimp only at hold hbytes
  rw [hbytes, hold, CursorKind.filled]
  split_ifs with hg
  · rw [Nat.sub_eq_zero_of_le (hgrows hg), List.replicate_zero, List.append_nil]
  · rfl

/-- A read takes nothing from the start of the file only if it may not, if there is no room for it
or if there is nothing. -/
theorem read_pos_eq_zero_iff (h : F.IsCursor k view) (s : σ) :
    (view (F.read buf s).2).pos = 0 ↔
      (view s).pos = 0 ∧ (k.readable = false ∨ buf = [] ∨ (view s).bytes = []) := by
  rw [(h.read buf s).2, CursorKind.read]
  cases hread : k.readable with
  | false =>
    rw [if_neg Bool.false_ne_true]
    exact (and_iff_left (.inl rfl)).symm
  | true =>
    rw [if_pos rfl, ← List.length_eq_zero_iff, ← List.length_eq_zero_iff]
    dsimp only
    simp only [Bool.true_eq_false, false_or]
    omega

theorem write_pos_eq_zero_iff (h : F.IsCursor k view) (s : σ) :
    (view (F.write buf s).2).pos = 0 ↔
      (view s).pos = 0 ∧ (k.writable = false ∨ buf = []) := by
  have hlimit := k.limit_pos
  rw [(h.write buf s).2, CursorKind.write]
  cases hwrite : k.writable with
  | false =>
    rw [if_neg Bool.false_ne_true]
    exact (and_iff_left (.inl rfl)).symm
  | true =>
    rw [if_pos rfl, ← List.length_eq_zero_iff]
    dsimp only
    simp only [Bool.true_eq_false, false_or]
    omega

/-- Reading at an offset leaves a file as it is if and only if the file cannot be moved there, or
nothing is read from its very start. -/
theorem readsAt_iff (h : F.IsCursor k view) (pos : ℕ) (buf : List UInt8) (s : σ) :
    F.ReadsAt k view pos buf s ↔ k.limit < pos ∨ (pos = 0 ∧ (view s).pos < 2 ^ 63 ∧
      (k.readable = false ∨ buf = [] ∨ (view s).bytes = [])) := by
  obtain ⟨s₁, hhere, hview₁⟩ := h.exists_seek_here s
  rw [ReadsAt, readFromOffset, hhere]
  dsimp only
  rcases lt_or_ge k.limit pos with hlt | hle
  · -- the first seek is refused, and nothing was read
    obtain ⟨s₂, hstart, hview₂⟩ := h.seek_start_of_lt s₁ hlt
    rw [hstart]
    refine iff_of_true ⟨_, _, rfl, hview₂.trans hview₁, ?_⟩ (.inl hlt)
    rw [if_neg (not_le.mpr hlt)]
  · obtain ⟨s₂, hstart, hview₂⟩ := h.exists_seek_start s₁ hle
    rw [hstart, if_pos hle, or_iff_right (not_lt.mpr hle)]
    simp only [match_back_iff]
    rw [hview₁] at hview₂
    -- the cursor returns only if the read left it at zero, where it must have started
    constructor
    · rintro ⟨r, s', ⟨-, n, hback⟩, hview, -⟩
      have hpos := congrArg Cursor.pos hview
      obtain ⟨hzero, hsmall⟩ := (h.back_iff _ (h.ok s).pos_le).mp ⟨n, s', hback, hpos⟩
      rw [h.read_pos_eq_zero_iff, hview₂] at hzero
      obtain rfl : pos = 0 := hzero.1
      rw [CursorKind.filled_of_le (Nat.zero_le _)] at hzero
      exact ⟨rfl, hsmall, hzero.2⟩
    · rintro ⟨rfl, hsmall, hnone⟩
      rw [CursorKind.filled_of_le (Nat.zero_le _)] at hview₂
      have hzero : (view (F.read buf s₂).2).pos = 0 := by
        rw [h.read_pos_eq_zero_iff, hview₂]
        exact ⟨rfl, hnone⟩
      have hbytes : (view (F.read buf s₂).2).bytes = (view s).bytes := by
        rw [(h.read buf s₂).2, hview₂, CursorKind.read]
        split_ifs <;> rfl
      obtain ⟨n, s', hback, hpos⟩ := (h.back_iff _ (h.ok s).pos_le).mpr ⟨hzero, hsmall⟩
      refine ⟨_, s', ⟨rfl, n, hback⟩, ?_, ?_⟩
      · have hkeep := h.bytes_of_back (by rw [hbytes]; exact (h.ok s).pos_le_length) hback hpos
        exact Cursor.ext (hkeep.trans hbytes) hpos
      · rw [(h.read buf s₂).1, hview₂]

/-- Writing at an offset leaves the cursor where it is if and only if the file cannot be moved
there, or nothing is written at its very start. -/
theorem writesAt_iff (h : F.IsCursor k view) (pos : ℕ) (buf : List UInt8) (s : σ) :
    F.WritesAt k view pos buf s ↔ k.limit < pos ∨ (pos = 0 ∧ (view s).pos < 2 ^ 63 ∧
      (k.writable = false ∨ buf = [])) := by
  obtain ⟨s₁, hhere, hview₁⟩ := h.exists_seek_here s
  rw [WritesAt, writeToOffset, hhere]
  dsimp only
  rcases lt_or_ge k.limit pos with hlt | hle
  · obtain ⟨s₂, hstart, hview₂⟩ := h.seek_start_of_lt s₁ hlt
    rw [hstart, if_neg (not_le.mpr hlt)]
    refine iff_of_true ⟨_, _, rfl, ?_, ?_⟩ (.inl hlt)
    · rw [hview₂, hview₁]
    · rw [hview₂, hview₁]
  · obtain ⟨s₂, hstart, hview₂⟩ := h.exists_seek_start s₁ hle
    rw [hstart, if_pos hle, or_iff_right (not_lt.mpr hle)]
    simp only [match_back_iff]
    rw [hview₁] at hview₂
    -- as for a read, the cursor returns only from zero
    constructor
    · rintro ⟨r, s', ⟨-, n, hback⟩, hpos, -⟩
      obtain ⟨hzero, hsmall⟩ := (h.back_iff _ (h.ok s).pos_le).mp ⟨n, s', hback, hpos⟩
      rw [h.write_pos_eq_zero_iff, hview₂] at hzero
      exact ⟨hzero.1, hsmall, hzero.2⟩
    · rintro ⟨rfl, hsmall, hnone⟩
      rw [CursorKind.filled_of_le (Nat.zero_le _)] at hview₂
      have hzero : (view (F.write buf s₂).2).pos = 0 := by
        rw [h.write_pos_eq_zero_iff, hview₂]
        exact ⟨rfl, hnone⟩
      have hbytes : (view (F.write buf s₂).2).bytes = (view s).bytes := by
        rw [(h.write buf s₂).2, hview₂, CursorKind.write]
        rcases hnone with hnot | rfl
        · rw [hnot, if_neg Bool.false_ne_true]
        · simp only [List.take_nil]
          split_ifs <;> rfl
      obtain ⟨n, s', hback, hpos⟩ := (h.back_iff _ (h.ok s).pos_le).mpr ⟨hzero, hsmall⟩
      refine ⟨_, s', ⟨rfl, n, hback⟩, hpos, ?_⟩
      have hkeep := h.bytes_of_back (by rw [hbytes]; exact (h.ok s).pos_le_length) hback hpos
      rw [hkeep, (h.write buf s₂).1, (h.write buf s₂).2, hview₂]

end IsCursor

/-- When the methods that read and write at an offset keep what they promise. -/
theorem atOffset_iff {F : BaseFile σ} {k : CursorKind} {view : σ → Cursor} (h : F.IsCursor k view)
    (pos : ℕ) (buf : List UInt8) (s : σ) :
    (F.ReadsAt k view pos buf s ↔ k.limit < pos ∨ (pos = 0 ∧ (view s).pos < 2 ^ 63 ∧
      (k.readable = false ∨ buf = [] ∨ (view s).bytes = []))) ∧
    (F.WritesAt k view pos buf s ↔ k.limit < pos ∨ (pos = 0 ∧ (view s).pos < 2 ^ 63 ∧
      (k.writable = false ∨ buf = []))) :=
  ⟨h.readsAt_iff pos buf s, h.writesAt_iff pos buf s⟩

end BaseFile

/-- The byte arrays of a kind are files. -/
def CursorKind.baseFile (k : CursorKind) : BaseFile {c : Cursor // k.Ok c} where
  read buf c := ((k.read buf c.1).1, ⟨_, c.2.read buf⟩)
  write buf c := ((k.write buf c.1).1, ⟨_, c.2.write buf⟩)
  seek w c := ((k.seek w c.1).1, ⟨_, c.2.seek w⟩)

theorem CursorKind.isCursor (k : CursorKind) : k.baseFile.IsCursor k Subtype.val where
  ok := Subtype.property
  read _ _ := ⟨rfl, rfl⟩
  write _ _ := ⟨rfl, rfl⟩
  seek _ _ := ⟨rfl, rfl⟩

/-- The files of the file system as they are meant to be. -/
def CursorKind.fat : CursorKind where
  readable := true
  writable := true
  grows := true
  limit := MAX_FILE_SIZE
  limit_pos := by decide
  limit_lt := by decide

/-- Three bytes, and the cursor behind the first. -/
def Cursor.threeBytes : {c : Cursor // CursorKind.fat.Ok c} :=
  ⟨⟨[1, 2, 3], 1⟩, by decide, by decide, fun _ ↦ by decide⟩

theorem atOffset_iff_threeBytes :
    (CursorKind.fat.baseFile.ReadsAt .fat Subtype.val 0 [] Cursor.threeBytes ↔ MAX_FILE_SIZE < 0 ∨
      (0 = 0 ∧ 1 < 2 ^ 63 ∧ (true = false ∨ ([] : List UInt8) = [] ∨ [(1 : UInt8), 2, 3] = []))) ∧
    (CursorKind.fat.baseFile.WritesAt .fat Subtype.val 0 [] Cursor.threeBytes ↔ MAX_FILE_SIZE < 0 ∨
      (0 = 0 ∧ 1 < 2 ^ 63 ∧ (true = false ∨ ([] : List UInt8) = []))) :=
  BaseFile.atOffset_iff CursorKind.fat.isCursor 0 [] Cursor.threeBytes

/-- Reading one byte at offset 0 moves the cursor from 1 to 2. -/
theorem not_readsAt : ∃ (k : CursorKind) (F : BaseFile {c : Cursor // k.Ok c})
    (view : {c : Cursor // k.Ok c} → Cursor), F.IsCursor k view ∧
      ∃ pos buf s, ¬F.ReadsAt k view pos buf s := by
  refine ⟨.fat, CursorKind.fat.baseFile, Subtype.val, CursorKind.fat.isCursor, 0, [0],
    Cursor.threeBytes, ?_⟩
  rintro ⟨r, s', hread, hview, -⟩
  have hpos : (CursorKind.fat.baseFile.readFromOffset 0 [0] Cursor.threeBytes).map (·.2.1.pos)
      = some 2 := by decide +kernel
  rw [hread, Option.map_some, hview] at hpos
  exact absurd hpos (by decide)

/-! ## Files of the file system -/

namespace FatFile

/-- `impl File for FatFile` -/
def baseFile (self : FatFile) : BaseFile FsFile := ⟨self.read, self.write, seek⟩

variable {self : FatFile} {pos : ℕ} {buf : List UInt8} {file : FsFile}

theorem asI64_offset (file : FsFile) : asI64 file.offset = file.offset :=
  if_pos ((file.offset_le.trans file.size_le).trans_lt (by decide))

/-- Reading at an offset is the default method, where that does not panic. -/
theorem readFromOffset_default {r : (Option ℕ × List UInt8) × FsFile}
    (h : self.baseFile.readFromOffset pos buf file = some r) :
    self.readFromOffset pos buf file = r := by
  have hhere : self.baseFile.seek (.current 0) file = (some file.offset, file) := seek_current_zero
  rw [BaseFile.readFromOffset, hhere] at h
  rw [readFromOffset, seek_current_zero]
  dsimp only at h ⊢
  rcases hstart : seek (.start pos) file with ⟨_ | n, f⟩
  · have hstart' : self.baseFile.seek (.start pos) file = (none, f) := hstart
    rw [hstart'] at h
    exact Option.some.inj h
  · have hstart' : self.baseFile.seek (.start pos) file = (some n, f) := hstart
    rw [hstart'] at h
    obtain ⟨hr, n', hback⟩ := BaseFile.match_back_iff.mp h
    have hback' : (seek (.current file.offset) (self.read buf f).2).2 = r.2 := by
      rw [← asI64_offset file]
      exact (congrArg Prod.snd hback :)
    exact Prod.ext hr hback'

/-- Writing at an offset is the default method, where that does not panic. -/
theorem writeToOffset_default {r : Option ℕ × FsFile}
    (h : self.baseFile.writeToOffset pos buf file = some r) :
    self.writeToOffset pos buf file = r := by
  have hhere : self.baseFile.seek (.current 0) file = (some file.offset, file) := seek_current_zero
  rw [BaseFile.writeToOffset, hhere] at h
  rw [writeToOffset, seek_current_zero]
  dsimp only at h ⊢
  rcases hstart : seek (.start pos) file with ⟨_ | n, f⟩
  · have hstart' : self.baseFile.seek (.start pos) file = (none, f) := hstart
    rw [hstart'] at h
    exact Option.some.inj h
  · have hstart' : self.baseFile.seek (.start pos) file = (some n, f) := hstart
    rw [hstart'] at h
    obtain ⟨hr, n', hback⟩ := BaseFile.match_back_iff.mp h
    have hback' : (seek (.current file.offset) (self.write buf f).2).2 = r.2 := by
      rw [← asI64_offset file]
      exact (congrArg Prod.snd hback :)
    exact Prod.ext hr hback'

theorem read_le {n : ℕ} (h : (self.read buf file).1.1 = some n) : n ≤ buf.length := by
  rw [read, readLoop_eq _ le_rfl] at h
  split_ifs at h
  obtain rfl := Option.some.inj h
  rw [List.length_take]
  exact min_le_left _ _

/-- The loop writes at most the buffer, and the position moves by what it writes. -/
theorem writeLoop_le (rounds : ℕ) (file : FsFile) (buf : List UInt8) :
    (writeLoop rounds file buf).1 ≤ buf.length ∧
      (writeLoop rounds file buf).2.offset = file.offset + (writeLoop rounds file buf).1 := by
  induction rounds generalizing file buf with
  | zero => exact ⟨Nat.zero_le _, rfl⟩
  | succ rounds ih =>
    rw [writeLoop]
    split_ifs with hpos
    · have hn : (file.write buf).1 ≤ buf.length := by
        rw [FsFile.write]
        exact (min_le_left _ _).trans (min_le_left _ _)
      have hplace : (file.write buf).2.offset = file.offset + (file.write buf).1 := rfl
      dsimp only
      split_ifs with hzero
      · exact ⟨Nat.zero_le _, by rw [hplace, hzero]⟩
      · have hrest := ih (file.write buf).2 (buf.drop (file.write buf).1)
        rw [List.length_drop] at hrest
        dsimp only
        omega
    · exact ⟨Nat.zero_le _, rfl⟩

theorem write_le {n : ℕ} (h : (self.write buf file).1 = some n) : n ≤ buf.length := by
  rw [write] at h
  split_ifs at h
  obtain rfl := Option.some.inj h
  exact (writeLoop_le _ _ _).1

end FatFile

end Maturin
