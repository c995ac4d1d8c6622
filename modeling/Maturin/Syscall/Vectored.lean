import Maturin.Base.Error
import Maturin.File.BaseFile

/-!
# Vectored input and output

`sys_readv` and `sys_writev` make one call of `sys_read` or `sys_write` for each buffer and add up
what these transfer. They go on after a call that transferred less than it was asked for, so that
the next buffer is filled although the one before it is not full, and they return the sum also when
the first of the calls fails.

The file is anything that transfers at most what it is asked for. A transfer is seen by the places
that it covers in the buffers put one behind the other.
-/

namespace Maturin

variable {σ τ : Type*}

/-- A file that transfers at most what it is asked for. -/
structure TransferFile (σ : Type*) extends BaseFile σ where
  read_le : ∀ buf s n, (read buf s).1.1 = some n → n ≤ buf.length
  write_le : ∀ buf s n, (write buf s).1 = some n → n ≤ buf.length

/-- `IoVec` -/
structure IoVec where
  base : ℕ
  len : ℕ

/-- What the system calls find. -/
structure IoEnv (σ : Type*) where
  /-- `manually_alloc_user_str`: whether the bytes of a buffer are the user's. -/
  valid : ℕ → ℕ → Bool
  /-- `get_file`: the file of the descriptor. -/
  file : Option (TransferFile σ)

namespace IoEnv

variable (E : IoEnv σ)

/-- `sys_read` -/
def sysRead (buf len : ℕ) (t : ByteMem × σ) : Except ErrorNo ℕ × (ByteMem × σ) :=
  if !E.valid buf len then (.error .EFAULT, t)
  else
    match E.file with
    | none => (.error .EINVAL, t)
    | some file =>
      let ((readLen, slice), s) := file.read (ByteMem.readBytes t.1 buf len) t.2
      (match readLen with
        | some n => .ok n
        | none => .error .EINVAL, (ByteMem.writeBytes buf slice t.1, s))

/-- `sys_write` -/
def sysWrite (buf len : ℕ) (t : ByteMem × σ) : Except ErrorNo ℕ × (ByteMem × σ) :=
  if !E.valid buf len then (.error .EFAULT, t)
  else
    match E.file with
    | none => (.error .EINVAL, t)
    | some file =>
      let (writeLen, s) := file.write (ByteMem.readBytes t.1 buf len) t.2
      (match writeLen with
        | some n => .ok n
        | none => .error .EINVAL, (t.1, s))

/-- The loop of `sys_readv` and of `sys_writev`: some of the buffers are passed over, and the sum of
what the calls transfer is returned when one fails. -/
def ioLoop (skips : IoVec → Bool) (call : IoVec → τ → Except ErrorNo ℕ × τ) :
    List IoVec → ℕ → τ → ℕ × τ
  | [], sum, t => (sum, t)
  | v :: iov, sum, t =>
    if skips v then ioLoop skips call iov sum t
    else
      match call v t with
      | (.ok len, t) => ioLoop skips call iov (sum + len) t
      | (.error _, t) => (sum, t)

/-- `sys_readv` -/
def sysReadv (iov : List IoVec) (t : ByteMem × σ) : Except ErrorNo ℕ × (ByteMem × σ) :=
  let (readLen, t) := ioLoop (fun _ ↦ false) (fun v ↦ E.sysRead v.base v.len) iov 0 t
  (.ok readLen, t)

/-- `sys_writev`, which passes over a buffer at address 0. -/
def sysWritev (iov : List IoVec) (t : ByteMem × σ) : Except ErrorNo ℕ × (ByteMem × σ) :=
  let (writtenLen, t) := ioLoop (·.base = 0) (fun v ↦ E.sysWrite v.base v.len) iov 0 t
  (.ok writtenLen, t)

end IoEnv

/-! ## What is transferred -/

/-- Requests and the replies to them, of which the last may be an error. A buffer that is passed
over is one of which nothing is transferred. -/
abbrev Replies := List (IoVec × Except ErrorNo ℕ)

/-- The replies to requests that are made in turn, up to the first error. -/
def replies (skips : IoVec → Bool) (call : IoVec → τ → Except ErrorNo ℕ × τ) :
    List IoVec → τ → Replies
  | [], _ => []
  | v :: iov, t =>
    if skips v then (v, .ok 0) :: replies skips call iov t
    else
      match call v t with
      | (.ok n, t) => (v, .ok n) :: replies skips call iov t
      | (.error e, _) => [(v, .error e)]

namespace Replies

/-- The number of bytes transferred. -/
def total : Replies → ℕ
  | [] => 0
  | (_, .error _) :: _ => 0
  | (_, .ok n) :: rs => n + total rs

/-- The places that the transfers cover in the buffers put one behind the other from `start` on. -/
def touched (start : ℕ) : Replies → Set ℕ
  | [] => ∅
  | (_, .error _) :: _ => ∅
  | (v, .ok n) :: rs => Set.Ico start (start + n) ∪ touched (start + v.len) rs

/-- The first transfer fails. -/
def FailsAtOnce : Replies → Prop
  | [] => False
  | (_, .error _) :: _ => True
  | (v, .ok _) :: rs => v.len = 0 ∧ FailsAtOnce rs

/-- Behind a reply that is less than what was asked for nothing is transferred. -/
def NoGap : Replies → Prop
  | [] => True
  | (_, .error _) :: _ => True
  | (v, .ok n) :: rs => if n < v.len then total rs = 0 else NoGap rs

/-- No reply is more than what was asked for. -/
def Bounded (rs : Replies) : Prop := ∀ v n, (v, .ok n) ∈ rs → n ≤ v.len

variable {rs : Replies} {start : ℕ}

theorem touched_subset (rs : Replies) (start : ℕ) : rs.touched start ⊆ Set.Ici start := by
  induction rs generalizing start with
  | nil => exact Set.empty_subset _
  | cons r rs ih =>
    obtain ⟨v, _ | n⟩ := r
    · exact Set.empty_subset _
    · refine Set.union_subset (fun i hi ↦ hi.1) fun i hi ↦ ?_
      exact (Nat.le_add_right start v.len).trans (ih (start + v.len) hi)

theorem touched_of_total (h : rs.total = 0) : rs.touched start = ∅ := by
  induction rs generalizing start with
  | nil => rfl
  | cons r rs ih =>
    obtain ⟨v, _ | n⟩ := r
    · rfl
    · obtain ⟨rfl, hrs⟩ := Nat.add_eq_zero_iff.mp h
      rw [touched, ih hrs, Nat.add_zero, Set.Ico_self, Set.union_empty]

/-- The transfers cover the front of the buffers if and only if nothing is transferred behind a
gap. -/
theorem touched_eq_iff (h : rs.Bounded) (start : ℕ) :
    rs.touched start = Set.Ico start (start + rs.total) ↔ rs.NoGap := by
  induction rs generalizing start with
  | nil => exact iff_of_true (by rw [touched, total, Nat.add_zero, Set.Ico_self]) trivial
  | cons r rs ih =>
    obtain ⟨v, _ | n⟩ := r
    · exact iff_of_true (by rw [touched, total, Nat.add_zero, Set.Ico_self]) trivial
    · have hle : n ≤ v.len := h v n List.mem_cons_self
      have hrest := ih (fun v n hmem ↦ h v n (List.mem_cons_of_mem _ hmem)) (start + v.len)
      have hsub := touched_subset rs (start + v.len)
      rw [touched, total, NoGap, ← Nat.add_assoc]
      split_ifs with hshort
      · constructor
        · intro heq
          -- the first place behind the short transfer is not covered
          by_contra htotal
          have hmem : start + n ∈ Set.Ico start (start + n + total rs) :=
            ⟨Nat.le_add_right _ _, Nat.lt_add_of_pos_right (Nat.pos_of_ne_zero htotal)⟩
          rw [← heq] at hmem
          rcases hmem with hmem | hmem
          · exact absurd hmem.2 (lt_irrefl _)
          · have hge : start + v.len ≤ start + n := hsub hmem
            omega
        · intro htotal
          rw [touched_of_total htotal, htotal, Set.union_empty, Nat.add_zero]
      · obtain rfl : n = v.len := le_antisymm hle (not_lt.mp hshort)
        rw [← hrest]
        constructor
        · intro heq
          ext i
          have hi := Set.ext_iff.mp heq i
          rw [Set.mem_union, Set.mem_Ico, Set.mem_Ico] at hi
          rw [Set.mem_Ico]
          constructor
          · intro hmem
            exact ⟨hsub hmem, (hi.mp (.inr hmem)).2⟩
          · intro hmem
            rcases hi.mpr ⟨(Nat.le_add_right _ _).trans hmem.1, hmem.2⟩ with hlt | hin
            · exact absurd hlt.2 (not_lt.mpr hmem.1)
            · exact hin
        · intro heq
          rw [heq, Set.Ico_union_Ico_eq_Ico (Nat.le_add_right _ _) (Nat.le_add_right _ _)]

/-- What a vectored transfer is to do: it fails if its first transfer fails, and else it returns a
number of bytes, and covers so many places at the front of the buffers. -/
def Vectored (rs : Replies) (result : Except ErrorNo ℕ) : Prop :=
  (rs.FailsAtOnce → ∃ e, result = .error e) ∧
    (¬rs.FailsAtOnce → ∃ n, result = .ok n ∧ rs.touched 0 = Set.Iio n)

theorem vectored_ok_iff (h : rs.Bounded) :
    rs.Vectored (.ok rs.total) ↔ ¬rs.FailsAtOnce ∧ rs.NoGap := by
  have hIio : Set.Iio rs.total = Set.Ico 0 (0 + rs.total) := by
    rw [Nat.zero_add]
    exact Set.ext fun i ↦ (and_iff_right (Nat.zero_le i)).symm
  rw [← touched_eq_iff h 0, ← hIio]
  constructor
  · rintro ⟨hfail, hok⟩
    have hnot : ¬rs.FailsAtOnce := fun hf ↦ by
      obtain ⟨e, he⟩ := hfail hf
      cases he
    obtain ⟨n, hn, htouched⟩ := hok hnot
    cases hn
    exact ⟨hnot, htouched⟩
  · rintro ⟨hnot, htouched⟩
    exact ⟨fun hf ↦ absurd hf hnot, fun _ ↦ ⟨_, rfl, htouched⟩⟩

end Replies

/-! ## The calls -/

section calls

variable {skips : IoVec → Bool} {call : IoVec → τ → Except ErrorNo ℕ × τ}

/-- The loop returns the sum of what the replies transfer. -/
theorem ioLoop_fst (iov : List IoVec) (sum : ℕ) (t : τ) :
    (IoEnv.ioLoop skips call iov sum t).1 = sum + (replies skips call iov t).total := by
  induction iov generalizing sum t with
  | nil => rfl
  | cons v iov ih =>
    rw [IoEnv.ioLoop, replies]
    split_ifs
    · rw [ih, Replies.total, Nat.zero_add]
    · rcases call v t with ⟨_ | n, t'⟩
      · rfl
      · dsimp only
        rw [ih, Replies.total, Nat.add_assoc]

theorem bounded_replies (hcall : ∀ v t n, (call v t).1 = .ok n → n ≤ v.len) (iov : List IoVec)
    (t : τ) : (replies skips call iov t).Bounded := by
  induction iov generalizing t with
  | nil => exact fun _ _ h ↦ absurd h List.not_mem_nil
  | cons v iov ih =>
    have hv := hcall v t
    intro u n hmem
    rw [replies] at hmem
    split_ifs at hmem
    · rcases List.mem_cons.mp hmem with heq | hmem
      · obtain ⟨-, hn⟩ := Prod.mk.inj heq
        cases hn
        exact Nat.zero_le _
      · exact ih t u n hmem
    · generalize call v t = r at hv hmem
      rcases r with ⟨_ | m, t'⟩
      · rw [List.mem_singleton] at hmem
        cases hmem
      · rcases List.mem_cons.mp hmem with heq | hmem
        · cases heq
          exact hv n rfl
        · exact ih t' u n hmem

end calls

namespace IoEnv

variable (E : IoEnv σ)

theorem sysRead_le {v : IoVec} {t : ByteMem × σ} {n : ℕ}
    (h : (E.sysRead v.base v.len t).1 = .ok n) : n ≤ v.len := by
  rw [sysRead] at h
  split_ifs at h
  cases hfile : E.file with
  | none => simp [hfile] at h
  | some file =>
    rw [hfile] at h
    have hle := file.read_le (ByteMem.readBytes t.1 v.base v.len) t.2
    rw [ByteMem.length_readBytes] at hle
    dsimp only at h
    split at h
    · rename_i heq
      cases h
      exact hle n heq
    · cases h

theorem sysWrite_le {v : IoVec} {t : ByteMem × σ} {n : ℕ}
    (h : (E.sysWrite v.base v.len t).1 = .ok n) : n ≤ v.len := by
  rw [sysWrite] at h
  split_ifs at h
  cases hfile : E.file with
  | none => simp [hfile] at h
  | some file =>
    rw [hfile] at h
    have hle := file.write_le (ByteMem.readBytes t.1 v.base v.len) t.2
    rw [ByteMem.length_readBytes] at hle
    dsimp only at h
    split at h
    · rename_i heq
      cases h
      exact hle n heq
    · cases h

/-- The replies to `sys_readv`. -/
def readvReplies (iov : List IoVec) (t : ByteMem × σ) : Replies :=
  replies (fun _ ↦ false) (fun v ↦ E.sysRead v.base v.len) iov t

/-- The replies to `sys_writev`. -/
def writevReplies (iov : List IoVec) (t : ByteMem × σ) : Replies :=
  replies (·.base = 0) (fun v ↦ E.sysWrite v.base v.len) iov t

end IoEnv

/-! ## Standard input -/

/-- `Stdin`, over the characters that are typed: a read takes one of them. -/
def stdin : TransferFile (ℕ → UInt8) where
  read buf s :=
    match buf with
    | [] => ((some 0, []), s)
    | _ :: rest => ((some 1, s 0 :: rest), fun i ↦ s (i + 1))
  write _ s := (none, s)
  seek _ s := (none, s)
  read_le buf s n h := by
    cases buf with
    | nil =>
      obtain rfl : 0 = n := Option.some.inj h
      exact le_rfl
    | cons b rest =>
      obtain rfl : 1 = n := Option.some.inj h
      exact Nat.succ_le_of_lt (Nat.zero_lt_succ _)
  write_le _ _ _ h := nomatch h

namespace FatFile

/-- Files of the file system transfer at most what they are asked for. -/
def transferFile (self : FatFile) : TransferFile FsFile where
  toBaseFile := self.baseFile
  read_le _ _ _ := read_le
  write_le _ _ _ := write_le

end FatFile

end Maturin
