import Maturin.File.FdManager
import Mathlib.Logic.Function.Basic

/-!
# The descriptor table as a map

What the descriptor table is for: a map from descriptors to files, a set of free descriptors and a
limit. `FdTable.Step` says what each call does to it. The methods of `FdManager` refine it as long
as no free descriptor has a file, since then the assertion of the bitmap does not fail.
-/

open Exec Function

namespace Maturin

variable {Γ : Type}

/-- The calls on a descriptor table. -/
inductive FdCall (Γ : Type)
  | push (file : Γ)
  | copyFdAnywhere (oldFd : ℕ)
  | copyFdTo (oldFd newFd : ℕ)
  | removeFile (fd : ℕ)
  /-- `close_cloexec_files`, with the files that have the flag. -/
  | closeCloexecFiles (cloexec : Γ → Bool)
  | modifyLimit (newLimit : ℕ)

/-- The value that a call returns. -/
inductive FdReply (Γ : Type)
  | fd (r : Except OSError ℕ)
  | done (r : Bool)
  | file (r : Except OSError Γ)
  | unit

def FdCall.run : FdCall Γ → EStateM Panic (FdManager Γ) (FdReply Γ)
  | .push file => .fd <$> FdManager.push file
  | .copyFdAnywhere oldFd => .fd <$> FdManager.copyFdAnywhere oldFd
  | .copyFdTo oldFd newFd => .done <$> FdManager.copyFdTo oldFd newFd
  | .removeFile fd => .file <$> FdManager.removeFile fd
  | .closeCloexecFiles cloexec => (fun _ ↦ .unit) <$> FdManager.closeCloexecFiles cloexec
  | .modifyLimit newLimit => (fun _ ↦ .unit) <$> FdManager.modifyLimit newLimit

/-- A descriptor table as a map. -/
structure FdTable (Γ : Type) where
  slot : ℕ → Option Γ
  free : Set ℕ
  limit : ℕ

namespace FdTable

/-- Take a descriptor for a file. -/
def take (T : FdTable Γ) (fd : ℕ) (file : Γ) : FdTable Γ where
  slot := update T.slot fd (some file)
  free := T.free \ {fd}
  limit := T.limit

/-- Give a descriptor back. -/
def release (T : FdTable Γ) (fd : ℕ) : FdTable Γ where
  slot := update T.slot fd none
  free := insert fd T.free
  limit := T.limit

/-- Drop the files of a kind and leave their descriptors taken. -/
def closeFiles (T : FdTable Γ) (cloexec : Γ → Bool) : FdTable Γ where
  slot := fun fd ↦ (T.slot fd).filter fun file ↦ !cloexec file
  free := T.free
  limit := T.limit

/-- Change the limit; at most one of the two intervals is not empty. -/
def setLimit (T : FdTable Γ) (newLimit : ℕ) : FdTable Γ where
  slot := T.slot
  free := (T.free \ Set.Ico newLimit T.limit) ∪ Set.Ico T.limit newLimit
  limit := newLimit

section lemmas

variable (T : FdTable Γ) (fd : ℕ) (file : Γ) (cloexec : Γ → Bool) (newLimit : ℕ)

@[simp] theorem take_slot : (T.take fd file).slot = update T.slot fd (some file) := rfl

@[simp] theorem take_free : (T.take fd file).free = T.free \ {fd} := rfl

@[simp] theorem take_limit : (T.take fd file).limit = T.limit := rfl

@[simp] theorem release_slot : (T.release fd).slot = update T.slot fd none := rfl

@[simp] theorem release_free : (T.release fd).free = insert fd T.free := rfl

@[simp] theorem release_limit : (T.release fd).limit = T.limit := rfl

@[simp] theorem closeFiles_slot :
    (T.closeFiles cloexec).slot fd = (T.slot fd).filter fun file ↦ !cloexec file := rfl

@[simp] theorem closeFiles_free : (T.closeFiles cloexec).free = T.free := rfl

@[simp] theorem closeFiles_limit : (T.closeFiles cloexec).limit = T.limit := rfl

@[simp] theorem setLimit_slot : (T.setLimit newLimit).slot = T.slot := rfl

@[simp] theorem setLimit_limit : (T.setLimit newLimit).limit = newLimit := rfl

theorem mem_setLimit_free : fd ∈ (T.setLimit newLimit).free ↔
    fd ∈ T.free ∧ ¬ (newLimit ≤ fd ∧ fd < T.limit) ∨ T.limit ≤ fd ∧ fd < newLimit := Iff.rfl

end lemmas

inductive Step : FdTable Γ → FdCall Γ → FdReply Γ → FdTable Γ → Prop
  | push {T fd file} (h : fd ∈ T.free) : Step T (.push file) (.fd (.ok fd)) (T.take fd file)
  | pushFull {T file} (h : T.free = ∅) :
      Step T (.push file) (.fd (.error .fdManager_noAvailableFd)) T
  | copyFdAnywhere {T T' oldFd file r} (h : T.slot oldFd = some file)
      (hs : Step T (.push file) r T') : Step T (.copyFdAnywhere oldFd) r T'
  | copyFdAnywhereNone {T oldFd} (h : T.slot oldFd = none) :
      Step T (.copyFdAnywhere oldFd) (.fd (.error .fdManager_fdNotFound)) T
  | copyFdTo {T oldFd newFd file} (h : T.slot oldFd = some file) :
      Step T (.copyFdTo oldFd newFd) (.done true) (T.take newFd file)
  | copyFdToNone {T oldFd newFd} (h : T.slot oldFd = none) :
      Step T (.copyFdTo oldFd newFd) (.done false) T
  | removeFile {T fd file} (h : T.slot fd = some file) :
      Step T (.removeFile fd) (.file (.ok file)) (T.release fd)
  | removeFileNone {T fd} (h : T.slot fd = none) :
      Step T (.removeFile fd) (.file (.error .fdManager_fdNotFound)) T
  | closeCloexecFiles {T cloexec} :
      Step T (.closeCloexecFiles cloexec) .unit (T.closeFiles cloexec)
  | modifyLimit {T newLimit} :
      Step T (.modifyLimit newLimit) .unit (T.setLimit (min newLimit FD_LIMIT_HARD))

/-- What makes every call return: descriptors fit the bitmap and a free one has no file. -/
structure Inv (T : FdTable Γ) : Prop where
  limit_le : T.limit ≤ FD_LIMIT_HARD
  slot_lt : ∀ fd, T.slot fd ≠ none → fd < FD_LIMIT_HARD
  free_lt : ∀ fd ∈ T.free, fd < FD_LIMIT_HARD
  empty : ∀ fd ∈ T.free, T.slot fd = none

end FdTable

/-! ## The manager stands for a table -/

namespace FdManager

/-- The manager holds the table. -/
structure Holds (m : FdManager Γ) (T : FdTable Γ) : Prop where
  slot : ∀ fd, m.slot fd = T.slot fd
  free : LawfulBitAlloc.Free m.fdAllocator T.free
  limit : m.limit = T.limit

variable {m : FdManager Γ} {T : FdTable Γ} {b : FdAllocator} {fd k : ℕ}

theorem slot_setSlot (m : FdManager Γ) (fd : ℕ) (file : Option Γ) (k : ℕ) :
    (m.setSlot fd file).slot k = update m.slot fd file k := by
  rw [slot, setSlot, List.getElem?_set]
  rcases eq_or_ne k fd with rfl | hne
  · have hlt : k < (m.files ++ List.replicate (k + 1 - m.files.length) none).length := by
      rw [List.length_append, List.length_replicate]
      omega
    rw [if_pos rfl, if_pos hlt, update_self, Option.getD_some]
  · rw [if_neg (Ne.symm hne), update_of_ne hne, slot, List.getElem?_append]
    split_ifs with hlt
    · rfl
    · rw [List.getElem?_replicate, List.getElem?_eq_none (by omega)]
      split_ifs <;> rfl

theorem Holds.take (h : m.Holds T) (hfree : LawfulBitAlloc.Free b (T.free \ {fd})) {file : Γ} :
    ({ m with fdAllocator := b }.setSlot fd (some file)).Holds (T.take fd file) := by
  refine ⟨fun k ↦ ?_, hfree, h.limit⟩
  rw [slot_setSlot, FdTable.take]
  exact congrFun (congrArg (update · fd (some file)) (funext h.slot)) k

theorem Holds.release (h : m.Holds T) (hfree : LawfulBitAlloc.Free b (insert fd T.free)) :
    ({ m with fdAllocator := b }.setSlot fd none).Holds (T.release fd) := by
  refine ⟨fun k ↦ ?_, hfree, h.limit⟩
  rw [slot_setSlot, FdTable.release]
  exact congrFun (congrArg (update · fd none) (funext h.slot)) k

theorem slot_map_filter (m : FdManager Γ) (p : Γ → Bool) (fd : ℕ) :
    slot { m with files := m.files.map (Option.filter p) } fd = (m.slot fd).filter p := by
  rw [slot, slot, List.getElem?_map]
  cases m.files[fd]? <;> rfl

theorem Holds.closeFiles (h : m.Holds T) (cloexec : Γ → Bool) :
    FdManager.Holds { m with files := m.files.map (Option.filter fun file ↦ !cloexec file) }
      (T.closeFiles cloexec) := by
  refine ⟨fun k ↦ ?_, h.free, h.limit⟩
  rw [slot_map_filter, FdTable.closeFiles_slot, ← h.slot]

/-! ## The methods refine the map -/

theorem wp_onAllocator {f : FdAllocator → Option FdAllocator} {S : Set ℕ}
    (hf : ∃ b, f m.fdAllocator = some b ∧ LawfulBitAlloc.Free b S) :
    wp (onAllocator f) (fun _ m' ↦ ∃ b, m' = { m with fdAllocator := b } ∧
      LawfulBitAlloc.Free b S) noPanic m := by
  obtain ⟨b, hb, hfree⟩ := hf
  rw [onAllocator, wp_bind, wp_get, hb]
  exact ⟨b, rfl, hfree⟩

theorem wp_getFile (h : m.Holds T) :
    wp (getFile fd) (fun r m' ↦ m' = m ∧ match r with
      | .ok file => T.slot fd = some file
      | .error e => T.slot fd = none ∧ e = .fdManager_fdNotFound) noPanic m := by
  rw [getFile, wp_bind, wp_get, ← h.slot]
  cases hs : m.slot fd with
  | none => exact ⟨rfl, rfl, rfl⟩
  | some file => exact ⟨rfl, rfl⟩

theorem wp_push (h : m.Holds T) {file : Γ} :
    wp (push file) (fun r m' ↦ ∃ T', T.Step (.push file) (.fd r) T' ∧ m'.Holds T')
      noPanic m := by
  rw [push, wp_bind, wp_get]
  cases ha : FdAllocator.alloc m.fdAllocator with
  | none => exact ⟨T, .pushFull (LawfulBitAlloc.alloc_none h.free ha), h⟩
  | some r =>
    obtain ⟨fd, b⟩ := r
    obtain ⟨hmem, hfree⟩ := LawfulBitAlloc.alloc_some h.free ha
    exact ⟨T.take fd file, .push hmem, h.take hfree⟩

theorem wp_copyFdAnywhere (h : m.Holds T) {oldFd : ℕ} :
    wp (copyFdAnywhere oldFd) (fun r m' ↦ ∃ T', T.Step (.copyFdAnywhere oldFd) (.fd r) T' ∧
      m'.Holds T') noPanic m := by
  rw [copyFdAnywhere, wp_bind]
  refine wp_imp (wp_getFile h) fun r m' hr ↦ ?_
  obtain ⟨rfl, hr⟩ := hr
  cases r with
  | ok file =>
    refine wp_imp (wp_push h) fun r m' hr ↦ ?_
    obtain ⟨T', hstep, hT'⟩ := hr
    exact ⟨T', .copyFdAnywhere hr hstep, hT'⟩
  | error e =>
    obtain ⟨hnone, rfl⟩ := hr
    exact ⟨T, .copyFdAnywhereNone hnone, h⟩

/-- Taking a descriptor that is taken already leaves the bitmap as it is. -/
theorem allocExactIfPossible_some (hfree : LawfulBitAlloc.Free b T.free)
    (hlt : fd < FD_LIMIT_HARD) :
    ∃ b', FdAllocator.allocExactIfPossible fd b = some b' ∧
      LawfulBitAlloc.Free b' (T.free \ {fd}) := by
  rw [FdAllocator.allocExactIfPossible, if_pos (show fd < BitAlloc.CAP FdAllocator from hlt)]
  split_ifs with htest
  · obtain ⟨b', hb', hfree'⟩ :=
      LawfulBitAlloc.remove_some hfree (Nat.lt_succ_self fd) (Nat.succ_le_of_lt hlt)
    exact ⟨b', hb', by rwa [BitAlloc.Ico_succ_self] at hfree'⟩
  · rw [LawfulBitAlloc.test_iff hfree hlt] at htest
    exact ⟨b, rfl, by rwa [Set.sdiff_singleton_eq_self htest]⟩

theorem wp_copyFdTo (h : m.Holds T) {oldFd newFd : ℕ} (hlt : newFd < FD_LIMIT_HARD) :
    wp (copyFdTo oldFd newFd) (fun r m' ↦ ∃ T', T.Step (.copyFdTo oldFd newFd) (.done r) T' ∧
      m'.Holds T') noPanic m := by
  rw [copyFdTo, wp_bind]
  refine wp_imp (wp_getFile h) fun r m' hr ↦ ?_
  obtain ⟨rfl, hr⟩ := hr
  cases r with
  | ok file =>
    dsimp only
    rw [wp_bind]
    refine wp_imp (wp_onAllocator (allocExactIfPossible_some h.free hlt)) fun _ m' hm' ↦ ?_
    obtain ⟨b, rfl, hfree⟩ := hm'
    rw [wp_bind, wp_modify]
    exact ⟨T.take newFd file, .copyFdTo hr, h.take hfree⟩
  | error e => exact ⟨T, .copyFdToNone hr.1, h⟩

theorem wp_removeFile (h : m.Holds T) (hI : T.Inv) {fd : ℕ} :
    wp (removeFile fd) (fun r m' ↦ ∃ T', T.Step (.removeFile fd) (.file r) T' ∧ m'.Holds T')
      noPanic m := by
  rw [removeFile, wp_bind]
  refine wp_imp (wp_getFile h) fun r m' hr ↦ ?_
  obtain ⟨rfl, hr⟩ := hr
  cases r with
  | ok file =>
    have hne : T.slot fd ≠ none := by simp [hr]
    have hdealloc := LawfulBitAlloc.dealloc_taken h.free (hI.slot_lt fd hne)
      fun hmem ↦ hne (hI.empty fd hmem)
    dsimp only
    rw [wp_bind]
    refine wp_imp (wp_onAllocator hdealloc) fun _ m' hm' ↦ ?_
    obtain ⟨b, rfl, hfree⟩ := hm'
    rw [wp_bind, wp_modify]
    exact ⟨T.release fd, .removeFile hr, h.release hfree⟩
  | error e =>
    obtain ⟨hnone, rfl⟩ := hr
    exact ⟨T, .removeFileNone hnone, h⟩

theorem wp_isFull (h : m.Holds T) :
    wp isFull (fun r m' ↦ (r = true ↔ T.free = ∅) ∧ m'.Holds T) noPanic m := by
  rw [isFull, wp_bind, wp_get]
  cases ha : FdAllocator.alloc m.fdAllocator with
  | none => exact ⟨iff_of_true rfl (LawfulBitAlloc.alloc_none h.free ha), h⟩
  | some r =>
    obtain ⟨fd, b⟩ := r
    obtain ⟨hmem, hfree⟩ := LawfulBitAlloc.alloc_some h.free ha
    have hdealloc := LawfulBitAlloc.dealloc_taken hfree (LawfulBitAlloc.free_lt h.free hmem)
      fun hout ↦ hout.2 rfl
    dsimp only
    rw [wp_bind, wp_set, wp_bind]
    refine wp_imp (wp_onAllocator hdealloc) fun _ m' hm' ↦ ?_
    obtain ⟨b', rfl, hfree'⟩ := hm'
    rw [Set.insert_sdiff_singleton, Set.insert_eq_of_mem hmem] at hfree'
    exact ⟨iff_of_false Bool.false_ne_true fun hempty ↦ by rw [hempty] at hmem; exact hmem.elim,
      h.slot, hfree', h.limit⟩

theorem wp_closeCloexecFiles (h : m.Holds T) (cloexec : Γ → Bool) :
    wp (closeCloexecFiles cloexec) (fun _ m' ↦ m'.Holds (T.closeFiles cloexec)) noPanic m := by
  rw [closeCloexecFiles, wp_modify]
  exact h.closeFiles cloexec

theorem wp_modifyLimit (h : m.Holds T) (hle : T.limit ≤ FD_LIMIT_HARD) (newLimit : ℕ) :
    wp (modifyLimit newLimit) (fun _ m' ↦ m'.Holds (T.setLimit (min newLimit FD_LIMIT_HARD)))
      noPanic m := by
  rw [modifyLimit, wp_bind, wp_get]
  dsimp only
  generalize hn : min newLimit FD_LIMIT_HARD = n
  have hn' : n ≤ FD_LIMIT_HARD := hn ▸ min_le_right _ _
  rw [← h.limit] at hle
  -- the limit is set after the bits are changed
  have hset : ∀ b, LawfulBitAlloc.Free b (T.free \ Set.Ico n m.limit ∪ Set.Ico m.limit n) →
      FdManager.Holds { m with fdAllocator := b, limit := n } (T.setLimit n) := by
    intro b hb
    rw [h.limit] at hb
    exact ⟨h.slot, hb, rfl⟩
  split_ifs with hlt hgt
  · rw [wp_bind]
    refine wp_imp (wp_onAllocator (LawfulBitAlloc.remove_some h.free hlt hle)) fun _ m' hm' ↦ ?_
    obtain ⟨b, rfl, hfree⟩ := hm'
    rw [wp_modify]
    refine hset b ?_
    rwa [Set.Ico_eq_empty_of_le hlt.le, Set.union_empty]
  · rw [wp_bind]
    refine wp_imp (wp_onAllocator (LawfulBitAlloc.insert_some h.free hgt hn')) fun _ m' hm' ↦ ?_
    obtain ⟨b, rfl, hfree⟩ := hm'
    rw [wp_modify]
    refine hset b ?_
    rwa [Set.Ico_eq_empty_of_le hgt.le, Set.sdiff_empty]
  · have heq : n = m.limit := by omega
    rw [wp_modify]
    refine hset m.fdAllocator ?_
    rw [heq, Set.Ico_self, Set.sdiff_empty, Set.union_empty]
    exact h.free

/-- Every call on a manager does to the table that it holds what the table says. -/
theorem Holds.wp_run (h : m.Holds T) (hI : T.Inv) {c : FdCall Γ}
    (hc : ∀ oldFd newFd, c = .copyFdTo oldFd newFd → newFd < FD_LIMIT_HARD) :
    wp c.run (fun r m' ↦ ∃ T', T.Step c r T' ∧ m'.Holds T') noPanic m := by
  cases c with
  | push file => exact (wp_map _ _).mpr (wp_push h)
  | copyFdAnywhere oldFd => exact (wp_map _ _).mpr (wp_copyFdAnywhere h)
  | copyFdTo oldFd newFd => exact (wp_map _ _).mpr (wp_copyFdTo h (hc oldFd newFd rfl))
  | removeFile fd => exact (wp_map _ _).mpr (wp_removeFile h hI)
  | closeCloexecFiles cloexec =>
    exact (wp_map _ _).mpr (wp_imp (wp_closeCloexecFiles h cloexec)
      fun _ _ hm' ↦ ⟨_, .closeCloexecFiles, hm'⟩)
  | modifyLimit newLimit =>
    exact (wp_map _ _).mpr (wp_imp (wp_modifyLimit h hI.limit_le newLimit)
      fun _ _ hm' ↦ ⟨_, .modifyLimit, hm'⟩)

end FdManager

end Maturin
