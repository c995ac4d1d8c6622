import Maturin.File.Dup

/-!
# The slots after a call

What each call on a descriptor table does to the slots, and which descriptor it takes: the one that
the bitmap hands out. Nothing is asked of the table but that it is one of a run.
-/

open Exec Function

namespace Maturin

namespace FdManager

variable {Γ : Type} {m m' : FdManager Γ}

/-- The table is one of a run, as far as its calls need it. -/
def Fits (m : FdManager Γ) : Prop := ∃ T, m.Holds T ∧ T.Fits

/-- What `push` does to the slots. -/
theorem wp_push_slot (h : m.Fits) (file : Γ) :
    wp (push file) (fun r m' ↦ m'.Fits ∧ match r with
      | .ok newFd => (∃ b, FdAllocator.alloc m.fdAllocator = some (newFd, b)) ∧
          m'.slot = update m.slot newFd (some file)
      | .error _ => FdAllocator.alloc m.fdAllocator = none ∧ m' = m) noPanic m := by
  obtain ⟨T, hm, hT⟩ := h
  rw [push, wp_bind, wp_get]
  cases ha : FdAllocator.alloc m.fdAllocator with
  | none => exact ⟨⟨T, hm, hT⟩, rfl, rfl⟩
  | some r =>
    obtain ⟨newFd, b⟩ := r
    obtain ⟨hmem, hfree⟩ := LawfulBitAlloc.alloc_some hm.free ha
    have hlt := LawfulBitAlloc.free_lt hm.free hmem
    exact ⟨⟨T.take newFd file, hm.take hfree, hT.take hlt file⟩, ⟨b, rfl⟩,
      funext fun k ↦ slot_setSlot _ newFd (some file) k⟩

theorem wp_copyFdAnywhere_slot (h : m.Fits) {oldFd : ℕ} {file : Γ}
    (hold : m.slot oldFd = some file) :
    wp (copyFdAnywhere oldFd) (fun r m' ↦ m'.Fits ∧ match r with
      | .ok newFd => (∃ b, FdAllocator.alloc m.fdAllocator = some (newFd, b)) ∧
          m'.slot = update m.slot newFd (some file)
      | .error _ => FdAllocator.alloc m.fdAllocator = none ∧ m' = m) noPanic m := by
  rw [copyFdAnywhere, wp_bind, getFile, wp_bind, wp_get, hold]
  exact wp_push_slot h file

theorem wp_removeFile_slot (h : m.Fits) (fd : ℕ) :
    wp (removeFile fd) (fun r m' ↦ m'.Fits ∧ match r with
      | .ok _ => m'.slot = update m.slot fd none
      | .error _ => m' = m) anyPanic m := by
  obtain ⟨T, hm, hT⟩ := h
  have hsame : wp (removeFile fd) (fun r m' ↦ ∀ e, r = .error e → m' = m) anyPanic m := by
    rw [removeFile, wp_bind, getFile, wp_bind, wp_get]
    cases hs : m.slot fd with
    | none => exact fun _ _ ↦ rfl
    | some file =>
      dsimp only
      rw [wp_pure]
      dsimp only
      rw [wp_bind]
      exact wp_mono (wp_true _) (fun _ _ _ e he ↦ by cases he) fun _ _ hp ↦ hp
  refine wp_mono (wp_and (wp_removeFile_anyPanic hm hT) hsame) (fun r m' hr ↦ ?_)
    fun _ _ _ ↦ trivial
  obtain ⟨⟨T', hstep, hm'⟩, hsame⟩ := hr
  have hfits := hT.step (fun k hk ↦ LawfulBitAlloc.free_lt hm.free hk) hstep
    fun _ _ heq ↦ by cases heq
  refine ⟨⟨T', hm', hfits⟩, ?_⟩
  cases hstep with
  | removeFile => rw [hm'.slot_eq, FdTable.release_slot, hm.slot_eq]
  | removeFileNone => exact hsame _ rfl

theorem wp_copyFdTo_slot (h : m.Fits) (oldFd newFd : ℕ) :
    wp (copyFdTo oldFd newFd) (fun r m' ↦ m'.Fits ∧ match r with
      | true => ∃ file, m.slot oldFd = some file ∧ m'.slot = update m.slot newFd (some file)
      | false => m.slot oldFd = none ∧ m'.slot = m.slot) anyPanic m := by
  obtain ⟨T, hm, hT⟩ := h
  refine wp_imp (wp_copyFdTo_anyPanic hm) fun r m' hr ↦ ?_
  obtain ⟨⟨T', hstep, hm'⟩, hlt⟩ := hr
  cases hstep with
  | @copyFdTo _ _ file hold =>
    rw [hm.slot, hold] at hlt
    refine ⟨⟨_, hm', hT.take (hlt (by simp)) file⟩, file, (hm.slot _).trans hold, ?_⟩
    rw [hm'.slot_eq, FdTable.take_slot, hm.slot_eq]
  | copyFdToNone hold =>
    exact ⟨⟨T, hm', hT⟩, (hm.slot _).trans hold, by rw [hm'.slot_eq, hm.slot_eq]⟩

theorem wp_closeCloexecFiles_slot (h : m.Fits) (cloexec : Γ → Bool) :
    wp (closeCloexecFiles cloexec) (fun _ m' ↦ m'.Fits ∧
      ∀ fd, m'.slot fd = (m.slot fd).filter fun file ↦ !cloexec file) noPanic m := by
  obtain ⟨T, hm, hT⟩ := h
  refine wp_imp (wp_closeCloexecFiles hm cloexec) fun _ m' hm' ↦ ?_
  have hfits := hT.step (fun k hk ↦ LawfulBitAlloc.free_lt hm.free hk)
    (.closeCloexecFiles : T.Step (.closeCloexecFiles cloexec) .unit _) fun _ _ heq ↦ by cases heq
  refine ⟨⟨_, hm', hfits⟩, fun fd ↦ ?_⟩
  rw [hm'.slot, FdTable.closeFiles_slot, hm.slot]

theorem wp_sysOpen_slot (h : m.Fits) (openFile : Except ErrorNo Γ) :
    wp (sysOpen openFile) (fun r m' ↦ m'.Fits ∧ match r with
      | .ok newFd => ∃ file, openFile = .ok file ∧ FdAllocator.alloc m.fdAllocator ≠ none ∧
          m'.slot = update m.slot newFd (some file)
      | .error _ => m'.slot = m.slot ∧
          (FdAllocator.alloc m.fdAllocator = none ∨ ∀ file, openFile ≠ .ok file)) noPanic m := by
  obtain ⟨T, hm, hT⟩ := h
  have hfull : FdAllocator.alloc m.fdAllocator = none ↔ T.free = ∅ := by
    refine ⟨LawfulBitAlloc.alloc_none hm.free, fun hempty ↦ ?_⟩
    cases ha : FdAllocator.alloc m.fdAllocator with
    | none => rfl
    | some r =>
      have hmem := (LawfulBitAlloc.alloc_some hm.free ha).1
      rw [hempty] at hmem
      exact hmem.elim
  rw [sysOpen.eq_def, wp_bind]
  refine wp_imp (wp_isFull hm) fun full m₁ hr ↦ ?_
  obtain ⟨hyes, hm₁⟩ := hr
  have hslot : m₁.slot = m.slot := by rw [hm₁.slot_eq, hm.slot_eq]
  split_ifs with hcond
  · exact ⟨⟨T, hm₁, hT⟩, hslot, .inl (hfull.mpr (hyes.mp hcond))⟩
  · cases openFile with
    | error e => exact ⟨⟨T, hm₁, hT⟩, hslot, .inr fun _ hfile ↦ by cases hfile⟩
    | ok file =>
      have hroom : T.free ≠ ∅ := fun hempty ↦ hcond (hyes.mpr hempty)
      dsimp only
      rw [wp_bind]
      refine wp_imp (wp_push_slot ⟨T, hm₁, hT⟩ file) fun r m' hr ↦ ?_
      obtain ⟨hfits, hr⟩ := hr
      cases r with
      | ok newFd =>
        refine ⟨hfits, file, rfl, fun hnone ↦ hroom (hfull.mp hnone), ?_⟩
        rw [← hslot]
        exact hr.2
      | error e => exact absurd (LawfulBitAlloc.alloc_none hm₁.free hr.1) hroom

/-- The copy that a fork takes is the table after all rounds of the loop. -/
theorem copied_copyAll (h : m.Fits) (hcopy : m.copyAll = some m') :
    Copied m m.files.length m' := by
  obtain ⟨T, hm, hT⟩ := h
  have hlt : ∀ fd, m.slot fd ≠ none → fd < FD_LIMIT_HARD := fun fd hfd ↦
    hT.slot_lt fd (by rwa [← hm.slot])
  rw [copyAll, Option.bind_eq_bind, Option.bind_eq_some_iff] at hcopy
  obtain ⟨b, hb, hloop⟩ := hcopy
  obtain ⟨m'', hloop', hcopied⟩ := (copied_zero m (new_some hb).2).foldlM hlt le_rfl
  obtain rfl := Option.some.inj (hloop'.symm.trans hloop)
  exact hcopied

/-- It has the files of the original in their slots. -/
theorem copyAll_slot (h : m.Fits) (hcopy : m.copyAll = some m') :
    m'.slot = m.slot := by
  funext fd
  rw [(copied_copyAll h hcopy).slot]
  split_ifs with hfd
  · rfl
  · rw [slot, List.getElem?_eq_none (not_lt.mp hfd)]
    rfl

/-- A table of a run is copied if and only if its limit is not zero. -/
theorem exists_copyAll_iff (h : m.Fits) : (∃ m', m.copyAll = some m') ↔ 0 < m.limit := by
  obtain ⟨T, hm, hT⟩ := h
  constructor
  · rintro ⟨m', hcopy⟩
    rw [copyAll, Option.bind_eq_bind, Option.bind_eq_some_iff] at hcopy
    obtain ⟨b, hb, -⟩ := hcopy
    exact pos_of_new hb
  · intro hpos
    have hlt : ∀ fd, m.slot fd ≠ none → fd < FD_LIMIT_HARD := fun fd hfd ↦
      hT.slot_lt fd (by rwa [← hm.slot])
    obtain ⟨b, hb, hfree⟩ := LawfulBitAlloc.insert_some
      (LawfulBitAlloc.free_default (B := FdAllocator)) hpos (hm.limit ▸ hT.limit_le)
    rw [Set.empty_union] at hfree
    obtain ⟨m', hloop, -⟩ := (copied_zero m hfree).foldlM hlt le_rfl
    refine ⟨m', ?_⟩
    rw [copyAll, FdAllocator.new, hb]
    exact hloop

theorem fits_copyAll (hcopy : m.copyAll = some m') : m'.Fits := by
  obtain ⟨T, hm, hT⟩ := exact_copyAll hcopy
  exact ⟨T, hm, hT.fits⟩

end FdManager

end Maturin
