import Maturin.File.Descriptors

/-!
# Duplicating descriptors

`copy_fd_to`, behind `sys_dup3`, takes any descriptor as its target. Above the limit the bitmap has
no free bit, which the method takes for a descriptor in use, and past the last bit the test of the
bitmap is an index out of bounds.

`copy_all`, behind `fork`, builds a new bitmap from the limit and takes the descriptors in use. The
free bits determine the bitmap, so that the copy is the same table as the original, and behaves like
it ever after. Without a descriptor below the limit there is no range to free, and the assertion of
the bitmap fails.
-/

open Exec Function

namespace Maturin

variable {Γ : Type} {m m' : FdManager Γ} {T T' : FdTable Γ} {oldFd newFd : ℕ}

/-! ## The tables of all runs -/

/-- The table fits the bitmap. -/
structure FdTable.Fits (T : FdTable Γ) : Prop where
  limit_le : T.limit ≤ FD_LIMIT_HARD
  slot_lt : ∀ fd, T.slot fd ≠ none → fd < FD_LIMIT_HARD

namespace FdTable

variable {c : FdCall Γ} {r : FdReply Γ}

theorem Exact.fits (h : T.Exact) : T.Fits := ⟨h.limit_le, h.slot_lt⟩

theorem Fits.take (h : T.Fits) {fd : ℕ} (hlt : fd < FD_LIMIT_HARD) (file : Γ) :
    (T.take fd file).Fits := by
  refine ⟨h.limit_le, fun k hk ↦ ?_⟩
  rcases eq_or_ne k fd with rfl | hne
  · exact hlt
  · exact h.slot_lt k (by rwa [take_slot, update_of_ne hne] at hk)

theorem Fits.step (h : T.Fits) (hfree : ∀ fd ∈ T.free, fd < FD_LIMIT_HARD) (hs : T.Step c r T')
    (hc : ∀ oldFd newFd, c = .copyFdTo oldFd newFd → newFd < FD_LIMIT_HARD) : T'.Fits := by
  induction hs with
  | @push fd file hmem => exact h.take (hfree fd hmem) file
  | pushFull => exact h
  | copyFdAnywhere _ _ ih => exact ih fun _ _ heq ↦ by cases heq
  | copyFdAnywhereNone => exact h
  | @copyFdTo oldFd newFd file => exact h.take (hc oldFd newFd rfl) file
  | copyFdToNone => exact h
  | @removeFile fd file =>
    refine ⟨h.limit_le, fun k hk ↦ h.slot_lt k fun hnone ↦ hk ?_⟩
    rw [release_slot, update_apply, hnone, ite_self]
  | removeFileNone => exact h
  | closeCloexecFiles =>
    refine ⟨h.limit_le, fun k hk ↦ h.slot_lt k fun hnone ↦ hk ?_⟩
    rw [closeFiles_slot, hnone, Option.filter_none]
  | modifyLimit => exact ⟨min_le_right _ _, h.slot_lt⟩

end FdTable

namespace FdManager

/-- A target past the last bit is an index out of bounds. -/
theorem allocExactIfPossible_none (b : FdAllocator) (h : FD_LIMIT_HARD ≤ newFd) :
    FdAllocator.allocExactIfPossible newFd b = none :=
  if_neg (show ¬newFd < BitAlloc.CAP FdAllocator from not_lt.mpr h)

/-- `copy_fd_to`, when it returns, does what the table says. -/
theorem wp_copyFdTo_anyPanic (h : m.Holds T) :
    wp (copyFdTo oldFd newFd) (fun r m' ↦ (∃ T', T.Step (.copyFdTo oldFd newFd) (.done r) T' ∧
      m'.Holds T') ∧ (m.slot oldFd ≠ none → newFd < FD_LIMIT_HARD)) anyPanic m := by
  by_cases hlt : newFd < FD_LIMIT_HARD
  · exact wp_mono (wp_copyFdTo h hlt) (fun _ _ hr ↦ ⟨hr, fun _ ↦ hlt⟩) fun _ _ hp ↦ hp.elim
  · rw [copyFdTo, wp_bind]
    refine wp_mono (wp_getFile h) (fun r m' hr ↦ ?_) fun _ _ hp ↦ hp.elim
    obtain ⟨rfl, hr⟩ := hr
    cases r with
    | ok file =>
      dsimp only
      rw [wp_bind, onAllocator, wp_bind, wp_get, allocExactIfPossible_none _ (not_lt.mp hlt)]
      trivial
    | error e => exact ⟨⟨T, .copyFdToNone hr.1, h⟩, fun hne ↦ absurd ((h.slot _).trans hr.1) hne⟩

/-- `remove_file`, when it returns, does what the table says. -/
theorem wp_removeFile_anyPanic (h : m.Holds T) (hT : T.Fits) {fd : ℕ} :
    wp (removeFile fd) (fun r m' ↦ ∃ T', T.Step (.removeFile fd) (.file r) T' ∧ m'.Holds T')
      anyPanic m := by
  rw [removeFile, wp_bind]
  refine wp_mono (wp_getFile h) (fun r m' hr ↦ ?_) fun _ _ hp ↦ hp.elim
  obtain ⟨rfl, hr⟩ := hr
  cases r with
  | ok file =>
    have hlt := hT.slot_lt fd (by simp [hr])
    dsimp only
    by_cases hmem : fd ∈ T.free
    · rw [wp_bind, onAllocator, wp_bind, wp_get, FdAllocator.dealloc,
        LawfulBitAlloc.dealloc_free h.free hmem]
      trivial
    · rw [wp_bind]
      refine wp_mono (wp_onAllocator (LawfulBitAlloc.dealloc_taken h.free hlt hmem))
        (fun _ m' hm' ↦ ?_) fun _ _ hp ↦ hp.elim
      obtain ⟨b, rfl, hb⟩ := hm'
      exact ⟨T.release fd, .removeFile hr, h.release hb⟩
  | error e =>
    obtain ⟨hnone, rfl⟩ := hr
    exact ⟨T, .removeFileNone hnone, h⟩

/-- A call that returns does what the table says. -/
theorem Holds.wp_run_anyPanic (h : m.Holds T) (hT : T.Fits) (c : FdCall Γ) :
    wp c.run (fun _ m' ↦ ∃ T', m'.Holds T' ∧ T'.Fits) anyPanic m := by
  have hfree : ∀ fd ∈ T.free, fd < FD_LIMIT_HARD := fun fd hfd ↦ LawfulBitAlloc.free_lt h.free hfd
  have hstep : ∀ {x : EStateM Panic (FdManager Γ) (FdReply Γ)},
      (∀ oldFd newFd, c = .copyFdTo oldFd newFd → newFd < FD_LIMIT_HARD) →
      wp x (fun r m' ↦ ∃ T', T.Step c r T' ∧ m'.Holds T') anyPanic m →
      wp x (fun _ m' ↦ ∃ T', m'.Holds T' ∧ T'.Fits) anyPanic m := by
    intro x hc hx
    refine wp_imp hx fun r m' hr ↦ ?_
    obtain ⟨T', hs, hm'⟩ := hr
    exact ⟨T', hm', hT.step hfree hs hc⟩
  have hany : ∀ {α : Type} {x : EStateM Panic (FdManager Γ) α} {Q : α → FdManager Γ → Prop},
      wp x Q noPanic m → wp x Q anyPanic m := fun hx ↦ wp_mono hx (fun _ _ h ↦ h) fun _ _ h ↦ h.elim
  cases c with
  | push file => exact hstep (fun _ _ heq ↦ by cases heq) (hany ((wp_map _ _).mpr (wp_push h)))
  | copyFdAnywhere oldFd =>
    exact hstep (fun _ _ heq ↦ by cases heq) (hany ((wp_map _ _).mpr (wp_copyFdAnywhere h)))
  | copyFdTo oldFd newFd =>
    refine (wp_map _ _).mpr (wp_imp (wp_copyFdTo_anyPanic h) fun r m' hr ↦ ?_)
    obtain ⟨⟨T', hs, hm'⟩, hlt⟩ := hr
    cases hs with
    | copyFdTo hold =>
      rw [h.slot, hold] at hlt
      exact ⟨_, hm', hT.take (hlt (by simp)) _⟩
    | copyFdToNone => exact ⟨T, hm', hT⟩
  | removeFile fd =>
    exact hstep (fun _ _ heq ↦ by cases heq) ((wp_map _ _).mpr (wp_removeFile_anyPanic h hT))
  | closeCloexecFiles cloexec =>
    exact hstep (fun _ _ heq ↦ by cases heq) (hany ((wp_map _ _).mpr
      (wp_imp (wp_closeCloexecFiles h cloexec) fun _ _ hm' ↦ ⟨_, .closeCloexecFiles, hm'⟩)))
  | modifyLimit newLimit =>
    exact hstep (fun _ _ heq ↦ by cases heq) (hany ((wp_map _ _).mpr
      (wp_imp (wp_modifyLimit h hT.limit_le newLimit) fun _ _ hm' ↦ ⟨_, .modifyLimit, hm'⟩)))

/-- Every table that a run reaches fits the bitmap. -/
theorem Reach.fits {ok : FdManager Γ → FdCall Γ → Prop} (h : Reach ok m) :
    ∃ T, m.Holds T ∧ T.Fits := by
  induction h with
  | new h =>
    obtain ⟨T, hm, hT⟩ := exact_new h
    exact ⟨T, hm, hT.fits⟩
  | copyAll h =>
    obtain ⟨T, hm, hT⟩ := exact_copyAll h
    exact ⟨T, hm, hT.fits⟩
  | call _ _ hrun ih =>
    obtain ⟨T, hm, hT⟩ := ih
    exact wp_ok (hm.wp_run_anyPanic hT _) hrun

/-! ## The target of `dup3` -/

/-- What `copy_fd_to` promises. -/
structure CopiedTo (m : FdManager Γ) (oldFd newFd : ℕ) (r : Bool) (m' : FdManager Γ) : Prop where
  fail : r = false → m' = m
  lt : r = true → newFd < m.limit
  slot : r = true → m'.slot newFd = m.slot oldFd ∧ (m'.slot newFd).isSome
  taken : r = true → BitAlloc.test newFd m'.fdAllocator = false
  others : r = true → ∀ fd, fd ≠ newFd → m'.slot fd = m.slot fd ∧ (fd < FD_LIMIT_HARD →
    BitAlloc.test fd m'.fdAllocator = BitAlloc.test fd m.fdAllocator)
  limit : m'.limit = m.limit
  umask : m'.umask = m.umask

/-- A call that fails does nothing. -/
theorem CopiedTo.failed (m : FdManager Γ) (oldFd newFd : ℕ) : CopiedTo m oldFd newFd false m where
  fail _ := rfl
  lt := nofun
  slot := nofun
  taken := nofun
  others := nofun
  limit := rfl
  umask := rfl

/-- **`dup3` keeps its promise if and only if its target is below the limit**, or there is nothing
to duplicate. -/
theorem copyFdTo_iff {ok : FdManager Γ → FdCall Γ → Prop} (h : Reach ok m) (oldFd newFd : ℕ) :
    wp (copyFdTo oldFd newFd) (CopiedTo m oldFd newFd) noPanic m ↔
      m.slot oldFd = none ∨ newFd < m.limit := by
  obtain ⟨T, hm, hT⟩ := h.fits
  rw [copyFdTo, wp_bind, getFile, wp_bind, wp_get]
  cases hold : m.slot oldFd with
  | none => exact iff_of_true (.failed m oldFd newFd) (Or.inl rfl)
  | some file =>
    dsimp only
    rw [wp_pure]
    dsimp only
    rw [wp_bind, onAllocator, wp_bind, wp_get]
    by_cases hlt : newFd < FD_LIMIT_HARD
    · obtain ⟨b, hb, hfree⟩ := allocExactIfPossible_some hm.free hlt
      rw [hb]
      dsimp only
      rw [wp_set, wp_bind, wp_modify, wp_pure, or_iff_right (by simp)]
      refine ⟨fun hr ↦ hr.lt rfl, fun hnew ↦ ?_⟩
      refine ⟨fun hr ↦ absurd hr (by decide), fun _ ↦ hnew, fun _ ↦ ?_, fun _ ↦ ?_,
        fun _ fd hne ↦ ⟨?_, fun hfd ↦ ?_⟩, rfl, rfl⟩
      · rw [slot_setSlot, update_self]
        exact ⟨hold.symm, rfl⟩
      · rw [← Bool.not_eq_true]
        exact fun htest ↦ ((LawfulBitAlloc.test_iff hfree hlt).mp htest).2 rfl
      · rw [slot_setSlot, update_of_ne hne]
        rfl
      · rw [Bool.eq_iff_iff]
        refine (LawfulBitAlloc.test_iff hfree hfd).trans ?_
        rw [LawfulBitAlloc.test_iff hm.free hfd]
        exact and_iff_left hne
    · rw [allocExactIfPossible_none _ (not_lt.mp hlt)]
      have hlimit := hT.limit_le
      rw [← hm.limit] at hlimit
      exact iff_of_false id fun hor ↦ hor.elim (by simp) fun hnew ↦ hlt (hnew.trans_le hlimit)

end FdManager

theorem copyFdTo_new : ∃ m : FdManager ℕ, m.limit = 256 ∧
    wp (FdManager.copyFdTo 1 7) (FdManager.CopiedTo m 1 7) noPanic m := by
  obtain ⟨m, hm⟩ := Option.isSome_iff_exists.mp
    (show (FdManager.new 10 11 12 0).isSome = true by decide +kernel)
  have hreach : FdManager.Reach (fun _ _ ↦ True) m := .new hm
  have hlimit : (FdManager.new 10 11 12 0).map (·.limit) = some 256 := by decide +kernel
  rw [hm] at hlimit
  have hlimit : m.limit = 256 := Option.some.inj hlimit
  exact ⟨m, hlimit, (FdManager.copyFdTo_iff hreach 1 7).mpr (Or.inr (by omega))⟩

/-- A target past the last bit panics, and one between the limit and the last bit gets the file. -/
theorem copyFdTo_past_limit :
    (FdManager.new 10 11 12 0).any (fun m ↦
      panicOf (FdManager.copyFdTo 1 256) m == some .assertFailed) = true ∧
    (FdManager.new 10 11 12 0).any (fun m ↦ returns (do
      FdManager.modifyLimit 16
      FdManager.copyFdTo 1 100) m
        (fun r m' ↦ r && decide (m'.limit = 16) && m'.slot 100 == some 11)) = true := by
  refine ⟨?_, ?_⟩ <;> decide +kernel

/-! ## The copy of a table -/

/-- The calls on a table and on its copy. -/
inductive FdOp (Γ : Type)
  | push (file : Γ)
  | copyFdAnywhere (oldFd : ℕ)
  | copyFdTo (oldFd newFd : ℕ)
  | removeFile (fd : ℕ)
  | getFile (fd : ℕ)

def FdOp.run : FdOp Γ → EStateM Panic (FdManager Γ) (FdReply Γ)
  | .push file => .fd <$> FdManager.push file
  | .copyFdAnywhere oldFd => .fd <$> FdManager.copyFdAnywhere oldFd
  | .copyFdTo oldFd newFd => .done <$> FdManager.copyFdTo oldFd newFd
  | .removeFile fd => .file <$> FdManager.removeFile fd
  | .getFile fd => .file <$> FdManager.getFile fd

/-- Calls one after another: what they return, and the table in the end or the panic that ends
them. -/
def runOps : List (FdOp Γ) → FdManager Γ → List (FdReply Γ) × Except Panic (FdManager Γ)
  | [], m => ([], .ok m)
  | op :: ops, m =>
    match op.run.run m with
    | .ok r m =>
      let (rs, result) := runOps ops m
      (r :: rs, result)
    | .error p _ => ([], .error p)

/-- What is seen of the calls. -/
def results (ops : List (FdOp Γ)) (m : FdManager Γ) : List (FdReply Γ) × Except Panic Unit :=
  ((runOps ops m).1, (runOps ops m).2.map fun _ ↦ ())

/-- Calls on two tables, each for the first or for the second. -/
def runPair : List (Bool × FdOp Γ) → FdManager Γ × FdManager Γ →
    Option (List (Bool × FdReply Γ) × FdManager Γ × FdManager Γ)
  | [], s => some ([], s)
  | (second, op) :: ops, s =>
    match op.run.run (if second then s.2 else s.1) with
    | .ok r m => do
      let (rs, s) ← runPair ops (if second then (s.1, m) else (m, s.2))
      pure ((second, r) :: rs, s)
    | .error _ _ => none

/-- Those that are for the second table, or those for the first. -/
def side {α : Type} (second : Bool) (l : List (Bool × α)) : List α :=
  (l.filter fun x ↦ x.1 == second).map (·.2)

/-- Two tables do not see each other. -/
theorem runOps_of_runPair {ops : List (Bool × FdOp Γ)} {s s' : FdManager Γ × FdManager Γ}
    {rs : List (Bool × FdReply Γ)} (h : runPair ops s = some (rs, s')) :
    runOps (side false ops) s.1 = (side false rs, .ok s'.1) ∧
      runOps (side true ops) s.2 = (side true rs, .ok s'.2) := by
  induction ops generalizing s rs with
  | nil =>
    rw [runPair, Option.some.injEq, Prod.mk.injEq] at h
    obtain ⟨rfl, rfl⟩ := h
    exact ⟨rfl, rfl⟩
  | cons x ops ih =>
    obtain ⟨second, op⟩ := x
    rw [runPair] at h
    split at h
    case h_1 r m hrun =>
      rw [Option.bind_eq_bind, Option.bind_eq_some_iff] at h
      obtain ⟨⟨rs', t⟩, hrest, heq⟩ := h
      rw [Option.pure_def, Option.some.injEq, Prod.mk.injEq] at heq
      obtain ⟨rfl, rfl⟩ := heq
      obtain ⟨hfirst, hsecond⟩ := ih hrest
      cases second with
      | false =>
        refine ⟨?_, hsecond⟩
        change runOps (op :: side false ops) s.1 = (r :: side false rs', _)
        rw [runOps, show op.run.run s.1 = .ok r m from hrun]
        dsimp only
        rw [show runOps (side false ops) m = _ from hfirst]
      | true =>
        refine ⟨hfirst, ?_⟩
        change runOps (op :: side true ops) s.2 = (r :: side true rs', _)
        rw [runOps, show op.run.run s.2 = .ok r m from hrun]
        dsimp only
        rw [show runOps (side true ops) m = _ from hsecond]
    case h_2 => cases h

namespace FdManager

/-- The copy has the files, the limits and the free descriptors of the original, calls on it return
what they return on the original, and calls on both are as if each were alone. -/
structure CopyOf (m m' : FdManager Γ) : Prop where
  slot : ∀ fd, m'.slot fd = m.slot fd
  limit : m'.limit = m.limit
  umask : m'.umask = m.umask
  free : ∀ fd < FD_LIMIT_HARD,
    BitAlloc.test fd m'.fdAllocator = BitAlloc.test fd m.fdAllocator
  results : ∀ ops, results ops m' = results ops m
  apart : ∀ {ops rs m₁ m₂}, runPair ops (m, m') = some (rs, m₁, m₂) →
    runOps (side false ops) m = (side false rs, .ok m₁) ∧
      runOps (side true ops) m' = (side true rs, .ok m₂)

/-- The free descriptors determine the bitmap. -/
theorem fdAllocator_unique {b b' : FdAllocator} {S : Set ℕ} (h : LawfulBitAlloc.Free b S)
    (h' : LawfulBitAlloc.Free b' S) : b = b' :=
  BitAllocCascade16.Free.unique BitAlloc16.Free.unique h h'

/-- The new table after `k` rounds of the loop. -/
structure Copied (m : FdManager Γ) (k : ℕ) (m' : FdManager Γ) : Prop where
  length : m'.files.length = m.files.length
  slot : ∀ fd, m'.slot fd = if fd < k then m.slot fd else none
  free : LawfulBitAlloc.Free m'.fdAllocator {fd | fd < m.limit ∧ (fd < k → m.slot fd = none)}
  limit : m'.limit = m.limit
  umask : m'.umask = m.umask

theorem Copied.step {k : ℕ} (h : Copied m k m') (hk : k < m.files.length)
    (hlt : m.slot k ≠ none → k < FD_LIMIT_HARD) :
    ∃ m'', copySlot m m' k = some m'' ∧ Copied m (k + 1) m'' := by
  rw [copySlot]
  cases hs : m.slot k with
  | none =>
    refine ⟨m', rfl, h.length, fun fd ↦ ?_, ?_, h.limit, h.umask⟩
    · rw [h.slot]
      split_ifs with hl hr hr
      · rfl
      · omega
      · rw [show fd = k by omega, hs]
      · rfl
    · -- a slot without a file takes no descriptor
      have hset : {fd | fd < m.limit ∧ (fd < k → m.slot fd = none)}
          = {fd | fd < m.limit ∧ (fd < k + 1 → m.slot fd = none)} := by
        ext fd
        refine and_congr_right fun _ ↦ ⟨fun hfd hl ↦ ?_, fun hfd hl ↦ hfd (by omega)⟩
        rcases Nat.lt_succ_iff_lt_or_eq.mp hl with hl | rfl
        · exact hfd hl
        · exact hs
      exact hset ▸ h.free
  | some file =>
    -- the descriptor of the file is taken in the copy as well
    have hk' : k < FD_LIMIT_HARD := hlt (by rw [hs]; simp)
    obtain ⟨b, hb, hfree⟩ := LawfulBitAlloc.remove_some h.free (Nat.lt_succ_self k)
      (Nat.succ_le_of_lt hk')
    refine ⟨setSlot { m' with fdAllocator := b } k (some file), ?_, ?_, fun fd ↦ ?_, ?_, h.limit,
      h.umask⟩
    · rw [FdAllocator.allocExact, hb]
      rfl
    · rw [setSlot, List.length_set, List.length_append, List.length_replicate]
      dsimp only
      rw [h.length]
      omega
    · rw [slot_setSlot]
      rcases eq_or_ne fd k with rfl | hne
      · rw [update_self, if_pos (Nat.lt_succ_self fd), hs]
      · rw [update_of_ne hne]
        refine (h.slot fd).trans ?_
        split_ifs with hl hr hr
        · rfl
        · omega
        · omega
        · rfl
    · have hset : {fd | fd < m.limit ∧ (fd < k → m.slot fd = none)} \ Set.Ico k (k + 1)
          = {fd | fd < m.limit ∧ (fd < k + 1 → m.slot fd = none)} := by
        ext fd
        rw [BitAlloc.Ico_succ_self, Set.mem_sdiff, Set.mem_singleton_iff, Set.mem_ofPred_eq,
          Set.mem_ofPred_eq, and_assoc]
        refine and_congr_right fun _ ↦ ⟨fun hfd hl ↦ hfd.1 (by omega), fun hfd ↦
          ⟨fun hl ↦ hfd (by omega), ?_⟩⟩
        rintro rfl
        rw [hs] at hfd
        exact absurd (hfd (Nat.lt_succ_self fd)) (by simp)
      exact hset ▸ hfree

theorem Copied.foldlM {m₀ : FdManager Γ} (h : Copied m 0 m₀)
    (hlt : ∀ fd, m.slot fd ≠ none → fd < FD_LIMIT_HARD) {k : ℕ} (hk : k ≤ m.files.length) :
    ∃ m', (List.range k).foldlM (copySlot m) m₀ = some m' ∧ Copied m k m' := by
  induction k with
  | zero => exact ⟨m₀, rfl, h⟩
  | succ k ih =>
    obtain ⟨m', hm', hcopied⟩ := ih (by omega)
    obtain ⟨m'', hstep, hcopied'⟩ := hcopied.step (by omega) (hlt k)
    refine ⟨m'', ?_, hcopied'⟩
    rw [List.range_succ, List.foldlM_append, hm', Option.bind_eq_bind, Option.bind_some,
      List.foldlM_cons, hstep]
    rfl

/-- The new table before the loop. -/
theorem copied_zero (m : FdManager Γ) {b : FdAllocator}
    (hfree : LawfulBitAlloc.Free b (Set.Ico 0 m.limit)) :
    Copied m 0 ⟨List.replicate m.files.length none, b, m.limit, m.umask⟩ := by
  refine ⟨List.length_replicate, fun fd ↦ ?_, ?_, rfl, rfl⟩
  · rw [if_neg (Nat.not_lt_zero fd), FdManager.slot, List.getElem?_replicate]
    split_ifs <;> rfl
  · have hset : Set.Ico 0 m.limit = {fd | fd < m.limit ∧ (fd < 0 → m.slot fd = none)} := by
      ext fd
      simp
    exact hset ▸ hfree

/-- The copy of a table in which the empty slots below the limit are free is the same table. -/
theorem copyAll_eq (hm : m.Holds T) (hT : T.Exact) (hpos : 0 < m.limit) : m.copyAll = some m := by
  have hslot : ∀ fd, m.slot fd ≠ none → fd < FD_LIMIT_HARD := fun fd hfd ↦
    hT.slot_lt fd (by rwa [← hm.slot])
  obtain ⟨b, hb, hfree⟩ := LawfulBitAlloc.insert_some
    (LawfulBitAlloc.free_default (B := FdAllocator)) hpos (hm.limit ▸ hT.limit_le)
  rw [Set.empty_union] at hfree
  obtain ⟨m', hloop, hcopied⟩ := (copied_zero m hfree).foldlM hslot le_rfl
  have heq : m' = m := by
    have hlen := hcopied.length
    have hfiles : m'.files = m.files := by
      refine List.ext_getElem hlen fun i hi hi' ↦ ?_
      have hs := hcopied.slot i
      rw [if_pos hi', FdManager.slot, FdManager.slot, List.getElem?_eq_getElem hi,
        List.getElem?_eq_getElem hi'] at hs
      exact hs
    have hallocator : m'.fdAllocator = m.fdAllocator := by
      refine fdAllocator_unique hcopied.free ?_
      have hset : T.free = {fd | fd < m.limit ∧ (fd < m.files.length → m.slot fd = none)} := by
        ext fd
        rw [hT.mem_free, ← hm.limit, ← hm.slot]
        refine and_congr_right fun _ ↦ ⟨fun hfd _ ↦ hfd, fun hfd ↦ ?_⟩
        by_cases hl : fd < m.files.length
        · exact hfd hl
        · rw [FdManager.slot, List.getElem?_eq_none (not_lt.mp hl)]
          rfl
      exact hset ▸ hm.free
    obtain ⟨files, fdAllocator, limit, umask⟩ := m'
    obtain ⟨files', fdAllocator', limit', umask'⟩ := m
    rw [FdManager.mk.injEq]
    exact ⟨hfiles, hallocator, hcopied.limit, hcopied.umask⟩
  rw [copyAll, FdAllocator.new, hb]
  dsimp only
  rw [Option.bind_eq_bind, Option.bind_some, hloop, heq]

/-- **A table is copied faithfully if and only if its limit is not zero.** -/
theorem copyOf_iff (hm : m.Holds T) (hT : T.Exact) :
    (∃ m', m.copyAll = some m' ∧ CopyOf m m') ↔ 0 < m.limit := by
  constructor
  · rintro ⟨m', hcopy, -⟩
    rw [copyAll, Option.bind_eq_bind, Option.bind_eq_some_iff] at hcopy
    obtain ⟨b, hb, -⟩ := hcopy
    exact pos_of_new hb
  · intro hpos
    exact ⟨m, copyAll_eq hm hT hpos, fun _ ↦ rfl, rfl, rfl, fun _ _ ↦ rfl, fun _ ↦ rfl,
      fun h ↦ runOps_of_runPair h⟩

end FdManager

/-- A new table is copied. -/
theorem copyOf_new : ∃ m m' : FdManager ℕ, m.slot 1 = some 11 ∧ m.copyAll = some m' ∧
    FdManager.CopyOf m m' := by
  obtain ⟨m, hm⟩ := Option.isSome_iff_exists.mp
    (show (FdManager.new 10 11 12 0).isSome = true by decide +kernel)
  have hslot : (FdManager.new 10 11 12 0).map (fun m ↦ (m.slot 1, m.limit)) = some (some 11, 256) :=
    by decide +kernel
  rw [hm, Option.map_some, Option.some.injEq, Prod.mk.injEq] at hslot
  obtain ⟨T, hholds, hT⟩ := FdManager.exact_new hm
  obtain ⟨m', hcopy⟩ := (FdManager.copyOf_iff hholds hT).mpr (by omega)
  exact ⟨m, m', hslot.1, hcopy⟩

/-- A table whose limit was set to zero cannot be copied. -/
theorem copyAll_limit_zero : ∃ (m : FdManager ℕ) (T : FdTable ℕ), m.Holds T ∧ T.Exact ∧
    m.limit = 0 ∧ m.copyAll = none := by
  obtain ⟨m, hm⟩ := Option.isSome_iff_exists.mp
    (show (FdManager.new 10 11 12 0).isSome = true by decide +kernel)
  obtain ⟨T, hholds, hT⟩ := FdManager.exact_new hm
  obtain ⟨-, m', hrun, hm'⟩ := exists_of_wp (FdManager.wp_modifyLimit hholds hT.limit_le 0)
  have hlimit : m'.limit = 0 := hm'.limit
  refine ⟨m', _, hm', ?_, hlimit, ?_⟩
  · refine ⟨Nat.zero_le _, hT.slot_lt, fun fd ↦ ?_⟩
    rw [FdTable.mem_setLimit_free, hT.mem_free, FdTable.setLimit_limit]
    simp only [Nat.zero_min, Nat.not_lt_zero, and_false, or_false, false_and, iff_false]
    omega
  · rw [FdManager.copyAll, hlimit, FdManager.new_zero]
    rfl

end Maturin
