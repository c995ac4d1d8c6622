import Maturin.File.FdTable

/-!
# Descriptors are neither clobbered nor lost

Runs of calls on a descriptor table that starts as a new one or as the copy that a fork takes. In
both the free bits are exactly the empty slots below the limit. Two methods do not keep this:
`modify_limit` frees the bits between the old and the new limit without looking at the slots, and
`close_cloexec_files` empties slots without giving the bits back.
-/

open Exec Function

namespace Maturin

variable {Γ : Type} {m m' : FdManager Γ} {T T' : FdTable Γ} {c : FdCall Γ} {r : FdReply Γ}

/-! ## Where runs start -/

/-- The free descriptors are the empty slots below the limit. -/
structure FdTable.Exact (T : FdTable Γ) : Prop where
  limit_le : T.limit ≤ FD_LIMIT_HARD
  slot_lt : ∀ fd, T.slot fd ≠ none → fd < FD_LIMIT_HARD
  mem_free : ∀ fd, fd ∈ T.free ↔ fd < T.limit ∧ T.slot fd = none

namespace FdTable

theorem Exact.inv (h : T.Exact) : T.Inv :=
  ⟨h.limit_le, h.slot_lt, fun fd hfd ↦ ((h.mem_free fd).mp hfd).1.trans_le h.limit_le,
    fun fd hfd ↦ ((h.mem_free fd).mp hfd).2⟩

theorem Exact.take (h : T.Exact) {fd : ℕ} (hlt : fd < FD_LIMIT_HARD) (file : Γ) :
    (T.take fd file).Exact := by
  refine ⟨h.limit_le, fun k hk ↦ ?_, fun k ↦ ?_⟩
  · rcases eq_or_ne k fd with rfl | hne
    · exact hlt
    · exact h.slot_lt k (by rwa [take_slot, update_of_ne hne] at hk)
  · rw [take_free, take_limit, take_slot, Set.mem_sdiff, Set.mem_singleton_iff, h.mem_free,
      and_assoc]
    refine and_congr_right fun _ ↦ ?_
    rcases eq_or_ne k fd with rfl | hne
    · simp
    · rw [update_of_ne hne, and_iff_left hne]

/-- The table without files. -/
def empty (limit : ℕ) : FdTable Γ := ⟨fun _ ↦ none, Set.Ico 0 limit, limit⟩

theorem exact_empty {limit : ℕ} (h : limit ≤ FD_LIMIT_HARD) : (empty limit : FdTable Γ).Exact :=
  ⟨h, fun _ hfd ↦ absurd rfl hfd, fun fd ↦ by
    rw [empty, Set.mem_Ico, and_iff_right (Nat.zero_le fd), and_iff_left rfl]⟩

end FdTable

namespace FdManager

/-- Without a descriptor below the limit there is no range to free. -/
theorem new_zero : FdAllocator.new 0 = none := by
  have hnone : (FdAllocator.new 0).isNone = true := by decide +kernel
  exact Option.isNone_iff_eq_none.mp hnone

theorem pos_of_new {limit : ℕ} {b : FdAllocator} (h : FdAllocator.new limit = some b) :
    0 < limit := by
  rcases Nat.eq_zero_or_pos limit with rfl | hpos
  · exact absurd (h.symm.trans new_zero) (by simp)
  · exact hpos

theorem new_some {limit : ℕ} {b : FdAllocator} (h : FdAllocator.new limit = some b) :
    limit ≤ FD_LIMIT_HARD ∧ LawfulBitAlloc.Free b (Set.Ico 0 limit) := by
  have hpos := pos_of_new h
  have hle : limit ≤ FD_LIMIT_HARD := by
    by_contra hgt
    exact absurd (h.symm.trans (LawfulBitAlloc.insert_of_lt (not_le.mp hgt))) (by simp)
  obtain ⟨b', hb', hfree⟩ := LawfulBitAlloc.insert_some
    (LawfulBitAlloc.free_default (B := FdAllocator)) hpos hle
  rw [Option.some.inj (h.symm.trans hb')]
  rw [Set.empty_union] at hfree
  exact ⟨hle, hfree⟩

theorem exact_pushUnwrap {file : Γ} (h : ∃ T, m.Holds T ∧ T.Exact) :
    wp (pushUnwrap file) (fun _ m' ↦ ∃ T, m'.Holds T ∧ T.Exact) anyPanic m := by
  obtain ⟨T, hm, hT⟩ := h
  rw [pushUnwrap, wp_bind]
  refine wp_mono (wp_push hm) (fun r m' hr ↦ ?_) fun _ _ h ↦ h.elim
  obtain ⟨T', hstep, hm'⟩ := hr
  cases hstep with
  | push hmem =>
    have hlt := ((hT.mem_free _).mp hmem).1.trans_le hT.limit_le
    exact ⟨_, hm', hT.take hlt file⟩
  | pushFull => trivial

/-- A new table is exact. -/
theorem exact_new {stdin stdout stderr : Γ} {umask : Int32}
    (h : new stdin stdout stderr umask = some m) : ∃ T, m.Holds T ∧ T.Exact := by
  rw [new, Option.bind_eq_bind, Option.bind_eq_some_iff] at h
  obtain ⟨b, hb, h⟩ := h
  obtain ⟨hle, hfree⟩ := new_some hb
  set m₀ : FdManager Γ := ⟨[], b, FD_LIMIT_ORIGIN, umask⟩
  have h₀ : ∃ T, m₀.Holds T ∧ T.Exact :=
    ⟨FdTable.empty FD_LIMIT_ORIGIN, ⟨fun _ ↦ rfl, hfree, rfl⟩, FdTable.exact_empty hle⟩
  have hpush := wp_forM (l := [stdin, stdout, stderr]) (f := pushUnwrap) (E := anyPanic)
    (fun m ↦ ∃ T, m.Holds T ∧ T.Exact) (fun _ _ hm ↦ exact_pushUnwrap hm) h₀
  dsimp only at h
  split at h
  · rename_i hrun
    rw [Option.some.injEq] at h
    subst h
    have hm := wp_ok hpush hrun
    exact hm
  · exact absurd h (by simp)

/-- The loop of `copy_all` takes the descriptors of the files that it copies. -/
theorem exact_copyAll_loop {self : FdManager Γ} {fds : List ℕ} (hm : m.Holds T) (hT : T.Exact)
    (h : fds.foldlM (copySlot self) m = some m') :
    ∃ T', m'.Holds T' ∧ T'.Exact := by
  induction fds generalizing m T with
  | nil =>
    obtain rfl := Option.some.inj h
    exact ⟨T, hm, hT⟩
  | cons fd fds ih =>
    rw [List.foldlM_cons, Option.bind_eq_bind, Option.bind_eq_some_iff] at h
    obtain ⟨m₁, hfirst, hrest⟩ := h
    rw [copySlot] at hfirst
    split at hfirst
    · rename_i file _
      rw [Option.bind_eq_bind, Option.bind_eq_some_iff] at hfirst
      obtain ⟨b, hb, hfirst⟩ := hfirst
      obtain rfl := Option.some.inj hfirst
      have hlt : fd + 1 ≤ FD_LIMIT_HARD := by
        by_contra hgt
        exact absurd (hb.symm.trans (LawfulBitAlloc.remove_of_lt (not_le.mp hgt))) (by simp)
      obtain ⟨b', hb', hfree⟩ := LawfulBitAlloc.remove_some hm.free (Nat.lt_succ_self fd) hlt
      rw [Option.some.inj (hb.symm.trans hb')] at hrest
      rw [BitAlloc.Ico_succ_self] at hfree
      exact ih (hm.take hfree) (hT.take hlt file) hrest
    · obtain rfl := Option.some.inj hfirst
      exact ih hm hT hrest

/-- A copied table is exact, whatever happened to the original. -/
theorem exact_copyAll (h : m.copyAll = some m') : ∃ T, m'.Holds T ∧ T.Exact := by
  rw [copyAll, Option.bind_eq_bind, Option.bind_eq_some_iff] at h
  obtain ⟨b, hb, h⟩ := h
  obtain ⟨hle, hfree⟩ := new_some hb
  dsimp only at h
  have hholds : FdManager.Holds ⟨List.replicate m.files.length none, b, m.limit, m.umask⟩
      (FdTable.empty m.limit : FdTable Γ) := by
    refine ⟨fun fd ↦ ?_, hfree, rfl⟩
    change (List.replicate m.files.length none)[fd]?.getD none = none
    rw [List.getElem?_replicate]
    split_ifs <;> rfl
  exact exact_copyAll_loop hholds (FdTable.exact_empty hle) h

end FdManager

/-! ## Runs -/

/-- The tables of the runs whose calls are all of a kind: a new table, or the copy that a fork takes
of any table, and then calls. -/
inductive FdManager.Reach (ok : FdManager Γ → FdCall Γ → Prop) : FdManager Γ → Prop
  | new {m : FdManager Γ} {stdin stdout stderr : Γ} {umask : Int32}
      (h : FdManager.new stdin stdout stderr umask = some m) : Reach ok m
  | copyAll {m m' : FdManager Γ} (h : m.copyAll = some m') : Reach ok m'
  | call {m m' : FdManager Γ} {c : FdCall Γ} {r : FdReply Γ} (h : Reach ok m) (hc : ok m c)
      (hrun : c.run.run m = .ok r m') : Reach ok m'

/-! ## No descriptor is clobbered -/

namespace FdCall

/-- The slot that a call may replace or empty. -/
def Target (slot : ℕ → Option Γ) (fd : ℕ) : FdCall Γ → Prop
  | copyFdTo _ newFd => fd = newFd
  | removeFile k => fd = k
  | closeCloexecFiles cloexec => ∃ file, slot fd = some file ∧ cloexec file = true
  | _ => False

/-- The call takes only an empty slot below the limit, and every slot but a target keeps its
file. -/
structure Keeps (c : FdCall Γ) (slot : ℕ → Option Γ) (limit : ℕ) (r : FdReply Γ)
    (slot' : ℕ → Option Γ) : Prop where
  fresh : ∀ fd, r = .fd (.ok fd) → fd < limit ∧ slot fd = none
  kept : ∀ fd file, slot fd = some file → ¬ c.Target slot fd → slot' fd = some file

/-- A descriptor that is closed lies below the limit, and the limit is not raised past a slot that
has a file. The target of `copy_fd_to` is a descriptor of the bitmap. -/
def Proper (slot : ℕ → Option Γ) (limit : ℕ) : FdCall Γ → Prop
  | copyFdTo _ newFd => newFd < FD_LIMIT_HARD
  | removeFile fd => slot fd ≠ none → fd < limit
  | modifyLimit newLimit => ∀ fd, limit ≤ fd → fd < min newLimit FD_LIMIT_HARD → slot fd = none
  | _ => True

end FdCall

/-! ### One step -/

namespace FdTable

/-- The free descriptors lie below the limit. -/
structure Sound (T : FdTable Γ) : Prop extends T.Inv where
  below : ∀ fd ∈ T.free, fd < T.limit

theorem Exact.sound (h : T.Exact) : T.Sound :=
  ⟨h.inv, fun fd hfd ↦ ((h.mem_free fd).mp hfd).1⟩

theorem Inv.take (h : T.Inv) {fd : ℕ} (hlt : fd < FD_LIMIT_HARD) (file : Γ) :
    (T.take fd file).Inv := by
  refine ⟨h.limit_le, fun k hk ↦ ?_, fun k hk ↦ h.free_lt k hk.1, fun k hk ↦ ?_⟩
  · rcases eq_or_ne k fd with rfl | hne
    · exact hlt
    · exact h.slot_lt k (by rwa [take_slot, update_of_ne hne] at hk)
  · rw [take_slot, update_of_ne hk.2]
    exact h.empty k hk.1

theorem Inv.release (h : T.Inv) {fd : ℕ} (hlt : fd < FD_LIMIT_HARD) : (T.release fd).Inv := by
  refine ⟨h.limit_le, fun k hk ↦ h.slot_lt k fun hnone ↦ hk ?_, fun k hk ↦ ?_, fun k hk ↦ ?_⟩
  · rw [release_slot, update_apply, hnone, ite_self]
  · rcases hk with rfl | hk
    · exact hlt
    · exact h.free_lt k hk
  · rcases eq_or_ne k fd with rfl | hne
    · exact update_self ..
    · rw [release_slot, update_of_ne hne]
      exact h.empty k (hk.resolve_left hne)

theorem Inv.closeFiles (h : T.Inv) (cloexec : Γ → Bool) : (T.closeFiles cloexec).Inv := by
  refine ⟨h.limit_le, fun k hk ↦ h.slot_lt k fun hnone ↦ hk ?_, h.free_lt, fun k hk ↦ ?_⟩
  · rw [closeFiles_slot, hnone, Option.filter_none]
  · rw [closeFiles_slot, h.empty k hk, Option.filter_none]

/-- Raising the limit frees only empty slots. -/
theorem Inv.setLimit (h : T.Inv) {newLimit : ℕ} (hle : newLimit ≤ FD_LIMIT_HARD)
    (hempty : ∀ fd, T.limit ≤ fd → fd < newLimit → T.slot fd = none) :
    (T.setLimit newLimit).Inv := by
  refine ⟨hle, h.slot_lt, fun k hk ↦ ?_, fun k hk ↦ ?_⟩
  · rw [mem_setLimit_free] at hk
    rcases hk with ⟨hk, -⟩ | ⟨-, hr⟩
    · exact h.free_lt k hk
    · exact hr.trans_le hle
  · rw [mem_setLimit_free] at hk
    rcases hk with ⟨hk, -⟩ | ⟨hl, hr⟩
    · exact h.empty k hk
    · exact hempty k hl hr

/-- A call that meets the condition keeps the table sound and clobbers nothing. -/
theorem Sound.step (h : T.Sound) (hs : T.Step c r T') (hc : c.Proper T.slot T.limit) :
    T'.Sound ∧ c.Keeps T.slot T.limit r T'.slot := by
  induction hs with
  | @push fd file hmem =>
    have hlt := h.below fd hmem
    have hnone := h.empty fd hmem
    refine ⟨⟨h.toInv.take (h.free_lt fd hmem) file, fun k hk ↦ h.below k hk.1⟩,
      fun k hk ↦ ?_, fun k f hk _ ↦ ?_⟩
    · rw [FdReply.fd.injEq, Except.ok.injEq] at hk
      rw [← hk]
      exact ⟨hlt, hnone⟩
    · rw [take_slot, update_of_ne fun heq ↦ by rw [heq, hnone] at hk; exact absurd hk (by simp)]
      exact hk
  | pushFull => exact ⟨h, fun k hk ↦ absurd hk (by simp), fun _ _ hk _ ↦ hk⟩
  | copyFdAnywhere _ _ ih =>
    obtain ⟨hsound, hkeeps⟩ := ih trivial
    exact ⟨hsound, hkeeps.fresh, fun k f hk _ ↦ hkeeps.kept k f hk id⟩
  | copyFdAnywhereNone => exact ⟨h, fun k hk ↦ absurd hk (by simp), fun _ _ hk _ ↦ hk⟩
  | @copyFdTo oldFd newFd file =>
    refine ⟨⟨h.toInv.take hc file, fun k hk ↦ h.below k hk.1⟩, fun k hk ↦ absurd hk (by simp),
      fun k f hk hne ↦ ?_⟩
    rw [take_slot, update_of_ne hne]
    exact hk
  | copyFdToNone => exact ⟨h, fun k hk ↦ absurd hk (by simp), fun _ _ hk _ ↦ hk⟩
  | @removeFile fd file hfile =>
    have hne : T.slot fd ≠ none := by simp [hfile]
    refine ⟨⟨h.toInv.release (h.slot_lt fd hne), fun k hk ↦ ?_⟩, fun k hk ↦ absurd hk (by simp),
      fun k f hk hne ↦ ?_⟩
    · rcases hk with rfl | hk
      · exact hc hne
      · exact h.below k hk
    · rw [release_slot, update_of_ne hne]
      exact hk
  | removeFileNone => exact ⟨h, fun k hk ↦ absurd hk (by simp), fun _ _ hk _ ↦ hk⟩
  | @closeCloexecFiles cloexec =>
    refine ⟨⟨h.toInv.closeFiles cloexec, h.below⟩, fun k hk ↦ absurd hk (by simp),
      fun k f hk hne ↦ ?_⟩
    rw [closeFiles_slot, hk, Option.filter_some]
    refine if_pos ?_
    rw [Bool.not_eq_true', ← Bool.not_eq_true]
    exact fun hf ↦ hne ⟨f, hk, hf⟩
  | @modifyLimit newLimit =>
    refine ⟨⟨h.toInv.setLimit (min_le_right _ _) hc, fun k hk ↦ ?_⟩,
      fun k hk ↦ absurd hk (by simp), fun _ _ hk _ ↦ hk⟩
    rw [mem_setLimit_free] at hk
    rw [setLimit_limit]
    rcases hk with ⟨hk, hout⟩ | ⟨-, hlt⟩
    · have := h.below k hk
      omega
    · exact hlt

end FdTable

/-! ### Runs -/

namespace FdManager

theorem Holds.slot_eq (h : m.Holds T) : m.slot = T.slot := funext h.slot

/-- The condition of the runs, on the manager. -/
abbrev Proper (m : FdManager Γ) (c : FdCall Γ) : Prop := c.Proper m.slot m.limit

theorem Holds.wp_run_sound (h : m.Holds T) (hT : T.Sound) (hc : m.Proper c) :
    wp c.run (fun r m' ↦ (∃ T', m'.Holds T' ∧ T'.Sound) ∧ c.Keeps m.slot m.limit r m'.slot)
      noPanic m := by
  have hcopy : ∀ oldFd newFd, c = .copyFdTo oldFd newFd → newFd < FD_LIMIT_HARD := by
    rintro oldFd newFd rfl
    exact hc
  refine wp_imp (h.wp_run hT.toInv hcopy) fun r m' hr ↦ ?_
  obtain ⟨T', hstep, hm'⟩ := hr
  rw [Proper, h.slot_eq, h.limit] at hc
  obtain ⟨hsound, hkeeps⟩ := hT.step hstep hc
  rw [h.slot_eq, h.limit, hm'.slot_eq]
  exact ⟨⟨T', hm', hsound⟩, hkeeps⟩

theorem Reach.sound (h : Reach Proper m) : ∃ T, m.Holds T ∧ T.Sound := by
  induction h with
  | new h =>
    obtain ⟨T, hm, hT⟩ := exact_new h
    exact ⟨T, hm, hT.sound⟩
  | copyAll h =>
    obtain ⟨T, hm, hT⟩ := exact_copyAll h
    exact ⟨T, hm, hT.sound⟩
  | call _ hc hrun ih =>
    obtain ⟨T, hm, hT⟩ := ih
    have hr := wp_ok (hm.wp_run_sound hT hc) hrun
    exact hr.1

end FdManager

/-- In a run whose calls meet the condition, every call that meets it returns without a panic,
hands out only descriptors of empty slots below the limit, and keeps the files of all slots but its
targets. -/
theorem fdManager_keeps (h : FdManager.Reach FdManager.Proper m) (hc : m.Proper c) :
    wp c.run (fun r m' ↦ c.Keeps m.slot m.limit r m'.slot) noPanic m := by
  obtain ⟨T, hm, hT⟩ := h.sound
  exact wp_imp (hm.wp_run_sound hT hc) fun _ _ hr ↦ hr.2

theorem fdManager_keeps_new : ∃ m : FdManager ℕ,
    wp (FdCall.run (.copyFdTo 0 7))
      (fun r m' ↦ FdCall.Keeps (.copyFdTo 0 7) m.slot m.limit r m'.slot) noPanic m := by
  obtain ⟨m, hm⟩ := Option.isSome_iff_exists.mp
    (show (FdManager.new 10 11 12 0).isSome = true by decide +kernel)
  exact ⟨m, fdManager_keeps (.new hm) (show 7 < FD_LIMIT_HARD by decide)⟩

/-- Lowering the limit below an open file and raising it again frees the descriptor of the file:
`push` puts another file there, and `remove_file` fails the assertion of the bitmap. -/
theorem fdManager_clobbers :
    (FdManager.new 10 11 12 0).any (fun m ↦ returns (do
      let _ ← FdManager.copyFdTo 0 3
      FdManager.modifyLimit 3
      FdManager.modifyLimit 256
      let before ← get
      let fd ← FdManager.push 13
      pure (before.slot 3, fd)) m
        (fun r m' ↦ r.1 == some 10 && (match r.2 with | .ok fd => fd == 3 | .error _ => false) &&
          m'.slot 3 == some 13)) = true ∧
    (FdManager.new 10 11 12 0).any (fun m ↦ panicOf (do
      let _ ← FdManager.copyFdTo 0 3
      FdManager.modifyLimit 3
      FdManager.modifyLimit 256
      FdManager.removeFile 3) m == some .assertFailed) = true := by
  refine ⟨?_, ?_⟩ <;> decide +kernel

/-! ## No descriptor is lost -/

namespace FdCall

/-- A call that leaves the limit alone and copies only to descriptors below it. -/
def WithinLimit (limit : ℕ) : FdCall Γ → Prop
  | copyFdTo _ newFd => newFd < limit
  | modifyLimit _ => False
  | _ => True

/-- The call is not a `close_cloexec_files` that finds a file to close below the limit. -/
def ClosesNone (slot : ℕ → Option Γ) (limit : ℕ) : FdCall Γ → Prop
  | closeCloexecFiles cloexec => ∀ fd < limit, ∀ file, slot fd = some file → cloexec file = false
  | _ => True

end FdCall

namespace FdTable

/-- Every empty slot below the limit has a free descriptor. -/
def NoLeak (T : FdTable Γ) : Prop := ∀ fd < T.limit, T.slot fd = none → fd ∈ T.free

theorem Exact.noLeak (h : T.Exact) : T.NoLeak := fun fd hlt hnone ↦
  (h.mem_free fd).mpr ⟨hlt, hnone⟩

theorem NoLeak.take (h : T.NoLeak) (fd : ℕ) (file : Γ) : (T.take fd file).NoLeak := by
  intro k hlt hk
  rcases eq_or_ne k fd with rfl | hne
  · rw [take_slot, update_self] at hk
    exact absurd hk (by simp)
  · rw [take_slot, update_of_ne hne] at hk
    exact ⟨h k hlt hk, hne⟩

theorem NoLeak.release (h : T.NoLeak) (fd : ℕ) : (T.release fd).NoLeak := by
  intro k hlt hk
  rcases eq_or_ne k fd with rfl | hne
  · exact Or.inl rfl
  · rw [release_slot, update_of_ne hne] at hk
    exact Or.inr (h k hlt hk)

/-- Closing files without giving back their descriptors leaks exactly those below the limit. -/
theorem NoLeak.closeFiles_iff (h : T.NoLeak) (hI : T.Inv) (cloexec : Γ → Bool) :
    (T.closeFiles cloexec).NoLeak ↔
      FdCall.ClosesNone T.slot T.limit (.closeCloexecFiles cloexec) := by
  constructor
  · intro hleak fd hlt file hfile
    by_contra hclosed
    have hnone : (T.closeFiles cloexec).slot fd = none := by
      rw [closeFiles_slot, hfile, Option.filter_some, if_neg (by simpa using hclosed)]
    have hfree := hI.empty fd (hleak fd hlt hnone)
    rw [hfile] at hfree
    exact absurd hfree (by simp)
  · intro hnone fd hlt hfd
    refine h fd hlt ?_
    cases hfile : T.slot fd with
    | none => rfl
    | some file =>
      rw [closeFiles_slot, hfile, Option.filter_some, hnone fd hlt file hfile] at hfd
      exact absurd hfd (by simp)

/-- Among the calls within the limit, only closing a file below it leaks. -/
theorem Inv.step (hI : T.Inv) (hs : T.Step c r T') (hc : c.WithinLimit T.limit) :
    T'.Inv ∧ T'.limit = T.limit ∧
      (T.NoLeak → (T'.NoLeak ↔ c.ClosesNone T.slot T.limit)) := by
  induction hs with
  | @push fd file hmem =>
    exact ⟨hI.take (hI.free_lt fd hmem) file, rfl,
      fun h ↦ iff_of_true (h.take fd file) trivial⟩
  | pushFull => exact ⟨hI, rfl, fun h ↦ iff_of_true h trivial⟩
  | copyFdAnywhere _ _ ih => exact ih trivial
  | copyFdAnywhereNone => exact ⟨hI, rfl, fun h ↦ iff_of_true h trivial⟩
  | @copyFdTo oldFd newFd file =>
    exact ⟨hI.take (hc.trans_le hI.limit_le) file, rfl,
      fun h ↦ iff_of_true (h.take newFd file) trivial⟩
  | copyFdToNone => exact ⟨hI, rfl, fun h ↦ iff_of_true h trivial⟩
  | @removeFile fd file hfile =>
    have hlt := hI.slot_lt fd (by simp [hfile])
    exact ⟨hI.release hlt, rfl, fun h ↦ iff_of_true (h.release fd) trivial⟩
  | removeFileNone => exact ⟨hI, rfl, fun h ↦ iff_of_true h trivial⟩
  | @closeCloexecFiles cloexec =>
    exact ⟨hI.closeFiles cloexec, rfl, fun h ↦ h.closeFiles_iff hI cloexec⟩
  | modifyLimit => exact hc.elim

end FdTable

namespace FdManager

/-- Every descriptor below the limit whose slot is empty is marked free. -/
def NoLeak (m : FdManager Γ) : Prop :=
  ∀ fd < m.limit, m.slot fd = none → BitAlloc.test fd m.fdAllocator = true

theorem Holds.noLeak_iff (h : m.Holds T) (hI : T.Inv) : m.NoLeak ↔ T.NoLeak := by
  rw [NoLeak, FdTable.NoLeak, h.limit, h.slot_eq]
  refine forall_congr' fun fd ↦ forall_congr' fun hlt ↦ ?_
  rw [LawfulBitAlloc.test_iff h.free (hlt.trans_le hI.limit_le)]

theorem Holds.wp_run_noLeak (h : m.Holds T) (hI : T.Inv) (hc : c.WithinLimit m.limit) :
    wp c.run (fun _ m' ↦ ∃ T', m'.Holds T' ∧ T'.Inv ∧ T'.limit = T.limit ∧
      (T.NoLeak → (T'.NoLeak ↔ c.ClosesNone T.slot T.limit))) noPanic m := by
  rw [h.limit] at hc
  have hcopy : ∀ oldFd newFd, c = .copyFdTo oldFd newFd → newFd < FD_LIMIT_HARD := by
    rintro oldFd newFd rfl
    exact hc.trans_le hI.limit_le
  refine wp_imp (h.wp_run hI hcopy) fun r m' hr ↦ ?_
  obtain ⟨T', hstep, hm'⟩ := hr
  exact ⟨T', hm', hI.step hstep hc⟩

/-- The calls that keep the limit and close no file below it. -/
abbrev Closeless (m : FdManager Γ) (c : FdCall Γ) : Prop :=
  c.WithinLimit m.limit ∧ c.ClosesNone m.slot m.limit

theorem Reach.noLeak (h : Reach Closeless m) : ∃ T, m.Holds T ∧ T.Inv ∧ T.NoLeak := by
  induction h with
  | new h =>
    obtain ⟨T, hm, hT⟩ := exact_new h
    exact ⟨T, hm, hT.inv, hT.noLeak⟩
  | copyAll h =>
    obtain ⟨T, hm, hT⟩ := exact_copyAll h
    exact ⟨T, hm, hT.inv, hT.noLeak⟩
  | call _ hc hrun ih =>
    obtain ⟨T, hm, hI, hleak⟩ := ih
    have hr := wp_ok (hm.wp_run_noLeak hI hc.1) hrun
    obtain ⟨T', hm', hI', -, hiff⟩ := hr
    rw [Closeless, hm.slot_eq, hm.limit] at hc
    exact ⟨T', hm', hI', (hiff hleak).mpr hc.2⟩

/-- A full table has a file in every slot below the limit. -/
theorem slot_ne_none (h : m.Holds T) (hleak : T.NoLeak) (hempty : T.free = ∅) :
    ∀ fd < m.limit, m.slot fd ≠ none := by
  intro fd hlt hnone
  rw [h.limit] at hlt
  rw [h.slot] at hnone
  have hmem := hleak fd hlt hnone
  rw [hempty] at hmem
  exact hmem

end FdManager

end Maturin
