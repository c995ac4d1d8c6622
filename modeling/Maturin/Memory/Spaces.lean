import Maturin.Memory.Fork

/-!
# Several address spaces

The address spaces of all processes share one machine. They are separate when each of them is
coherent and no two own a common frame, where the root table of the kernel counts as owned by
somebody else. A call on one address space keeps them separate, and shows nothing to the others:
what they hold in their pages stays as it is.
-/

open Exec

namespace Maturin

variable {σ φ F : Type}

/-! ## What an address space shows -/

/-- The flags of an address, and the byte there if its page has a frame. -/
def MemorySet.byteAt (ms : MemorySet F) (w : World σ φ) (vaddr : ℕ) :
    Option (PTEFlags × Option UInt8) :=
  (ms.areaMap.find vaddr).map fun area ↦
    (area.flags, (area.pma.frames[(vaddr - area.start) / PAGE_SIZE]?).join.map fun paddr ↦
      w.mem (paddr + vaddr % PAGE_SIZE))

/-- The part of a file behind the page of an address. -/
def MemorySet.backingAt (ms : MemorySet F) (vaddr : ℕ) : Option (BackEndFile F) :=
  (ms.areaMap.find vaddr).bind fun area ↦
    area.pma.backend.map fun backend ↦ backend.split (alignDown vaddr - area.start)

theorem RangeActionMap.exists_of_find {S : Type} {m : RangeActionMap S} {pos : ℕ} {seg : S}
    (h : m.find pos = some seg) : ∃ a ∈ m.areas, a.segment = seg := by
  rw [find] at h
  cases hfind : m.segments.findLE pos with
  | none =>
    rw [hfind] at h
    exact absurd h (by simp)
  | some x =>
    rw [hfind] at h
    dsimp only at h
    split at h
    case isTrue =>
      exact ⟨x.2, OrdMap.mem_values.mpr ⟨x.1, (OrdMap.findLE_eq_some.mp hfind).1⟩,
        Option.some.inj h⟩
    case isFalse => exact absurd h (by simp)

variable [FrameAllocator σ] {e : PtEnv} {g : ℕ → Option Cell} {ms : MemorySet F}
variable {w w' : World σ φ}

/-- Only the frames of an address space matter to what it shows. -/
theorem MemorySet.byteAt_congr (h : ∀ p ∈ ms.frames, Kept w w' p) (vaddr : ℕ) :
    ms.byteAt w' vaddr = ms.byteAt w vaddr := by
  rw [byteAt, byteAt]
  cases hfind : ms.areaMap.find vaddr with
  | none => rfl
  | some area =>
    obtain ⟨a, ha, rfl⟩ := RangeActionMap.exists_of_find hfind
    rw [Option.map_some, Option.map_some]
    cases hframe : (a.segment.pma.frames[(vaddr - a.segment.start) / PAGE_SIZE]?).join with
    | none => rfl
    | some p =>
      have hp : p ∈ ms.frames :=
        Or.inr ⟨a, ha, List.mem_of_getElem? (Option.join_eq_some_iff.mp hframe)⟩
      have hlt : vaddr % PAGE_SIZE < PAGE_SIZE := Nat.mod_lt _ (by norm_num)
      rw [Option.map_some, Option.map_some, (h p hp).2 _ (by omega) (by omega)]

namespace SpaceOk

/-- The bytes that an address space shows are those of its cells. -/
theorem byteAt_eq [FileStore F φ] (h : SpaceOk e g ms w) (vaddr : ℕ) :
    ms.byteAt w vaddr = (g (vaddr / PAGE_SIZE)).map fun c ↦
      (c.flags, c.page.map fun pg ↦ pg.data (vaddr % PAGE_SIZE)) := by
  have hframe := h.frameAt_eq vaddr
  rw [MemorySet.byteAt]
  cases hg : g (vaddr / PAGE_SIZE) with
  | none => rw [h.find_eq_none hg, Option.map_none, Option.map_none]
  | some c =>
    obtain ⟨a, L, hx, hfind, hflags, -, -⟩ := h.exists_find hg
    rw [MemorySet.frameAt, hfind, hg, Option.bind_some, Option.bind_some] at hframe
    rw [hfind, Option.map_some, Option.map_some, hflags]
    obtain ⟨T, hb, -⟩ := h.coherent.backed
    cases hpage : c.page with
    | none =>
      rw [hpage, Option.map_none, Option.map_eq_none_iff] at hframe
      rw [hframe]
      rfl
    | some pg =>
      rw [hpage, Option.map_some, Option.map_eq_some_iff] at hframe
      obtain ⟨p, hp, heq⟩ := hframe
      have hpaddr : p = pg.paddr := congrArg Prod.fst heq
      have hat : pageAt g (vaddr / PAGE_SIZE) = some pg := by
        rw [pageAt, hg]
        exact hpage
      rw [hp, hpaddr, Option.map_some, Option.map_some,
        (hb.frames.ok hat).data _ (Nat.mod_lt _ (by norm_num))]

end SpaceOk

/-! ## The frame rule -/

section frame

variable {N : Set ℕ}

/-- The frames of `N` are in use and not those of the address space. -/
def Elsewhere (N : Set ℕ) (ms : MemorySet F) (w : World σ φ) : Prop :=
  ∀ p ∈ N, PageAligned p ∧ p ∈ w.inUse ∧ p ∉ ms.frames

/-- The frames of `N` were left alone and are not those of the address space. -/
def KeptFrom (N : Set ℕ) (ms : MemorySet F) (w w' : World σ φ) : Prop :=
  ∀ p ∈ N, Kept w w' p ∧ p ∉ ms.frames

/-- Frames that are elsewhere may be protected. -/
theorem SpaceOk.protect_elsewhere [FileStore F φ] {shared : ℕ → ℕ}
    (h : SpaceOk (spaceEnv shared) g ms w) (hN : Elsewhere N ms w) :
    SpaceOk ((spaceEnv shared).protect N w) g ms w := by
  refine h.protect fun p hp ↦ ?_
  obtain ⟨hal, huse, hnot⟩ := hN p hp
  refine ⟨hal, huse, fun hheld ↦ ?_⟩
  rw [h.held_eq] at hheld
  exact hheld.elim hnot (Set.notMem_empty p)

/-- What the protection gave. -/
theorem SpaceOk.keptFrom [FileStore F φ] {shared : ℕ → ℕ} {ms' : MemorySet F}
    {g' : ℕ → Option Cell} (h' : SpaceOk ((spaceEnv shared).protect N w) g' ms' w') :
    SpaceOk (spaceEnv shared) g' ms' w' ∧ KeptFrom N ms' w w' := by
  obtain ⟨T, hb, hT⟩ := h'.coherent.backed
  have hforeign : ForeignKept (spaceEnv shared) ms'.pt w := fun p hp ↦
    absurd hp (Set.notMem_empty p)
  obtain ⟨hb', hkept⟩ := hb.unprotect hforeign fun ho ↦ absurd ho Bool.false_ne_true
  have hok : SpaceOk (spaceEnv shared) g' ms' w' :=
    ⟨h'.keyed, ⟨h'.coherent.layout, T, hb', hT⟩, h'.args_eq, h'.isUser⟩
  refine ⟨hok, fun p hp ↦ ?_⟩
  rcases hkept p hp with ⟨-, hk, hnot⟩ | hmem
  · exact ⟨hk, fun hframe ↦ hnot (by rw [hok.held_eq]; exact Or.inl hframe)⟩
  · exact absurd hmem (Set.notMem_empty p)

variable [FileStore F φ] {shared : ℕ → ℕ} {D : Set ℕ}

/-- A call on an address space leaves the frames elsewhere alone. -/
theorem SpaceOk.wp_run_frame (h : SpaceOk (spaceEnv shared) g ms w)
    (hD : ∀ n c, g n = some c → n ∉ D → c.Free) (hN : Elsewhere N ms w) {c : SpaceCall F}
    (hc : c.Proper D ms w) (hpush : ∀ vma, c = .push vma → ∀ p ∈ N, some p ∉ vma.pma.frames) :
    wp (c.run ms) (fun r w' ↦ ∃ g', SpaceOk (spaceEnv shared) g' r.2 w' ∧ c.Effect ms r g g' ∧
      (w.oom = true → w'.oom = true) ∧ KeptFrom N r.2 w w') otherPanic w := by
  have hp := h.protect_elsewhere hN
  have hforeign : ∀ vma, c = .push vma → ∀ p ∈ ((spaceEnv shared).protect N w).foreign,
      some p ∉ vma.pma.frames := by
    rintro vma hvma p (hmem | hmem)
    · exact absurd hmem (Set.notMem_empty p)
    · exact hpush vma hvma p hmem
  refine wp_imp (SpaceInv.wp_run_effect hp hD rfl hc hforeign) fun r w' hr ↦ ?_
  obtain ⟨g', hok', heffect⟩ := hr
  obtain ⟨hok, hkept⟩ := hok'.keptFrom
  exact ⟨g', hok, heffect, hok'.oom, hkept⟩

/-- A copy of an address space has frames of its own. -/
theorem SpaceOk.wpe_copyAsFork_frame {kernelRoot : ℕ} (h : SpaceOk (spaceEnv shared) g ms w)
    (hN : ∀ p ∈ N, PageAligned p ∧ p ∈ w.inUse) (hroot : kernelRoot ∈ N) (hms : ms.frames ⊆ N) :
    wpe (ms.copyAsFork kernelRoot) (fun r w' ↦ match r with
      | .ok child => ∃ g', SpaceOk (spaceEnv (entryAt w.mem kernelRoot)) g' child w' ∧
          (∀ n, Option.Rel Cell.Copied (userCells g n) (g' n)) ∧
          List.Forall₂ AreaCopy (ms.areaMap.iter.filter VmArea.isUser) child.areaMap.iter ∧
          (w.oom = true → w'.oom = true) ∧ KeptFrom N child w w'
      | .error _ => w'.oom = true ∨ ∃ a ∈ ms.areaMap.iter, ¬ a.InUser)
      (fun _ w' ↦ w'.oom = true ∨ ∃ a ∈ ms.areaMap.iter, ¬ a.InUser) w := by
  have hheld : held (spaceEnv shared) g ms.pt ⊆ N := by
    rw [h.held_eq]
    exact Set.union_subset hms (Set.empty_subset N)
  refine wpe_imp (h.wpe_copyAsFork rfl hN hroot hheld) fun r w' hr ↦ ?_
  cases r with
  | error err => exact hr
  | ok child =>
    obtain ⟨g', hok, hcopied, hareas⟩ := hr
    have henv : userEnv kernelRoot N w
        = (spaceEnv (entryAt w.mem kernelRoot)).protect N w := by
      rw [PtEnv.protect, spaceEnv, userEnv, Set.empty_union]
    have hoom := hok.oom
    rw [henv] at hok
    obtain ⟨hok', hkept⟩ := hok.keptFrom
    exact ⟨g', hok', hcopied, hareas, hoom, hkept⟩

end frame

/-! ## Stores of user programs -/

/-- A user program stores a byte: the page table must map the page, for the user and for writing. -/
def MemorySet.userStore (ms : MemorySet F) (vaddr : ℕ) (b : UInt8) (w : World σ φ) :
    Option (World σ φ) :=
  match PageTable.lookup (ms.pt, w) vaddr with
  | some (paddr, flags) =>
    if flags.contains (PTEFlags.USER ||| PTEFlags.WRITE) then
      some (w.setMem (w.mem.writeBytes (paddr + vaddr % PAGE_SIZE) [b]))
    else
      none
  | none => none

/-- A store of a user program goes to a frame of its own. -/
theorem SpaceOk.userStore [FileStore F φ] {shared : ℕ → ℕ} {vaddr : ℕ} {b : UInt8}
    (h : SpaceOk (spaceEnv shared) g ms w) (hv : vaddr < 510 * 2 ^ 30)
    (hstore : ms.userStore vaddr b w = some w') :
    SpaceOk (spaceEnv shared) (refresh w'.mem g) ms w' ∧ w'.oom = w.oom ∧
      ∀ N, Elsewhere N ms w → KeptFrom N ms w w' := by
  rw [MemorySet.userStore, h.lookup_eq hv] at hstore
  cases hentry : entries g (vaddr / PAGE_SIZE) with
  | none =>
    rw [hentry] at hstore
    exact absurd hstore (by simp)
  | some m =>
    obtain ⟨paddr, flags⟩ := m
    rw [hentry] at hstore
    dsimp only at hstore
    split_ifs at hstore
    rw [Option.some.injEq] at hstore
    subst hstore
    obtain ⟨T, hb, -⟩ := h.coherent.backed
    obtain ⟨c, pg, hc, hpg, -, heq⟩ := exists_page_of_entries hentry
    obtain ⟨rfl, rfl⟩ := Prod.mk.inj heq
    have hat : pageAt g (vaddr / PAGE_SIZE) = some pg := by
      rw [pageAt, hc]
      exact hpg
    have hok := hb.frames.ok hat
    have hframe : pg.paddr ∈ ms.frames := by
      have hheld : pg.paddr ∈ held (spaceEnv shared) g ms.pt := Or.inr (Or.inr ⟨_, pg, hat, rfl⟩)
      rw [h.held_eq] at hheld
      exact hheld.resolve_right (Set.notMem_empty _)
    have hlt : vaddr % PAGE_SIZE < PAGE_SIZE := Nat.mod_lt _ (by norm_num)
    have hkept : ∀ q, PageAligned q → q ∈ w.inUse → q ≠ pg.paddr →
        Kept w (w.setMem (w.mem.writeBytes (pg.paddr + vaddr % PAGE_SIZE) [b])) q := by
      refine fun q hal huse hne ↦ ⟨huse, fun x hl hr ↦ ?_⟩
      rw [World.setMem_mem, ByteMem.writeBytes_of_notMem]
      rw [List.length_singleton]
      rcases page_disjoint hal hok.aligned hne with hle | hle <;> omega
    have hundisturbed : Undisturbed ms w
        (w.setMem (w.mem.writeBytes (pg.paddr + vaddr % PAGE_SIZE) [b])) := by
      refine ⟨fun q hq ↦ ?_, fun q hq ↦ ?_, id⟩
      · have hpage := hb.table.page q hq
        exact hkept q hpage.1 hpage.2.2 fun heq ↦ hok.notTable (heq ▸ hq)
      · have hheld : q ∈ held (spaceEnv shared) g ms.pt := by
          rw [h.held_eq]
          exact Or.inl hq
        exact (hb.of_held hheld).1
    refine ⟨h.of_world hundisturbed fun p hp ↦ absurd hp (Set.notMem_empty p), rfl,
      fun N hN p hp ↦ ?_⟩
    obtain ⟨hal, huse, hnot⟩ := hN p hp
    exact ⟨hkept p hal huse fun heq ↦ hnot (heq ▸ hframe), hnot⟩

/-! ## Separate address spaces -/

/-- The frames that are not those of address space `i`: those of the others, and the root table of
the kernel. -/
def otherFrames (kernelRoot : ℕ) (S : ℕ → Option (MemorySet F)) (i : ℕ) : Set ℕ :=
  {p | p = kernelRoot ∨ ∃ j ms, j ≠ i ∧ S j = some ms ∧ p ∈ ms.frames}

/-- The address spaces `S`, in which `write` left the pages `D` unentered, are coherent and share no
frames. -/
structure Separate (kernelRoot : ℕ) (S : ℕ → Option (MemorySet F)) (D : ℕ → Set ℕ)
    (w : World σ φ) : Prop where
  root : PageAligned kernelRoot ∧ kernelRoot ∈ w.inUse
  inv : ∀ {i ms}, S i = some ms → ∃ shared, SpaceInv (spaceEnv shared) (D i) ms w
  apart : ∀ {i ms}, S i = some ms → ∀ p ∈ otherFrames kernelRoot S i, p ∉ ms.frames

namespace Separate

variable {kernelRoot i j : ℕ} {S : ℕ → Option (MemorySet F)} {D : ℕ → Set ℕ}

theorem of_frames [FileStore F φ] (h : Separate kernelRoot S D w) (hi : S i = some ms) {p : ℕ}
    (hp : p ∈ ms.frames) : PageAligned p ∧ p ∈ w.inUse := by
  obtain ⟨shared, g, hok, -⟩ := h.inv hi
  obtain ⟨T, hb, -⟩ := hok.coherent.backed
  have hheld : p ∈ held (spaceEnv shared) g ms.pt := by
    rw [hok.held_eq]
    exact Or.inl hp
  exact (hb.of_held hheld).symm

theorem of_otherFrames [FileStore F φ] (h : Separate kernelRoot S D w) {p : ℕ}
    (hp : p ∈ otherFrames kernelRoot S i) : PageAligned p ∧ p ∈ w.inUse := by
  rcases hp with rfl | ⟨j, ms, -, hj, hp⟩
  · exact h.root
  · exact h.of_frames hj hp

theorem elsewhere [FileStore F φ] (h : Separate kernelRoot S D w) (hi : S i = some ms) :
    Elsewhere (otherFrames kernelRoot S i) ms w := fun p hp ↦
  ⟨(h.of_otherFrames hp).1, (h.of_otherFrames hp).2, h.apart hi p hp⟩

/-- One address space changes, or is added, and leaves the frames of the others alone. -/
theorem update [FileStore F φ] (h : Separate kernelRoot S D w) {ms' : MemorySet F} {D' : Set ℕ}
    (hinv : ∃ shared, SpaceInv (spaceEnv shared) D' ms' w')
    (hkept : KeptFrom (otherFrames kernelRoot S i) ms' w w') (hoom : w.oom = true → w'.oom = true) :
    Separate kernelRoot (Function.update S i (some ms')) (Function.update D i D') w' := by
  have hroot := hkept kernelRoot (Or.inl rfl)
  have hother : ∀ {j msj}, j ≠ i → S j = some msj → ∀ p ∈ msj.frames,
      p ∈ otherFrames kernelRoot S i := fun hne hj p hp ↦ Or.inr ⟨_, _, hne, hj, hp⟩
  refine ⟨⟨h.root.1, hroot.1.1⟩, fun {j msj} hj ↦ ?_, fun {j msj} hj p hp ↦ ?_⟩
  · by_cases hji : j = i
    · subst hji
      rw [Function.update_self, Option.some.injEq] at hj
      rw [Function.update_self, ← hj]
      exact hinv
    · rw [Function.update_of_ne hji] at hj
      obtain ⟨shared, g, hok, hD⟩ := h.inv hj
      rw [Function.update_of_ne hji]
      refine ⟨shared, g, hok.of_kept (fun p hp ↦ ?_) hoom, hD⟩
      rw [hok.held_eq] at hp
      exact (hkept p (hother hji hj p (hp.resolve_right (Set.notMem_empty p)))).1
  · by_cases hji : j = i
    · subst hji
      rw [Function.update_self, Option.some.injEq] at hj
      refine hj ▸ (hkept p ?_).2
      rcases hp with hp | ⟨k, msk, hki, hk, hp⟩
      · exact Or.inl hp
      · rw [Function.update_of_ne hki] at hk
        exact hother hki hk p hp
    · rw [Function.update_of_ne hji] at hj
      rcases hp with hp | ⟨k, msk, hkj, hk, hp⟩
      · exact h.apart hj p (Or.inl hp)
      · by_cases hki : k = i
        · subst hki
          rw [Function.update_self, Option.some.injEq] at hk
          exact fun hmem ↦ (hkept p (hother hji hj p hmem)).2 (hk ▸ hp)
        · rw [Function.update_of_ne hki] at hk
          exact h.apart hj p (Or.inr ⟨k, msk, hkj, hk, hp⟩)

/-- The others show what they showed. -/
theorem byteAt_eq [FileStore F φ] {ms' : MemorySet F}
    (hkept : KeptFrom (otherFrames kernelRoot S i) ms' w w') (hne : j ≠ i) (hj : S j = some ms)
    (vaddr : ℕ) : ms.byteAt w' vaddr = ms.byteAt w vaddr :=
  MemorySet.byteAt_congr (fun p hp ↦ (hkept p (Or.inr ⟨j, ms, hne, hj, hp⟩)).1) vaddr

end Separate

end Maturin
