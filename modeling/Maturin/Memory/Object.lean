import Maturin.Memory.Coherence

/-!
# Objects of the user

Before the kernel uses an object of the user, `manually_alloc_type` or `manually_alloc_range` makes
sure that all of its pages are mapped. The pages are those from the first byte of the object to its
last, whose address is a sum that wraps. An object that goes past the last address has its last page
before its first one, so that no page is looked at and the check succeeds, though no area reaches
that far.
-/

open Exec

namespace Maturin

/-- The page keeps its flags, its frame with the contents, and its entry. -/
structure Cell.Grown (c c' : Cell) : Prop where
  flags_eq : c'.flags = c.flags
  page : ∀ pg ∈ c.page, ∃ pg' ∈ c'.page,
    pg'.paddr = pg.paddr ∧ pg'.data = pg.data ∧ (pg.mapped = true → pg'.mapped = true)

namespace Cell

variable {c c' c'' : Cell}

theorem Grown.refl (c : Cell) : c.Grown c := ⟨rfl, fun pg hpg ↦ ⟨pg, hpg, rfl, rfl, id⟩⟩

theorem Grown.trans (h : c.Grown c') (h' : c'.Grown c'') : c.Grown c'' where
  flags_eq := h'.flags_eq.trans h.flags_eq
  page pg hpg := by
    obtain ⟨pg', hpg', hpaddr, hdata, hmapped⟩ := h.page pg hpg
    obtain ⟨pg'', hpg'', hpaddr', hdata', hmapped'⟩ := h'.page pg' hpg'
    exact ⟨pg'', hpg'', hpaddr'.trans hpaddr, hdata'.trans hdata, hmapped' ∘ hmapped⟩

theorem Populated.grown (h : c.Populated c') : c.Grown c' where
  flags_eq := h.flags_eq
  page pg hpg := by
    obtain ⟨pg', hpg', hmapped, hold⟩ := h.page
    obtain ⟨hpaddr, hdata⟩ := hold pg hpg
    exact ⟨pg', hpg', hpaddr.symm, hdata.symm, fun _ ↦ hmapped⟩

theorem Populated.entry (h : c.Populated c') : c'.entry.isSome := by
  obtain ⟨pg, hpg, hmapped, -⟩ := h.page
  rw [Cell.entry, Option.mem_def.mp hpg, Option.bind_some, if_pos hmapped]
  rfl

/-- A valid entry stays as it is. -/
theorem Grown.entry_eq (h : c.Grown c') {m : ℕ × PTEFlags} (hm : c.entry = some m) :
    c'.entry = some m := by
  obtain ⟨pg, hpg, hif⟩ := Option.bind_eq_some_iff.mp hm
  split_ifs at hif with hmapped
  obtain ⟨pg', hpg', hpaddr, -, hmapped'⟩ := h.page pg hpg
  rw [Cell.entry, Option.mem_def.mp hpg', Option.bind_some, if_pos (hmapped' hmapped), hpaddr,
    h.flags_eq]
  exact hif

end Cell

/-! ## Checks of pages -/

variable {σ φ F : Type} [FrameAllocator σ] [FileStore F φ] {e : PtEnv} {g g' : ℕ → Option Cell}
variable {ms : MemorySet F} {w : World σ φ} {I : List ℕ} {v n x : ℕ}

/-- What a check of the pages `I` leaves. -/
structure PagesChecked (e : PtEnv) (g : ℕ → Option Cell) (I : List ℕ)
    (r : Except OSError Unit × MemorySet F) (w' : World σ φ) : Prop where
  space : ∃ g', SpaceOk e g' r.2 w' ∧ (∀ n, Option.Rel Cell.Grown (g n) (g' n)) ∧
    (r.1 = .ok () → ∀ n ∈ I, (entries g' n).isSome)
  err : (∃ n ∈ I, g n = none) → r.1 ≠ .ok ()

theorem rel_grown_refl (g : ℕ → Option Cell) (n : ℕ) : Option.Rel Cell.Grown (g n) (g n) := by
  cases g n with
  | none => exact .none
  | some c => exact .some (.refl c)

theorem rel_grown_trans {a b c : Option Cell} (h : Option.Rel Cell.Grown a b)
    (h' : Option.Rel Cell.Grown b c) : Option.Rel Cell.Grown a c := by
  cases h with
  | none => exact h'
  | some h =>
    cases h' with
    | some h' => exact .some (h.trans h')

/-- A valid entry stays as it is. -/
theorem entries_of_grown (h : Option.Rel Cell.Grown (g n) (g' n)) {m : ℕ × PTEFlags}
    (hm : entries g n = some m) : entries g' n = some m := by
  obtain ⟨c, hc, hcm⟩ := Option.bind_eq_some_iff.mp hm
  rw [hc] at h
  cases hg' : g' n with
  | none =>
    rw [hg'] at h
    cases h
  | some c' =>
    rw [hg'] at h
    cases h with
    | some h => rw [entries, hg', Option.bind_some, h.entry_eq hcm]

namespace SpaceOk

theorem wp_manuallyAllocPage_checked (h : SpaceOk e g ms w) (x : ℕ) :
    wp (ms.manuallyAllocPage x) (PagesChecked e g [x / PAGE_SIZE]) noPanic w := by
  refine wp_imp (h.wp_manuallyAllocPage x) fun r w' hr ↦ ?_
  rcases hr with ⟨c, c', hok, hc, hpop, hspace⟩ | ⟨err, herr, hspace, -⟩
  · refine ⟨⟨_, hspace, fun n ↦ ?_, fun _ n hn ↦ ?_⟩, fun hnone ↦ ?_⟩
    · by_cases hn : n = x / PAGE_SIZE
      · subst hn
        rw [Function.update_self, hc]
        exact .some hpop.grown
      · rw [Function.update_of_ne hn]
        exact rel_grown_refl g n
    · rw [List.mem_singleton.mp hn, entries, Function.update_self]
      exact hpop.entry
    · obtain ⟨n, hn, hnone⟩ := hnone
      rw [List.mem_singleton.mp hn, hc] at hnone
      cases hnone
  · refine ⟨⟨g, hspace, rel_grown_refl g, fun hok ↦ ?_⟩, fun _ hok ↦ ?_⟩
    · rw [herr] at hok
      cases hok
    · rw [herr] at hok
      cases hok

theorem wp_manuallyAllocPages (h : SpaceOk e g ms w) :
    wp (MemorySet.manuallyAllocPages I ms) (PagesChecked e g I) noPanic w := by
  induction I generalizing g ms w with
  | nil =>
    exact ⟨⟨g, h, rel_grown_refl g, fun _ n hn ↦ absurd hn List.not_mem_nil⟩,
      fun ⟨n, hn, _⟩ ↦ absurd hn List.not_mem_nil⟩
  | cons n I ih =>
    rw [MemorySet.manuallyAllocPages, wp_bind]
    have hpage := h.wp_manuallyAllocPage_checked (pageIdToAddr n)
    rw [pageIdToAddr, Nat.mul_div_cancel n (by norm_num)] at hpage
    refine wp_imp hpage fun r w₁ hr ↦ ?_
    obtain ⟨res, ms₁⟩ := r
    obtain ⟨⟨g₁, hspace, hgrown, hentry⟩, herr⟩ := hr
    cases res with
    | error err =>
      refine ⟨⟨g₁, hspace, hgrown, fun hok ↦ ?_⟩, fun _ hok ↦ ?_⟩
      · cases hok
      · cases hok
    | ok u =>
      refine wp_imp (ih hspace) fun r' w' hr' ↦ ?_
      obtain ⟨⟨g', hspace', hgrown', hentry'⟩, herr'⟩ := hr'
      refine ⟨⟨g', hspace', fun m ↦ rel_grown_trans (hgrown m) (hgrown' m), fun hok m hm ↦ ?_⟩, ?_⟩
      · rcases List.mem_cons.mp hm with rfl | hm
        · obtain ⟨pte, hpte⟩ := Option.isSome_iff_exists.mp
            (hentry rfl m (List.mem_singleton_self m))
          rw [entries_of_grown (hgrown' m) hpte]
          rfl
        · exact hentry' hok m hm
      · rintro ⟨m, hm, hnone⟩
        rcases List.mem_cons.mp hm with rfl | hm
        · exact absurd rfl (herr ⟨m, List.mem_singleton_self m, hnone⟩)
        · refine herr' ⟨m, hm, ?_⟩
          have hrel := hgrown m
          rw [hnone] at hrel
          cases hg₁ : g₁ m with
          | none => rfl
          | some c =>
            rw [hg₁] at hrel
            cases hrel

end SpaceOk

/-! ## Checks of objects -/

/-- What a check of the object of `n` bytes at `v` promises, about the addresses that its bytes
have. If it succeeds every byte is in an area and its page is mapped, it fails if some byte is in no
area, and in both cases the pages that were mapped before keep their frames and the contents of
these. -/
structure ObjectChecked (ms : MemorySet F) (w : World σ φ) (v n : ℕ)
    (r : Except OSError Unit × MemorySet F) (w' : World σ φ) : Prop where
  ok : r.1 = .ok () → ∀ x, v ≤ x → x < v + n → x < 2 ^ 64 →
    (r.2.areaMap.find x).isSome ∧ (PageTable.lookup (r.2.pt, w') x).isSome
  err : (∃ x, v ≤ x ∧ x < v + n ∧ x < 2 ^ 64 ∧ ms.areaMap.find x = none) → r.1 ≠ .ok ()
  kept : ∀ x, (ms.areaMap.find x).isSome → ∀ m, PageTable.lookup (ms.pt, w) x = some m →
    PageTable.lookup (r.2.pt, w') x = some m ∧ ∀ i < PAGE_SIZE, w'.mem (m.1 + i) = w.mem (m.1 + i)

omit [FileStore F φ] in
/-- `find` finds the areas of the pages with cells. -/
theorem SpaceOk.isSome_find (h : SpaceOk e g ms w) [FileStore F φ] (x : ℕ) :
    (ms.areaMap.find x).isSome ↔ (g (x / PAGE_SIZE)).isSome := by
  cases hg : g (x / PAGE_SIZE) with
  | none =>
    rw [h.find_eq_none hg]
    exact iff_of_false Bool.false_ne_true Bool.false_ne_true
  | some c =>
    obtain ⟨a, -, -, hfind, -⟩ := h.exists_find hg
    rw [hfind]
    rfl

omit [FileStore F φ] in
/-- Pages with cells are those of the page table's own root slots. -/
theorem SpaceOk.lt_of_cell (h : SpaceOk e g ms w) (hx : (g (x / PAGE_SIZE)).isSome) :
    x < e.lim * 2 ^ 30 := by
  obtain ⟨T, hb, -⟩ := h.coherent.backed
  have := hb.below hx
  simp only [PAGE_SIZE] at this
  omega

/-- A check of the pages of an object checks the object. -/
theorem PagesChecked.object {r : Except OSError Unit × MemorySet F} {w' : World σ φ}
    (h : SpaceOk e g ms w) (hr : PagesChecked e g I r w')
    (hI : ∀ m, m ∈ I ↔ v / PAGE_SIZE ≤ m ∧ m ≤ (v + n - 1) / PAGE_SIZE) :
    ObjectChecked ms w v n r w' := by
  obtain ⟨⟨g', hspace, hgrown, hentry⟩, herr⟩ := hr
  have hmem : ∀ x, v ≤ x → x < v + n → x / PAGE_SIZE ∈ I := fun x hl hr ↦
    (hI _).mpr ⟨Nat.div_le_div_right hl, Nat.div_le_div_right (by omega)⟩
  refine ⟨fun hok x hl hr _ ↦ ?_, fun ⟨x, hl, hr, _, hnone⟩ ↦ herr ⟨_, hmem x hl hr, ?_⟩,
    fun x hx m hm ↦ ?_⟩
  · have hsome := hentry hok _ (hmem x hl hr)
    have hcell : (g' (x / PAGE_SIZE)).isSome := by
      obtain ⟨pte, hpte⟩ := Option.isSome_iff_exists.mp hsome
      obtain ⟨c, hc, -⟩ := Option.bind_eq_some_iff.mp hpte
      rw [hc]
      rfl
    exact ⟨(hspace.isSome_find x).mpr hcell, by rwa [hspace.lookup_eq (hspace.lt_of_cell hcell)]⟩
  · rw [← Option.not_isSome_iff_eq_none, ← h.isSome_find, hnone]
    exact Bool.false_ne_true
  · rw [h.isSome_find] at hx
    have hlt := h.lt_of_cell hx
    rw [h.lookup_eq hlt] at hm
    refine ⟨by rw [hspace.lookup_eq hlt, entries_of_grown (hgrown _) hm], fun i hi ↦ ?_⟩
    -- the page has the same contents in both states, and so has its frame
    obtain ⟨c, hc, hcm⟩ := Option.bind_eq_some_iff.mp hm
    obtain ⟨pg, hpg, hif⟩ := Option.bind_eq_some_iff.mp hcm
    split_ifs at hif
    have hrel := hgrown (x / PAGE_SIZE)
    rw [hc] at hrel
    cases hc' : g' (x / PAGE_SIZE) with
    | none =>
      rw [hc'] at hrel
      cases hrel
    | some c' =>
      rw [hc'] at hrel
      cases hrel with
      | some hrel =>
        obtain ⟨pg', hpg', hpaddr, hdata, -⟩ := hrel.page pg hpg
        obtain ⟨T, hb, -⟩ := h.coherent.backed
        obtain ⟨T', hb', -⟩ := hspace.coherent.backed
        have hold := (hb.frames.ok (by rw [pageAt, hc, Option.bind_some]; exact hpg)).data i hi
        have hnew := (hb'.frames.ok (by rw [pageAt, hc', Option.bind_some]; exact hpg')).data i hi
        rw [← Option.some.inj hif, hold, ← hdata, ← hnew, hpaddr]

/-- Two addresses have the same page if they differ in the offset alone. -/
theorem crossPage_eq_false_iff {size addr : ℕ} :
    crossPage size addr = false ↔ addr / PAGE_SIZE = wadd addr size / PAGE_SIZE := by
  rw [crossPage, decide_eq_false_iff_not, not_le]
  have hpage : PAGE_SIZE = 2 ^ 12 := by norm_num
  rw [hpage, ← Nat.div_eq_zero_iff_lt (by norm_num), Nat.xor_div_two_pow, Nat.xor_eq_zero_iff]

/-- An object that goes past the last address has bytes in no area. -/
theorem SpaceOk.not_objectChecked (h : SpaceOk e g ms w) (hv : v < 2 ^ 64) (hn : 2 ^ 64 < v + n)
    {r : Except OSError Unit × MemorySet F} {w' : World σ φ} (hok : r.1 = .ok ()) :
    ¬ObjectChecked ms w v n r w' := by
  intro hr
  have hlim := h.coherent.lim_le
  refine hr.err ⟨2 ^ 64 - 1, by omega, by omega, by omega, ?_⟩ hok
  refine h.find_eq_none (Option.not_isSome_iff_eq_none.mp fun hsome ↦ ?_)
  have := h.lt_of_cell hsome
  omega

namespace SpaceOk

variable (h : SpaceOk e g ms w) (hv : v < 2 ^ 64) (hn : 1 ≤ n) (hn' : n < 2 ^ 63)
include h hv hn hn'

/-- The pages of an object are those that `manually_alloc_range` walks through. -/
theorem wp_manuallyAllocPages_object :
    wp (MemorySet.manuallyAllocPages (List.range' (addrToPageId v)
      (addrToPageId (wsub (wadd v n) 1) + 1 - addrToPageId v)) ms) (ObjectChecked ms w v n)
      noPanic w ↔ v + n ≤ 2 ^ 64 := by
  constructor
  · intro hwp
    by_contra hover
    have hlast : wsub (wadd v n) 1 = v + n - 1 - 2 ^ 64 := by
      simp only [wsub, wadd]
      omega
    have hempty : addrToPageId (wsub (wadd v n) 1) + 1 - addrToPageId v = 0 := by
      rw [hlast]
      simp only [addrToPageId, PAGE_SIZE]
      omega
    rw [hempty] at hwp
    exact h.not_objectChecked hv (by omega) rfl (wp_ok hwp rfl)
  · intro hle
    have hlast : wsub (wadd v n) 1 = v + n - 1 := by
      simp only [wsub, wadd]
      omega
    refine wp_imp h.wp_manuallyAllocPages fun r w' hr ↦ hr.object h fun m ↦ ?_
    rw [List.mem_range'_1, hlast]
    simp only [addrToPageId, PAGE_SIZE]
    omega

/-- **The checks are complete if and only if the object ends in the address space.** -/
theorem objectChecked_iff :
    (wp (ms.manuallyAllocType n v) (ObjectChecked ms w v n) noPanic w ↔ v + n ≤ 2 ^ 64) ∧
    (wp (ms.manuallyAllocRange v (wsub (wadd v n) 1)) (ObjectChecked ms w v n) noPanic w ↔
      v + n ≤ 2 ^ 64) := by
  have hpages := h.wp_manuallyAllocPages_object hv hn hn'
  rw [MemorySet.manuallyAllocRange, MemorySet.manuallyAllocType]
  refine ⟨?_, hpages⟩
  cases hcross : crossPage n v with
  | true =>
    rw [if_pos rfl]
    exact hpages
  | false =>
    rw [if_neg Bool.false_ne_true]
    -- one page, which the end of the object is in
    rw [crossPage_eq_false_iff] at hcross
    have hle : v + n < 2 ^ 64 := by
      by_contra hover
      have hwrap : wadd v n = v + n - 2 ^ 64 := by
        rw [wadd]
        omega
      rw [hwrap] at hcross
      simp only [PAGE_SIZE] at hcross
      omega
    rw [wadd_of_lt hle] at hcross
    refine iff_of_true (wp_imp (h.wp_manuallyAllocPage_checked v) fun r w' hr ↦
      hr.object h fun m ↦ ?_) hle.le
    rw [List.mem_singleton]
    simp only [PAGE_SIZE] at hcross ⊢
    omega

end SpaceOk

/-- A new process with two pages. -/
theorem exists_spaceOk_twoPages : ∃ shared g, ∃ (ms : MemorySet Empty) (w : World Bitmap Unit),
    ms.areaMap.areas ≠ [] ∧ SpaceOk (spaceEnv shared) g ms w := by
  obtain ⟨ms, w, hok, hsome⟩ := exists_of_returns (x := SpaceCall.runNew PHYS_MEMORY_OFFSET
      [.pushWithBackend 0x1000 0x3000 PTEFlags.READ none false])
    (s := World.kernel) (P := fun (ms : MemorySet Empty) _ ↦ ms.areaMap.areas.length == 1)
    (by decide +kernel)
  obtain ⟨D, hreach⟩ : ∃ D, Reach PHYS_MEMORY_OFFSET SpaceCall.User D ms w :=
    Reach.runNew (by simp [SpaceCall.User, PageAligned, PAGE_SIZE]) (by decide)
      World.kernel_inUse hok
  obtain ⟨shared, g, hspace, -⟩ := hreach.proper.inv fun _ hc ↦ hc
  refine ⟨shared, g, ms, w, fun hnil ↦ ?_, hspace⟩
  rw [hnil] at hsome
  exact absurd hsome (by decide)

/-- An object across two pages. -/
theorem objectChecked_twoPages : ∃ (ms : MemorySet Empty) (w : World Bitmap Unit),
    ms.areaMap.areas ≠ [] ∧
      wp (ms.manuallyAllocType 8 0x1FFC) (ObjectChecked ms w 0x1FFC 8) noPanic w := by
  obtain ⟨shared, g, ms, w, hareas, hspace⟩ := exists_spaceOk_twoPages
  exact ⟨ms, w, hareas, (hspace.objectChecked_iff (by norm_num) (by norm_num) (by norm_num)).1.mpr
    (by norm_num)⟩

/-- An object whose last bytes are past the last address passes both checks. -/
theorem not_objectChecked_last : ∃ shared g, ∃ (ms : MemorySet Empty) (w : World Bitmap Unit),
    SpaceOk (spaceEnv shared) g ms w ∧
    ¬wp (ms.manuallyAllocType 8 0xFFFFFFFFFFFFFFFC) (ObjectChecked ms w 0xFFFFFFFFFFFFFFFC 8)
      noPanic w ∧
    ¬wp (ms.manuallyAllocRange 0xFFFFFFFFFFFFFFFC 3) (ObjectChecked ms w 0xFFFFFFFFFFFFFFFC 8)
      noPanic w := by
  obtain ⟨shared, g, ms, w, -, hspace⟩ := exists_spaceOk_twoPages
  have hpages := hspace.wp_manuallyAllocPages_object (v := 0xFFFFFFFFFFFFFFFC) (n := 8)
    (by norm_num) (by norm_num) (by norm_num)
  have hlast : wsub (wadd 0xFFFFFFFFFFFFFFFC 8) 1 = 3 := by decide
  have hcross : crossPage 8 0xFFFFFFFFFFFFFFFC = true := by decide
  refine ⟨shared, g, ms, w, hspace, fun hwp ↦ ?_, fun hwp ↦ ?_⟩
  · rw [MemorySet.manuallyAllocType, if_pos hcross] at hwp
    exact absurd (hpages.mp hwp) (by norm_num)
  · rw [MemorySet.manuallyAllocRange] at hwp
    rw [hlast] at hpages
    exact absurd (hpages.mp hwp) (by norm_num)

end Maturin
