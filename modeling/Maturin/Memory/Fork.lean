import Maturin.Memory.Contents
import Maturin.Memory.Teardown

/-!
# Copying an address space

`copy_as_fork` makes a new address space and copies the user areas into it, one after another. An
area is copied page by page: every page that has a frame gets a new one with the same bytes. Until
the copy of an area is pushed, its frames belong to nobody; it is enough that they were not in use
before, so that everything that was in use is untouched.
-/

open Exec

namespace Maturin

variable {σ φ F : Type}

/-! ## What a copy is -/

/-- A page of the copy: the same flags, and a mapped frame with the same bytes if there was one. -/
structure Cell.Copied (c c' : Cell) : Prop where
  flags_eq : c'.flags = c.flags
  page : Option.Rel (fun pg pg' ↦ pg'.mapped = true ∧ ∀ i < PAGE_SIZE, pg'.data i = pg.data i)
    c.page c'.page

/-- An area and its copy. -/
structure AreaCopy (area area' : VmArea F) : Prop where
  start_eq : area'.start = area.start
  end_eq : area'.end_ = area.end_
  flags_eq : area'.flags = area.flags
  backend_eq : area'.pma.backend = area.pma.backend.map BackEndFile.cloneAsFork
  length_eq : area'.pma.frames.length = area.pma.frames.length

/-- The area lies where areas of user programs may lie. -/
def VmArea.InUser (area : VmArea F) : Prop :=
  LOWER_LIMIT ≤ area.start ∧ area.end_ ≤ USER_VIRT_ADDR_LIMIT

variable [FrameAllocator σ]

/-- The frames in use stay in use and keep their contents. -/
structure Untouched (w w' : World σ φ) : Prop where
  kept : ∀ p ∈ w.inUse, PageAligned p → Kept w w' p
  oom : w.oom = true → w'.oom = true

namespace Untouched

variable {w w₁ w' : World σ φ} {p : ℕ}

theorem refl (w : World σ φ) : Untouched w w := ⟨fun _ hp _ ↦ ⟨hp, fun _ _ _ ↦ rfl⟩, id⟩

/-- A change of a frame that was not in use. -/
theorem trans_of_fresh (h : Untouched w w₁) (hp : p ∉ w.inUse) (hal : PageAligned p)
    (huse : w₁.inUse ⊆ w'.inUse)
    (hmem : ∀ x, x < p ∨ p + PAGE_SIZE ≤ x → w'.mem x = w₁.mem x)
    (hoom : w₁.oom = true → w'.oom = true) : Untouched w w' where
  kept q hq hqal := by
    obtain ⟨huse₁, hmem₁⟩ := h.kept q hq hqal
    have hne : q ≠ p := fun heq ↦ hp (heq ▸ hq)
    refine ⟨huse huse₁, fun x hl hr ↦ (hmem x ?_).trans (hmem₁ x hl hr)⟩
    rcases page_disjoint hqal hal hne with hlt | hlt <;> omega
  oom ho := hoom (h.oom ho)

end Untouched

/-- The frame vector `pma` holds a copy of the first `i` frames of the area as they are in `w₀`. -/
structure Copying (area : VmArea F) (w₀ : World σ φ) (i : ℕ) (pma : PmAreaLazy F)
    (w : World σ φ) : Prop where
  length_eq : pma.frames.length = area.pma.frames.length
  backend_eq : pma.backend = area.pma.backend.map BackEndFile.cloneAsFork
  untouched : Untouched w₀ w
  rest : ∀ {j : ℕ}, i ≤ j → j < area.pma.frames.length → pma.frames[j]? = some none
  missing : ∀ {j : ℕ}, j < i → area.pma.frames[j]? = some none → pma.frames[j]? = some none
  copied : ∀ {j q : ℕ}, j < i → area.pma.frames[j]? = some (some q) →
    ∃ p, pma.frames[j]? = some (some p) ∧ ∀ x < PAGE_SIZE, w.mem (p + x) = w₀.mem (q + x)
  fresh : ∀ {j p : ℕ}, pma.frames[j]? = some (some p) →
    PageAligned p ∧ p < 2 ^ 56 ∧ p ∈ w.inUse ∧ p ∉ w₀.inUse
  inj : ∀ {j k p : ℕ}, pma.frames[j]? = some (some p) → pma.frames[k]? = some (some p) → j = k

namespace Copying

variable {area : VmArea F} {w₀ w w' : World σ φ} {i : ℕ} {pma : PmAreaLazy F}

/-- A page without a frame needs no copy. -/
theorem skip (h : Copying area w₀ i pma w) (hi : i < area.pma.frames.length)
    (hnone : area.pma.frames[i]? = some none) : Copying area w₀ (i + 1) pma w where
  length_eq := h.length_eq
  backend_eq := h.backend_eq
  untouched := h.untouched
  rest hj := h.rest (by omega)
  missing {j} hj hnone := by
    rcases Nat.lt_succ_iff_lt_or_eq.mp hj with hj | rfl
    · exact h.missing hj hnone
    · exact h.rest le_rfl hi
  copied {j q} hj hq := by
    rcases Nat.lt_succ_iff_lt_or_eq.mp hj with hj | rfl
    · exact h.copied hj hq
    · rw [hnone] at hq
      exact absurd hq (by simp)
  fresh := h.fresh
  inj := h.inj

theorem owns (h : Copying area w₀ i pma w) : pma.Owns w where
  frame hj := ⟨(h.fresh hj).1, (h.fresh hj).2.1, (h.fresh hj).2.2.1⟩
  inj := h.inj

/-- A page gets a new frame with the bytes of the old one. -/
theorem push (h : Copying area w₀ i pma w) {p q : ℕ} (hq : area.pma.frames[i]? = some (some q))
    (hfresh : p ∉ w.inUse) (hal : PageAligned p) (hlt : p < 2 ^ 56)
    (huse : w'.inUse = insert p w.inUse)
    (hmem : ∀ x, x < p ∨ p + PAGE_SIZE ≤ x → w'.mem x = w.mem x)
    (hdata : ∀ x < PAGE_SIZE, w'.mem (p + x) = w₀.mem (q + x))
    (hoom : w.oom = true → w'.oom = true) :
    Copying area w₀ (i + 1) { pma with frames := pma.frames.set i (some p) } w' := by
  have hilt : i < pma.frames.length := by
    rw [h.length_eq]
    exact (List.getElem?_eq_some_iff.mp hq).1
  have hsub : w.inUse ⊆ w'.inUse := huse ▸ Set.subset_insert p _
  have hp₀ : p ∉ w₀.inUse := fun hp ↦ hfresh (h.untouched.kept p hp hal).1
  -- the new frame is apart from those that were copied before
  have howns := h.owns.set hilt hfresh hal hlt huse
  refine ⟨(List.length_set ..).trans h.length_eq, h.backend_eq,
    h.untouched.trans_of_fresh hp₀ hal hsub hmem hoom, fun {j} hj hjlt ↦ ?_, fun {j} hj hnone ↦ ?_,
    fun {j q'} hj hq' ↦ ?_, fun {j p'} hj ↦ ?_, howns.inj⟩
  · rw [List.getElem?_set_ne (by omega)]
    exact h.rest (by omega) hjlt
  · have hne : i ≠ j := by
      rintro rfl
      rw [hq] at hnone
      exact absurd hnone (by simp)
    rw [List.getElem?_set_ne hne]
    exact h.missing (by omega) hnone
  · rcases Nat.lt_succ_iff_lt_or_eq.mp hj with hj | rfl
    · obtain ⟨p', hp', hbytes⟩ := h.copied hj hq'
      have hok := h.fresh hp'
      have hne : p' ≠ p := fun heq ↦ hfresh (heq ▸ hok.2.2.1)
      refine ⟨p', by rw [List.getElem?_set_ne (by omega), hp'], fun x hx ↦ ?_⟩
      rw [hmem _ ?_, hbytes x hx]
      rcases page_disjoint hok.1 hal hne with hle | hle <;> omega
    · rw [hq, Option.some.injEq, Option.some.injEq] at hq'
      exact ⟨p, List.getElem?_set_self hilt, hq' ▸ hdata⟩
  · obtain ⟨hal', hlt', huse'⟩ := howns.frame hj
    refine ⟨hal', hlt', huse', ?_⟩
    rcases h.owns.getElem?_set hilt hfresh hj with ⟨-, rfl⟩ | ⟨hj, -⟩
    · exact hp₀
    · exact (h.fresh hj).2.2.2

end Copying

/-! ## Copying an area -/

variable [FileStore F φ] {area : VmArea F} {w w₀ : World σ φ} {p i : ℕ}

/-- The loop of `copy_to_new_area_with_data` from index `i` on. -/
theorem wpe_copyPages (m : ℕ) {pma : PmAreaLazy F} (hstart : area.start = p * PAGE_SIZE)
    (hold : ∀ {j q : ℕ}, area.pma.frames[j]? = some (some q) → PageAligned q ∧ q ∈ w₀.inUse)
    (hm : i + m = area.pma.frames.length) (h : Copying area w₀ i pma w) :
    wpe (area.copyPages ((List.range' i m).map fun j ↦ (p + j) * PAGE_SIZE) pma) (fun r w' ↦
      match r with
      | .ok pma' => Copying area w₀ area.pma.frames.length pma' w'
      | .error _ => Untouched w₀ w' ∧ w'.oom = true) noPanic w := by
  induction m generalizing i pma w with
  | zero =>
    rw [List.range'_zero, List.map_nil, VmArea.copyPages, wpe_pure, ← hm, Nat.add_zero]
    exact h
  | succ m ih =>
    have hi : i < area.pma.frames.length := by omega
    have hindex : ((p + i) * PAGE_SIZE - area.start) / PAGE_SIZE = i := by
      rw [hstart, ← Nat.sub_mul, Nat.add_sub_cancel_left, Nat.mul_div_cancel i (by norm_num)]
    rw [List.range'_succ, List.map_cons, VmArea.copyPages]
    dsimp only
    rw [hindex, wpe_bind, wpe_lift]
    cases hframe : area.pma.frames[i]? with
    | none => exact absurd (List.getElem?_eq_none_iff.mp hframe) (by omega)
    | some frame =>
      rw [wp_getFrame_false hframe]
      cases frame with
      | none => exact ih (by omega) (h.skip hi hframe)
      | some q =>
        obtain ⟨hqal, hquse⟩ := hold hframe
        dsimp only
        rw [wpe_bind, wpe_lift]
        refine wp_imp (wp_getFrame_true (h.rest le_rfl hi)) fun r w₁ hr ↦ ?_
        rcases hr with ⟨p', rfl, hfresh, hal, hlt, huse, hoom, hmem, -⟩ | ⟨rfl, rfl⟩
        · dsimp only
          rw [wpe_bind, wpe_modify]
          have hbuf : (w₁.mem.readBytes q PAGE_SIZE).length = PAGE_SIZE := ByteMem.length_readBytes
          have hp₀ : p' ∉ w₀.inUse := fun hp ↦ hfresh (h.untouched.kept p' hp hal).1
          have hw₁ := h.untouched.trans_of_fresh hp₀ hal (huse ▸ Set.subset_insert p' _) hmem
            fun ho ↦ by rwa [hoom]
          refine ih (by omega) (h.push hframe hfresh hal hlt huse (fun x hx ↦ ?_) (fun x hx ↦ ?_)
            fun ho ↦ ?_)
          · rw [World.setMem_mem, ByteMem.writeBytes_of_notMem (by rwa [hbuf]), hmem x hx]
          · rw [World.setMem_mem, ByteMem.writeBytes_readBytes hx]
            exact (hw₁.kept q hquse hqal).2 _ (by omega) (by omega)
          · rwa [World.setMem_oom, hoom]
        · -- no frame is left: what was copied is given back
          dsimp only
          rw [wpe_bind, wpe_lift]
          refine wp_imp pma.wp_drop fun _ w' hw' ↦ ?_
          obtain ⟨hoom, hmem, huse⟩ := hw'
          refine ⟨⟨fun x hx hal ↦ ?_, fun _ ↦ hoom⟩, hoom⟩
          have hkept := h.untouched.kept x hx hal
          refine ⟨huse x hkept.1 fun hframe ↦ ?_, fun y hl hr ↦ by rw [hmem, ← hkept.2 y hl hr]⟩
          obtain ⟨j, hj⟩ := List.mem_iff_getElem?.mp hframe
          exact (h.fresh hj).2.2.2 hx

/-- The copy of an area, before it is pushed. -/
theorem wpe_copyToNewAreaWithData {lim : ℕ} {g : ℕ → Option Cell} (h : AreaOk lim g p area)
    (hold : ∀ {j q : ℕ}, area.pma.frames[j]? = some (some q) → PageAligned q ∧ q ∈ w.inUse) :
    wpe area.copyToNewAreaWithData (fun r w' ↦ match r with
      | .ok area' => area'.start = area.start ∧ area'.end_ = area.end_ ∧
          area'.flags = area.flags ∧ Copying area w area.pma.frames.length area'.pma w'
      | .error _ => Untouched w w' ∧ (w'.oom = true ∨ ¬ area.InUser)) noPanic w := by
  have hpos := h.pos
  rw [VmArea.copyToNewAreaWithData, wpe_bind, wpe_mk, wp_pure, VmArea.copyToNewAreaEmpty,
    PmAreaLazy.cloneAsFork, PmAreaLazy.new, if_neg (by omega)]
  split_ifs with hbig
  · refine ⟨Untouched.refl w, Or.inr fun huser ↦ ?_⟩
    have hend := huser.2
    rw [h.end_eq] at hend
    simp only [pageCount, alignUp, alignDown, wadd, USER_VIRT_ADDR_LIMIT, PAGE_SIZE] at hbig hend
    omega
  · have hbegin : Copying area w 0 (⟨List.replicate area.pma.frames.length none,
        area.pma.backend.map BackEndFile.cloneAsFork⟩ : PmAreaLazy F) w := by
      have hno : ∀ {j q : ℕ}, (List.replicate area.pma.frames.length none)[j]?
          ≠ some (some q) := by
        intro j q hq
        rw [List.getElem?_replicate] at hq
        split_ifs at hq
        exact absurd hq (by simp)
      refine ⟨List.length_replicate, rfl, Untouched.refl w, fun _ hj ↦ ?_,
        fun hj ↦ absurd hj (by omega), fun hj ↦ absurd hj (by omega), fun hj ↦ absurd hj hno,
        fun hj ↦ absurd hj hno⟩
      rw [List.getElem?_replicate, if_pos hj]
    have hloop := wpe_copyPages _ h.start_eq hold (Nat.zero_add _) hbegin
    rw [← List.range_eq_range', ← h.pagesIn_eq] at hloop
    change wpe (area.copyPages (pagesIn area.start area.end_) _ >>= fun pma ↦ pure _) _ _ _
    rw [wpe_bind]
    refine wpe_imp hloop fun r w' hr ↦ ?_
    cases r with
    | error err => exact ⟨hr.1, Or.inl hr.2⟩
    | ok pma => exact ⟨rfl, rfl, rfl, hr⟩

/-! ## Copying the areas -/

omit [FileStore F φ] in
/-- Only the frames that an address space relies on matter to it. -/
theorem SpaceOk.of_kept {e : PtEnv} {g : ℕ → Option Cell} {ms : MemorySet F} {w w' : World σ φ}
    (h : SpaceOk e g ms w) (hkeep : ∀ p ∈ held e g ms.pt, Kept w w' p)
    (hoom : w.oom = true → w'.oom = true) : SpaceOk e g ms w' := by
  obtain ⟨T, hb, hT⟩ := h.coherent.backed
  exact ⟨h.keyed, ⟨h.coherent.layout, T, hb.of_world hkeep hoom, hT⟩, h.args_eq, h.isUser⟩

omit [FileStore F φ] in
theorem SpaceOk.of_untouched {e : PtEnv} {g : ℕ → Option Cell} {ms : MemorySet F}
    {w w' : World σ φ} (h : SpaceOk e g ms w) (hw : Untouched w w') : SpaceOk e g ms w' := by
  obtain ⟨T, hb, -⟩ := h.coherent.backed
  exact h.of_kept (fun p hp ↦ hw.kept p (hb.of_held hp).1 (hb.of_held hp).2) hw.oom

/-- Pushing an area where there is none adds it to the range map. -/
theorem MemorySet.wp_push_areaMap {ms : MemorySet F} {vma : VmArea F} {w : World σ φ}
    (h : ∀ a ∈ ms.areaMap.areas, a.isOverlapWith vma.start vma.end_ = false) :
    wp (ms.push vma) (fun r _ ↦ r.2.areaMap = ms.areaMap.insertRaw vma.start vma.end_ vma)
      anyPanic w := by
  rw [MemorySet.push, wp_bind, wp_withPt, wp_bind, RangeActionMap.mmapFixed]
  split_ifs
  · trivial
  · rw [wp_bind]
    refine wp_imp (SegmentLaws.wp_unmap_of_forall_not h) fun m t hm ↦ ?_
    obtain ⟨rfl, rfl⟩ := hm
    rw [wp_bind, wp_bind]
    exact wp_imp (wp_true _) fun _ s _ ↦ rfl

theorem OrdMap.insertEntry_of_forall_lt {κ α : Type*} [LinearOrder κ] {k : κ} {a : α}
    {l : List (κ × α)} (h : ∀ x ∈ l, x.1 < k) : OrdMap.insertEntry k a l = l ++ [(k, a)] := by
  induction l with
  | nil => rfl
  | cons x l ih =>
    have hx := h x List.mem_cons_self
    rw [OrdMap.insertEntry, if_neg hx.not_gt, if_neg hx.ne',
      ih fun y hy ↦ h y (List.mem_cons_of_mem x hy), List.cons_append]

omit [FileStore F φ] in
/-- The areas come in the order of their addresses. -/
theorem SpaceOk.pairwise_iter {e : PtEnv} {g : ℕ → Option Cell} {ms : MemorySet F} {w : World σ φ}
    (h : SpaceOk e g ms w) :
    ms.areaMap.iter.Pairwise fun a b ↦ a.end_ ≤ b.start := by
  rw [RangeActionMap.iter, RangeActionMap.areas, OrdMap.values, List.map_map, List.pairwise_map]
  have hsort := ms.areaMap.segments.sorted
  have hmem : ∀ x ∈ ms.areaMap.segments.entries, x.2 ∈ ms.areaMap.areas := fun x hx ↦
    OrdMap.mem_values.mpr ⟨x.1, hx⟩
  refine hsort.imp_of_mem fun {x y} hx hy hlt ↦ ?_
  have hxa := h.coherent.layout.area _ (hmem x hx)
  have hya := h.coherent.layout.area _ (hmem y hy)
  have hkx := h.keyed x hx
  have hky := h.keyed y hy
  have hne : x.2 ≠ y.2 := fun heq ↦ hlt.ne (by rw [hkx, hky, heq])
  have hapart := h.coherent.layout.apart.forall (hmem x hx) (hmem y hy) hne
  have hlty := hya.lt
  dsimp only [Function.comp]
  rw [hxa.end_eq, hya.start_eq]
  rcases hapart with hle | hle <;> omega

/-- The address space `child` holds copies of the areas of the list. -/
structure Copies (e : PtEnv) (g : ℕ → Option Cell) (olds : List (VmArea F)) (child : MemorySet F)
    (w : World σ φ) : Prop where
  areas : List.Forall₂ AreaCopy olds child.areaMap.iter
  cells : ∃ g', SpaceOk e g' child w ∧
    (∀ n, (∃ a ∈ olds, n ∈ pagesOf a.start a.end_) → Option.Rel Cell.Copied (g n) (g' n)) ∧
    ∀ n, (¬ ∃ a ∈ olds, n ∈ pagesOf a.start a.end_) → g' n = none

theorem Cell.Copied.free {c c' : Cell} (h : c.Copied c') : c'.Free := by
  intro pg' hpg'
  have hrel := h.page
  rw [hpg'] at hrel
  generalize c.page = x at hrel
  cases hrel with
  | some hpage => exact hpage.1

variable {e e' : PtEnv} {g g' : ℕ → Option Cell} {ms child : MemorySet F}

omit [FileStore F φ] in
/-- The frames of an area are page-aligned and in use. -/
theorem SpaceOk.frame_inUse (h : SpaceOk e g ms w) (harea : area ∈ ms.areaMap.iter) {j q : ℕ}
    (hq : area.pma.frames[j]? = some (some q)) : PageAligned q ∧ q ∈ w.inUse := by
  obtain ⟨a, ha, rfl⟩ := List.mem_map.mp harea
  obtain ⟨T, hb, -⟩ := h.coherent.backed
  have hheld : q ∈ held e g ms.pt := by
    rw [h.held_eq]
    exact Or.inl (Or.inr ⟨a, ha, List.mem_of_getElem? hq⟩)
  exact (hb.of_held hheld).symm

omit [FileStore F φ] in
/-- The cells of a new area that holds a copy are copies. -/
theorem SpaceOk.copied_newCells (h : SpaceOk e g ms w₀) (ha : AreaOk e.lim g p area)
    (hflags : FlagsOk g p area) {vma : VmArea F} (hstart : vma.start = area.start)
    (hfl : vma.flags = area.flags) (hcopy : Copying area w₀ area.pma.frames.length vma.pma w)
    {n : ℕ} (hn : n ∈ pagesOf area.start area.end_) :
    Option.Rel Cell.Copied (g n) (newCells vma w.mem true n) := by
  obtain ⟨T, hb, -⟩ := h.coherent.backed
  obtain ⟨i, hi, rfl⟩ : ∃ i < area.pma.frames.length, n = p + i := by
    obtain ⟨hl, hr⟩ := hn
    rw [ha.start_eq] at hl
    rw [ha.end_eq] at hr
    have hl := Nat.le_of_mul_le_mul_right hl (by norm_num)
    have hr := Nat.lt_of_mul_lt_mul_right hr
    exact ⟨n - p, by omega, by omega⟩
  obtain ⟨c, hc, hframe⟩ := ha.cell i hi
  have hindex : p + i - vma.start / PAGE_SIZE = i := by
    rw [hstart, ha.start_eq, Nat.mul_div_cancel p (by norm_num), Nat.add_sub_cancel_left]
  rw [hc, newCells, hindex]
  refine .some ⟨by rw [hfl, hflags i hi c hc], ?_⟩
  cases hpage : c.page with
  | none =>
    rw [hpage] at hframe
    rw [hcopy.missing hi hframe]
    exact .none
  | some pg =>
    rw [hpage] at hframe
    obtain ⟨q, hq, hbytes⟩ := hcopy.copied hi hframe
    rw [hq]
    have hat : pageAt g (p + i) = some pg := by rw [pageAt, hc]; exact hpage
    refine .some ⟨rfl, fun x hx ↦ ?_⟩
    rw [← (hb.frames.ok hat).data x hx]
    exact (if_pos hx).trans (hbytes x hx)

omit [FileStore F φ] in
/-- The frames of an area that holds a copy may go into the new address space. -/
theorem Copying.newFrames {vma : VmArea F} {k : ℕ} (hcopy : Copying area w₀ k vma.pma w)
    (h : SpaceOk e g child w₀) (hflags : vma.flags ≠ 0) : NewFrames e g vma (child.pt, w) := by
  obtain ⟨T, hb, -⟩ := h.coherent.backed
  refine ⟨fun hi ↦ ?_, hcopy.inj, fun _ ↦ hflags⟩
  obtain ⟨hal, hlt, huse, hnot⟩ := hcopy.fresh hi
  exact ⟨hal, hlt, huse, fun hheld ↦ hnot (hb.of_held hheld).1⟩

omit [FrameAllocator σ] [FileStore F φ] in
/-- An area keeps the conditions on new areas when its frames are replaced by others. -/
theorem AreaOk.wf {lim : ℕ} (h : AreaOk lim g p area) {vma : VmArea F}
    (hstart : vma.start = area.start) (hend : vma.end_ = area.end_)
    (hlen : vma.pma.frames.length = area.pma.frames.length) : vma.Wf lim := by
  have hpos := h.pos
  have hle := h.le
  refine ⟨?_, ?_, ?_, ?_, ?_⟩
  · rw [hstart, h.start_eq]
    exact Nat.mul_mod_left _ _
  · rw [hend, h.end_eq]
    exact Nat.mul_mod_left _ _
  · rw [hstart, hend, h.start_eq, h.end_eq]
    exact Nat.mul_lt_mul_of_pos_right (by omega) (by norm_num)
  · rw [hend, h.end_eq]
    simp only [PAGE_SIZE]
    omega
  · rw [PmAreaLazy.size, hlen, hstart, hend, h.start_eq, h.end_eq, Nat.add_mul,
      Nat.add_sub_cancel_left]

theorem VmArea.flags_ne_zero (h : area.isUser = true) : area.flags ≠ 0 := by
  intro hzero
  rw [VmArea.isUser, hzero] at h
  exact absurd h (by decide)

theorem exists_of_forall₂ {α β : Type*} {R : α → β → Prop} {l : List α} {l' : List β}
    (h : List.Forall₂ R l l') {b : β} (hb : b ∈ l') : ∃ a ∈ l, R a b := by
  induction h with
  | nil => exact absurd hb List.not_mem_nil
  | cons hR _ ih =>
    rcases List.mem_cons.mp hb with rfl | hb
    · exact ⟨_, List.mem_cons_self, hR⟩
    · obtain ⟨a, ha, hab⟩ := ih hb
      exact ⟨a, List.mem_cons_of_mem _ ha, hab⟩

omit [FrameAllocator σ] [FileStore F φ] in
/-- What was copied is mapped. -/
theorem free_of_copied {olds : List (VmArea F)}
    (hin : ∀ n, (∃ a ∈ olds, n ∈ pagesOf a.start a.end_) → Option.Rel Cell.Copied (g n) (g' n))
    (hout : ∀ n, (¬ ∃ a ∈ olds, n ∈ pagesOf a.start a.end_) → g' n = none) (n : ℕ) (c : Cell)
    (hc : g' n = some c) : c.Free := by
  by_cases hn : ∃ a ∈ olds, n ∈ pagesOf a.start a.end_
  · have hrel := hin n hn
    rw [hc] at hrel
    generalize g n = x at hrel
    cases hrel with
    | some hcopied => exact hcopied.free
  · rw [hout n hn] at hc
    exact absurd hc (by simp)

/-- One more area is copied. -/
theorem Copies.step {olds : List (VmArea F)} (h : Copies e' g olds child w)
    (hparent : SpaceOk e g ms w) (hlim : e.lim = e'.lim) (harea : area ∈ ms.areaMap.iter)
    (huser : area.isUser = true) (hbefore : ∀ a ∈ olds, a.end_ ≤ area.start) {vma : VmArea F}
    {w₁ : World σ φ} (hstart : vma.start = area.start) (hend : vma.end_ = area.end_)
    (hfl : vma.flags = area.flags) (hcopy : Copying area w area.pma.frames.length vma.pma w₁) :
    wp (child.push vma) (fun r w' ↦ r.1 = .ok () ∧ Copies e' g (olds ++ [area]) r.2 w')
      (fun _ w' ↦ w'.oom = true ∨ ¬ area.InUser) w₁ := by
  obtain ⟨a, ha, rfl⟩ := List.mem_map.mp harea
  obtain ⟨p, hp, hflags⟩ := (hparent.coherent.layout.area a ha).ok
  obtain ⟨g', hok, hin, hout⟩ := h.cells
  have hwf : vma.Wf e'.lim := hlim ▸ hp.wf hstart hend hcopy.length_eq
  have hok₁ := hok.of_untouched hcopy.untouched
  have hfree := free_of_copied hin hout
  -- the areas copied before end where the new one starts
  have hends : ∀ b ∈ child.areaMap.areas, b.start < b.end_ ∧ b.end_ ≤ vma.start := by
    intro b hb
    have hbat := hok.coherent.layout.area b hb
    obtain ⟨a', ha', hcop⟩ := exists_of_forall₂ h.areas (List.mem_map.mpr ⟨b, hb, rfl⟩)
    have := hbefore a' ha'
    rw [← hcop.end_eq, hbat.end_eq] at this
    exact ⟨hbat.lt, by rwa [hstart]⟩
  have hapart : ∀ b ∈ child.areaMap.areas, b.isOverlapWith vma.start vma.end_ = false := by
    intro b hb
    rw [Bool.eq_false_iff]
    intro hover
    have := (RangeArea.isOverlapWith_iff.mp hover).1
    have := (hends b hb).2
    omega
  have hpages : vma.toRange.pages = pagesOf a.segment.start a.segment.end_ := by
    rw [← hstart, ← hend]
    rfl
  by_cases hlow : LOWER_LIMIT ≤ vma.start
  · have hnew := hcopy.newFrames hok (hfl ▸ VmArea.flags_ne_zero huser)
    refine wp_mono (wp_and (hok₁.wp_push hwf hlow hnew fun n _ c hc ↦ hfree n c hc)
      (MemorySet.wp_push_areaMap hapart)) (fun r w' hr ↦ ?_) fun _ _ hp ↦ Or.inl hp.1.2
    obtain ⟨⟨hres, hspace⟩, hmap⟩ := hr
    refine ⟨hres, ⟨?_, _, hspace, fun n hn ↦ ?_, fun n hn ↦ ?_⟩⟩
    · rw [hmap, RangeActionMap.iter, RangeActionMap.areas, RangeActionMap.insertRaw, OrdMap.values,
        OrdMap.insert]
      dsimp only
      rw [OrdMap.insertEntry_of_forall_lt, List.map_append, List.map_append]
      · have hlast : List.Forall₂ AreaCopy [a.segment] [vma] :=
          .cons ⟨hstart, hend, hfl, hcopy.backend_eq, hcopy.length_eq⟩ .nil
        exact List.rel_append h.areas hlast
      · intro x hx
        have hxa := hends x.2 (OrdMap.mem_values.mpr ⟨x.1, hx⟩)
        rw [hok.keyed x hx]
        omega
    · by_cases hmem : n ∈ vma.toRange.pages
      · rw [PointMap.overwrite_of_mem hmem]
        rw [hpages] at hmem
        exact hparent.copied_newCells hp hflags hstart hfl hcopy hmem
      · rw [PointMap.overwrite_of_notMem hmem]
        rw [hpages] at hmem
        obtain ⟨b, hb, hnb⟩ := hn
        rcases List.mem_append.mp hb with hb | hb
        · exact hin n ⟨b, hb, hnb⟩
        · rw [List.mem_singleton.mp hb] at hnb
          exact absurd hnb hmem
    · have hmem : n ∉ vma.toRange.pages := fun hmem ↦
        hn ⟨a.segment, List.mem_append_right _ List.mem_cons_self, hpages ▸ hmem⟩
      rw [PointMap.overwrite_of_notMem hmem]
      exact hout n fun hex ↦ hn (hex.imp fun b hb ↦ ⟨List.mem_append_left _ hb.1, hb.2⟩)
  · rw [MemorySet.push, wp_bind, wp_withPt, wp_bind, RangeActionMap.mmapFixed,
      if_pos (Or.inl (not_le.mp hlow))]
    exact Or.inr fun huser ↦ hlow (hstart ▸ huser.1)

/-- The loop of `copy_as_fork`. -/
theorem wpe_copyAreas {olds rest : List (VmArea F)} (h : Copies e' g olds child w)
    (hparent : ∀ {g' : ℕ → Option Cell} {child : MemorySet F} {w : World σ φ},
      SpaceOk e' g' child w → SpaceOk e g ms w)
    (hlim : e.lim = e'.lim) (hsub : ∀ a ∈ rest, a ∈ ms.areaMap.iter)
    (hsort : (olds ++ rest).Pairwise fun a b ↦ a.end_ ≤ b.start) :
    wpe (MemorySet.copyAreas rest child) (fun r w' ↦ match r with
      | .ok child' => Copies e' g (olds ++ rest.filter VmArea.isUser) child' w'
      | .error _ => w'.oom = true ∨ ∃ a ∈ rest, ¬ a.InUser)
      (fun _ w' ↦ w'.oom = true ∨ ∃ a ∈ rest, ¬ a.InUser) w := by
  induction rest generalizing olds child w with
  | nil =>
    rw [MemorySet.copyAreas, wpe_pure, List.filter_nil, List.append_nil]
    exact h
  | cons area rest ih =>
    have hrest := fun a ha ↦ hsub a (List.mem_cons_of_mem area ha)
    have hlater : ∀ {w : World σ φ}, (w.oom = true ∨ ∃ a ∈ rest, ¬ a.InUser) →
        w.oom = true ∨ ∃ a ∈ area :: rest, ¬ a.InUser := fun hor ↦ hor.imp_right fun hex ↦
      hex.imp fun a ha ↦ ⟨List.mem_cons_of_mem area ha.1, ha.2⟩
    rw [MemorySet.copyAreas]
    by_cases huser : area.isUser = true
    · have harea := hsub area List.mem_cons_self
      obtain ⟨g', hok, hin, hout⟩ := h.cells
      have hms := hparent hok
      obtain ⟨a, ha, hseg⟩ := List.mem_map.mp harea
      obtain ⟨p, hp, -⟩ := (hms.coherent.layout.area a ha).ok
      rw [hseg] at hp
      rw [if_pos huser, wpe_bind, wpe_lift, wp_run]
      refine wpe_mono (wpe_copyToNewAreaWithData hp fun hq ↦ hms.frame_inUse harea hq)
        (fun r w₁ hr ↦ ?_) fun _ _ h ↦ h.elim
      cases r with
      | error err =>
        -- the new address space is dropped
        obtain ⟨huntouched, hwhy⟩ := hr
        have hok₁ := (hok.of_untouched huntouched).protect (N := ∅) fun p hp ↦
          absurd hp (Set.notMem_empty p)
        dsimp only
        rw [wpe_bind, wpe_lift]
        refine wp_mono (hok₁.wp_drop (free_of_copied hin hout)) (fun _ w₂ hw₂ ↦ ?_)
          fun _ _ h ↦ h.elim
        rw [wpe_throw]
        exact hwhy.imp hw₂ fun hnot ↦ ⟨area, List.mem_cons_self, hnot⟩
      | ok vma =>
        obtain ⟨hstart, hend, hfl, hcopy⟩ := hr
        have hbefore : ∀ a ∈ olds, a.end_ ≤ area.start := fun a ha ↦
          (List.pairwise_append.mp hsort).2.2 a ha area List.mem_cons_self
        dsimp only
        rw [wpe_bind, wpe_lift]
        refine wp_mono (h.step hms hlim harea huser hbefore hstart hend hfl hcopy)
          (fun r w₂ hr ↦ ?_) fun _ w₂ hw₂ ↦
            hw₂.imp_right fun hnot ↦ ⟨area, List.mem_cons_self, hnot⟩
        obtain ⟨hres, hstep⟩ := hr
        obtain ⟨res, child'⟩ := r
        dsimp only at hres
        subst hres
        rw [List.append_cons] at hsort
        refine wpe_mono (ih hstep hrest hsort) (fun r w' hr ↦ ?_) fun _ _ hw ↦ hlater hw
        cases r with
        | error err => exact hlater hr
        | ok child'' =>
          dsimp only at hr ⊢
          rwa [List.filter_cons_of_pos huser, List.append_cons]
    · rw [if_neg huser]
      refine wpe_mono (ih h hrest ?_) (fun r w' hr ↦ ?_) fun _ _ hw ↦ hlater hw
      · exact hsort.sublist ((List.Sublist.refl olds).append (List.sublist_cons_self area rest))
      · cases r with
        | error err => exact hlater hr
        | ok child' =>
          dsimp only at hr ⊢
          rwa [List.filter_cons_of_neg huser]

/-! ## Copying an address space -/

/-- The pages of the user areas. -/
def userCells (g : ℕ → Option Cell) (n : ℕ) : Option Cell :=
  (g n).filter fun c ↦ c.flags.contains PTEFlags.USER

omit [FileStore F φ] in
theorem AreaAt.pages_eq_pagesOf {lim : ℕ} {a : RangeArea (VmArea F)} (h : AreaAt lim g a) :
    a.pages = pagesOf a.segment.start a.segment.end_ := by
  rw [RangeArea.pages, RangeArea.range, ← h.start_eq, ← h.end_eq]
  rfl

omit [FileStore F φ] in
/-- The cells of an area have its flags. -/
theorem AreaAt.exists_cell {lim n : ℕ} {a : RangeArea (VmArea F)} (h : AreaAt lim g a)
    (hn : n ∈ a.pages) : ∃ c, g n = some c ∧ c.flags = a.segment.flags := by
  obtain ⟨p, hp, hflags⟩ := h.ok
  rw [h.pages_eq hp] at hn
  obtain ⟨i, rfl⟩ := Nat.exists_eq_add_of_le hn.1
  have hi : i < a.segment.pma.frames.length := Nat.add_lt_add_iff_left.mp hn.2
  obtain ⟨c, hc, -⟩ := hp.cell i hi
  exact ⟨c, hc, hflags i hi c hc⟩

omit [FileStore F φ] in
theorem SpaceOk.userCells_eq (h : SpaceOk e g ms w) {n : ℕ}
    (hn : ∃ a ∈ ms.areaMap.iter.filter VmArea.isUser, n ∈ pagesOf a.start a.end_) :
    userCells g n = g n := by
  obtain ⟨area, harea, hn⟩ := hn
  obtain ⟨hmem, huser⟩ := List.mem_filter.mp harea
  obtain ⟨a, ha, rfl⟩ := List.mem_map.mp hmem
  have hat := h.coherent.layout.area a ha
  obtain ⟨c, hc, hflags⟩ := hat.exists_cell (hat.pages_eq_pagesOf ▸ hn)
  rw [userCells, hc, Option.filter_some, if_pos]
  rwa [hflags]

omit [FileStore F φ] in
theorem SpaceOk.userCells_eq_none (h : SpaceOk e g ms w) {n : ℕ}
    (hn : ¬ ∃ a ∈ ms.areaMap.iter.filter VmArea.isUser, n ∈ pagesOf a.start a.end_) :
    userCells g n = none := by
  rw [userCells, Option.filter_eq_none_iff]
  intro c hc huser
  obtain ⟨a, ha, hmem⟩ := h.coherent.layout.cover n (by rw [hc]; rfl)
  have hat := h.coherent.layout.area a ha
  obtain ⟨c', hc', hflags⟩ := hat.exists_cell hmem
  rw [hc, Option.some.injEq] at hc'
  subst hc'
  refine hn ⟨a.segment, List.mem_filter.mpr ⟨List.mem_map.mpr ⟨a, ha, rfl⟩, ?_⟩,
    hat.pages_eq_pagesOf ▸ hmem⟩
  rwa [VmArea.isUser, ← hflags]

/-- `copy_as_fork` copies the user areas, unless a frame is missing or an area lies outside the
user's addresses. Every frame of `N` is left alone. -/
theorem SpaceOk.wpe_copyAsFork {kernelRoot : ℕ} {N : Set ℕ} (h : SpaceOk e g ms w)
    (hlim : e.lim = 510) (hN : ∀ p ∈ N, PageAligned p ∧ p ∈ w.inUse) (hroot : kernelRoot ∈ N)
    (hheld : held e g ms.pt ⊆ N) :
    wpe (ms.copyAsFork kernelRoot) (fun r w' ↦ match r with
      | .ok child => ∃ g', SpaceOk (userEnv kernelRoot N w) g' child w' ∧
          (∀ n, Option.Rel Cell.Copied (userCells g n) (g' n)) ∧
          List.Forall₂ AreaCopy (ms.areaMap.iter.filter VmArea.isUser) child.areaMap.iter
      | .error _ => w'.oom = true ∨ ∃ a ∈ ms.areaMap.iter, ¬ a.InUser)
      (fun _ w' ↦ w'.oom = true ∨ ∃ a ∈ ms.areaMap.iter, ¬ a.InUser) w := by
  have hparent : ∀ {g' : ℕ → Option Cell} {child : MemorySet F} {w' : World σ φ},
      SpaceOk (userEnv kernelRoot N w) g' child w' → SpaceOk e g ms w' := by
    intro g' child w' hchild
    refine h.of_kept (fun p hp ↦ ?_) hchild.oom
    obtain ⟨-, huse, -, hmem⟩ := hchild.foreign p (hheld hp)
    exact ⟨huse, hmem⟩
  rw [MemorySet.copyAsFork, wpe_bind, wpe_lift]
  refine wp_mono (wp_newMemorySetForTask hN hroot) (fun child w₁ hnew ↦ ?_)
    fun _ _ hp ↦ Or.inl hp.2
  have hnil : child.areaMap.iter = [] := by
    rw [RangeActionMap.iter, List.map_eq_nil_iff, List.eq_nil_iff_forall_not_mem]
    intro a ha
    obtain ⟨p, hp, -⟩ := (hnew.coherent.layout.area a ha).ok
    obtain ⟨c, hc, -⟩ := hp.cell 0 hp.pos
    exact absurd hc (by simp)
  have hbegin : Copies (userEnv kernelRoot N w) g [] child w₁ :=
    ⟨by rw [hnil]; exact .nil, _, hnew, fun n hn ↦ absurd hn (by simp), fun _ _ ↦ rfl⟩
  refine wpe_mono (wpe_copyAreas hbegin hparent hlim (fun _ ha ↦ ha) h.pairwise_iter)
    (fun r w' hr ↦ ?_) fun _ _ hw ↦ hw
  cases r with
  | error err => exact hr
  | ok child' =>
    obtain ⟨g', hok, hin, hout⟩ := hr.cells
    rw [List.nil_append] at hin hout
    refine ⟨g', hok, fun n ↦ ?_, hr.areas⟩
    by_cases hn : ∃ a ∈ ms.areaMap.iter.filter VmArea.isUser, n ∈ pagesOf a.start a.end_
    · rw [h.userCells_eq hn]
      exact hin n hn
    · rw [h.userCells_eq_none hn, hout n hn]
      exact .none

end Maturin
