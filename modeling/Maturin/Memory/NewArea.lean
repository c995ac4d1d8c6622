import Maturin.Memory.Coherent

/-!
# New areas

A new area may bring frames with it: the loader fills the frames of a program before it maps them,
and a forked process gets the copied frames of its parent. The cells of such an area are read off
its frame vector and the memory. They join the cells of the address space before the area is mapped,
as pages that have a frame but no entry; mapping the area gives each of them its entry.
-/

open Exec

namespace Maturin

variable {σ φ F : Type}

/-- What `VmArea::new` guarantees of an area below `lim` root slots. -/
structure VmArea.Wf (lim : ℕ) (area : VmArea F) : Prop where
  aligned : PageAligned area.start
  aligned_end : PageAligned area.end_
  lt : area.start < area.end_
  le : area.end_ ≤ lim * 2 ^ 30
  size_eq : area.pma.size = area.end_ - area.start

/-- An area as an interval of the range map. -/
def VmArea.toRange (area : VmArea F) : RangeArea (VmArea F) := ⟨area.start, area.end_, area⟩

/-- The cells of an area, read off its frame vector and the memory. -/
def newCells (area : VmArea F) (mem : ByteMem) (mapped : Bool) (n : ℕ) : Option Cell :=
  some
    { flags := area.flags
      page := (area.pma.frames[n - area.start / PAGE_SIZE]?).join.map fun paddr ↦
        ⟨paddr, pageData mem paddr, mapped⟩ }

variable {lim : ℕ} {area : VmArea F} {g : ℕ → Option Cell}

namespace VmArea.Wf

theorem areaOk (h : area.Wf lim) {mem : ByteMem} {mapped : Bool}
    (hg : ∀ n ∈ area.toRange.pages, g n = newCells area mem mapped n) :
    AreaOk lim g (area.start / PAGE_SIZE) area ∧ FlagsOk g (area.start / PAGE_SIZE) area := by
  obtain ⟨hs, he, hlt, hle, hsize⟩ := h
  simp only [PageAligned, PmAreaLazy.size, PAGE_SIZE] at hs he hsize
  have hcell : ∀ i < area.pma.frames.length, g (area.start / PAGE_SIZE + i) = some
      { flags := area.flags
        page := (area.pma.frames[i]?).join.map fun paddr ↦
          ⟨paddr, pageData mem paddr, mapped⟩ } := by
    intro i hi
    rw [hg, newCells, Nat.add_sub_cancel_left]
    simp only [RangeArea.pages, RangeArea.range, toRange, PAGE_SIZE, Set.mem_ofPred_eq,
      Set.mem_Ico]
    omega
  refine ⟨⟨?_, ?_, ?_, ?_, fun i hi ↦ ⟨_, hcell i hi, ?_⟩⟩, fun i hi c hc ↦ ?_⟩
  · simp only [PAGE_SIZE]
    omega
  · simp only [PAGE_SIZE]
    omega
  · omega
  · simp only [PAGE_SIZE]
    omega
  · rw [List.getElem?_eq_getElem hi, Option.join_some]
    cases area.pma.frames[i] with
    | none => rfl
    | some paddr => rfl
  · rw [hcell i hi, Option.mem_some_iff] at hc
    rw [← hc]

theorem areaAt (h : area.Wf lim) {mem : ByteMem} {mapped : Bool}
    (hg : ∀ n ∈ area.toRange.pages, g n = newCells area mem mapped n) :
    AreaAt lim g area.toRange :=
  ⟨rfl, rfl, _, h.areaOk hg⟩

/-- The pages of an area are pages of the address space. -/
theorem page_lt (h : area.Wf lim) {n : ℕ} (hn : n ∈ area.toRange.pages) : n / 2 ^ 18 < lim := by
  have := h.le
  have := hn.2
  simp only [toRange, PAGE_SIZE] at this
  omega

/-- The index of a page of the area. -/
theorem index_inj (h : area.Wf lim) {n m : ℕ} (hn : n ∈ area.toRange.pages)
    (hm : m ∈ area.toRange.pages)
    (heq : n - area.start / PAGE_SIZE = m - area.start / PAGE_SIZE) : n = m := by
  have hs := h.aligned
  have hn := hn.1
  have hm := hm.1
  simp only [toRange, PageAligned, PAGE_SIZE] at hs hn hm heq
  omega

end VmArea.Wf

variable [FrameAllocator σ] {e : PtEnv} {T : Set ℕ} {L : List (RangeArea (VmArea F))}
variable {s : PageTable × World σ φ}

/-- The frames of a new area are in use, and the address space does not rely on them. -/
structure NewFrames (e : PtEnv) (g : ℕ → Option Cell) (area : VmArea F)
    (s : PageTable × World σ φ) : Prop where
  ok : ∀ {i paddr : ℕ}, area.pma.frames[i]? = some (some paddr) →
    PageAligned paddr ∧ paddr < 2 ^ 56 ∧ paddr ∈ s.2.inUse ∧ paddr ∉ held e g s.1
  inj : ∀ {i j paddr : ℕ}, area.pma.frames[i]? = some (some paddr) →
    area.pma.frames[j]? = some (some paddr) → i = j
  flags : ∀ {i paddr : ℕ}, area.pma.frames[i]? = some (some paddr) → area.flags ≠ 0

omit [FrameAllocator σ] in
theorem newCells_page {mem : ByteMem} {mapped : Bool} {n : ℕ} {pg : Page}
    (h : (newCells area mem mapped n).bind Cell.page = some pg) :
    area.pma.frames[n - area.start / PAGE_SIZE]? = some (some pg.paddr) ∧
      pg.data = pageData mem pg.paddr ∧ pg.mapped = mapped := by
  rw [newCells, Option.bind_some] at h
  obtain ⟨paddr, hpaddr, rfl⟩ := Option.map_eq_some_iff.mp h
  exact ⟨Option.join_eq_some_iff.mp hpaddr, rfl, rfl⟩

omit [FrameAllocator σ] in
/-- Areas that are apart from a new area have none of its pages. -/
theorem Layout.eq_none (h : Layout lim g L) (hapart : ∀ b ∈ L, area.toRange.Apart b) {n : ℕ}
    (hn : n ∈ area.toRange.pages) : g n = none := by
  by_contra hne
  obtain ⟨b, hb, hmem⟩ := h.cover n (Option.isSome_iff_ne_none.mpr hne)
  exact (hapart b hb).notMem_pages hn hmem

omit [FrameAllocator σ] in
/-- Where there are no cells there is no area. -/
theorem Layout.apart_of_eq_none (h : Layout lim g L) (hwf : area.Wf lim)
    (hnone : ∀ n ∈ area.toRange.pages, g n = none) : ∀ b ∈ L, area.toRange.Apart b := by
  intro b hb
  by_contra hapart
  have hat := h.area b hb
  obtain ⟨p, hp, -⟩ := hat.ok
  have hstart := hat.start_page hp
  have hlt := hat.lt
  have hs := hwf.aligned
  have hlt' := hwf.lt
  rw [RangeArea.Apart, not_or, not_le, not_le] at hapart
  obtain ⟨hl, hr⟩ : b.start < area.end_ ∧ area.start < b.end_ := hapart
  -- the later of the two starts is the first address of a page that both have
  have hcommon : ∃ n, n ∈ area.toRange.pages ∧ n ∈ b.pages := by
    simp only [PageAligned, PAGE_SIZE] at hs hstart
    by_cases hle : area.start ≤ b.start
    · refine ⟨p, ⟨?_, ?_⟩, ?_, ?_⟩ <;> simp only [PAGE_SIZE, VmArea.toRange] <;> omega
    · refine ⟨area.start / PAGE_SIZE, ⟨?_, ?_⟩, ?_, ?_⟩ <;>
        simp only [PAGE_SIZE, VmArea.toRange] <;> omega
  obtain ⟨n, hn, hnb⟩ := hcommon
  rw [hat.pages_eq hp] at hnb
  obtain ⟨c, hc, -⟩ := hp.cell (n - p) (by have := hnb.1; have := hnb.2; omega)
  rw [Nat.add_sub_cancel' hnb.1, hnone n hn] at hc
  exact absurd hc (by simp)

/-- The new cells may join the others as pages without an entry. -/
theorem Backed.adopt (hb : Backed e T g s) (hwf : area.Wf e.lim)
    (hnone : ∀ n ∈ area.toRange.pages, g n = none) (hnew : NewFrames e g area s) :
    Backed e T (PointMap.overwrite area.toRange.pages (newCells area s.2.mem false) g) s := by
  have hpage : ∀ n ∉ area.toRange.pages,
      pageAt (PointMap.overwrite area.toRange.pages (newCells area s.2.mem false) g) n
        = pageAt g n := fun n hn ↦ by rw [pageAt, PointMap.overwrite_of_notMem hn, pageAt]
  have hpage' : ∀ n ∈ area.toRange.pages,
      pageAt (PointMap.overwrite area.toRange.pages (newCells area s.2.mem false) g) n
        = (newCells area s.2.mem false n).bind Cell.page := fun n hn ↦ by
    rw [pageAt, PointMap.overwrite_of_mem hn]
  have hheld : ∀ {n pg}, pageAt g n = some pg → pg.paddr ∈ held e g s.1 :=
    fun {n pg} h ↦ Or.inr (Or.inr ⟨n, pg, h, rfl⟩)
  refine ⟨fun {n} hn ↦ ?_, ?_, fun {n pg} hn ↦ ?_, fun {n m pg pg'} hn hm heq ↦ ?_⟩
  · by_cases hmem : n ∈ area.toRange.pages
    · exact hwf.page_lt hmem
    · rw [PointMap.overwrite_of_notMem hmem] at hn
      exact hb.below hn
  · have hsame : entries (PointMap.overwrite area.toRange.pages (newCells area s.2.mem false) g)
        = entries g := by
      funext n
      by_cases hmem : n ∈ area.toRange.pages
      · rw [entries, PointMap.overwrite_of_mem hmem, entries, hnone n hmem, newCells,
          Option.bind_some, Option.bind_none, Cell.entry]
        cases (area.pma.frames[n - area.start / PAGE_SIZE]?).join with
        | none => rfl
        | some paddr => rfl
      · rw [entries, PointMap.overwrite_of_notMem hmem, entries]
    rw [hsame]
    exact hb.table
  · by_cases hmem : n ∈ area.toRange.pages
    · rw [hpage' n hmem] at hn
      obtain ⟨hframe, hdata, -⟩ := newCells_page hn
      obtain ⟨hal, hlt, huse, hnot⟩ := hnew.ok hframe
      exact ⟨hal, hlt, huse, fun h ↦ hnot (Or.inl h), fun h ↦ hnot (Or.inr (Or.inl h)),
        fun i hi ↦ by rw [hdata, pageData, if_pos hi]⟩
    · rw [hpage n hmem] at hn
      exact hb.frames.ok hn
  · by_cases hmem : n ∈ area.toRange.pages
    · rw [hpage' n hmem] at hn
      have hfn := (newCells_page hn).1
      by_cases hmem' : m ∈ area.toRange.pages
      · rw [hpage' m hmem'] at hm
        have hfm := (newCells_page hm).1
        rw [← heq] at hfm
        exact hwf.index_inj hmem hmem' (hnew.inj hfn hfm)
      · rw [hpage m hmem'] at hm
        exact absurd (hheld hm) (heq ▸ (hnew.ok hfn).2.2.2)
    · rw [hpage n hmem] at hn
      by_cases hmem' : m ∈ area.toRange.pages
      · rw [hpage' m hmem'] at hm
        exact absurd (hheld hn) (heq ▸ (hnew.ok (newCells_page hm).1).2.2.2)
      · rw [hpage m hmem'] at hm
        exact hb.frames.inj hn hm heq

variable [FileStore F φ]

/-- A new area in a gap is mapped, or the tables run out of frames. -/
theorem Coherent.wpe_mapArea (h : Coherent e g L s) (hwf : area.Wf e.lim)
    (hapart : ∀ b ∈ L, area.toRange.Apart b) (hnew : NewFrames e g area s) :
    wpe area.mapArea (fun r s' ↦ match r with
      | .ok () => Coherent e (PointMap.overwrite area.toRange.pages
          (newCells area s.2.mem true) g) (area.toRange :: L) s'
      | .error err => err = .pageTable_frameAllocFailed ∧ s'.2.oom = true) noPanic s := by
  obtain ⟨T, hb, hT⟩ := h.backed
  have hb' := hb.adopt hwf (fun n hn ↦ h.layout.eq_none hapart hn) hnew
  have hin : ∀ {b}, ∀ n ∈ area.toRange.pages, PointMap.overwrite area.toRange.pages
      (newCells area s.2.mem b) g n = newCells area s.2.mem b n :=
    fun n hn ↦ PointMap.overwrite_of_mem hn
  obtain ⟨hp, hflags⟩ := hwf.areaOk (hin (b := false))
  have hpages : area.toRange.pages = Set.Ico (area.start / PAGE_SIZE)
      (area.start / PAGE_SIZE + area.pma.frames.length) :=
    (hwf.areaAt (hin (b := false))).pages_eq hp
  refine wpe_imp (Maturin.wpe_mapArea hp hb' hflags fun i hi c hc pg hpg ↦ ?_) fun r s' hr ↦ ?_
  · have hmem : area.start / PAGE_SIZE + i ∈ area.toRange.pages := by
      rw [hpages]
      exact ⟨by omega, Nat.add_lt_add_left hi _⟩
    rw [hin _ hmem] at hc
    have hpage : (newCells area s.2.mem false (area.start / PAGE_SIZE + i)).bind Cell.page
        = some pg := by
      rw [Option.mem_def.mp hc]
      exact hpg
    obtain ⟨hframe, -, hmapped⟩ := newCells_page hpage
    exact ⟨hmapped, hnew.flags hframe⟩
  · rcases r with _ | u
    · exact hr
    · obtain ⟨T', hTT', htabs, hb''⟩ := hr
      have hmap : PointMap.update (Set.Ico (area.start / PAGE_SIZE)
          (area.start / PAGE_SIZE + area.pma.frames.length)) Cell.map
            (PointMap.overwrite area.toRange.pages (newCells area s.2.mem false) g)
          = PointMap.overwrite area.toRange.pages (newCells area s.2.mem true) g := by
        funext n
        by_cases hn : n ∈ area.toRange.pages
        · have hn' := hn
          rw [hpages] at hn'
          rw [PointMap.update_of_mem hn', hin n hn, hin n hn, newCells, newCells, Option.map_some,
            Cell.map, Option.map_map]
          rfl
        · have hn' := hn
          rw [hpages] at hn'
          rw [PointMap.update_of_notMem hn', PointMap.overwrite_of_notMem hn,
            PointMap.overwrite_of_notMem hn]
      rw [hmap] at hb''
      refine ⟨h.layout.cons (hwf.areaAt (hin (b := true))) hapart fun n hn ↦
        PointMap.overwrite_of_notMem hn, T', hb'', fun n hn ↦ ?_⟩
      by_cases hmem : n ∈ area.toRange.pages
      · rw [hpages] at hmem
        obtain ⟨i, rfl⟩ : ∃ i, n = area.start / PAGE_SIZE + i :=
          ⟨n - area.start / PAGE_SIZE, by have := hmem.1; omega⟩
        exact htabs i (Nat.add_lt_add_iff_left.mp hmem.2)
      · rw [PointMap.overwrite_of_notMem hmem] at hn
        exact hTT' (hT n hn)

end Maturin
