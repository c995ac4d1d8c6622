import Maturin.Memory.Files
import Maturin.RangeActionMap.Strict

/-!
# Areas and the page table agree

`Coherent e g L s` says that the areas `L` and the page table on the state `s` agree on the cells
`g`: every area is made of whole pages, its frame vector has one entry for each page, the frames in
it are those of the cells, and the page table realises the cells. Areas are described by the number
`p` of their first page, so that page `p + i` belongs to index `i` of the frame vector.

The loops of `VmArea` treat one page after another. Each is proved by an invariant indexed by the
number of pages treated, which changes the cells on `[p, p + i)`. From them follow the laws that
make areas segments of the range map.
-/

open Exec

namespace Maturin

variable {σ φ F : Type}

/-- The area starts at page `p` and has a frame or none for each of its pages, like the cells. -/
structure AreaOk (lim : ℕ) (g : ℕ → Option Cell) (p : ℕ) (area : VmArea F) : Prop where
  start_eq : area.start = p * PAGE_SIZE
  end_eq : area.end_ = (p + area.pma.frames.length) * PAGE_SIZE
  pos : 0 < area.pma.frames.length
  le : p + area.pma.frames.length ≤ lim * 2 ^ 18
  cell : ∀ i < area.pma.frames.length, ∃ c, g (p + i) = some c ∧
    area.pma.frames[i]? = some (c.page.map Page.paddr)

/-- The cells of the area have its flags. -/
def FlagsOk (g : ℕ → Option Cell) (p : ℕ) (area : VmArea F) : Prop :=
  ∀ i < area.pma.frames.length, ∀ c ∈ g (p + i), c.flags = area.flags

/-- The pages of an interval of the range map. -/
def RangeArea.pages {S : Type} (a : RangeArea S) : Set ℕ := {n | n * PAGE_SIZE ∈ a.range}

/-- The interval and its area agree with each other and with the cells. -/
structure AreaAt (lim : ℕ) (g : ℕ → Option Cell) (a : RangeArea (VmArea F)) : Prop where
  start_eq : a.segment.start = a.start
  end_eq : a.segment.end_ = a.end_
  ok : ∃ p, AreaOk lim g p a.segment ∧ FlagsOk g p a.segment

/-- The areas partition the domain of the cells into whole pages. -/
structure Layout (lim : ℕ) (g : ℕ → Option Cell) (L : List (RangeArea (VmArea F))) : Prop where
  area : ∀ a ∈ L, AreaAt lim g a
  apart : L.Pairwise RangeArea.Apart
  cover : ∀ n, (g n).isSome → ∃ a ∈ L, n ∈ a.pages

/-- The areas, the page table and the memory agree on the cells. -/
structure Coherent [FrameAllocator σ] (e : PtEnv) (g : ℕ → Option Cell)
    (L : List (RangeArea (VmArea F))) (s : PageTable × World σ φ) : Prop where
  layout : Layout e.lim g L
  backed : ∃ T, Backed e T g s ∧ ∀ n, (g n).isSome → n / 512 ∈ T

/-! ## Pages of an area -/

theorem Ico_succ (p i : ℕ) : Set.Ico p (p + (i + 1)) = insert (p + i) (Set.Ico p (p + i)) := by
  ext n
  rw [Set.mem_insert_iff, Set.mem_Ico, Set.mem_Ico]
  omega

theorem Ico_zero (p : ℕ) : Set.Ico p (p + 0) = ∅ := Set.Ico_self p

theorem notMem_Ico_add (p i : ℕ) : p + i ∉ Set.Ico p (p + i) := fun h ↦ lt_irrefl _ h.2

theorem pagesIn_eq (p k : ℕ) :
    pagesIn (p * PAGE_SIZE) ((p + k) * PAGE_SIZE) = (List.range k).map fun i ↦
      (p + i) * PAGE_SIZE := by
  have hcount : ((p + k) * PAGE_SIZE - p * PAGE_SIZE + (PAGE_SIZE - 1)) / PAGE_SIZE = k := by
    simp only [PAGE_SIZE]
    omega
  rw [pagesIn, hcount]
  refine List.map_congr_left fun i _ ↦ ?_
  rw [Nat.add_mul]

namespace AreaOk

variable {lim : ℕ} {g : ℕ → Option Cell} {p i : ℕ} {area : VmArea F}

theorem pagesIn_eq (h : AreaOk lim g p area) :
    pagesIn area.start area.end_ = (List.range area.pma.frames.length).map fun i ↦
      (p + i) * PAGE_SIZE := by
  rw [h.start_eq, h.end_eq, Maturin.pagesIn_eq]

/-- The index that the methods compute from the address of a page. -/
theorem index_eq (h : AreaOk lim g p area) (i : ℕ) :
    ((p + i) * PAGE_SIZE - area.start) / PAGE_SIZE = i := by
  rw [h.start_eq]
  simp only [PAGE_SIZE]
  omega

theorem end_lt (h : AreaOk lim g p area) (hlim : lim ≤ 512) : area.end_ < 2 ^ 64 := by
  have := h.le
  rw [h.end_eq]
  simp only [PAGE_SIZE]
  omega

theorem size_eq (h : AreaOk lim g p area) : area.pma.size = area.end_ - area.start := by
  rw [PmAreaLazy.size, h.start_eq, h.end_eq, Nat.add_mul, Nat.add_sub_cancel_left]

/-- Only the cells of the area matter. -/
theorem congr {g' : ℕ → Option Cell} (h : AreaOk lim g p area)
    (hg : ∀ n ∈ Set.Ico p (p + area.pma.frames.length), g' n = g n) : AreaOk lim g' p area where
  start_eq := h.start_eq
  end_eq := h.end_eq
  pos := h.pos
  le := h.le
  cell i hi := by
    rw [hg _ ⟨by omega, by omega⟩]
    exact h.cell i hi

end AreaOk

namespace AreaAt

variable {lim p : ℕ} {g g' : ℕ → Option Cell} {a b : RangeArea (VmArea F)}

theorem start_page (h : AreaAt lim g a) (hp : AreaOk lim g p a.segment) :
    a.start = p * PAGE_SIZE := by
  rw [← h.start_eq, hp.start_eq]

theorem end_page (h : AreaAt lim g a) (hp : AreaOk lim g p a.segment) :
    a.end_ = (p + a.segment.pma.frames.length) * PAGE_SIZE := by
  rw [← h.end_eq, hp.end_eq]

theorem pages_eq (h : AreaAt lim g a) (hp : AreaOk lim g p a.segment) :
    a.pages = Set.Ico p (p + a.segment.pma.frames.length) := by
  ext n
  rw [RangeArea.pages, Set.mem_ofPred_eq, RangeArea.mem_range, h.start_page hp, h.end_page hp,
    Set.mem_Ico]
  simp only [PAGE_SIZE]
  omega

/-- An area is made of whole pages. -/
theorem mem_range_iff (h : AreaAt lim g a) (x : ℕ) : x ∈ a.range ↔ x / PAGE_SIZE ∈ a.pages := by
  obtain ⟨p, hp, -⟩ := h.ok
  rw [h.pages_eq hp, RangeArea.mem_range, h.start_page hp, h.end_page hp, Set.mem_Ico]
  simp only [PAGE_SIZE]
  omega

theorem lt (h : AreaAt lim g a) : a.start < a.end_ := by
  obtain ⟨p, hp, -⟩ := h.ok
  have := hp.pos
  rw [h.start_page hp, h.end_page hp]
  exact Nat.mul_lt_mul_of_pos_right (by omega) (by norm_num)

/-- Only the cells of the area matter. -/
theorem congr (h : AreaAt lim g a) (hg : ∀ n ∈ a.pages, g' n = g n) : AreaAt lim g' a where
  start_eq := h.start_eq
  end_eq := h.end_eq
  ok := by
    obtain ⟨p, hp, hflags⟩ := h.ok
    rw [h.pages_eq hp] at hg
    refine ⟨p, hp.congr hg, fun i hi c hc ↦ hflags i hi c ?_⟩
    rwa [hg _ ⟨by omega, by omega⟩] at hc

end AreaAt

/-- Areas that are apart share no page. -/
theorem RangeArea.Apart.notMem_pages {S : Type} {a b : RangeArea S} (h : a.Apart b) {n : ℕ}
    (hn : n ∈ a.pages) : n ∉ b.pages := h.notMem hn

namespace Layout

variable {lim : ℕ} {g g' : ℕ → Option Cell} {a : RangeArea (VmArea F)}
variable {L L' : List (RangeArea (VmArea F))}

theorem perm (h : L.Perm L') (hL : Layout lim g L) : Layout lim g L' where
  area a ha := hL.area a (h.mem_iff.mpr ha)
  apart := h.pairwise hL.apart RangeArea.Apart.symm
  cover n hn := by
    obtain ⟨a, ha, hmem⟩ := hL.cover n hn
    exact ⟨a, h.mem_iff.mp ha, hmem⟩

/-- Without its first area, the layout has the other cells. -/
theorem tail (h : Layout lim g (a :: L)) : Layout lim (PointMap.erase a.pages g) L where
  area b hb := by
    have hapart := (List.pairwise_cons.mp h.apart).1 b hb
    exact (h.area b (List.mem_cons_of_mem a hb)).congr fun n hn ↦
      PointMap.erase_of_notMem (hapart.symm.notMem_pages hn)
  apart := (List.pairwise_cons.mp h.apart).2
  cover n hn := by
    obtain ⟨b, hb, hmem⟩ := h.cover n (PointMap.isSome_of_isSome_erase hn)
    rcases List.mem_cons.mp hb with rfl | hb
    · rw [PointMap.erase_of_mem hmem] at hn
      exact absurd hn (by simp)
    · exact ⟨b, hb, hmem⟩

/-- An area may be added, with any cells for its pages. -/
theorem cons (h : Layout lim g L) (ha : AreaAt lim g' a) (hapart : ∀ b ∈ L, a.Apart b)
    (hg : ∀ n ∉ a.pages, g' n = g n) : Layout lim g' (a :: L) where
  area b hb := by
    rcases List.mem_cons.mp hb with rfl | hb
    · exact ha
    · exact (h.area b hb).congr fun n hn ↦ hg n ((hapart b hb).symm.notMem_pages hn)
  apart := List.pairwise_cons.mpr ⟨hapart, h.apart⟩
  cover n hn := by
    by_cases hmem : n ∈ a.pages
    · exact ⟨a, List.mem_cons_self, hmem⟩
    · rw [hg n hmem] at hn
      obtain ⟨b, hb, hmem⟩ := h.cover n hn
      exact ⟨b, List.mem_cons_of_mem a hb, hmem⟩

/-- An area ends inside the address space. -/
theorem end_lt (h : Layout lim g L) (hlim : lim ≤ 512) (ha : a ∈ L) : a.end_ < 2 ^ 64 := by
  have hat := h.area a ha
  obtain ⟨p, hp, -⟩ := hat.ok
  rw [← hat.end_eq]
  exact hp.end_lt hlim

/-- The first area may be replaced by one with the same interval. -/
theorem set (h : Layout lim g (a :: L)) {area : VmArea F}
    (ha : AreaAt lim g' ⟨a.start, a.end_, area⟩) (hg : ∀ n ∉ a.pages, g' n = g n) :
    Layout lim g' (⟨a.start, a.end_, area⟩ :: L) :=
  h.tail.cons ha (List.pairwise_cons.mp h.apart).1 fun n hn ↦
    (hg n hn).trans (PointMap.erase_of_notMem (I := a.pages) hn).symm

end Layout

/-! ## The frame vector -/

section frames

variable [FrameAllocator σ] [FileStore F φ] {pma : PmAreaLazy F} {w : World σ φ} {i : ℕ}

/-- Looking at a frame changes nothing. -/
theorem wp_getFrame_false {v : Option ℕ} (h : pma.frames[i]? = some v)
    {Q : Except OSError (Option ℕ) × PmAreaLazy F → World σ φ → Prop}
    {E : Panic → World σ φ → Prop} :
    wp (pma.getFrame i false) Q E w ↔ Q (.ok v, pma) w := by
  rw [PmAreaLazy.getFrame, h]
  cases v with
  | none => rfl
  | some paddr => rfl

/-- Releasing a page that has no frame is an error that changes nothing. -/
theorem wp_releaseFrame_none (h : pma.frames[i]? = some none)
    {Q : Except OSError Unit × PmAreaLazy F → World σ φ → Prop}
    {E : Panic → World σ φ → Prop} :
    wp (pma.releaseFrame i) Q E w ↔ Q (.error .pmAreaLazy_releaseNotAllocatedPage, pma) w := by
  rw [PmAreaLazy.releaseFrame, h]
  rfl

/-- Releasing a frame gives it back, after its contents went to the file. -/
theorem wp_releaseFrame_some {paddr : ℕ} (h : pma.frames[i]? = some (some paddr)) :
    wp (pma.releaseFrame i) (fun r w' ↦
      r = (.ok (), { pma with frames := pma.frames.set i none }) ∧
        (w'.inUse = w.inUse \ {paddr} ∧ w'.mem = w.mem ∧ w'.oom = w.oom) ∧
        FileRun (writeOps (w.mem.readBytes paddr PAGE_SIZE)
          (pma.backend.map (·.split (i * PAGE_SIZE)))) w.files w'.files) noPanic w := by
  -- the frame goes back, and the files stay as the write left them
  have hdrop : ∀ files : φ, wp (frameDrop paddr) (fun _ w' ↦
      (w'.inUse = w.inUse \ {paddr} ∧ w'.mem = w.mem ∧ w'.oom = w.oom) ∧ w'.files = files)
      noPanic { w with files } := fun files ↦
    wp_mono (wp_and (s := { w with files }) wp_frameDrop
      (maintains_frameDrop (J := fun t ↦ t = files) paddr { w with files } rfl))
      (fun _ _ hw ↦ hw) fun _ _ hw ↦ hw.1
  rw [PmAreaLazy.releaseFrame, h]
  cases hb : pma.backend with
  | none =>
    dsimp only
    rw [wp_bind]
    exact wp_imp (hdrop w.files) fun _ w' hw ↦ ⟨rfl, hw.1, hw.2 ▸ .nil _⟩
  | some backend =>
    dsimp only
    rw [wp_bind, wp_get, wp_bind]
    refine wp_imp (wp_writeToOffset_run backend _ _) fun _ w₁ hw₁ ↦ ?_
    obtain ⟨files, rfl, hrun⟩ := hw₁
    rw [wp_bind]
    exact wp_imp (hdrop files) fun _ w' hw ↦ ⟨rfl, hw.1, hw.2 ▸ hrun⟩

end frames

/-! ## Loops over the pages of an area -/

section loops

variable [FrameAllocator σ] {e : PtEnv} {T : Set ℕ} {g : ℕ → Option Cell}
variable {s : PageTable × World σ φ} {p i : ℕ} {area : VmArea F} {c : Cell}

/-- A page without a frame may leave the cells. -/
theorem Backed.forget {n : ℕ} (h : Backed e T g s) (hg : pageAt g n = none) :
    Backed e T (Function.update g n none) s := by
  refine h.update (fun h ↦ absurd h (by simp)) ?_ (h.frames.update_noPage rfl)
  rw [Option.bind_none, entries]
  cases hn : g n with
  | none => rw [Option.bind_none]
  | some c =>
    rw [pageAt, hn, Option.bind_some] at hg
    rw [Option.bind_some, Cell.entry, hg, Option.bind_none]

variable [FileStore F φ]

/-- `modify_area_flags` gives the cells of the area its flags. -/
theorem wpe_modifyAreaFlags (h : AreaOk e.lim g p area) (hb : Backed e T g s)
    (hfree : ∀ i < area.pma.frames.length, ∀ c ∈ g (p + i), c.Free) :
    wpe area.modifyAreaFlags (fun r s' ↦ r = .ok () ∧
      Backed e T (PointMap.update (Set.Ico p (p + area.pma.frames.length))
        (Cell.withFlags area.flags) g) s') noPanic s := by
  have hlen : (pagesIn area.start area.end_).length = area.pma.frames.length := by
    rw [h.pagesIn_eq, List.length_map, List.length_range]
  rw [VmArea.modifyAreaFlags]
  refine wpe_forM (fun i s' ↦ Backed e T (PointMap.update (Set.Ico p (p + i))
    (Cell.withFlags area.flags) g) s') (fun i hi s' hs ↦ ?_) (fun t ht ↦ ⟨rfl, ?_⟩) ?_
  · have hi' := hi
    rw [hlen] at hi'
    obtain ⟨c, hc, hframe⟩ := h.cell i hi'
    have hpage : (pagesIn area.start area.end_)[i] = (p + i) * PAGE_SIZE := by
      simp only [h.pagesIn_eq, List.getElem_map, List.getElem_range]
    -- the pages before are done, and this one is as it was
    have hcell : PointMap.update (Set.Ico p (p + i)) (Cell.withFlags area.flags) g (p + i)
        = some c := by
      rw [PointMap.update_of_notMem (notMem_Ico_add p i), hc]
    rw [hpage, wpe_bind, wpe_lift, wp_onSnd, h.index_eq, wp_getFrame_false hframe, Ico_succ,
      PointMap.update_insert, hc, Option.map_some]
    dsimp only
    cases hpg : c.page with
    | none =>
      refine hs.update (fun _ ↦ hs.below (by rw [hcell]; rfl)) ?_ (hs.frames.update_noPage ?_)
      · rw [entries, hcell, Option.bind_some, Option.bind_some, Cell.entry, Cell.entry,
          Cell.withFlags, hpg, Option.bind_none, Option.bind_none]
      · rw [Option.bind_some, Cell.withFlags, hpg]
    | some pg =>
      rw [Option.map_some]
      dsimp only
      rw [wpe_lift, wp_unwrap]
      refine wpe_imp (hs.wpe_setFlags hcell hpg (hfree i hi' c hc pg hpg) area.flags)
        fun r s'' hr ↦ ?_
      rw [hr.1]
      exact hr.2
  · rwa [Ico_zero, PointMap.update_empty]
  · rwa [hlen] at ht

/-- The operations that release the pages of the area from index `i` on. -/
def VmArea.releaseOps (area : VmArea F) (g : ℕ → Option Cell) (p i m : ℕ) : List (FileOp F) :=
  (List.range' i m).flatMap fun j ↦
    Maturin.releaseOps (pageAt g (p + j)) (area.pma.backend.map (·.split (j * PAGE_SIZE)))

/-- The loop of `unmap_area_partial` at index `i`, where the page may go; the pages before it are
gone already. -/
theorem wp_unmapPages_cons {start : ℕ} {pma : PmAreaLazy F} {rest : List ℕ}
    {Q : Except OSError Unit × PmAreaLazy F → PageTable × World σ φ → Prop}
    {E : Panic → PageTable × World σ φ → Prop} (hstart : start = p * PAGE_SIZE)
    (hlt : (p + i) * PAGE_SIZE < 2 ^ 64) (hb : Backed e T (PointMap.erase (Set.Ico p (p + i)) g) s)
    (hc : g (p + i) = some c) (hfree : c.Free)
    (hframe : pma.frames[i]? = some (c.page.map Page.paddr))
    (hrest : ∀ pma' s', pma'.backend = pma.backend →
      (∀ j, i < j → pma'.frames[j]? = pma.frames[j]?) →
      Backed e T (PointMap.erase (Set.Ico p (p + (i + 1))) g) s' →
      FileRun (releaseOps c.page (pma.backend.map (·.split (i * PAGE_SIZE)))) s.2.files s'.2.files →
      wp (VmArea.unmapPages start rest pma') Q E s') :
    wp (VmArea.unmapPages start ((p + i) * PAGE_SIZE :: rest) pma) Q E s := by
  have hindex : wsub ((p + i) * PAGE_SIZE) start / PAGE_SIZE = i := by
    simp only [wsub, PAGE_SIZE] at hstart hlt ⊢
    omega
  have hgone : PointMap.erase (Set.Ico p (p + i)) g (p + i) = some c := by
    rw [PointMap.erase_of_notMem (notMem_Ico_add p i), hc]
  rw [VmArea.unmapPages, wp_bind, wp_onSnd, hindex]
  cases hpg : c.page with
  | none =>
    rw [hpg] at hframe hrest
    rw [wp_releaseFrame_none hframe]
    refine hrest pma s rfl (fun _ _ ↦ rfl) ?_ (.nil _)
    rw [Ico_succ, PointMap.erase_insert]
    exact hb.forget (by rw [pageAt, hgone, Option.bind_some, hpg])
  | some pg =>
    rw [hpg] at hframe hrest
    -- what is written are the bytes of the page
    have hok : PageOk e s pg := hb.frames.ok (n := p + i) (by rw [pageAt, hgone]; exact hpg)
    have hbytes : s.2.mem.readBytes pg.paddr PAGE_SIZE = pg.bytes :=
      List.map_congr_left fun x hx ↦ hok.data x (List.mem_range.mp hx)
    refine wp_mono (wp_releaseFrame_some hframe) (fun r w hr ↦ ?_) fun _ _ h ↦ h.elim
    obtain ⟨rfl, ⟨huse, hmem, hoom⟩, hrun⟩ := hr
    rw [hbytes] at hrun
    dsimp only
    rw [wp_bind, wp_run]
    refine wp_mono (wp_and (hb.wpe_unmap hgone hpg (hfree pg hpg) huse hmem hoom)
      (PageTable.maintains_unmap (J := fun t ↦ t = w.files) _ (s.1, w) rfl)) (fun r s' hr ↦ ?_)
      fun _ _ h ↦ h.1.elim
    obtain ⟨⟨rfl, hb'⟩, hfiles⟩ := hr
    refine hrest _ s' rfl (fun j hj ↦ List.getElem?_set_ne (by omega)) ?_ (hfiles ▸ hrun)
    rw [Ico_succ, PointMap.erase_insert]
    have := hb'.forget (n := p + i) (by rw [pageAt_update_self]; rfl)
    rwa [Function.update_idem] at this

/-- The loop of `unmap_area_partial` from index `i` on. -/
theorem wp_unmapPages {start k : ℕ} (hstart : start = p * PAGE_SIZE)
    (hlt : (p + k) * PAGE_SIZE < 2 ^ 64) (m : ℕ) {pma : PmAreaLazy F} (hm : i + m = k)
    (hbackend : pma.backend = area.pma.backend)
    (hb : Backed e T (PointMap.erase (Set.Ico p (p + i)) g) s)
    (hcell : ∀ j, i ≤ j → j < k → ∃ c, g (p + j) = some c ∧ c.Free ∧
      pma.frames[j]? = some (c.page.map Page.paddr)) :
    wp (VmArea.unmapPages start ((List.range' i m).map fun j ↦ (p + j) * PAGE_SIZE) pma)
      (fun r s' ↦ r.1 = .ok () ∧ Backed e T (PointMap.erase (Set.Ico p (p + k)) g) s' ∧
        FileRun (area.releaseOps g p i m) s.2.files s'.2.files)
      noPanic s := by
  induction m generalizing i pma s with
  | zero =>
    rw [List.range'_zero, List.map_nil, VmArea.unmapPages, wp_pure, ← hm, Nat.add_zero]
    exact ⟨rfl, hb, .nil _⟩
  | succ m ih =>
    obtain ⟨c, hc, hfree, hframe⟩ := hcell i le_rfl (by omega)
    have hat : pageAt g (p + i) = c.page := by rw [pageAt, hc, Option.bind_some]
    rw [List.range'_succ, List.map_cons]
    have hlt' : (p + i) * PAGE_SIZE < 2 ^ 64 :=
      (Nat.mul_le_mul_right _ (by omega)).trans_lt hlt
    refine wp_unmapPages_cons hstart hlt' hb hc hfree hframe
      fun pma' s' hbackend' hsame hb' hrun ↦ ?_
    refine wp_imp (ih (by omega) (hbackend'.trans hbackend) hb' fun j hij hj ↦ ?_) fun r s'' hr ↦ ?_
    · rw [hsame j (by omega)]
      exact hcell j (by omega) hj
    · rw [hbackend] at hrun
      rw [VmArea.releaseOps, List.range'_succ, List.flatMap_cons, hat]
      exact ⟨hr.1, hr.2.1, hrun.append hr.2.2⟩

/-- The loop does not get past a page with a frame that was not entered. -/
theorem wp_unmapPages_of_not_free {start k : ℕ} (hstart : start = p * PAGE_SIZE)
    (hlt : (p + k) * PAGE_SIZE < 2 ^ 64) (m : ℕ) {pma : PmAreaLazy F} (hm : i + m = k)
    (hb : Backed e T (PointMap.erase (Set.Ico p (p + i)) g) s)
    (hcell : ∀ j, i ≤ j → j < k → ∃ c, g (p + j) = some c ∧
      pma.frames[j]? = some (c.page.map Page.paddr))
    (hnot : ∃ j, i ≤ j ∧ j < k ∧ ∃ c ∈ g (p + j), ¬c.Free) :
    wp (VmArea.unmapPages start ((List.range' i m).map fun j ↦ (p + j) * PAGE_SIZE) pma)
      (fun r _ ↦ ∃ err, r.1 = .error err) noPanic s := by
  induction m generalizing i pma s with
  | zero =>
    obtain ⟨j, hij, hj, -⟩ := hnot
    omega
  | succ m ih =>
    obtain ⟨c, hc, hframe⟩ := hcell i le_rfl (by omega)
    have hlt' : (p + i) * PAGE_SIZE < 2 ^ 64 :=
      (Nat.mul_le_mul_right _ (by omega)).trans_lt hlt
    rw [List.range'_succ, List.map_cons]
    by_cases hfree : c.Free
    · refine wp_unmapPages_cons hstart hlt' hb hc hfree hframe fun pma' s' _ hsame hb' _ ↦
        ih (by omega) hb' (fun j hij hj ↦ ?_) ?_
      · rw [hsame j (by omega)]
        exact hcell j (by omega) hj
      · obtain ⟨j, hij, hj, c', hc', hnot⟩ := hnot
        refine ⟨j, lt_of_le_of_ne hij ?_, hj, c', hc', hnot⟩
        rintro rfl
        obtain rfl := Option.some.inj (hc.symm.trans hc')
        exact hnot hfree
    · -- the frame goes back, but its entry is not mapped
      simp only [Cell.Free, not_forall, Bool.not_eq_true] at hfree
      obtain ⟨pg, hpg, hmapped⟩ := hfree
      rw [Option.mem_def.mp hpg] at hframe
      have hindex : wsub ((p + i) * PAGE_SIZE) start / PAGE_SIZE = i := by
        simp only [wsub, PAGE_SIZE] at hstart hlt' ⊢
        omega
      have hgone : PointMap.erase (Set.Ico p (p + i)) g (p + i) = some c := by
        rw [PointMap.erase_of_notMem (notMem_Ico_add p i), hc]
      rw [VmArea.unmapPages, wp_bind, wp_onSnd, hindex]
      refine wp_imp (wp_releaseFrame_some hframe) fun r w hr ↦ ?_
      obtain ⟨rfl, ⟨huse, hmem, hoom⟩, -⟩ := hr
      dsimp only
      rw [wp_bind, wp_run]
      refine wpe_imp (hb.wpe_unmap_of_not_mapped hgone hpg hmapped huse hmem hoom) fun r s' hr ↦ ?_
      obtain ⟨err, rfl⟩ := hr
      exact ⟨err, rfl⟩

/-- `unmap_area` takes the pages of the area away. -/
theorem wp_unmapArea (h : AreaOk e.lim g p area) (hb : Backed e T g s)
    (hfree : ∀ i < area.pma.frames.length, ∀ c ∈ g (p + i), c.Free) :
    wp area.unmapArea (fun r s' ↦ r.1 = .ok () ∧
      Backed e T (PointMap.erase (Set.Ico p (p + area.pma.frames.length)) g) s' ∧
      FileRun (area.releaseOps g p 0 area.pma.frames.length) s.2.files s'.2.files) noPanic s := by
  rw [VmArea.unmapArea, VmArea.unmapAreaPartial, wp_bind, h.pagesIn_eq, List.range_eq_range']
  refine wp_imp (wp_unmapPages h.start_eq (h.end_eq ▸ h.end_lt hb.table.lim_le) _ (Nat.zero_add _)
    rfl ?_ fun j _ hj ↦ ?_) fun r s' hr ↦ hr
  · rwa [Ico_zero, PointMap.erase_empty]
  · obtain ⟨c, hc, hframe⟩ := h.cell j hj
    exact ⟨c, hc, hfree j hj c hc, hframe⟩

/-- `unmap_area` fails if it takes a frame away that was not entered. -/
theorem wp_unmapArea_of_not_free (h : AreaOk e.lim g p area) (hb : Backed e T g s)
    (hnot : ∃ i < area.pma.frames.length, ∃ c ∈ g (p + i), ¬c.Free) :
    wp area.unmapArea (fun r _ ↦ ∃ err, r.1 = .error err) noPanic s := by
  have hb' : Backed e T (PointMap.erase (Set.Ico p (p + 0)) g) s := by
    rwa [Ico_zero, PointMap.erase_empty]
  obtain ⟨i, hi, hnot⟩ := hnot
  rw [VmArea.unmapArea, VmArea.unmapAreaPartial, wp_bind, h.pagesIn_eq, List.range_eq_range']
  exact wp_imp (wp_unmapPages_of_not_free h.start_eq (h.end_eq ▸ h.end_lt hb.table.lim_le) _
    (Nat.zero_add _) hb' (fun j _ hj ↦ h.cell j hj) ⟨i, Nat.zero_le i, hi, hnot⟩) fun r s' hr ↦ hr

/-- `map_area` maps the frames of the area, and creates the tables of the other pages. -/
theorem wpe_mapArea (h : AreaOk e.lim g p area) (hb : Backed e T g s) (hflags : FlagsOk g p area)
    (hnew : ∀ i < area.pma.frames.length, ∀ c ∈ g (p + i), ∀ pg ∈ c.page,
      pg.mapped = false ∧ area.flags ≠ 0) :
    wpe area.mapArea (fun r s' ↦ match r with
      | .ok () => ∃ T', T ⊆ T' ∧ (∀ i < area.pma.frames.length, (p + i) / 512 ∈ T') ∧
          Backed e T' (PointMap.update (Set.Ico p (p + area.pma.frames.length)) Cell.map g) s'
      | .error err => err = .pageTable_frameAllocFailed ∧ s'.2.oom = true) noPanic s := by
  have hlen : (pagesIn area.start area.end_).length = area.pma.frames.length := by
    rw [h.pagesIn_eq, List.length_map, List.length_range]
  rw [VmArea.mapArea]
  refine wpe_forM (fun i s' ↦ ∃ T', T ⊆ T' ∧ (∀ j < i, (p + j) / 512 ∈ T') ∧
    Backed e T' (PointMap.update (Set.Ico p (p + i)) Cell.map g) s')
    (fun i hi s' hs ↦ ?_) ?_ ?_
  · have hi' := hi
    rw [hlen] at hi'
    obtain ⟨T', hT, hbefore, hs⟩ := hs
    obtain ⟨c, hc, hframe⟩ := h.cell i hi'
    have hpage : (pagesIn area.start area.end_)[i] = (p + i) * PAGE_SIZE := by
      simp only [h.pagesIn_eq, List.getElem_map, List.getElem_range]
    have hcell : PointMap.update (Set.Ico p (p + i)) Cell.map g (p + i) = some c := by
      rw [PointMap.update_of_notMem (notMem_Ico_add p i), hc]
    -- the table of the page is there, and so are those of the pages before
    have htabs : ∀ j < i + 1, (p + j) / 512 ∈ insert ((p + i) / 512) T' := by
      intro j hj
      by_cases hji : j = i
      · exact hji ▸ Set.mem_insert _ _
      · exact Set.mem_insert_of_mem _ (hbefore j (by omega))
    rw [hpage, wpe_bind, wpe_lift, wp_onSnd, h.index_eq, wp_getFrame_false hframe]
    dsimp only
    cases hpg : c.page with
    | none =>
      have hmap : some c.map = (g (p + i)).map Cell.map := by rw [hc, Option.map_some]
      have hsame : c.map = c := by rw [Cell.map, hpg, Option.map_none, ← hpg]
      rw [Option.map_none]
      refine wpe_imp (hs.wpe_map_empty (hs.below (by rw [hcell]; rfl)) ?_) fun r s'' hr ↦ ?_
      · rw [entries, hcell, Option.bind_some, Cell.entry, hpg, Option.bind_none]
      · rcases r with e' | u
        · exact ⟨hr.1, hr.2.2⟩
        · refine ⟨_, hT.trans (Set.subset_insert _ _), htabs, ?_⟩
          rw [Ico_succ, PointMap.update_insert, ← hmap, hsame, ← hcell, Function.update_eq_self]
          exact hr
    | some pg =>
      obtain ⟨hmapped, hne⟩ := hnew i hi' c hc pg hpg
      have hfl := hflags i hi' c hc
      rw [Option.map_some, ← hfl]
      refine wpe_imp (hs.wpe_map hcell hpg hmapped (hfl ▸ hne)) fun r s'' hr ↦ ?_
      rcases r with e' | u
      · exact ⟨hr.1, hr.2.2⟩
      · refine ⟨_, hT.trans (Set.subset_insert _ _), htabs, ?_⟩
        rw [Ico_succ, PointMap.update_insert, hc, Option.map_some]
        exact hr
  · intro t ht
    rwa [hlen] at ht
  · refine ⟨T, subset_rfl, fun j hj ↦ absurd hj (Nat.not_lt_zero j), ?_⟩
    rwa [Ico_zero, PointMap.update_empty]

end loops

/-! ## Cutting an area -/

section split

variable [FrameAllocator σ] [FileStore F φ] {s : PageTable × World σ φ}
variable {lim p m : ℕ} {g : ℕ → Option Cell} {area : VmArea F}

/-- A frame vector is cut at a page. -/
theorem wpe_split {pma : PmAreaLazy F} {w : World σ φ} (hm : m < pma.frames.length) :
    wpe (pma.split (m * PAGE_SIZE) (m * PAGE_SIZE)) (fun r w' ↦ w' = w ∧
      ∃ left right, r = .ok (left, right) ∧ left.frames = pma.frames.take m ∧
        right.frames = pma.frames.drop m ∧ left.backend = pma.backend ∧
        right.backend = pma.backend.map (·.split (m * PAGE_SIZE))) noPanic w := by
  have hid : addrToPageId (m * PAGE_SIZE) = m := Nat.mul_div_cancel m (by norm_num)
  have hsize : m * PAGE_SIZE < pma.size :=
    Nat.mul_lt_mul_of_pos_right hm (by norm_num)
  rw [PmAreaLazy.split, if_pos ⟨le_rfl, hsize⟩, hid, Nat.sub_self, List.range'_zero, wpe_bind,
    wpe_lift, PmAreaLazy.releaseFrames, wp_pure]
  refine ⟨rfl, _, _, rfl, ?_, rfl, rfl, rfl⟩
  rw [List.take_take, min_self]

omit [FrameAllocator σ] [FileStore F φ] in
/-- `VmArea::new` keeps a page-aligned range. -/
theorem VmArea.new_eq {start end_ : ℕ} {flags : PTEFlags} {pma : PmAreaLazy F}
    (hlt : start < end_) (hend : end_ < 2 ^ 64) (hs : PageAligned start) (he : PageAligned end_)
    (hsize : pma.size = end_ - start) :
    VmArea.new start end_ flags pma = .ok { start, end_, flags, pma } := by
  have hdown : alignDown start = start := alignDown_of_pageAligned hs
  have hup : alignUp end_ = end_ := alignUp_of_pageAligned he hend
  have hsub : wsub end_ start = pma.size := by rw [wsub_of_le hlt.le hend, hsize]
  rw [VmArea.new, if_neg (not_le.mpr hlt), hdown, hup, if_neg (not_not.mpr hsub)]

omit [FrameAllocator σ] [FileStore F φ] in
/-- The pages before a cut. -/
theorem AreaOk.take (h : AreaOk lim g p area) (hm : 0 < m) (hlt : m < area.pma.frames.length)
    {pma : PmAreaLazy F} (hpma : pma.frames = area.pma.frames.take m) :
    AreaOk lim g p { area with end_ := (p + m) * PAGE_SIZE, pma } := by
  have hlen : pma.frames.length = m := by rw [hpma, List.length_take]; omega
  have hle := h.le
  refine ⟨h.start_eq, by rw [hlen], by rwa [hlen], by rw [hlen]; omega, fun i hi ↦ ?_⟩
  rw [hlen] at hi
  obtain ⟨c, hc, hframe⟩ := h.cell i (hi.trans hlt)
  exact ⟨c, hc, by rw [hpma, List.getElem?_take_of_lt hi, hframe]⟩

omit [FrameAllocator σ] [FileStore F φ] in
/-- The pages behind a cut. -/
theorem AreaOk.drop (h : AreaOk lim g p area) (hlt : m < area.pma.frames.length)
    {pma : PmAreaLazy F} (hpma : pma.frames = area.pma.frames.drop m) :
    AreaOk lim g (p + m) { area with start := (p + m) * PAGE_SIZE, pma } := by
  have hlen : pma.frames.length = area.pma.frames.length - m := by rw [hpma, List.length_drop]
  have hle := h.le
  have hend : p + area.pma.frames.length = p + m + (area.pma.frames.length - m) := by omega
  refine ⟨rfl, by rw [hlen, ← hend, h.end_eq], by rw [hlen]; omega, by rw [hlen]; omega,
    fun i hi ↦ ?_⟩
  rw [hlen] at hi
  obtain ⟨c, hc, hframe⟩ := h.cell (m + i) (by omega)
  exact ⟨c, by rw [Nat.add_assoc]; exact hc, by rw [hpma, List.getElem?_drop, hframe]⟩

/-- Both parts of a cut area are areas for the same cells. -/
theorem wp_segment_split (h : AreaOk lim g p area) (hlim : lim ≤ 512) (hm : 0 < m)
    (hlt : m < area.pma.frames.length) (args : ArgsType) :
    wp (Segment.split area ((p + m) * PAGE_SIZE) args) (fun r s' ↦ s' = s ∧
      (AreaOk lim g p r.1 ∧ r.1.pma.frames.length = m ∧ r.1.flags = area.flags) ∧
      (AreaOk lim g (p + m) r.2 ∧ r.2.pma.frames.length = area.pma.frames.length - m ∧
        r.2.flags = area.flags) ∧ r.1.pma.backend = area.pma.backend ∧
      r.2.pma.backend = area.pma.backend.map (·.split (m * PAGE_SIZE))) noPanic s := by
  have hend := h.end_lt hlim
  have hle := h.le
  have hstart := h.start_eq
  have hdelta : wsub ((p + m) * PAGE_SIZE) area.start = m * PAGE_SIZE := by
    rw [h.end_eq] at hend
    simp only [wsub, PAGE_SIZE] at hstart hend ⊢
    omega
  have hpos : (p + m) * PAGE_SIZE < area.end_ := by
    rw [h.end_eq]
    exact Nat.mul_lt_mul_of_pos_right (by omega) (by norm_num)
  change wp (unwrap (Panic.unwrap .splitPma) (onSndR (area.pma.split _ _)) >>= _) _ _ _
  rw [wp_bind, wp_unwrap, wpe_onSndR, hdelta]
  refine wpe_imp (wpe_split hlt) fun r w' hr ↦ ?_
  obtain ⟨rfl, left, right, rfl, hleft, hright, hbackend⟩ := hr
  have hlenl : left.frames.length = m := by rw [hleft, List.length_take]; omega
  have hlenr : right.frames.length = area.pma.frames.length - m := by
    rw [hright, List.length_drop]
  -- the right part is as large as its frames
  have hsize : right.size = area.end_ - (p + m) * PAGE_SIZE := by
    rw [PmAreaLazy.size, hlenr, h.end_eq, ← Nat.sub_mul, Nat.add_sub_add_left]
  dsimp only
  rw [VmArea.new_eq hpos hend (Nat.mul_mod_left _ _) (h.end_eq ▸ Nat.mul_mod_left _ _) hsize]
  dsimp only
  rw [wp_pure]
  exact ⟨rfl, ⟨h.take hm hlt hleft, hlenl, rfl⟩, ⟨h.drop hlt hright, hlenr, rfl⟩, hbackend⟩

end split

/-! ## The laws of segments -/

section laws

variable [FrameAllocator σ] {e : PtEnv} {g : ℕ → Option Cell} {a : RangeArea (VmArea F)}
variable {L L' : List (RangeArea (VmArea F))} {s : PageTable × World σ φ} {args : ArgsType}

/-- The cell of the page of an address. -/
def onPages (g : ℕ → Option Cell) : ℕ → Option Cell := g ∘ fun x ↦ x / PAGE_SIZE

theorem onPages_page (g : ℕ → Option Cell) (n : ℕ) : onPages g (n * PAGE_SIZE) = g n := by
  rw [onPages, Function.comp_apply, Nat.mul_div_cancel n (by norm_num)]

/-- The cells of an area, seen from its addresses. -/
theorem AreaAt.forall_cell {lim p : ℕ} (h : AreaAt lim g a) (hp : AreaOk lim g p a.segment)
    {P : Cell → Prop} (hP : ∀ x ∈ a.range, ∀ c ∈ onPages g x, P c) :
    ∀ i < a.segment.pma.frames.length, ∀ c ∈ g (p + i), P c := by
  intro i hi c hc
  have hmem : p + i ∈ a.pages := by
    rw [h.pages_eq hp]
    exact ⟨by omega, by omega⟩
  exact hP ((p + i) * PAGE_SIZE) hmem c (by rwa [onPages_page])

namespace Coherent

theorem perm (hL : L.Perm L') (h : Coherent e g L s) : Coherent e g L' s where
  layout := h.layout.perm hL
  backed := h.backed

theorem lim_le (h : Coherent e g L s) : e.lim ≤ 512 := by
  obtain ⟨T, hb, -⟩ := h.backed
  exact hb.table.lim_le

variable [FileStore F φ]

/-- Cutting an area keeps the cells. -/
theorem wp_split (h : Coherent e g (a :: L) s) {pos : ℕ} (hl : a.start < pos)
    (hr : pos < a.end_) (hpos : PageAligned pos) :
    wp (Segment.split a.segment pos args) (fun r t ↦
      Coherent e g (⟨a.start, pos, r.1⟩ :: ⟨pos, a.end_, r.2⟩ :: L) t ∧ t = s ∧
        r.1.pma.backend = a.segment.pma.backend ∧
        r.2.pma.backend = a.segment.pma.backend.map (·.split (pos - a.start))) noPanic s := by
  have ha := h.layout.area a List.mem_cons_self
  obtain ⟨p, hp, hflags⟩ := ha.ok
  have hstart := ha.start_page hp
  have hend := ha.end_page hp
  obtain ⟨m, rfl⟩ : ∃ m, pos = (p + m) * PAGE_SIZE := by
    refine ⟨pos / PAGE_SIZE - p, ?_⟩
    simp only [PageAligned, PAGE_SIZE] at hpos hstart ⊢
    omega
  have hm : 0 < m ∧ m < a.segment.pma.frames.length := by
    simp only [PAGE_SIZE] at hstart hend hl hr
    omega
  refine wp_imp (wp_segment_split hp h.lim_le hm.1 hm.2 args) fun r t ht ↦ ?_
  obtain ⟨rfl, ⟨hleft, hlenl, hfl⟩, ⟨hright, hlenr, hfr⟩, hbackend⟩ := ht
  have hdelta : (p + m) * PAGE_SIZE - a.start = m * PAGE_SIZE := by
    rw [hstart, Nat.add_mul, Nat.add_sub_cancel_left]
  refine ⟨⟨?_, h.backed⟩, rfl, hbackend.1, by rw [hdelta, hbackend.2]⟩
  have hlen : p + m + (a.segment.pma.frames.length - m) = p + a.segment.pma.frames.length := by
    omega
  have hatl : AreaAt e.lim g ⟨a.start, (p + m) * PAGE_SIZE, r.1⟩ :=
    ⟨by rw [hleft.start_eq, hstart], by rw [hleft.end_eq, hlenl], p, hleft, fun i hi c hc ↦ by
      rw [hfl]
      exact hflags i ((hi.trans_eq hlenl).trans hm.2) c hc⟩
  have hatr : AreaAt e.lim g ⟨(p + m) * PAGE_SIZE, a.end_, r.2⟩ :=
    ⟨by rw [hright.start_eq], by rw [hright.end_eq, hlenr, hlen, hend], p + m, hright,
      fun i hi c hc ↦ by
        have hi' := hi.trans_eq hlenr
        rw [hfr]
        exact hflags (m + i) (by omega) c (by rwa [← Nat.add_assoc])⟩
  have hapart := (List.pairwise_cons.mp h.layout.apart).1
  -- the right part joins the other areas first, with the cells of the left part left out
  have hlayout : Layout e.lim
      (PointMap.erase (RangeArea.pages ⟨a.start, (p + m) * PAGE_SIZE, r.1⟩) g)
      (⟨(p + m) * PAGE_SIZE, a.end_, r.2⟩ :: L) := by
    refine h.layout.tail.cons (hatr.congr fun n hn ↦ ?_) (fun b hb ↦ ?_) fun n hn ↦ ?_
    · exact PointMap.erase_of_notMem fun hmem ↦ absurd (hn.1.trans_lt hmem.2) (lt_irrefl _)
    · rcases hapart b hb with h | h
      · exact Or.inl h
      · exact Or.inr (h.trans hl.le)
    · by_cases hmem : n ∈ a.pages
      · rw [PointMap.erase_of_mem hmem, PointMap.erase_of_mem]
        exact ⟨hmem.1, not_le.mp fun hle ↦ hn ⟨hle, hmem.2⟩⟩
      · rw [PointMap.erase_of_notMem hmem, PointMap.erase_of_notMem]
        exact fun hmem' ↦ hmem ⟨hmem'.1, hmem'.2.trans hr⟩
  refine hlayout.cons hatl (fun b hb ↦ ?_) fun n hn ↦ (PointMap.erase_of_notMem hn).symm
  rcases List.mem_cons.mp hb with rfl | hb
  · exact Or.inl le_rfl
  · rcases hapart b hb with h | h
    · exact Or.inl (hr.le.trans h)
    · exact Or.inr h

/-- An area cannot be cut at or behind its end. -/
theorem wp_split_of_le (h : Coherent e g (a :: L) s) {pos : ℕ} (hle : a.end_ ≤ pos)
    (hpos : pos < 2 ^ 64) :
    wp (Segment.split a.segment pos args) (fun _ _ ↦ False)
      (fun p _ ↦ p = .unwrap .splitPma .pmArea_splitFailed) s := by
  have ha := h.layout.area a List.mem_cons_self
  obtain ⟨p, hp, -⟩ := ha.ok
  have hsize := hp.size_eq
  have hend := ha.end_eq
  have hlt := ha.lt
  have hstart := ha.start_eq
  change wp (unwrap (Panic.unwrap .splitPma) (onSndR (a.segment.pma.split _ _)) >>= _) _ _ _
  rw [wp_bind, wp_unwrap, wpe_onSndR, wsub_of_le (by omega) hpos, PmAreaLazy.split,
    if_neg (by omega)]
  rfl

/-- No area lets itself be cut at two positions in the wrong order. -/
theorem wp_splitAndRemoveMiddle_of_le (h : Coherent e g (a :: L) s) {start end_ : ℕ}
    (hl : a.start < end_) (hle : end_ ≤ start) (hr : start < a.end_) (he : PageAligned end_) :
    wp (Segment.splitAndRemoveMiddle a.segment start end_ args) (fun _ _ ↦ False)
      (fun p _ ↦ p = .unwrap .splitPma .pmArea_splitFailed) s := by
  have hlt := h.layout.end_lt h.lim_le List.mem_cons_self
  rw [Segment.splitAndRemoveMiddle, wp_bind]
  refine wp_mono (h.wp_split hl (by omega) he) (fun r t ht ↦ ?_) fun _ _ h ↦ h.elim
  rw [wp_bind]
  exact wp_imp (ht.1.wp_split_of_le hle (hr.trans hlt)) fun _ _ h ↦ h.elim

theorem wp_modifyMiddle_of_le (h : Coherent e g (a :: L) s) {start end_ : ℕ} {flag : IdentType}
    (hl : a.start < end_) (hle : end_ ≤ start) (hr : start < a.end_) (he : PageAligned end_) :
    wp (Segment.modifyMiddle a.segment start end_ flag args) (fun _ _ ↦ False)
      (fun p _ ↦ p = .unwrap .splitPma .pmArea_splitFailed) s := by
  have hlt := h.layout.end_lt h.lim_le List.mem_cons_self
  rw [Segment.modifyMiddle, wp_bind]
  refine wp_mono (h.wp_split hl (by omega) he) (fun r t ht ↦ ?_) fun _ _ h ↦ h.elim
  rw [wp_bind]
  exact wp_imp (ht.1.wp_split_of_le hle (hr.trans hlt)) fun _ _ h ↦ h.elim

/-- Removing an area erases its cells, after their contents went to the file. -/
theorem wp_remove (h : Coherent e g (a :: L) s)
    (hfree : ∀ x ∈ a.range, ∀ c ∈ onPages g x, c.Free) :
    wp (Segment.remove a.segment args) (fun _ t ↦ Coherent e (PointMap.erase a.pages g) L t ∧
      FileRun (a.segment.releaseOps g (a.start / PAGE_SIZE) 0 a.segment.pma.frames.length)
        s.2.files t.2.files) noPanic s := by
  have ha := h.layout.area a List.mem_cons_self
  obtain ⟨p, hp, -⟩ := ha.ok
  obtain ⟨T, hb, hT⟩ := h.backed
  have hstart : a.start / PAGE_SIZE = p := by
    rw [ha.start_page hp, Nat.mul_div_cancel p (by norm_num)]
  change wp (a.segment.unmapArea >>= fun r ↦ VmArea.unwrapWith .segmentRemove r) _ _ _
  rw [wp_bind, hstart]
  refine wp_imp (wp_unmapArea hp hb (ha.forall_cell hp hfree)) fun r t ht ↦ ?_
  obtain ⟨hok, hb', hrun⟩ := ht
  rw [← ha.pages_eq hp] at hb'
  rw [VmArea.unwrapWith, hok]
  exact ⟨⟨h.layout.tail, T, hb', fun n hn ↦ hT n (PointMap.isSome_of_isSome_erase hn)⟩, hrun⟩

/-- Removing an area with a frame that was not entered panics. -/
theorem wp_remove_of_not_free (h : Coherent e g (a :: L) s)
    (hnot : ¬∀ x ∈ a.range, ∀ c ∈ onPages g x, c.Free) :
    wp (Segment.remove a.segment args) (fun _ _ ↦ False) anyPanic s := by
  have ha := h.layout.area a List.mem_cons_self
  obtain ⟨p, hp, -⟩ := ha.ok
  obtain ⟨T, hb, -⟩ := h.backed
  have hcell : ∃ i < a.segment.pma.frames.length, ∃ c ∈ g (p + i), ¬c.Free := by
    by_contra hall
    refine hnot fun x hx c hc ↦ ?_
    by_contra hfree
    have hmem := (ha.mem_range_iff x).mp hx
    rw [ha.pages_eq hp] at hmem
    refine hall ⟨x / PAGE_SIZE - p, by have := hmem.1; have := hmem.2; omega, c, ?_, hfree⟩
    rwa [Nat.add_sub_cancel' hmem.1]
  change wp (a.segment.unmapArea >>= fun r ↦ VmArea.unwrapWith .segmentRemove r) _ _ _
  rw [wp_bind]
  refine wp_mono (wp_unmapArea_of_not_free hp hb hcell) (fun r t ht ↦ ?_) fun _ _ h ↦ h.elim
  obtain ⟨err, herr⟩ := ht
  rw [VmArea.unwrapWith, herr]
  trivial

/-- Modifying an area changes the flags of its cells. -/
theorem wp_modify (h : Coherent e g (a :: L) s) {flag : IdentType}
    (hfree : ∀ x ∈ a.range, ∀ c ∈ onPages g x, c.Free) :
    wp (Segment.modify a.segment flag args) (fun seg t ↦
      Coherent e (PointMap.update a.pages (Cell.withFlags (BitVec.ofNat 8 flag)) g)
        (⟨a.start, a.end_, seg⟩ :: L) t ∧ seg.pma = a.segment.pma) noPanic s := by
  have ha := h.layout.area a List.mem_cons_self
  obtain ⟨p, hp, -⟩ := ha.ok
  obtain ⟨T, hb, hT⟩ := h.backed
  have hpages := ha.pages_eq hp
  have hp' : AreaOk e.lim g p { a.segment with flags := BitVec.ofNat 8 flag } :=
    ⟨hp.start_eq, hp.end_eq, hp.pos, hp.le, hp.cell⟩
  change wp (unwrap (Panic.unwrap .segmentModify)
    { a.segment with flags := BitVec.ofNat 8 flag }.modifyAreaFlags >>= fun _ ↦ pure _) _ _ _
  rw [wp_bind, wp_unwrap]
  refine wpe_imp (wpe_modifyAreaFlags hp' hb (ha.forall_cell hp hfree)) fun r t ht ↦ ?_
  obtain ⟨rfl, hb'⟩ := ht
  dsimp only
  rw [wp_pure, hpages]
  -- every page of the area gets the new flags
  have hcell : ∀ i < a.segment.pma.frames.length,
      PointMap.update (Set.Ico p (p + a.segment.pma.frames.length))
        (Cell.withFlags (BitVec.ofNat 8 flag)) g (p + i)
        = (g (p + i)).map (Cell.withFlags (BitVec.ofNat 8 flag)) :=
    fun i hi ↦ PointMap.update_of_mem ⟨by omega, by omega⟩
  refine ⟨⟨h.layout.set ⟨ha.start_eq, ha.end_eq, p, ⟨hp.start_eq, hp.end_eq, hp.pos, hp.le,
    fun i hi ↦ ?_⟩, fun i hi c hc ↦ ?_⟩ fun n hn ↦ ?_, T, hb', fun n hn ↦ hT n ?_⟩, rfl⟩
  · obtain ⟨c, hc, hframe⟩ := hp.cell i hi
    exact ⟨c.withFlags (BitVec.ofNat 8 flag), by rw [hcell i hi, hc]; rfl, hframe⟩
  · rw [hcell i hi] at hc
    obtain ⟨c', -, rfl⟩ := Option.map_eq_some_iff.mp hc
    rfl
  · rw [hpages] at hn
    exact PointMap.update_of_notMem hn
  · rwa [PointMap.isSome_update] at hn

end Coherent

variable [FileStore F φ]

/-- Areas are segments: they may be cut at page boundaries, and removed or modified where the page
table maps every frame. -/
def areaLaws (e : PtEnv) (args : ArgsType) :
    SegmentLaws (VmArea F) (PageTable × World σ φ) Cell args where
  Good f L s := ∃ g, f = onPages g ∧ Coherent e g L s
  Cut := PageAligned
  Free := Cell.Free
  setFlag flag := Cell.withFlags (BitVec.ofNat 8 flag)
  perm hL h := by
    obtain ⟨g, rfl, h⟩ := h
    exact ⟨g, rfl, h.perm hL⟩
  nonempty h a ha := by
    obtain ⟨g, rfl, h⟩ := h
    exact (h.layout.area a ha).lt
  apart h := by
    obtain ⟨g, rfl, h⟩ := h
    exact h.layout.apart
  cover h x hx := by
    obtain ⟨g, rfl, h⟩ := h
    obtain ⟨a, ha, hmem⟩ := h.layout.cover (x / PAGE_SIZE) hx
    exact ⟨a, ha, ((h.layout.area a ha).mem_range_iff x).mpr hmem⟩
  split h hl hr hcut := by
    obtain ⟨g, rfl, h⟩ := h
    exact wp_imp (h.wp_split hl hr hcut) fun r t ht ↦ ⟨g, rfl, ht.1⟩
  remove h hfree := by
    obtain ⟨g, rfl, h⟩ := h
    have ha := h.layout.area _ List.mem_cons_self
    exact wp_imp (h.wp_remove hfree) fun _ t ht ↦
      ⟨_, PointMap.erase_comp ha.mem_range_iff, ht.1⟩
  modify h hfree := by
    obtain ⟨g, rfl, h⟩ := h
    have ha := h.layout.area _ List.mem_cons_self
    exact wp_imp (h.wp_modify hfree) fun _ t ht ↦
      ⟨_, PointMap.update_comp ha.mem_range_iff, ht.1⟩

theorem areaLaws_strict (e : PtEnv) (args : ArgsType) :
    (areaLaws (σ := σ) (φ := φ) (F := F) e args).Strict := by
  refine ⟨fun h hnot ↦ ?_⟩
  obtain ⟨g, rfl, h⟩ := h
  exact h.wp_remove_of_not_free hnot

theorem areaLaws_setFlag (e : PtEnv) (args : ArgsType) (flags : PTEFlags) :
    (areaLaws (σ := σ) (φ := φ) (F := F) e args).setFlag flags.toNat = Cell.withFlags flags := by
  change Cell.withFlags (BitVec.ofNat 8 flags.toNat) = _
  rw [BitVec.ofNat_toNat, BitVec.setWidth_eq]

end laws

end Maturin
