import Maturin.Memory.Coherent

/-!
# Frames on demand

A page of an area gets its frame when it is touched first: by a page fault, or because the kernel
is about to use it. `faultIn` gets the frame, filled from the file or with zeros, and enters it into
the page table.
-/

open Exec

namespace Maturin

variable {σ φ F : Type}

namespace Cell

/-- The page got a frame that the page table maps, or had one already, and kept its contents. -/
structure Populated (c c' : Cell) : Prop where
  flags_eq : c'.flags = c.flags
  page : ∃ pg ∈ c'.page, pg.mapped = true ∧ ∀ pg₀ ∈ c.page, pg₀.paddr = pg.paddr ∧
    pg₀.data = pg.data

theorem Populated.free {c c' : Cell} (h : c.Populated c') : c'.Free := by
  obtain ⟨pg, hpg, hmapped, -⟩ := h.page
  intro pg' hpg'
  rw [Option.mem_def] at hpg hpg'
  rw [hpg, Option.some.injEq] at hpg'
  rwa [← hpg']

theorem populated_map {c : Cell} {pg : Page} (h : c.page = some pg) : c.Populated c.map where
  flags_eq := rfl
  page := by
    refine ⟨{ pg with mapped := true }, by rw [map, h]; rfl, rfl, fun pg₀ hpg₀ ↦ ?_⟩
    rw [h, Option.mem_some_iff] at hpg₀
    subst hpg₀
    exact ⟨rfl, rfl⟩

/-- A page that had no frame before holds zeros. -/
def Zeroed (c c' : Cell) : Prop := c.page = none → ∀ pg ∈ c'.page, ∀ x < PAGE_SIZE, pg.data x = 0

theorem map_eq_self {c : Cell} {pg : Page} (h : c.page = some pg) (hm : pg.mapped = true) :
    c.map = c := by
  obtain ⟨flags, page⟩ := c
  obtain ⟨paddr, data, mapped⟩ := pg
  subst h hm
  rfl

end Cell

variable [FrameAllocator σ]

/-! ## Getting a frame -/

section frames

variable [FileStore F φ] {pma : PmAreaLazy F} {w : World σ φ} {i p : ℕ}

omit [FrameAllocator σ] in
/-- Reading from a file changes the files alone, and keeps the length of the buffer. -/
theorem wp_readFromOffset (backend : BackEndFile F) (pos : ℕ) (buf : List UInt8) :
    wp (backend.readFromOffset pos buf) (fun r w' ↦ r.2.length = buf.length ∧
      ∃ files, w' = { w with files }) noPanic w := by
  rw [BackEndFile.readFromOffset]
  cases backend.policy with
  | syncRead => exact ⟨FileStore.length_read _ _ _ _, _, rfl⟩
  | syncWrite => exact ⟨rfl, w.files, rfl⟩
  | syncReadWrite => exact ⟨FileStore.length_read _ _ _ _, _, rfl⟩

/-- The world differs at most in the frame at `p` and in the files. -/
structure SameBut (p : ℕ) (w w' : World σ φ) : Prop where
  inUse : w'.inUse = w.inUse
  oom : w'.oom = w.oom
  mem : ∀ x, x < p ∨ p + PAGE_SIZE ≤ x → w'.mem x = w.mem x

theorem sameBut_fill (w : World σ φ) (p : ℕ) :
    SameBut p w (w.setMem (ByteMem.fill p PAGE_SIZE 0 w.mem)) :=
  ⟨rfl, rfl, fun _ hx ↦ ByteMem.fill_of_notMem hx⟩

theorem SameBut.trans {w₁ w₂ w₃ : World σ φ} (h : SameBut p w₁ w₂) (h' : SameBut p w₂ w₃) :
    SameBut p w₁ w₃ :=
  ⟨h'.inUse.trans h.inUse, h'.oom.trans h.oom, fun x hx ↦ (h'.mem x hx).trans (h.mem x hx)⟩

/-- Filling a frame writes to it alone. -/
theorem wp_fillFrame : wp (pma.fillFrame i p) (fun _ w' ↦ SameBut p w w') noPanic w := by
  rw [PmAreaLazy.fillFrame]
  cases pma.backend with
  | none =>
    rw [frameZero, wp_modify]
    exact sameBut_fill w p
  | some backend =>
    dsimp only
    rw [wp_bind, wp_get, wp_bind]
    refine wp_imp (wp_readFromOffset backend _ _) fun r w₁ hw₁ ↦ ?_
    obtain ⟨hlen, files, rfl⟩ := hw₁
    rw [ByteMem.length_readBytes] at hlen
    rw [wp_bind, wp_modify]
    have hwrite : SameBut p w (World.setMem { w with files }
        (ByteMem.writeBytes p r.2 w.mem)) :=
      ⟨rfl, rfl, fun x hx ↦ ByteMem.writeBytes_of_notMem (by omega)⟩
    cases r.1 with
    | none =>
      dsimp only
      rw [frameZero, wp_modify]
      exact hwrite.trans (sameBut_fill _ p)
    | some _ => exact hwrite

omit [FrameAllocator σ] in
/-- Without a file the frame is cleared. -/
theorem wp_fillFrame_zero (hback : pma.backend = none) :
    wp (pma.fillFrame i p) (fun _ w' ↦ ∀ x < PAGE_SIZE, w'.mem (p + x) = 0) noPanic w := by
  rw [PmAreaLazy.fillFrame, hback]
  dsimp only
  rw [frameZero, wp_modify]
  exact fun x hx ↦ ByteMem.fill_of_mem ⟨by omega, by omega⟩

theorem wp_getFrame_some {paddr : ℕ} (h : pma.frames[i]? = some (some paddr)) {alloc : Bool}
    {Q : Except OSError (Option ℕ) × PmAreaLazy F → World σ φ → Prop}
    {E : Panic → World σ φ → Prop} :
    wp (pma.getFrame i alloc) Q E w ↔ Q (.ok (some paddr), pma) w := by
  rw [PmAreaLazy.getFrame, h]
  rfl

/-- A missing frame is new, and cleared if there is no file behind it; or there is none. -/
theorem wp_getFrame_true (h : pma.frames[i]? = some none) :
    wp (pma.getFrame i true) (fun r w' ↦
      (∃ p, r = (.ok (some p), { pma with frames := pma.frames.set i (some p) }) ∧
        p ∉ w.inUse ∧ PageAligned p ∧ p < 2 ^ 56 ∧ w'.inUse = insert p w.inUse ∧
        w'.oom = w.oom ∧ (∀ x, x < p ∨ p + PAGE_SIZE ≤ x → w'.mem x = w.mem x) ∧
        (pma.backend = none → ∀ x < PAGE_SIZE, w'.mem (p + x) = 0)) ∨
      (r = (.error .memory_runOutOfMemory, pma) ∧ w' = { w with oom := true })) noPanic w := by
  rw [PmAreaLazy.getFrame, h]
  dsimp only
  rw [if_pos rfl, wp_bind]
  refine wp_imp wp_frameNew fun r w₁ hr ↦ ?_
  cases r with
  | none => exact Or.inr ⟨rfl, hr⟩
  | some p =>
    obtain ⟨hfresh, hal, hlt, huse, hmem, hoom⟩ := hr
    dsimp only
    rw [wp_bind]
    have hzero : wp (pma.fillFrame i p) (fun _ w' ↦
        pma.backend = none → ∀ x < PAGE_SIZE, w'.mem (p + x) = 0) noPanic w₁ := by
      by_cases hback : pma.backend = none
      · exact wp_imp (wp_fillFrame_zero hback) fun _ _ h _ ↦ h
      · exact wp_imp wp_fillFrame fun _ _ _ h ↦ absurd h hback
    refine wp_mono (wp_and wp_fillFrame hzero) (fun _ w₂ hw₂ ↦ Or.inl ⟨p, rfl, hfresh, hal, hlt,
      ?_, ?_, fun x hx ↦ ?_, hw₂.2⟩) fun _ _ hp ↦ hp.1
    · rw [hw₂.1.inUse, huse]
    · rw [hw₂.1.oom, hoom]
    · rw [hw₂.1.mem x hx, hmem]

end frames

/-! ## Entering it -/

variable {e : PtEnv} {T : Set ℕ} {g : ℕ → Option Cell} {s : PageTable × World σ φ} {n x : ℕ}
variable {c : Cell} {pg : Page} {onValid : Except OSError Unit}

/-- A frame is entered unless there is an entry already. -/
theorem Backed.wp_enterFrame (h : Backed e T g s) (hg : g n = some c) (hpage : c.page = some pg)
    (hT : n / 512 ∈ T) {area : VmArea F} (hflags : c.flags = area.flags) :
    wp (area.enterFrame (n * PAGE_SIZE) pg.paddr onValid) (fun r s' ↦
      Backed e T (Function.update g n (some c.map)) s' ∧
        r = if pg.mapped then onValid else .ok ()) noPanic s := by
  have hn := h.below (n := n) (by rw [hg]; rfl)
  have hv := vpn_page h.table.lim_le hn
  obtain ⟨leaf, hleaf⟩ := Option.isSome_iff_exists.mp (h.table.tabs _ hT (by omega))
  have hvalid := h.table.isValid_iff hn hleaf
  rw [entryAt, entries, hg, Option.bind_some, Cell.entry, hpage, Option.bind_some] at hvalid
  rw [VmArea.enterFrame, wp_bind]
  refine wp_imp PtInv.wp_findPte fun r s' hr ↦ ?_
  obtain ⟨rfl, rfl⟩ := hr
  rw [hv, hleaf, Option.map_some]
  dsimp only
  rw [wp_bind, PtInv.wp_readPte, hvalid]
  by_cases hm : pg.mapped = true
  · rw [if_pos hm, Option.isSome_some, if_pos rfl, wp_pure, if_pos hm, Cell.map_eq_self hpage hm,
      ← hg, Function.update_eq_self]
    exact ⟨h, rfl⟩
  · rw [if_neg hm, Option.isSome_none, if_neg (by decide), wp_bind, PtInv.wp_writePte, wp_pure,
      if_neg hm, ← hflags]
    exact ⟨h.store_entry hg hpage hleaf, rfl⟩

/-- The area after a page got a frame. -/
theorem AreaAt.setFrame {lim p i : ℕ} {a : RangeArea (VmArea F)} {c' : Cell} (h : AreaAt lim g a)
    (hp : AreaOk lim g p a.segment) (hc : g (p + i) = some c) (hflags : c'.flags = c.flags)
    {pma : PmAreaLazy F} (hlen : pma.frames.length = a.segment.pma.frames.length)
    (hi : pma.frames[i]? = some (c'.page.map Page.paddr))
    (hne : ∀ j, j ≠ i → pma.frames[j]? = a.segment.pma.frames[j]?) :
    AreaAt lim (Function.update g (p + i) (some c'))
      ⟨a.start, a.end_, { a.segment with pma }⟩ := by
  obtain ⟨p', hp', hfl⟩ := h.ok
  -- the area starts at one page only
  obtain rfl : p = p' := by
    have := hp.start_eq.symm.trans hp'.start_eq
    exact Nat.eq_of_mul_eq_mul_right (by norm_num) this
  refine ⟨h.start_eq, h.end_eq, p, ⟨hp.start_eq, ?_, ?_, ?_, fun j hj ↦ ?_⟩, fun j hj c₁ hc₁ ↦ ?_⟩
  · dsimp only
    rw [hlen]
    exact hp.end_eq
  · rw [hlen]
    exact hp.pos
  · rw [hlen]
    exact hp.le
  · rw [hlen] at hj
    by_cases hji : j = i
    · subst hji
      exact ⟨c', Function.update_self _ _ _, hi⟩
    · obtain ⟨c₀, hc₀, hframe⟩ := hp.cell j hj
      exact ⟨c₀, by rw [Function.update_of_ne (by omega), hc₀], by rw [hne j hji]; exact hframe⟩
  · rw [hlen] at hj
    by_cases hji : j = i
    · subst hji
      rw [Function.update_self, Option.mem_some_iff] at hc₁
      rw [← hc₁, hflags]
      exact hfl j hj c hc
    · rw [Function.update_of_ne (by omega)] at hc₁
      exact hfl j hj c₁ hc₁

variable {a : RangeArea (VmArea F)} {L : List (RangeArea (VmArea F))}

theorem Coherent.setFrame {p i : ℕ} {c' : Cell} (h : Coherent e g (a :: L) s)
    (hp : AreaOk e.lim g p a.segment) (hilt : i < a.segment.pma.frames.length)
    (hT : ∀ n, (g n).isSome → n / 512 ∈ T) (hc : g (p + i) = some c)
    {t : PageTable × World σ φ} (hb : Backed e T (Function.update g (p + i) (some c')) t)
    (hflags : c'.flags = c.flags) {pma : PmAreaLazy F}
    (hlen : pma.frames.length = a.segment.pma.frames.length)
    (hi : pma.frames[i]? = some (c'.page.map Page.paddr))
    (hne : ∀ j, j ≠ i → pma.frames[j]? = a.segment.pma.frames[j]?) :
    Coherent e (Function.update g (p + i) (some c'))
      (⟨a.start, a.end_, { a.segment with pma }⟩ :: L) t := by
  have ha := h.layout.area a List.mem_cons_self
  refine ⟨h.layout.set (ha.setFrame hp hc hflags hlen hi hne) fun n hn ↦ ?_, T, hb, fun n hn ↦ ?_⟩
  · refine Function.update_of_ne (fun heq ↦ hn ?_) _ _
    rw [ha.pages_eq hp, heq]
    exact ⟨by omega, by omega⟩
  · by_cases hni : n = p + i
    · exact hT n (by rw [hni, hc]; rfl)
    · rw [Function.update_of_ne hni] at hn
      exact hT n hn

variable [FileStore F φ]

/-- `faultIn` populates the page, or fails for want of a frame. -/
theorem Coherent.wp_faultIn (h : Coherent e g (a :: L) s) (hx : x ∈ a.range)
    (hc : g (x / PAGE_SIZE) = some c) (onValid : Except OSError Unit) :
    wp (a.segment.faultIn (wsub x a.segment.start) onValid) (fun r t ↦
      (∃ c', c.Populated c' ∧ (a.segment.pma.backend = none → c.Zeroed c') ∧
        (r.1 = .ok () ∨ r.1 = onValid ∧ c' = c) ∧
        Coherent e (Function.update g (x / PAGE_SIZE) (some c'))
          (⟨a.start, a.end_, r.2⟩ :: L) t) ∨
      (r.1 = .error .memory_runOutOfMemory ∧ c.page = none ∧
        Coherent e g (⟨a.start, a.end_, r.2⟩ :: L) t ∧ t.2.oom = true)) noPanic s := by
  have ha := h.layout.area a List.mem_cons_self
  obtain ⟨p, hp, hflags⟩ := ha.ok
  obtain ⟨T, hb, hT⟩ := h.backed
  have hmem := (ha.mem_range_iff x).mp hx
  rw [ha.pages_eq hp] at hmem
  obtain ⟨i, hi⟩ : ∃ i, x / PAGE_SIZE = p + i := ⟨x / PAGE_SIZE - p, by have := hmem.1; omega⟩
  rw [hi] at hmem hc
  have hilt : i < a.segment.pma.frames.length := by have := hmem.2; omega
  have hend := hp.end_lt h.lim_le
  have hstart := hp.start_eq
  have hdown : alignDown (wsub x a.segment.start) = i * PAGE_SIZE := by
    rw [hp.end_eq] at hend
    simp only [alignDown, wsub, PAGE_SIZE] at hi hend hstart ⊢
    omega
  have hvaddr : wadd a.segment.start (i * PAGE_SIZE) = (p + i) * PAGE_SIZE := by
    rw [hp.end_eq] at hend
    simp only [wadd, PAGE_SIZE] at hend hstart ⊢
    omega
  have hidx : i * PAGE_SIZE / PAGE_SIZE = i := Nat.mul_div_cancel i (by norm_num)
  obtain ⟨c₀, hc₀, hframe⟩ := hp.cell i hilt
  obtain rfl : c₀ = c := Option.some.inj (hc₀.symm.trans hc)
  have hfl := hflags i hilt c₀ hc₀
  rw [VmArea.faultIn, hdown, hvaddr, hidx, hi, wp_bind, wp_onSnd]
  cases hpage : c₀.page with
  | some pg =>
    rw [hpage] at hframe
    rw [wp_getFrame_some hframe, wp_bind]
    refine wp_imp (hb.wp_enterFrame hc₀ hpage (hT _ (by rw [hc₀]; rfl)) hfl) fun r t ht ↦ ?_
    refine Or.inl ⟨c₀.map, Cell.populated_map hpage, fun _ hnone ↦ ?_, ?_, ?_⟩
    · rw [hpage] at hnone
      exact absurd hnone (by simp)
    · by_cases hm : pg.mapped = true
      · rw [if_pos hm] at ht
        exact Or.inr ⟨ht.2, Cell.map_eq_self hpage hm⟩
      · rw [if_neg hm] at ht
        exact Or.inl ht.2
    · refine h.setFrame hp hilt hT hc₀ ht.1 rfl rfl ?_ fun _ _ ↦ rfl
      rw [hframe, Cell.map, hpage]
      rfl
  | none =>
    rw [hpage] at hframe
    refine wp_imp (wp_getFrame_true hframe) fun r w hr ↦ ?_
    rcases hr with ⟨q, rfl, hfresh, hal, hlt, huse, hoom, hmem', hzero⟩ | ⟨rfl, rfl⟩
    · -- the new frame belongs to the page before it is entered
      have hb' := hb.alloc hc₀ hpage hfresh hal hlt huse hmem' hoom
      have hc' := Function.update_self (p + i)
        (some { c₀ with page := some ⟨q, pageData w.mem q, false⟩ }) g
      dsimp only
      rw [wp_bind]
      refine wp_imp (hb'.wp_enterFrame hc' rfl (hT _ (by rw [hc₀]; rfl)) hfl) fun r t ht ↦ ?_
      obtain ⟨hb'', hr⟩ := ht
      rw [Function.update_idem] at hb''
      refine Or.inl ⟨{ c₀ with page := some ⟨q, pageData w.mem q, true⟩ },
        ⟨rfl, _, rfl, rfl, fun pg₀ hpg₀ ↦ ?_⟩, fun hback _ pg hpg x hx ↦ ?_, Or.inl hr, ?_⟩
      · rw [hpage] at hpg₀
        exact absurd hpg₀ (by simp)
      · rw [Option.mem_some_iff] at hpg
        rw [← hpg]
        exact (if_pos hx).trans (hzero hback x hx)
      · refine h.setFrame hp hilt hT hc₀ hb'' rfl (List.length_set ..) ?_ fun j hj ↦ ?_
        · exact List.getElem?_set_self hilt
        · exact List.getElem?_set_ne hj.symm
    · refine Or.inr ⟨rfl, rfl, ⟨h.layout, T, ?_, hT⟩, rfl⟩
      exact hb.of_world (fun q hq ↦ ⟨(hb.of_held hq).1, fun _ _ _ ↦ rfl⟩) fun _ ↦ rfl

/-- A page fault with enough rights populates the page, unless it was mapped already. -/
theorem Coherent.wp_handlePageFault (h : Coherent e g (a :: L) s) (hx : x ∈ a.range)
    (hc : g (x / PAGE_SIZE) = some c) (accessFlags : PTEFlags) :
    wp (a.segment.handlePageFault (wsub x a.segment.start) accessFlags) (fun r t ↦
      (∃ c', c.Populated c' ∧ Coherent e (Function.update g (x / PAGE_SIZE) (some c'))
        (⟨a.start, a.end_, r.2⟩ :: L) t) ∨
      r.1 ≠ .ok () ∧ Coherent e g (⟨a.start, a.end_, r.2⟩ :: L) t) noPanic s := by
  rw [VmArea.handlePageFault]
  split_ifs with hflags
  · exact Or.inr ⟨by simp, h⟩
  · refine wp_imp (h.wp_faultIn hx hc _) fun r t ht ↦ ?_
    rcases ht with ⟨c', hpop, -, -, hcoh⟩ | ⟨herr, -, hcoh, -⟩
    · exact Or.inl ⟨c', hpop, hcoh⟩
    · exact Or.inr ⟨by rw [herr]; simp, hcoh⟩

end Maturin
