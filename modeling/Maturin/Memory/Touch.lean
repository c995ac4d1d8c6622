import Maturin.Memory.Image
import Maturin.Memory.Isolation
import Maturin.Memory.Object

/-!
# What a program finds after a page was touched

`manually_alloc_page` gives a page its frame. A program finds the same bytes before and after: those
of the frame that was there, or the zeros of a page without a file behind it. What a file is read
into was not decided before. A write to the frame of a page shows in this page alone.
-/

open Exec

namespace Maturin

variable {σ φ F : Type} [FrameAllocator σ] [FileStore F φ] {e : PtEnv} {g : ℕ → Option Cell}
variable {ms ms' : MemorySet F} {w w' : World σ φ} {b : ℕ → Option (BackEndFile F)} {n x : ℕ}
variable {c c' : Cell}

/-- Getting a frame for a page of an area keeps the area's place and its file. -/
theorem VmArea.wp_faultIn_place (area : VmArea F) (offset : ℕ) (onValid : Except OSError Unit)
    (s : PageTable × World σ φ) :
    wp (area.faultIn offset onValid) (fun r _ ↦
      r.2.start = area.start ∧ r.2.pma.backend = area.pma.backend) anyPanic s := by
  have hframe : ∀ i s, wp (onSnd (area.pma.getFrame i true)) (fun r _ ↦
      r.2.backend = area.pma.backend) anyPanic (s : PageTable × World σ φ) := by
    intro i s
    rw [wp_onSnd, PmAreaLazy.getFrame]
    cases area.pma.frames[i]? with
    | none => trivial
    | some frame =>
      cases frame with
      | some paddr => rfl
      | none =>
        refine wp_bind_of_forall fun r t ↦ ?_
        cases r with
        | none => rfl
        | some paddr => exact wp_bind_of_forall fun _ _ ↦ rfl
  rw [faultIn, wp_bind]
  refine wp_imp (hframe _ s) fun r t hr ↦ ?_
  obtain ⟨res, pma⟩ := r
  cases res with
  | error err => exact ⟨rfl, hr⟩
  | ok frame =>
    cases frame with
    | none => exact ⟨rfl, hr⟩
    | some paddr => exact wp_bind_of_forall fun _ _ ↦ ⟨rfl, hr⟩

namespace SpaceOk

/-- `find` returns the area around an address. -/
theorem find_eq_some_iff (h : SpaceOk e g ms w) {area : VmArea F} :
    ms.areaMap.find x = some area ↔
      area ∈ ms.areaMap.iter ∧ x ∈ Set.Ico area.start area.end_ := by
  rw [(areaLaws e 0).find_eq_some_iff h.represents]
  constructor
  · rintro ⟨a, ha, hx, rfl⟩
    have hat := h.coherent.layout.area a ha
    rw [hat.start_eq, hat.end_eq]
    exact ⟨List.mem_map_of_mem ha, hx⟩
  · rintro ⟨harea, hx⟩
    obtain ⟨a, ha, rfl⟩ := List.mem_map.mp harea
    have hat := h.coherent.layout.area a ha
    rw [hat.start_eq, hat.end_eq] at hx
    exact ⟨a, ha, hx, rfl⟩

/-- `manually_alloc_page` keeps the files behind the pages, and clears a new frame that has none. -/
theorem wp_manuallyAllocPage_backs (h : SpaceOk e g ms w) (hb : Backs b ms.areaMap.areas) (x : ℕ) :
    wp (ms.manuallyAllocPage x) (fun r w' ↦ Backs b r.2.areaMap.areas ∧
      ((∃ c c', r.1 = .ok () ∧ g (x / PAGE_SIZE) = some c ∧ c.Populated c' ∧
          (b (x / PAGE_SIZE) = none → c.Zeroed c') ∧
          SpaceOk e (Function.update g (x / PAGE_SIZE) (some c')) r.2 w') ∨
        (∃ err, r.1 = .error err) ∧ pageAt g (x / PAGE_SIZE) = none ∧ SpaceOk e g r.2 w'))
      noPanic w := by
  rw [MemorySet.manuallyAllocPage, MemorySet.onArea]
  cases hg : g (x / PAGE_SIZE) with
  | none =>
    rw [h.find_eq_none hg]
    exact ⟨hb, Or.inr ⟨⟨_, rfl⟩, by rw [pageAt, hg]; rfl, h⟩⟩
  | some c =>
    obtain ⟨a, L, hx, hfind, hflags, hcoh, hset⟩ := h.exists_find hg
    rw [hfind]
    dsimp only
    rw [wp_withPt, wp_bind]
    refine wp_mono (wp_and (hcoh.wp_faultIn hx hg (.ok ())) (a.segment.wp_faultIn_place _ _ _))
      (fun r s hr ↦ ?_) fun _ _ hp ↦ hp.1
    obtain ⟨hr, hstart, hback⟩ := hr
    refine ⟨hb.setSegment hfind hstart hback, ?_⟩
    rcases hr with ⟨c', hpop, hzero, hok, hr⟩ | ⟨herr, hnone, hr, -⟩
    · refine Or.inl ⟨c, c', ?_, rfl, hpop, fun hnone ↦ hzero ?_, hset _ _ _ hr⟩
      · exact hok.elim id And.left
      · -- the part behind the page is that of its area
        have hbacking := h.backingAt_eq hb x
        rw [MemorySet.backingAt, hfind, hg, hnone, Option.bind_some, Option.bind_some,
          Option.map_eq_none_iff] at hbacking
        exact hbacking
    · refine Or.inr ⟨⟨_, herr⟩, ?_, hset _ _ _ hr⟩
      rw [pageAt, hg]
      exact hnone

/-- A page that gets a frame shows what it showed, unless a file decides it. -/
theorem readsAt_of_populated (h : SpaceOk e g ms w) (hb : Backs b ms.areaMap.areas)
    (hc : g n = some c) (hpop : c.Populated c') (hzero : b n = none → c.Zeroed c')
    (h' : SpaceOk e (Function.update g n (some c')) ms' w') (hb' : Backs b ms'.areaMap.areas)
    (hx : x / PAGE_SIZE ≠ n ∨ (ms.readsAt w x).isSome) : ms'.readsAt w' x = ms.readsAt w x := by
  rw [h.readsAt_eq hb] at hx
  rw [h.readsAt_eq hb, h'.readsAt_eq hb']
  by_cases hn : x / PAGE_SIZE = n
  · have hx := hx.resolve_left (not_not_intro hn)
    rw [hn, hc, Option.bind_some] at hx
    obtain ⟨pg, hpg, -, hold⟩ := hpop.page
    rw [hn, Function.update_self, hc, Option.bind_some, Option.bind_some, Option.mem_def.mp hpg,
      Option.map_some, Option.some_or]
    cases hpage : c.page with
    | some pg₀ => rw [Option.map_some, Option.some_or, (hold pg₀ hpage).2]
    | none =>
      rw [hpage, Option.map_none, Option.none_or] at hx
      split_ifs at hx with hsome
      · exact absurd hx (by simp)
      · rw [Option.map_none, Option.none_or, if_neg hsome, hzero (by simpa using hsome) hpage pg hpg
          _ (Nat.mod_lt _ (by norm_num))]
  · rw [Function.update_of_ne hn]

/-- What a program finds after `manually_alloc_page`, which succeeds exactly if the page has a frame
then. -/
theorem wp_manuallyAllocPage_readsAt (h : SpaceOk e g ms w) (x : ℕ) :
    wp (ms.manuallyAllocPage x) (fun r w' ↦ ∃ g', SpaceOk e g' r.2 w' ∧
      (∀ y, y / PAGE_SIZE ≠ x / PAGE_SIZE ∨ (ms.readsAt w y).isSome →
        r.2.readsAt w' y = ms.readsAt w y) ∧
      (r.1 = .ok () ↔ (r.2.frameAt x).isSome) ∧
      (r.1 = .ok () → (entries g' (x / PAGE_SIZE)).isSome)) noPanic w := by
  obtain ⟨b, hb⟩ := h.exists_backs
  refine wp_imp (h.wp_manuallyAllocPage_backs hb x) fun r w' hr ↦ ?_
  obtain ⟨hb', ⟨c, c', hok, hc, hpop, hzero, h'⟩ | ⟨⟨err, herr⟩, hnone, h'⟩⟩ := hr
  · refine ⟨_, h', fun y hy ↦ h.readsAt_of_populated hb hc hpop hzero h' hb' hy,
      iff_of_true hok ?_, fun _ ↦ ?_⟩
    · obtain ⟨pg, hpg, -⟩ := hpop.page
      rw [h'.frameAt_eq, Function.update_self, Option.bind_some, Option.mem_def.mp hpg]
      rfl
    · rw [entries, Function.update_self]
      exact hpop.entry
  · have hne : r.1 ≠ .ok () := by
      intro hok
      cases herr.symm.trans hok
    refine ⟨g, h', fun y _ ↦ by rw [h.readsAt_eq hb, h'.readsAt_eq hb'],
      iff_of_false hne ?_, fun hok ↦ absurd hok hne⟩
    rw [h'.frameAt_eq]
    rw [pageAt] at hnone
    cases hg : g (x / PAGE_SIZE) with
    | none => simp
    | some c =>
      rw [hg, Option.bind_some] at hnone
      simp [hnone]

end SpaceOk

/-- A program finds the same in a copy. -/
theorem SpaceOk.readsAt_of_copied {e' : PtEnv} {g' : ℕ → Option Cell} {child : MemorySet F}
    (h : SpaceOk e g ms w) (h' : SpaceOk e' g' child w')
    (hcopied : ∀ n, Option.Rel Cell.Copied (userCells g n) (g' n))
    (hareas : List.Forall₂ AreaCopy (ms.areaMap.iter.filter VmArea.isUser) child.areaMap.iter)
    {area : VmArea F} (hfind : ms.areaMap.find x = some area) (huser : area.isUser = true) :
    child.readsAt w' x = ms.readsAt w x := by
  have hbyte := h.bytes_of_copied h' hcopied hfind huser
  -- the child has an area there, the copy of the parent's
  obtain ⟨area', hfind'⟩ : ∃ area', child.areaMap.find x = some area' := by
    rw [MemorySet.byteAt, MemorySet.byteAt, hfind, Option.map_some, Option.map_eq_some_iff] at hbyte
    exact hbyte.imp fun _ ↦ And.left
  obtain ⟨hmem', hx⟩ := h'.find_eq_some_iff.mp hfind'
  obtain ⟨area₀, hmem₀, hcopy⟩ := exists_of_forall₂ hareas hmem'
  rw [hcopy.start_eq, hcopy.end_eq] at hx
  have hfind₀ := h.find_eq_some_iff.mpr ⟨(List.mem_filter.mp hmem₀).1, hx⟩
  obtain rfl := Option.some.inj (hfind₀.symm.trans hfind)
  have hback : (child.backingAt x).isSome = (ms.backingAt x).isSome := by
    rw [MemorySet.backingAt, MemorySet.backingAt, hfind', hfind, Option.bind_some, Option.bind_some,
      Option.isSome_map, Option.isSome_map, hcopy.backend_eq, Option.isSome_map]
  rw [MemorySet.readsAt, MemorySet.readsAt, hbyte, hback]

/-! ## Writing to the frame of a page -/

/-- What a program finds when the bytes from `a` on are others, where there is an area. -/
def MemorySet.replaced (ms : MemorySet F) (a : ℕ) (bs : List UInt8) (found : ℕ → Option UInt8) :
    ℕ → Option UInt8 := fun x ↦
  if a ≤ x ∧ (ms.areaMap.find x).isSome then (bs[x - a]?).or (found x) else found x

namespace MemorySet

variable {bs : List UInt8} {found : ℕ → Option UInt8}

/-- A replaced piece of a page ends with the page. -/
theorem replaced_of_page_ne (hlen : bs.length ≤ PAGE_SIZE) (hn : x / PAGE_SIZE ≠ n) :
    ms.replaced (n * PAGE_SIZE) bs found x = found x := by
  rw [replaced]
  split_ifs with hx
  · obtain ⟨hle, -⟩ := hx
    rw [List.getElem?_eq_none (hlen.trans ?_), Option.none_or]
    simp only [PAGE_SIZE] at hn hle ⊢
    omega
  · rfl

theorem replaced_of_page_eq (hn : x / PAGE_SIZE = n) {area : VmArea F}
    (hfind : ms.areaMap.find x = some area) :
    ms.replaced (n * PAGE_SIZE) bs found x = (bs[x % PAGE_SIZE]?).or (found x) := by
  subst hn
  rw [replaced, if_pos ⟨Nat.div_mul_le_self _ _, by rw [hfind]; rfl⟩, Nat.mod_eq_sub_div_mul]

end MemorySet

/-- Bytes that are written to the frame of a page are found from the start of the page on. -/
theorem SpaceOk.readsAt_writeBytes (h : SpaceOk e g ms w) {pg : Page} (hpage : pageAt g n = some pg)
    {bs : List UInt8} (hlen : bs.length ≤ PAGE_SIZE) :
    ms.readsAt (w.setMem (w.mem.writeBytes pg.paddr bs))
      = ms.replaced (n * PAGE_SIZE) bs (ms.readsAt w) := by
  obtain ⟨T, hb, -⟩ := h.coherent.backed
  funext x
  have hoff : x % PAGE_SIZE < PAGE_SIZE := Nat.mod_lt _ (by norm_num)
  have hframe := h.frameAt_eq x
  rw [MemorySet.frameAt] at hframe
  cases hfind : ms.areaMap.find x with
  | none =>
    rw [MemorySet.replaced, if_neg (by simp [hfind]), MemorySet.readsAt, MemorySet.readsAt,
      MemorySet.byteAt, MemorySet.byteAt, hfind]
    rfl
  | some area =>
    rw [hfind, Option.bind_some] at hframe
    cases hp : area.pma.frames[(x - area.start) / PAGE_SIZE]?.join with
    | none =>
      have hn : x / PAGE_SIZE ≠ n := by
        rintro rfl
        rw [pageAt] at hpage
        obtain ⟨c, hc, hcpage⟩ := Option.bind_eq_some_iff.mp hpage
        rw [hp, hc, Option.bind_some, hcpage] at hframe
        exact absurd hframe (by simp)
      rw [MemorySet.replaced_of_page_ne hlen hn, MemorySet.readsAt, MemorySet.readsAt,
        MemorySet.byteAt, MemorySet.byteAt, hfind, Option.map_some, Option.map_some, hp]
      rfl
    | some p =>
      -- the frame is that of the cell
      obtain ⟨pg', hpage', hpaddr⟩ : ∃ pg', pageAt g (x / PAGE_SIZE) = some pg' ∧
          pg'.paddr = p := by
        rw [hp, Option.map_some, eq_comm] at hframe
        obtain ⟨c, hc, hcpage⟩ := Option.bind_eq_some_iff.mp hframe
        obtain ⟨pg', hpg', heq⟩ := Option.map_eq_some_iff.mp hcpage
        exact ⟨pg', by rw [pageAt, hc]; exact hpg', congrArg Prod.fst heq⟩
      have hreads : ∀ mem, ms.readsAt (w.setMem mem) x = some (mem (p + x % PAGE_SIZE)) := by
        intro mem
        rw [MemorySet.readsAt, MemorySet.byteAt, hfind, Option.map_some, hp]
        rfl
      have hread : ms.readsAt w x = some (w.mem (p + x % PAGE_SIZE)) := hreads w.mem
      rw [hreads]
      by_cases hn : x / PAGE_SIZE = n
      · subst hn
        obtain rfl := Option.some.inj (hpage.symm.trans hpage')
        rw [MemorySet.replaced_of_page_eq rfl hfind, hread, hpaddr, ByteMem.writeBytes,
          if_pos (by omega), Nat.add_sub_cancel_left]
        cases bs[x % PAGE_SIZE]? <;> rfl
      · have hne : p ≠ pg.paddr := by
          intro heq
          exact hn (hb.frames.inj hpage' hpage (hpaddr.trans heq))
        have hal := (hb.frames.ok hpage).aligned
        have hal' := (hb.frames.ok hpage').aligned
        rw [hpaddr] at hal'
        rw [MemorySet.replaced_of_page_ne hlen hn, hread, ByteMem.writeBytes_of_notMem]
        rcases page_disjoint hal' hal hne with hle | hle <;> omega

end Maturin
