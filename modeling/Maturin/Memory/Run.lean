import Maturin.Memory.NewSpace
import Maturin.Memory.Write

/-!
# Runs of an address space

A user address space starts as the copy of the kernel's root slots and then sees calls of the
methods of `MemorySet`, in any order and with any arguments, while the rest of the system goes on:
other frames are handed out and given back, and user code stores to the pages.

A run carries the set `D` of the pages that got their frame from `write` and were not entered into
the page table since. As long as each call is proper, which for `munmap` means that it cuts areas
at page boundaries and meets no page of `D`, the areas and the page table stay coherent.
-/

open Exec

namespace Maturin

variable {σ φ F : Type}

/-! ## What an address space shows -/

/-- The frame of the page of an address, with the flags of its area. -/
def MemorySet.frameAt (ms : MemorySet F) (vaddr : ℕ) : Option (ℕ × PTEFlags) :=
  (ms.areaMap.find vaddr).bind fun area ↦
    (area.pma.frames[(vaddr - area.start) / PAGE_SIZE]?).join.map fun paddr ↦ (paddr, area.flags)

/-- The pages that have a frame. -/
def MemorySet.framed (ms : MemorySet F) : Set ℕ := {n | (ms.frameAt (n * PAGE_SIZE)).isSome}

/-- The frames of the page table and of the areas. -/
def MemorySet.frames (ms : MemorySet F) : Set ℕ :=
  {p | p ∈ ms.pt.frames ∨ ∃ a ∈ ms.areaMap.areas, some p ∈ a.segment.pma.frames}

namespace SpaceOk

variable [FrameAllocator σ] [FileStore F φ] {e : PtEnv} {g : ℕ → Option Cell} {ms : MemorySet F}
variable {w w' : World σ φ}

/-- The frame vectors and the cells agree. -/
theorem frameAt_eq (h : SpaceOk e g ms w) (vaddr : ℕ) :
    ms.frameAt vaddr = (g (vaddr / PAGE_SIZE)).bind fun c ↦
      c.page.map fun pg ↦ (pg.paddr, c.flags) := by
  rw [MemorySet.frameAt]
  cases hg : g (vaddr / PAGE_SIZE) with
  | none =>
    rw [h.find_eq_none hg]
    rfl
  | some c =>
    obtain ⟨a, L, hx, hfind, hflags, hcoh, -⟩ := h.exists_find hg
    have ha := hcoh.layout.area a List.mem_cons_self
    obtain ⟨p, hp, -⟩ := ha.ok
    have hmem := (ha.mem_range_iff vaddr).mp hx
    rw [ha.pages_eq hp] at hmem
    obtain ⟨i, hi⟩ : ∃ i, vaddr / PAGE_SIZE = p + i :=
      ⟨vaddr / PAGE_SIZE - p, by have := hmem.1; omega⟩
    have hindex : (vaddr - a.segment.start) / PAGE_SIZE = i := by
      have hstart := hp.start_eq
      simp only [PAGE_SIZE] at hi hstart ⊢
      omega
    rw [hi] at hmem hg
    obtain ⟨c', hc', hframe⟩ := hp.cell i (by have := hmem.2; omega)
    obtain rfl : c' = c := Option.some.inj (hc'.symm.trans hg)
    rw [hfind, Option.bind_some, Option.bind_some, hindex, hframe, Option.join_some, hflags,
      Option.map_map]
    rfl

theorem mem_framed_iff (h : SpaceOk e g ms w) (n : ℕ) :
    n ∈ ms.framed ↔ (pageAt g n).isSome := by
  rw [MemorySet.framed, Set.mem_ofPred_eq, h.frameAt_eq, Nat.mul_div_cancel n (by norm_num), pageAt]
  cases g n with
  | none => rfl
  | some c =>
    rw [Option.bind_some, Option.bind_some, Option.isSome_map]

/-- The frame of an address is the one at its index in the area that contains it. -/
theorem frameAt_eq_some_iff (h : SpaceOk e g ms w) {vaddr paddr : ℕ}
    {flags : PTEFlags} :
    ms.frameAt vaddr = some (paddr, flags) ↔ ∃ area ∈ ms.areaMap.iter, area.start ≤ vaddr ∧
      vaddr < area.end_ ∧ area.pma.frames[(vaddr - area.start) / PAGE_SIZE]? = some (some paddr) ∧
        area.flags = flags := by
  rw [MemorySet.frameAt, Option.bind_eq_some_iff]
  constructor
  · rintro ⟨area, hfind, hframe⟩
    obtain ⟨a, ha, hx, rfl⟩ := ((areaLaws e 0).find_eq_some_iff h.represents).mp hfind
    have hat := h.coherent.layout.area a ha
    obtain ⟨q, hq, hflags⟩ := Option.map_eq_some_iff.mp hframe
    rw [Prod.mk.injEq] at hflags
    refine ⟨a.segment, List.mem_map.mpr ⟨a, ha, rfl⟩, hat.start_eq ▸ hx.1, hat.end_eq ▸ hx.2, ?_,
      hflags.2⟩
    rw [← hflags.1]
    exact Option.join_eq_some_iff.mp hq
  · rintro ⟨area, harea, hl, hr, hframe, rfl⟩
    obtain ⟨a, ha, rfl⟩ := List.mem_map.mp harea
    have hat := h.coherent.layout.area a ha
    refine ⟨a.segment, ((areaLaws e 0).find_eq_some_iff h.represents).mpr
      ⟨a, ha, ⟨hat.start_eq ▸ hl, hat.end_eq ▸ hr⟩, rfl⟩, ?_⟩
    rw [hframe]
    rfl

omit [FileStore F φ] in
/-- The page table computes what the cells ask for. -/
theorem lookup_eq (h : SpaceOk e g ms w) {vaddr : ℕ} (hv : vaddr < e.lim * 2 ^ 30) :
    PageTable.lookup (ms.pt, w) vaddr = entries g (vaddr / PAGE_SIZE) := by
  obtain ⟨T, hb, -⟩ := h.coherent.backed
  have hlim := hb.table.lim_le
  have hvpn : vpn vaddr = vaddr / PAGE_SIZE := by
    simp only [vpn, PAGE_SIZE]
    omega
  rw [lookup_eq_translate, hvpn, hb.table.translate_eq _ (by simp only [PAGE_SIZE]; omega)]

omit [FileStore F φ] in
/-- The frames that an address space relies on are its own and the foreign ones. -/
theorem held_eq (h : SpaceOk e g ms w) : held e g ms.pt = ms.frames ∪ e.foreign := by
  ext q
  constructor
  · rintro (hq | hq | ⟨n, pg, hpg, rfl⟩)
    · exact Or.inl (Or.inl hq)
    · exact Or.inr hq
    · obtain ⟨c, hc, hpage⟩ := Option.bind_eq_some_iff.mp hpg
      obtain ⟨a, ha, hmem⟩ := h.coherent.layout.cover n (by rw [hc]; rfl)
      have hat := h.coherent.layout.area a ha
      obtain ⟨p, hp, -⟩ := hat.ok
      rw [hat.pages_eq hp] at hmem
      obtain ⟨c', hc', hframe⟩ := hp.cell (n - p) (by have := hmem.1; have := hmem.2; omega)
      rw [Nat.add_sub_cancel' hmem.1, hc] at hc'
      obtain rfl := Option.some.inj hc'
      rw [hpage] at hframe
      exact Or.inl (Or.inr ⟨a, ha, List.mem_of_getElem? hframe⟩)
  · rintro ((hq | ⟨a, ha, hq⟩) | hq)
    · exact Or.inl hq
    · have hat := h.coherent.layout.area a ha
      obtain ⟨p, hp, -⟩ := hat.ok
      obtain ⟨i, hi, hget⟩ := List.getElem_of_mem hq
      obtain ⟨c, hc, hframe⟩ := hp.cell i hi
      rw [List.getElem?_eq_getElem hi, hget, Option.some.injEq, eq_comm,
        Option.map_eq_some_iff] at hframe
      obtain ⟨pg, hpg, rfl⟩ := hframe
      exact Or.inr (Or.inr ⟨p + i, pg, by rw [pageAt, hc]; exact hpg, rfl⟩)
    · exact Or.inr (Or.inl hq)

end SpaceOk

/-! ## The world goes on -/

/-- The cells with the contents that the memory has now. -/
def refresh (mem : ByteMem) (g : ℕ → Option Cell) (n : ℕ) : Option Cell :=
  (g n).map fun c ↦ { c with page := c.page.map fun pg ↦ { pg with data := pageData mem pg.paddr } }

theorem pageAt_refresh (mem : ByteMem) (g : ℕ → Option Cell) (n : ℕ) :
    pageAt (refresh mem g) n
      = (pageAt g n).map fun pg ↦ { pg with data := pageData mem pg.paddr } := by
  rw [pageAt, refresh, pageAt]
  cases g n <;> rfl

theorem entries_refresh (mem : ByteMem) (g : ℕ → Option Cell) :
    entries (refresh mem g) = entries g := by
  funext n
  rw [entries, refresh, entries]
  cases g n with
  | none => rfl
  | some c =>
    rw [Option.map_some, Option.bind_some, Option.bind_some, Cell.entry, Cell.entry]
    cases c.page <;> rfl

/-- Others leave the tables of an address space alone and do not free its frames. -/
structure Undisturbed [FrameAllocator σ] (ms : MemorySet F) (w w' : World σ φ) : Prop where
  tables : ∀ p ∈ ms.pt.frames, Kept w w' p
  frames : ∀ p ∈ ms.frames, p ∈ w'.inUse
  oom : w.oom = true → w'.oom = true

variable [FrameAllocator σ] {e : PtEnv} {g : ℕ → Option Cell} {ms : MemorySet F}
variable {w w' : World σ φ}

/-- The address space stays coherent while others run; only the contents of pages change. -/
theorem SpaceOk.of_world (h : SpaceOk e g ms w) (hw : Undisturbed ms w w')
    (hforeign : ∀ p ∈ e.foreign, Kept w w' p) : SpaceOk e (refresh w'.mem g) ms w' := by
  obtain ⟨T, hb, hT⟩ := h.coherent.backed
  have hsome : ∀ n, (refresh w'.mem g n).isSome = (g n).isSome := fun n ↦ Option.isSome_map
  refine ⟨h.keyed, ⟨⟨fun a ha ↦ ?_, h.coherent.layout.apart, fun n hn ↦ ?_⟩, T,
    ⟨fun hn ↦ ?_, ?_, ?_⟩, fun n hn ↦ ?_⟩, h.args_eq, h.isUser⟩
  · obtain ⟨hs, he, p, hp, hflags⟩ := h.coherent.layout.area a ha
    refine ⟨hs, he, p, ⟨hp.start_eq, hp.end_eq, hp.pos, hp.le, fun i hi ↦ ?_⟩, fun i hi c hc ↦ ?_⟩
    · obtain ⟨c, hc, hframe⟩ := hp.cell i hi
      refine ⟨_, by rw [refresh, hc, Option.map_some], ?_⟩
      rw [hframe]
      cases c.page <;> rfl
    · rw [refresh] at hc
      obtain ⟨c', hc', rfl⟩ := Option.map_eq_some_iff.mp hc
      exact hflags i hi c' hc'
  · exact h.coherent.layout.cover n (by rwa [hsome] at hn)
  · exact hb.below (by rwa [hsome] at hn)
  · rw [entries_refresh]
    exact hb.table.of_world hw.tables hforeign hw.oom
  · refine ⟨fun {n pg} hpg ↦ ?_, fun {n m pg pg'} hn hm heq ↦ ?_⟩
    · rw [pageAt_refresh] at hpg
      obtain ⟨pg₀, hpg₀, rfl⟩ := Option.map_eq_some_iff.mp hpg
      have hok := hb.frames.ok hpg₀
      have hheld : pg₀.paddr ∈ ms.frames := by
        have hmem : pg₀.paddr ∈ held e g ms.pt := Or.inr (Or.inr ⟨n, pg₀, hpg₀, rfl⟩)
        rw [h.held_eq] at hmem
        exact hmem.resolve_right hok.notForeign
      exact ⟨hok.aligned, hok.lt, hw.frames _ hheld, hok.notTable, hok.notForeign,
        fun i hi ↦ (if_pos hi).symm⟩
    · rw [pageAt_refresh] at hn hm
      obtain ⟨pg₀, hpg₀, rfl⟩ := Option.map_eq_some_iff.mp hn
      obtain ⟨pg₁, hpg₁, rfl⟩ := Option.map_eq_some_iff.mp hm
      exact hb.frames.inj hpg₀ hpg₁ heq
  · exact hT n (by rwa [hsome] at hn)

/-! ## Calls -/

/-- The calls on a user address space. -/
inductive SpaceCall (F : Type)
  | push (vma : VmArea F)
  | pushWithBackend (start end_ : ℕ) (flags : PTEFlags) (backend : Option (BackEndFile F))
      (anywhere : Bool)
  | munmap (start end_ : ℕ)
  | mprotect (start end_ : ℕ) (newFlags : PTEFlags)
  | handlePageFault (vaddr : ℕ) (accessFlags : PTEFlags)
  | manuallyAllocPage (vaddr : ℕ)
  | write (start len : ℕ) (src : List UInt8) (accessFlags : PTEFlags)
  | clearUserPagesAndSaveKernel

namespace SpaceCall

/-- Did the call succeed, and the address space after it. -/
def run [FileStore F φ] (ms : MemorySet F) :
    SpaceCall F → EStateM Panic (World σ φ) (Except OSError Unit × MemorySet F)
  | push vma => ms.push vma
  | pushWithBackend start end_ flags backend anywhere =>
    (fun r ↦ (r.1.map fun _ ↦ (), r.2)) <$> ms.pushWithBackend start end_ flags backend anywhere
  | munmap start end_ => (fun r ↦ (.ok (), r.2)) <$> ms.munmap start end_
  | mprotect start end_ newFlags => (fun r ↦ (.ok (), r.2)) <$> ms.mprotect start end_ newFlags
  | handlePageFault vaddr accessFlags => ms.handlePageFault vaddr accessFlags
  | manuallyAllocPage vaddr => ms.manuallyAllocPage vaddr
  | write start len src accessFlags => ms.write start len src accessFlags
  | clearUserPagesAndSaveKernel => (fun ms ↦ (.ok (), ms)) <$> ms.clearUserPagesAndSaveKernel

/-- The calls one after another. -/
def runAll [FileStore F φ] : List (SpaceCall F) → MemorySet F →
    EStateM Panic (World σ φ) (MemorySet F)
  | [], ms => pure ms
  | c :: calls, ms => do
    let r ← c.run ms
    runAll calls r.2

/-- A new address space and calls on it. -/
def runNew [FileStore F φ] (kernelRoot : ℕ) (calls : List (SpaceCall F)) :
    EStateM Panic (World σ φ) (MemorySet F) := do
  let ms ← MemorySet.newMemorySetForTask kernelRoot
  runAll calls ms

/-- The pages that got their frame from `write` and were not entered into the page table since. A
page is entered when a fault on it or `manually_alloc_page` succeeds. -/
def unentered (D : Set ℕ) (ms : MemorySet F) (r : Except OSError Unit × MemorySet F) :
    SpaceCall F → Set ℕ
  | write .. => D ∪ (r.2.framed \ ms.framed)
  | handlePageFault vaddr _ | manuallyAllocPage vaddr =>
    match r.1 with
    | .ok () => D \ {vaddr / PAGE_SIZE}
    | .error _ => D
  | _ => D

/-- The pages of the area that the call may add. -/
def newPages (ms : MemorySet F) : SpaceCall F → Set ℕ
  | push vma => pagesOf vma.start vma.end_
  | pushWithBackend start end_ _ _ true =>
    {n | ∃ p, ms.areaMap.findFreeArea start (wsub end_ start) = some p ∧
      n ∈ pagesOf p (p + wsub end_ start)}
  | pushWithBackend start end_ _ _ false =>
    {n | LOWER_LIMIT ≤ start ∧ end_ < USER_VIRT_ADDR_LIMIT ∧ n ∈ pagesOf start end_}
  | _ => ∅

/-- What a call that returned `r` did to the cells. -/
def Effect (ms : MemorySet F) (r : Except OSError Unit × MemorySet F) (g g' : ℕ → Option Cell) :
    SpaceCall F → Prop
  | push vma => ∃ mem, g' = PointMap.overwrite vma.toRange.pages (newCells vma mem true) g
  | pushWithBackend start end_ flags _ true =>
    ∃ p, ms.areaMap.findFreeArea start (wsub end_ start) = some p ∧
      g' = PointMap.overwrite (pagesOf p (p + wsub end_ start)) (fun _ ↦ some ⟨flags, none⟩) g
  | pushWithBackend start end_ flags _ false =>
    g' = g ∨ LOWER_LIMIT ≤ start ∧ end_ < USER_VIRT_ADDR_LIMIT ∧
      g' = PointMap.overwrite (pagesOf start end_) (fun _ ↦ some ⟨flags, none⟩) g
  | munmap start end_ => g' = PointMap.erase (pagesOf start end_) g
  | mprotect start end_ newFlags =>
    g' = PointMap.update (pagesOf start end_) (Cell.withFlags newFlags) g
  | handlePageFault vaddr _ | manuallyAllocPage vaddr =>
    (∃ c c', g (vaddr / PAGE_SIZE) = some c ∧ c.Populated c' ∧
      g' = Function.update g (vaddr / PAGE_SIZE) (some c')) ∨ r.1 ≠ .ok () ∧ g' = g
  | write .. => Written g g'
  | clearUserPagesAndSaveKernel =>
    g' = PointMap.erase (pagesOf LOWER_LIMIT USER_VIRT_ADDR_LIMIT) g

/-- The frames of an area that is pushed are separate frames in use outside `K`, and its flags are
not empty. -/
structure Fresh (K : Set ℕ) (w : World σ φ) (vma : VmArea F) : Prop where
  ok : ∀ {i paddr : ℕ}, vma.pma.frames[i]? = some (some paddr) →
    PageAligned paddr ∧ paddr < 2 ^ 56 ∧ paddr ∈ w.inUse ∧ paddr ∉ K
  inj : ∀ {i j paddr : ℕ}, vma.pma.frames[i]? = some (some paddr) →
    vma.pma.frames[j]? = some (some paddr) → i = j
  flags : ∀ {i paddr : ℕ}, vma.pma.frames[i]? = some (some paddr) → vma.flags ≠ 0

/-- The call keeps below the kernel's root slots, cuts areas at page boundaries, and removes or
changes no page of `D`. -/
def Proper (D : Set ℕ) (ms : MemorySet F) (w : World σ φ) : SpaceCall F → Prop
  | push vma => vma.Wf 510 ∧ LOWER_LIMIT ≤ vma.start ∧ Fresh ms.frames w vma ∧
      Disjoint (touched vma.start vma.end_) D
  | pushWithBackend start end_ _ _ anywhere => PageAligned start ∧ PageAligned end_ ∧
      if anywhere then ∀ p, ms.areaMap.findFreeArea start (wsub end_ start) = some p →
        p + wsub end_ start ≤ 510 * 2 ^ 30
      else Disjoint (touched start end_) D
  | munmap start end_ | mprotect start end_ _ => SpaceOk.Cuts ms start end_ ∧
      Disjoint (touched start end_) D
  | clearUserPagesAndSaveKernel => SpaceOk.Cuts ms LOWER_LIMIT USER_VIRT_ADDR_LIMIT ∧
      Disjoint (touched LOWER_LIMIT USER_VIRT_ADDR_LIMIT) D
  | handlePageFault .. | manuallyAllocPage _ | write .. => True

end SpaceCall

/-- The address space stands for cells that are mapped if they have a frame, except in `D`. -/
def SpaceInv (e : PtEnv) (D : Set ℕ) (ms : MemorySet F) (w : World σ φ) : Prop :=
  ∃ g, SpaceOk e g ms w ∧ ∀ n c, g n = some c → n ∉ D → c.Free

namespace SpaceInv

variable [FileStore F φ] {D : Set ℕ} {start end_ : ℕ}

omit [FrameAllocator σ] [FileStore F φ] in
theorem free_of_disjoint (hD : ∀ n c, g n = some c → n ∉ D → c.Free)
    (hdisj : Disjoint (touched start end_) D) : ∀ n ∈ touched start end_, ∀ c ∈ g n, c.Free :=
  fun n hn c hc ↦ hD n c hc (Set.disjoint_left.mp hdisj hn)

omit [FrameAllocator σ] [FileStore F φ] in
/-- New cells that are mapped take the place of others. -/
theorem free_overwrite {I : Set ℕ} {v : ℕ → Option Cell}
    (hD : ∀ n c, g n = some c → n ∉ D → c.Free) (hv : ∀ n c, v n = some c → c.Free) (n : ℕ)
    (c : Cell) (hc : PointMap.overwrite I v g n = some c) (hn : n ∉ D) : c.Free := by
  by_cases hI : n ∈ I
  · rw [PointMap.overwrite_of_mem hI] at hc
    exact hv n c hc
  · rw [PointMap.overwrite_of_notMem hI] at hc
    exact hD n c hc hn

omit [FrameAllocator σ] [FileStore F φ] in
theorem free_erase {I : Set ℕ} (hD : ∀ n c, g n = some c → n ∉ D → c.Free) (n : ℕ) (c : Cell)
    (hc : PointMap.erase I g n = some c) (hn : n ∉ D) : c.Free := by
  by_cases hI : n ∈ I
  · rw [PointMap.erase_of_mem hI] at hc
    exact absurd hc (by simp)
  · rw [PointMap.erase_of_notMem hI] at hc
    exact hD n c hc hn

omit [FrameAllocator σ] [FileStore F φ] in
/-- Flags do not matter. -/
theorem free_update {I : Set ℕ} {flags : PTEFlags} (hD : ∀ n c, g n = some c → n ∉ D → c.Free)
    (n : ℕ) (c : Cell) (hc : PointMap.update I (Cell.withFlags flags) g n = some c) (hn : n ∉ D) :
    c.Free := by
  by_cases hI : n ∈ I
  · rw [PointMap.update_of_mem hI, Option.map_eq_some_iff] at hc
    obtain ⟨c', hc', rfl⟩ := hc
    exact hD n c' hc' hn
  · rw [PointMap.update_of_notMem hI] at hc
    exact hD n c hc hn

omit [FrameAllocator σ] [FileStore F φ] in
/-- A page that was populated leaves `D`. -/
theorem free_populated {m : ℕ} {c c' : Cell} (hD : ∀ n c, g n = some c → n ∉ D → c.Free)
    (hpop : c.Populated c') (n : ℕ) (c₁ : Cell)
    (hc : Function.update g m (some c') n = some c₁) (hn : n ∉ D \ {m}) : c₁.Free := by
  by_cases hnm : n = m
  · rw [hnm, Function.update_self, Option.some.injEq] at hc
    exact hc ▸ hpop.free
  · rw [Function.update_of_ne hnm] at hc
    exact hD n c₁ hc fun hmem ↦ hn ⟨hmem, hnm⟩

omit [FrameAllocator σ] [FileStore F φ] in
theorem isSome_overwrite {I : Set ℕ} {v : ℕ → Option Cell} {n : ℕ}
    (hn : (PointMap.overwrite I v g n).isSome) : (g n).isSome ∨ n ∈ I := by
  by_cases hI : n ∈ I
  · exact Or.inr hI
  · rw [PointMap.overwrite_of_notMem hI] at hn
    exact Or.inl hn

omit [FrameAllocator σ] [FileStore F φ] in
theorem isSome_update {m : ℕ} {c c' : Cell} (hc : g m = some c) {n : ℕ}
    (hn : (Function.update g m (some c') n).isSome) : (g n).isSome := by
  by_cases hnm : n = m
  · rw [hnm, hc]
    rfl
  · rwa [Function.update_of_ne hnm] at hn

/-- A call does to the cells what its effect says; the foreign frames are left alone. -/
theorem wp_run_effect (hok : SpaceOk e g ms w) (hD : ∀ n c, g n = some c → n ∉ D → c.Free)
    (hlim : e.lim = 510) {c : SpaceCall F} (hc : c.Proper D ms w)
    (hforeign : ∀ vma, c = .push vma → ∀ p ∈ e.foreign, some p ∉ vma.pma.frames) :
    wp (c.run ms) (fun r w' ↦ ∃ g', SpaceOk e g' r.2 w' ∧ c.Effect ms r g g') otherPanic w := by
  cases c with
  | push vma =>
    obtain ⟨hwf, hlow, hfresh, hdisj⟩ := hc
    have hnew : NewFrames e g vma (ms.pt, w) := by
      refine ⟨fun hi ↦ ?_, hfresh.inj, hfresh.flags⟩
      obtain ⟨hal, hlt, huse, hnot⟩ := hfresh.ok hi
      refine ⟨hal, hlt, huse, ?_⟩
      rw [hok.held_eq]
      rintro (hmem | hmem)
      · exact hnot hmem
      · exact hforeign vma rfl _ hmem (List.mem_of_getElem? hi)
    refine wp_mono (hok.wp_push (hlim ▸ hwf) hlow hnew (free_of_disjoint hD hdisj))
      (fun r w' hr ↦ ⟨_, hr.2, w.mem, rfl⟩) fun p w' hp ↦ ?_
    rw [hp.1]
    rfl
  | pushWithBackend start end_ flags backend anywhere =>
    obtain ⟨hs, he, hrest⟩ := hc
    rw [SpaceCall.run, wp_map]
    cases anywhere with
    | true =>
      refine wp_imp (hok.wp_pushWithBackend_anywhere hs he (hlim ▸ hrest) flags backend)
        fun r w' hr ↦ ?_
      obtain ⟨p, hfind, -, -, -, -, hok'⟩ := hr
      exact ⟨_, hok', p, hfind, rfl⟩
    | false =>
      refine wp_imp (hok.wp_pushWithBackend_fixed hs he (by omega) (free_of_disjoint hD hrest) flags
        backend) fun r w' hr ↦ ?_
      rcases hr with ⟨err, -, hms, hw⟩ | ⟨hlow, -, hup, -, hok'⟩
      · rw [hms, hw]
        exact ⟨g, hok, Or.inl rfl⟩
      · exact ⟨_, hok', Or.inr ⟨hlow, hup, rfl⟩⟩
  | munmap start end_ =>
    rw [SpaceCall.run, wp_map]
    exact wp_imp (hok.wp_munmap_of_cuts hc.1 (free_of_disjoint hD hc.2)) fun r w' hr ↦ ⟨_, hr, rfl⟩
  | mprotect start end_ newFlags =>
    rw [SpaceCall.run, wp_map]
    exact wp_imp (hok.wp_mprotect_of_cuts hc.1 (free_of_disjoint hD hc.2) newFlags) fun r w' hr ↦
      ⟨_, hr, rfl⟩
  | handlePageFault vaddr accessFlags =>
    refine wp_mono (hok.wp_handlePageFault vaddr accessFlags) (fun r w' hr ↦ ?_)
      fun _ _ h ↦ h.elim
    rcases hr with ⟨c, c', hc, hpop, hok'⟩ | ⟨herr, hok'⟩
    · exact ⟨_, hok', Or.inl ⟨c, c', hc, hpop, rfl⟩⟩
    · exact ⟨g, hok', Or.inr ⟨herr, rfl⟩⟩
  | manuallyAllocPage vaddr =>
    refine wp_mono (hok.wp_manuallyAllocPage vaddr) (fun r w' hr ↦ ?_) fun _ _ h ↦ h.elim
    rcases hr with ⟨c, c', hr, hc, hpop, hok'⟩ | ⟨err, hr, hok', -⟩
    · exact ⟨_, hok', Or.inl ⟨c, c', hc, hpop, rfl⟩⟩
    · exact ⟨g, hok', Or.inr ⟨by rw [hr]; simp, rfl⟩⟩
  | write start len src accessFlags =>
    refine wp_mono (hok.wp_write start len src accessFlags) (fun r w' hr ↦ ?_) fun p _ hp ↦ ?_
    · obtain ⟨g', hg', hok'⟩ := hr
      exact ⟨g', hok', hg'⟩
    · rw [hp]
      rfl
  | clearUserPagesAndSaveKernel =>
    rw [SpaceCall.run, wp_map, MemorySet.clearUserPagesAndSaveKernel, hok.isUser,
      if_neg (by decide), wp_bind]
    exact wp_imp (hok.wp_munmap_of_cuts hc.1 (free_of_disjoint hD hc.2)) fun r w' hr ↦ ⟨_, hr, rfl⟩

/-- The pages that `write` left unentered are all that is not mapped. -/
theorem free_effect {r : Except OSError Unit × MemorySet F} {g' : ℕ → Option Cell}
    {c : SpaceCall F} (hok : SpaceOk e g ms w) (hD : ∀ n c, g n = some c → n ∉ D → c.Free)
    (hok' : SpaceOk e g' r.2 w') (h : c.Effect ms r g g') (n : ℕ) (c₁ : Cell)
    (hc₁ : g' n = some c₁) (hn : n ∉ c.unentered D ms r) : c₁.Free := by
  have hempty : ∀ (flags : PTEFlags) (n : ℕ) (c : Cell), some ⟨flags, none⟩ = some c → c.Free := by
    rintro flags n c ⟨⟩ pg hpg
    exact absurd hpg (by simp)
  have hfault : ∀ m, (∃ c c', g m = some c ∧ c.Populated c' ∧
      g' = Function.update g m (some c')) ∨ r.1 ≠ .ok () ∧ g' = g →
      n ∉ (match r.1 with | .ok () => D \ {m} | .error _ => D) → c₁.Free := by
    rintro m (⟨c, c', -, hpop, rfl⟩ | ⟨herr, rfl⟩) hn
    · refine free_populated hD hpop n c₁ hc₁ fun hmem ↦ hn ?_
      cases r.1 with
      | ok _ => exact hmem
      | error _ => exact hmem.1
    · cases hr : r.1 with
      | ok _ => exact absurd hr herr
      | error _ =>
        rw [hr] at hn
        exact hD n c₁ hc₁ hn
  cases c with
  | push vma =>
    obtain ⟨mem, rfl⟩ := h
    refine free_overwrite hD (fun n c hc pg hpg ↦ ?_) n c₁ hc₁ hn
    exact (newCells_page (n := n) (by rw [hc]; exact hpg)).2.2
  | pushWithBackend start end_ flags backend anywhere =>
    cases anywhere with
    | true =>
      obtain ⟨p, -, rfl⟩ := h
      exact free_overwrite hD (hempty flags) n c₁ hc₁ hn
    | false =>
      obtain rfl | ⟨-, -, rfl⟩ := h
      · exact hD n c₁ hc₁ hn
      · exact free_overwrite hD (hempty flags) n c₁ hc₁ hn
  | munmap start end_ =>
    rw [show g' = _ from h] at hc₁
    exact free_erase hD n c₁ hc₁ hn
  | mprotect start end_ newFlags =>
    rw [show g' = _ from h] at hc₁
    exact free_update hD n c₁ hc₁ hn
  | handlePageFault vaddr accessFlags => exact hfault _ h hn
  | manuallyAllocPage vaddr => exact hfault _ h hn
  | write start len src accessFlags =>
    rw [SpaceCall.unentered, Set.mem_union, Set.mem_sdiff, hok.mem_framed_iff,
      hok'.mem_framed_iff, not_or] at hn
    have hrel : Option.Rel Cell.Written (g n) (g' n) := h n
    rw [hc₁] at hrel
    generalize hc : g n = x at hrel
    cases hrel with
    | some hwritten =>
      rename_i c
      intro pg' hpg'
      cases hpage : c.page with
      | none =>
        -- the frame is new, so the page is among those that were added
        refine absurd ⟨?_, ?_⟩ hn.2
        · rw [pageAt, hc₁, Option.bind_some, Option.mem_def.mp hpg']
          rfl
        · rw [pageAt, hc, Option.bind_some, hpage]
          simp
      | some pg =>
        obtain ⟨data, hdata⟩ := hwritten.old pg hpage
        rw [hdata, Option.mem_some_iff] at hpg'
        rw [← hpg']
        exact hD n c hc hn.1 pg hpage
  | clearUserPagesAndSaveKernel =>
    rw [show g' = _ from h] at hc₁
    exact free_erase hD n c₁ hc₁ hn

omit [FrameAllocator σ] [FileStore F φ] in
/-- Cells appear only for the pages of a new area. -/
theorem newPages_effect {r : Except OSError Unit × MemorySet F} {g' : ℕ → Option Cell}
    {c : SpaceCall F} (h : c.Effect ms r g g') (n : ℕ) (hn : (g' n).isSome) :
    (g n).isSome ∨ n ∈ c.newPages ms := by
  have hfault : ∀ m, (∃ c c', g m = some c ∧ c.Populated c' ∧
      g' = Function.update g m (some c')) ∨ r.1 ≠ .ok () ∧ g' = g → (g n).isSome := by
    rintro m (⟨c, c', hc, -, rfl⟩ | ⟨-, rfl⟩)
    · exact isSome_update hc hn
    · exact hn
  cases c with
  | push vma =>
    obtain ⟨mem, rfl⟩ := h
    exact isSome_overwrite hn
  | pushWithBackend start end_ flags backend anywhere =>
    cases anywhere with
    | true =>
      obtain ⟨p, hfind, rfl⟩ := h
      exact (isSome_overwrite hn).imp_right fun hmem ↦ ⟨p, hfind, hmem⟩
    | false =>
      obtain rfl | ⟨hlow, hup, rfl⟩ := h
      · exact Or.inl hn
      · exact (isSome_overwrite hn).imp_right fun hmem ↦ ⟨hlow, hup, hmem⟩
  | munmap start end_ =>
    rw [show g' = _ from h] at hn
    exact Or.inl (PointMap.isSome_of_isSome_erase hn)
  | mprotect start end_ newFlags =>
    rw [show g' = _ from h, PointMap.isSome_update] at hn
    exact Or.inl hn
  | handlePageFault vaddr accessFlags => exact Or.inl (hfault _ h)
  | manuallyAllocPage vaddr => exact Or.inl (hfault _ h)
  | write start len src accessFlags =>
    have hrel : Option.Rel Cell.Written (g n) (g' n) := h n
    generalize g n = x, g' n = y at hrel hn
    cases hrel with
    | none => exact Or.inl hn
    | some _ => exact Or.inl rfl
  | clearUserPagesAndSaveKernel =>
    rw [show g' = _ from h] at hn
    exact Or.inl (PointMap.isSome_of_isSome_erase hn)

/-- What a call does to the cells: the foreign frames are left alone, and cells appear only for the
pages of a new area. -/
theorem wp_run_cells (hok : SpaceOk e g ms w) (hD : ∀ n c, g n = some c → n ∉ D → c.Free)
    (hlim : e.lim = 510) {c : SpaceCall F} (hc : c.Proper D ms w)
    (hforeign : ∀ vma, c = .push vma → ∀ p ∈ e.foreign, some p ∉ vma.pma.frames) :
    wp (c.run ms) (fun r w' ↦ ∃ g', SpaceOk e g' r.2 w' ∧
      (∀ n c₁, g' n = some c₁ → n ∉ c.unentered D ms r → c₁.Free) ∧
      ∀ n, (g' n).isSome → (g n).isSome ∨ n ∈ c.newPages ms) otherPanic w := by
  refine wp_imp (wp_run_effect hok hD hlim hc hforeign) fun r w' hr ↦ ?_
  obtain ⟨g', hok', heffect⟩ := hr
  exact ⟨g', hok', free_effect hok hD hok' heffect, newPages_effect heffect⟩

/-- What a call does to the invariant, the foreign frames being left alone. -/
theorem wp_run (h : SpaceInv e D ms w) (hlim : e.lim = 510) {c : SpaceCall F}
    (hc : c.Proper D ms w)
    (hforeign : ∀ vma, c = .push vma → ∀ p ∈ e.foreign, some p ∉ vma.pma.frames) :
    wp (c.run ms) (fun r w' ↦ SpaceInv e (c.unentered D ms r) r.2 w') otherPanic w := by
  obtain ⟨g, hok, hD⟩ := h
  refine wp_imp (wp_run_cells hok hD hlim hc hforeign) fun r w' hr ↦ ?_
  obtain ⟨g', hok', hD', -⟩ := hr
  exact ⟨g', hok', hD'⟩

end SpaceInv

/-! ## Runs -/

/-- What the page table of an address space leaves alone. -/
def spaceEnv (shared : ℕ → ℕ) : PtEnv where
  lim := 510
  shared
  foreign := ∅
  mem := fun _ ↦ 0
  oom := false

omit [FrameAllocator σ] in
/-- An address space may stop caring about foreign frames. -/
theorem SpaceOk.forget [FrameAllocator σ] {kernelRoot : ℕ} {foreign : Set ℕ} {w₀ : World σ φ}
    (h : SpaceOk (userEnv kernelRoot foreign w₀) g ms w) :
    SpaceOk (spaceEnv (entryAt w₀.mem kernelRoot)) g ms w := by
  obtain ⟨T, hb, hT⟩ := h.coherent.backed
  refine ⟨h.keyed, ⟨h.coherent.layout, T, ⟨hb.below, ?_, fun hpg ↦ ?_, hb.frames.inj⟩, hT⟩,
    h.args_eq, h.isUser⟩
  · exact { hb.table with
      foreign := fun p hp ↦ absurd hp (Set.notMem_empty p)
      oom := fun ho ↦ absurd ho Bool.false_ne_true }
  · exact { hb.frames.ok hpg with notForeign := Set.notMem_empty _ }

/-- The states that an address space can be in, with the pages that `write` left unentered, when
every call satisfies `ok`. -/
inductive Reach [FileStore F φ] (kernelRoot : ℕ)
    (ok : Set ℕ → MemorySet F → World σ φ → SpaceCall F → Prop) :
    Set ℕ → MemorySet F → World σ φ → Prop
  | new {w₀ w : World σ φ} {ms : MemorySet F} (hal : PageAligned kernelRoot)
      (huse : kernelRoot ∈ w₀.inUse)
      (h : (MemorySet.newMemorySetForTask kernelRoot).run w₀ = .ok ms w) :
      Reach kernelRoot ok ∅ ms w
  | call {D : Set ℕ} {ms : MemorySet F} {w w' : World σ φ} {c : SpaceCall F}
      {r : Except OSError Unit × MemorySet F} (h : Reach kernelRoot ok D ms w) (hc : ok D ms w c)
      (hrun : (c.run ms).run w = .ok r w') : Reach kernelRoot ok (c.unentered D ms r) r.2 w'
  | world {D : Set ℕ} {ms : MemorySet F} {w w' : World σ φ} (h : Reach kernelRoot ok D ms w)
      (hw : Undisturbed ms w w') : Reach kernelRoot ok D ms w'

/-- What is known of a call holds of the state that it reaches. -/
theorem Reach.wp_call [FileStore F φ] {kernelRoot : ℕ}
    {ok : Set ℕ → MemorySet F → World σ φ → SpaceCall F → Prop} {D : Set ℕ} {c : SpaceCall F}
    {Q : Except OSError Unit × MemorySet F → World σ φ → Prop} {E : Panic → World σ φ → Prop}
    (h : Reach kernelRoot ok D ms w) (hc : ok D ms w c) (hwp : wp (c.run ms) Q E w) :
    wp (c.run ms) (fun r w' ↦ Reach kernelRoot ok (c.unentered D ms r) r.2 w' ∧ Q r w') E w := by
  rw [wp] at hwp ⊢
  cases hrun : (c.run ms).run w with
  | ok r w' =>
    rw [hrun] at hwp
    exact ⟨.call h hc hrun, hwp⟩
  | error p w' =>
    rw [hrun] at hwp
    exact hwp

/-- A weaker condition on the calls reaches more. -/
theorem Reach.mono [FileStore F φ] {kernelRoot : ℕ}
    {ok ok' : Set ℕ → MemorySet F → World σ φ → SpaceCall F → Prop} {D : Set ℕ}
    (h : Reach kernelRoot ok D ms w)
    (hok : ∀ {D ms w c}, Reach kernelRoot ok D ms w → ok D ms w c → ok' D ms w c) :
    Reach kernelRoot ok' D ms w := by
  induction h with
  | new hal huse hrun => exact .new hal huse hrun
  | call h hc hrun ih => exact .call ih (hok h hc) hrun
  | world h hw ih => exact .world ih hw

omit [FrameAllocator σ] in
theorem free_refresh {mem : ByteMem} {D : Set ℕ} (hD : ∀ n c, g n = some c → n ∉ D → c.Free)
    (n : ℕ) (c : Cell) (hc : refresh mem g n = some c) (hn : n ∉ D) : c.Free := by
  rw [refresh, Option.map_eq_some_iff] at hc
  obtain ⟨c', hc', rfl⟩ := hc
  intro pg hpg
  rw [Option.mem_def, Option.map_eq_some_iff] at hpg
  obtain ⟨pg', hpg', rfl⟩ := hpg
  exact hD n c' hc' hn pg' hpg'

/-- **Along a run of proper calls the address space stays coherent**, and its pages are those that
the calls may add. -/
theorem Reach.cells [FileStore F φ] {kernelRoot : ℕ}
    {ok : Set ℕ → MemorySet F → World σ φ → SpaceCall F → Prop} {D U : Set ℕ}
    (h : Reach kernelRoot ok D ms w)
    (hok : ∀ {D ms w c}, Reach kernelRoot ok D ms w → ok D ms w c →
      c.Proper D ms w ∧ c.newPages ms ⊆ U) :
    ∃ shared g, SpaceOk (spaceEnv shared) g ms w ∧ (∀ n c, g n = some c → n ∉ D → c.Free) ∧
      ∀ n, (g n).isSome → n ∈ U := by
  induction h with
  | new hal huse hrun =>
    have hroot : ∀ p ∈ ({kernelRoot} : Set ℕ), PageAligned p ∧ p ∈ _ := fun p hp ↦ by
      rw [Set.mem_singleton_iff.mp hp]
      exact ⟨hal, huse⟩
    have hnew := wp_newMemorySetForTask (F := F) hroot (Set.mem_singleton kernelRoot)
    exact ⟨_, _, (wp_ok hnew hrun).forget, fun n c hc ↦ absurd hc (by simp),
      fun n hn ↦ absurd hn (by simp)⟩
  | call h hc hrun ih =>
    obtain ⟨shared, g, hinv, hD, hU⟩ := ih
    obtain ⟨hproper, hnew⟩ := hok h hc
    have hstep := SpaceInv.wp_run_cells hinv hD rfl hproper
      fun _ _ p hp ↦ absurd hp (Set.notMem_empty p)
    obtain ⟨g', hok', hD', hU'⟩ := wp_ok hstep hrun
    exact ⟨shared, g', hok', hD', fun n hn ↦ (hU' n hn).elim (hU n) fun hmem ↦ hnew hmem⟩
  | world h hw ih =>
    obtain ⟨shared, g, hinv, hD, hU⟩ := ih
    refine ⟨shared, _, hinv.of_world hw fun p hp ↦ absurd hp (Set.notMem_empty p),
      free_refresh hD, fun n hn ↦ hU n ?_⟩
    rwa [refresh, Option.isSome_map] at hn

theorem Reach.inv [FileStore F φ] {kernelRoot : ℕ}
    {ok : Set ℕ → MemorySet F → World σ φ → SpaceCall F → Prop} {D : Set ℕ}
    (h : Reach kernelRoot ok D ms w)
    (hok : ∀ {D ms w c}, Reach kernelRoot ok D ms w → ok D ms w c → c.Proper D ms w) :
    ∃ shared, SpaceInv (spaceEnv shared) D ms w := by
  obtain ⟨shared, g, hinv, hD, -⟩ := h.cells (U := Set.univ) fun hreach hc ↦
    ⟨hok hreach hc, Set.subset_univ _⟩
  exact ⟨shared, g, hinv, hD⟩

/-- Calls that satisfy `ok` in every state lead to reachable states. -/
theorem Reach.runAll [FileStore F φ] {kernelRoot : ℕ}
    {ok : Set ℕ → MemorySet F → World σ φ → SpaceCall F → Prop} {calls : List (SpaceCall F)}
    (hc : ∀ c ∈ calls, ∀ D ms w, ok D ms w c) {D : Set ℕ} {ms' : MemorySet F}
    (h : Reach kernelRoot ok D ms w) (hrun : (SpaceCall.runAll calls ms).run w = .ok ms' w') :
    ∃ D', Reach kernelRoot ok D' ms' w' := by
  induction calls generalizing D ms w with
  | nil =>
    obtain ⟨rfl, rfl⟩ := EStateM.Result.ok.inj hrun
    exact ⟨D, h⟩
  | cons c calls ih =>
    obtain ⟨r, u, hfirst, hrest⟩ := exists_of_run_bind hrun
    exact ih (fun c hmem ↦ hc c (List.mem_cons_of_mem _ hmem))
      (.call h (hc c List.mem_cons_self D ms w) hfirst) hrest

theorem Reach.runNew [FileStore F φ] {kernelRoot : ℕ}
    {ok : Set ℕ → MemorySet F → World σ φ → SpaceCall F → Prop} {calls : List (SpaceCall F)}
    (hc : ∀ c ∈ calls, ∀ D ms w, ok D ms w c) (hal : PageAligned kernelRoot)
    (huse : kernelRoot ∈ w.inUse) (hrun : (SpaceCall.runNew kernelRoot calls).run w = .ok ms w') :
    ∃ D, Reach kernelRoot ok D ms w' := by
  obtain ⟨ms₀, u, hnew, hrest⟩ := exists_of_run_bind hrun
  exact Reach.runAll hc (.new hal huse hnew) hrest

end Maturin
