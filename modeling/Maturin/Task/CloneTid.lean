import Maturin.Memory.Touch
import Maturin.Syscall.Flags

/-!
# The thread id in the memory of a child

With `CLONE_CHILD_SETTID` or `CLONE_CHILD_CLEARTID` and without `CLONE_VM`, `from_clone` stores an
`i32` at `ctid` in the copy of the parent's address space. It goes through the physical address that
`PageTable::query` returns. This is the address of the frame, without the offset of `ctid` in its
page, so the value lands at the start of the page.

`query` also answers for an entry that is not valid, once the table of the entry exists.
-/

open Exec

namespace Maturin

variable {σ φ F : Type}

def CloneFlags.CLONE_CHILD_CLEARTID : BitVec 32 := 1#32 <<< 21

def CloneFlags.CLONE_CHILD_SETTID : BitVec 32 := 1#32 <<< 24

/-- What is stored at `ctid`. -/
def CloneFlags.childTid (flags : Bitflags CloneFlags.all) (tid : ℕ) : ℕ :=
  if flags.contains CLONE_CHILD_SETTID then tid else 0

/-- The bytes of an `i32`. -/
def i32Bytes (value : ℕ) : List UInt8 := (List.range 4).map fun i ↦ UInt8.ofNat (value / 256 ^ i)

namespace PageTable

/-- The physical address that an entry holds. -/
def query (vaddr : ℕ) : EStateM Panic (PageTable × World σ φ) (Option ℕ) := do
  match ← findPte vaddr with
  | some pte =>
    let bits ← readPte pte
    pure (some (PageTableEntry.addr bits))
  | none => pure none

end PageTable

namespace MemorySet

variable [FrameAllocator σ] [FileStore F φ]

/-- Store an `i32` through the physical address of `ctid`. -/
def storeTid (self : MemorySet F) (ctid value : ℕ) : EStateM Panic (World σ φ) Unit := do
  let (paddr, _) ← withFst self.pt (PageTable.query ctid)
  match paddr with
  | some paddr => modify fun w ↦ w.setMem (w.mem.writeBytes paddr (i32Bytes value))
  | none => pure ()

/-- The part of `from_clone` about `ctid`, for an address space of the child's own. -/
def setChildTid (self : MemorySet F) (flags : Bitflags CloneFlags.all) (ctid tid : ℕ) :
    EStateM Panic (World σ φ) (MemorySet F) :=
  if flags.contains CloneFlags.CLONE_CHILD_SETTID ||
      flags.contains CloneFlags.CLONE_CHILD_CLEARTID then do
    let (r, self) ← self.manuallyAllocPage ctid
    match r with
    | .ok () =>
      self.storeTid ctid (CloneFlags.childTid flags tid)
      pure self
    | .error _ => pure self
  else
    pure self

/-- The address space of the child in `from_clone`, without `CLONE_VM` and `CLONE_PARENT_SETTID`. -/
def fromClone (self : MemorySet F) (kernelRoot : ℕ) (flags : Bitflags CloneFlags.all)
    (ctid tid : ℕ) : EStateM Panic (World σ φ) (MemorySet F) := do
  let vm ← unwrap (Panic.unwrap .fromClone) (self.copyAsFork kernelRoot)
  vm.setChildTid flags ctid tid

end MemorySet

/-! ## What `query` returns -/

section query

variable {s : PageTable × World σ φ} {v : ℕ}

theorem PageTable.wp_query : wp (PageTable.query v) (fun r s' ↦ s' = s ∧
    r = (leafTable s.2.mem s.1.rootPaddr (vpn v / 512)).map fun leaf ↦
      PageTableEntry.addr (entryAt s.2.mem leaf (vpn v % 512))) noPanic s := by
  rw [query, wp_bind]
  refine wp_imp PtInv.wp_findPte fun r s' hr ↦ ?_
  obtain ⟨rfl, rfl⟩ := hr
  cases leafTable s'.2.mem s'.1.rootPaddr (vpn v / 512) with
  | none => exact ⟨rfl, rfl⟩
  | some leaf => exact ⟨rfl, rfl⟩

/-- A valid entry holds the address of the frame. -/
theorem PageTable.wp_query_of_lookup {m : ℕ × PTEFlags} (h : PageTable.lookup s v = some m) :
    wp (PageTable.query v) (fun r s' ↦ s' = s ∧ r = some m.1) noPanic s := by
  refine wp_imp wp_query fun r s' hr ↦ ⟨hr.1, hr.2.trans ?_⟩
  rw [lookup_eq_translate, translate] at h
  obtain ⟨leaf, hleaf, hm⟩ := Option.bind_eq_some_iff.mp h
  rw [mappingAt] at hm
  split_ifs at hm
  rw [hleaf, Option.map_some, ← Option.some.inj hm]

/-- `query` returns the physical address of `v` exactly if there is no table for it, or if the page
is mapped and `v` is its first address. -/
theorem PageTable.wp_query_iff : wp (PageTable.query v) (fun r s' ↦ s' = s ∧
    (r = (PageTable.lookup s v).map (fun m ↦ m.1 + v % PAGE_SIZE) ↔
      leafTable s.2.mem s.1.rootPaddr (vpn v / 512) = none ∨
        (PageTable.lookup s v).isSome ∧ PageAligned v)) noPanic s := by
  refine wp_imp wp_query fun r s' hr ↦ ⟨hr.1, ?_⟩
  rw [hr.2, lookup_eq_translate, translate]
  cases leafTable s.2.mem s.1.rootPaddr (vpn v / 512) with
  | none => exact iff_of_true rfl (Or.inl rfl)
  | some leaf =>
    rw [Option.map_some, Option.bind_some, mappingAt]
    split_ifs with hvalid
    · rw [Option.map_some, Option.some.injEq, eq_comm, Nat.add_eq_left]
      simp [PageAligned]
    · simp

end query

variable [FrameAllocator σ] [FileStore F φ] {e : PtEnv} {g : ℕ → Option Cell}
variable {ms vm child : MemorySet F} {w w₀ w₀' w₁ : World σ φ} {ctid tid value : ℕ}

/-! ## Where the value lands -/

/-- The value is found at the start of the page. -/
theorem SpaceOk.wp_storeTid (h : SpaceOk e g ms w)
    (hentry : (entries g (ctid / PAGE_SIZE)).isSome) :
    wp (ms.storeTid ctid value) (fun _ w' ↦ ms.readsAt w' =
      ms.replaced (alignDown ctid) (i32Bytes value) (ms.readsAt w)) noPanic w := by
  obtain ⟨m, hm⟩ := Option.isSome_iff_exists.mp hentry
  obtain ⟨c, pg, hc, hpg, -, rfl⟩ := exists_page_of_entries hm
  have hpage : pageAt g (ctid / PAGE_SIZE) = some pg := by
    rw [pageAt, hc]
    exact hpg
  have hv : ctid < e.lim * 2 ^ 30 := by
    obtain ⟨T, hb, -⟩ := h.coherent.backed
    have hbelow := hb.below (n := ctid / PAGE_SIZE) (by rw [hc]; rfl)
    simp only [PAGE_SIZE] at hbelow
    omega
  have hlookup : PageTable.lookup (ms.pt, w) ctid = some (pg.paddr, c.flags.mapped) :=
    (h.lookup_eq hv).trans hm
  have hlen : (i32Bytes value).length ≤ PAGE_SIZE := by
    rw [i32Bytes, List.length_map, List.length_range]
    norm_num
  rw [MemorySet.storeTid, wp_bind, wp_withFst]
  refine wp_imp (PageTable.wp_query_of_lookup hlookup) fun r s hr ↦ ?_
  obtain ⟨rfl, rfl⟩ := hr
  exact h.readsAt_writeBytes hpage hlen

/-- What `from_clone` should leave to be found: the value at `ctid`, if there is an area. -/
def MemorySet.withTid (child : MemorySet F) (ctid value : ℕ) (found : ℕ → Option UInt8) :
    ℕ → Option UInt8 :=
  if (child.areaMap.find ctid).isSome then child.replaced ctid (i32Bytes value) found else found

/-- When the value lands at `ctid`: there is no area, or the page has a frame and `ctid` is its
first address. Otherwise the memory must be such that a store to the start of the page, or none if
the page has no frame, makes the difference that a store to `ctid` makes. -/
def MemorySet.TidLands (child : MemorySet F) (ctid value : ℕ) (found : ℕ → Option UInt8) : Prop :=
  child.areaMap.find ctid = none ∨
    if (child.frameAt ctid).isSome then
      PageAligned ctid ∨ child.replaced (alignDown ctid) (i32Bytes value) found =
        child.replaced ctid (i32Bytes value) found
    else found = child.replaced ctid (i32Bytes value) found

variable {flags : Bitflags CloneFlags.all} {r : Except OSError Unit}

/-- Once the page was touched, the value lands at `ctid` exactly under this condition. -/
theorem SpaceOk.wp_setChildTid_iff (h : SpaceOk e g vm w)
    (hflags : flags.contains CloneFlags.CLONE_CHILD_SETTID = true ∨
      flags.contains CloneFlags.CLONE_CHILD_CLEARTID = true)
    (hpage : (vm.manuallyAllocPage ctid).run w = .ok (r, child) w₁) :
    wp (vm.setChildTid flags ctid tid) (fun child' w' ↦ child' = child ∧
      (child.readsAt w' =
          child.withTid ctid (CloneFlags.childTid flags tid) (child.readsAt w₁) ↔
        child.TidLands ctid (CloneFlags.childTid flags tid) (child.readsAt w₁))) noPanic w := by
  obtain ⟨g', hok, -, hframe, hentry⟩ := wp_ok (h.wp_manuallyAllocPage_readsAt ctid) hpage
  rw [MemorySet.setChildTid, if_pos (by simpa using hflags), wp_bind]
  refine wp_of_ok hpage ?_
  dsimp only at hframe hentry ⊢
  rw [MemorySet.withTid, MemorySet.TidLands]
  cases r with
  | ok u =>
    obtain ⟨area, harea⟩ : ∃ area, child.areaMap.find ctid = some area := by
      obtain ⟨m, hm⟩ := Option.isSome_iff_exists.mp (hframe.mp rfl)
      exact (Option.bind_eq_some_iff.mp hm).imp fun _ ↦ And.left
    dsimp only
    rw [wp_bind]
    refine wp_imp (hok.wp_storeTid (hentry rfl)) fun _ w' hw' ↦ ⟨rfl, ?_⟩
    rw [hw', harea, if_pos (hframe.mp rfl), if_pos (by rfl)]
    -- the value goes to the first address of the page
    constructor
    · exact fun heq ↦ Or.inr (Or.inr heq)
    · rintro (hnone | hal | heq)
      · exact absurd hnone (by simp)
      · rw [alignDown_of_pageAligned hal]
      · exact heq
  | error err =>
    refine ⟨rfl, ?_⟩
    -- the page got no frame, and nothing was written
    have hnot : ¬(child.frameAt ctid).isSome = true := fun hsome ↦
      absurd (hframe.mpr hsome) (by simp)
    rw [if_neg hnot]
    cases child.areaMap.find ctid with
    | none => exact iff_of_true (if_neg (by simp)).symm (Or.inl rfl)
    | some area =>
      rw [if_pos (by rfl)]
      exact ⟨Or.inr, fun hor ↦ hor.resolve_left (by simp)⟩

variable {kernelRoot i : ℕ} {S : ℕ → Option (MemorySet F)} {D : ℕ → Set ℕ}

/-- **The thread id of a child lands at the start of the page.** The child has the memory of the
parent, if what runs after the copy leaves its frames alone. The store of `from_clone` changes the
four bytes at `ctid` and no others if and only if the offset of `ctid` in its page is zero, up to
memories for which this makes no difference. `query` is exact for the first address of a mapped
page, and for addresses without a table. -/
theorem childTid_lands_iff (hs : Separate kernelRoot S D w) (hi : S i = some ms)
    (flags : Bitflags CloneFlags.all) (tid : ℕ)
    (hflags : flags.contains CloneFlags.CLONE_CHILD_SETTID = true ∨
      flags.contains CloneFlags.CLONE_CHILD_CLEARTID = true)
    (hcopy : (unwrap (Panic.unwrap .fromClone) (ms.copyAsFork kernelRoot)).run w = .ok vm w₀)
    (hkept : ∀ p ∈ vm.frames, p ∈ w₀.inUse → Kept w₀ w₀' p) (hoom : w₀.oom = true → w₀'.oom = true)
    (hpage : (vm.manuallyAllocPage ctid).run w₀' = .ok (r, child) w₁) :
    (∀ x area, ms.areaMap.find x = some area → area.isUser = true →
      x / PAGE_SIZE ≠ ctid / PAGE_SIZE ∨ (ms.readsAt w x).isSome →
        child.readsAt w₁ x = ms.readsAt w x) ∧
    wp (vm.setChildTid flags ctid tid) (fun child' w' ↦ child' = child ∧
      (child.readsAt w' =
          child.withTid ctid (CloneFlags.childTid flags tid) (child.readsAt w₁) ↔
        child.TidLands ctid (CloneFlags.childTid flags tid) (child.readsAt w₁))) noPanic w₀' ∧
    ∀ v, wp (PageTable.query v) (fun paddr s' ↦ s' = (child.pt, w₁) ∧
      (paddr = (PageTable.lookup (child.pt, w₁) v).map (fun m ↦ m.1 + v % PAGE_SIZE) ↔
        leafTable w₁.mem child.pt.rootPaddr (vpn v / 512) = none ∨
          (PageTable.lookup (child.pt, w₁) v).isSome ∧ PageAligned v)) noPanic (child.pt, w₁) := by
  obtain ⟨shared, g, hok, -⟩ := hs.inv hi
  have hN : ∀ p ∈ insert kernelRoot ms.frames, PageAligned p ∧ p ∈ w.inUse := by
    rintro p (rfl | hp)
    · exact hs.root
    · exact hs.of_frames hi hp
  have hfork := hok.wpe_copyAsFork_frame hN (Set.mem_insert _ _) (Set.subset_insert _ _)
  -- the copy returned, so the call did not fail
  have hvm : wp (unwrap (Panic.unwrap .fromClone) (ms.copyAsFork kernelRoot)) (fun vm w₀ ↦
      ∃ g', SpaceOk (spaceEnv (entryAt w.mem kernelRoot)) g' vm w₀ ∧
        (∀ n, Option.Rel Cell.Copied (userCells g n) (g' n)) ∧
        List.Forall₂ AreaCopy (ms.areaMap.iter.filter VmArea.isUser) vm.areaMap.iter)
      anyPanic w := by
    rw [wp_unwrap]
    refine wpe_mono hfork (fun r w₀ hr ↦ ?_) fun _ _ _ ↦ trivial
    cases r with
    | error err => trivial
    | ok vm =>
      obtain ⟨g', hok', hcopied, hareas, -⟩ := hr
      exact ⟨g', hok', hcopied, hareas⟩
  obtain ⟨g', hok', hcopied, hareas⟩ := wp_ok hvm hcopy
  have hframes : ∀ p ∈ vm.frames, Kept w₀ w₀' p := fun p hp ↦ by
    obtain ⟨T, hb, -⟩ := hok'.coherent.backed
    refine hkept p hp (hb.of_held ?_).1
    rw [hok'.held_eq]
    exact Or.inl hp
  have hok₀ : SpaceOk (spaceEnv (entryAt w.mem kernelRoot)) g' vm w₀' := by
    refine hok'.of_kept (fun p hp ↦ hframes p ?_) hoom
    rw [hok'.held_eq] at hp
    exact hp.resolve_right (Set.notMem_empty p)
  refine ⟨fun x area hfind huser hx ↦ ?_, hok₀.wp_setChildTid_iff hflags hpage,
    fun v ↦ PageTable.wp_query_iff⟩
  obtain ⟨-, -, hreads, -⟩ := wp_ok (hok₀.wp_manuallyAllocPage_readsAt ctid) hpage
  have hsame : vm.readsAt w₀' x = ms.readsAt w x := by
    rw [← hok.readsAt_of_copied hok' hcopied hareas hfind huser, MemorySet.readsAt,
      MemorySet.readsAt, MemorySet.byteAt_congr hframes]
  rw [← hsame] at hx ⊢
  exact hreads x hx

/-- The flag `CLONE_CHILD_SETTID` alone. -/
def CloneFlags.settid : Bitflags CloneFlags.all := ⟨CLONE_CHILD_SETTID, by decide⟩

/-- At the start of a page the value lands at `ctid`. -/
theorem childTid_lands_page : ∃ (child : MemorySet Empty) (w₁ w' : World Bitmap Unit),
    (child.frameAt 0x1000).isSome ∧
      child.readsAt w' = child.withTid 0x1000 7 (child.readsAt w₁) := by
  obtain ⟨x, w₁, hrun, hprop⟩ := exists_of_returns (x := do
      let ms ← SpaceCall.runNew PHYS_MEMORY_OFFSET
        [.pushWithBackend 0x1000 0x2000 bssPage.flags none false]
      let vm ← unwrap (Panic.unwrap .fromClone) (ms.copyAsFork PHYS_MEMORY_OFFSET)
      vm.manuallyAllocPage 0x1000)
    (s := World.kernel) (P := fun (x : Except OSError Unit × MemorySet Empty) _ ↦
      (x.2.frameAt 0x1000).isSome) (by decide +kernel)
  obtain ⟨ms, w, hcalls, hrest⟩ := exists_of_run_bind hrun
  obtain ⟨vm, w₀, hcopy, hpage⟩ := exists_of_run_bind hrest
  obtain ⟨ms₀, wnew, hnew, hpush⟩ := exists_of_run_bind hcalls
  -- the calls lead to an address space that is apart
  have hstart : (⟨fun _ ↦ none, World.kernel⟩ : Spaces Bitmap Unit Empty).Apart
      PHYS_MEMORY_OFFSET := apart_none (by decide) World.kernel_inUse
  have hacts := acts_of_runAll (i := 0) PHYS_MEMORY_OFFSET
    (by simp [SpaceCall.User, PageAligned, PAGE_SIZE])
    (Function.update_self (0 : ℕ) (some ms₀) fun _ ↦ none) hpush
  obtain ⟨happart, -⟩ := unseen_of_acts hacts (hstart.new hnew)
  rw [Function.update_idem] at happart
  have hsep : Separate PHYS_MEMORY_OFFSET (Function.update (fun _ ↦ none) 0 (some ms))
      (fun _ ↦ ∅) w := happart
  have hlands := childTid_lands_iff hsep
    (Function.update_self (0 : ℕ) (some ms) fun _ ↦ none) CloneFlags.settid 7
    (Or.inl (by decide)) hcopy (fun p _ huse ↦ ⟨huse, fun _ _ _ ↦ rfl⟩) id hpage
  obtain ⟨child, w', -, rfl, hiff⟩ := exists_of_wp hlands.2.1
  refine ⟨x.2, w₁, w', hprop, hiff.mpr (Or.inr ?_)⟩
  rw [if_pos hprop]
  exact Or.inl (by decide)

/-- Four bytes behind the start of a page the value does not land: it is found at the start. -/
theorem childTid_misses : ∃ (ms child : MemorySet Empty) (w w' : World Bitmap Unit),
    (ms.fromClone PHYS_MEMORY_OFFSET CloneFlags.settid 0x1004 7).run w = .ok child w' ∧
    (child.areaMap.find 0x1004).isSome ∧ child.readsAt w' 0x1004 ≠ some 7 ∧
    ¬∀ x, x < 0x1004 ∨ 0x1008 ≤ x → child.readsAt w' x = ms.readsAt w x := by
  obtain ⟨x, w', hrun, hprop⟩ := exists_of_returns (x := do
      let ms ← SpaceCall.runNew PHYS_MEMORY_OFFSET
        [.pushWithBackend 0x1000 0x2000 bssPage.flags none false]
      let w ← get
      let child ← ms.fromClone PHYS_MEMORY_OFFSET CloneFlags.settid 0x1004 7
      pure (ms, w, child))
    (s := World.kernel)
    (P := fun (x : MemorySet Empty × World Bitmap Unit × MemorySet Empty) w' ↦
      (x.2.2.areaMap.find 0x1004).isSome ∧ x.2.2.readsAt w' 0x1004 ≠ some 7 ∧
        x.2.2.readsAt w' 0x1000 = some 7 ∧ x.1.readsAt x.2.1 0x1000 = some 0)
    (by decide +kernel)
  obtain ⟨ms, w, hcalls, hrest⟩ := exists_of_run_bind hrun
  obtain ⟨w₁, w₂, hget, hrest⟩ := exists_of_run_bind hrest
  obtain ⟨rfl, rfl⟩ := EStateM.Result.ok.inj hget
  obtain ⟨child, w₃, hclone, hpure⟩ := exists_of_run_bind hrest
  obtain ⟨rfl, rfl⟩ := EStateM.Result.ok.inj hpure
  obtain ⟨hfind, hmiss, hstart, hbefore⟩ := of_decide_eq_true hprop
  refine ⟨ms, child, w, w₃, hclone, hfind, hmiss, fun hsame ↦ ?_⟩
  have := hsame 0x1000 (Or.inl (by norm_num))
  rw [hstart, hbefore] at this
  exact absurd this (by decide)

end Maturin
