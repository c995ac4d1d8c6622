import Maturin.Loader.Layout
import Maturin.Loader.Loader
import Maturin.Memory.Image
import Maturin.Memory.Spare
import Maturin.Memory.Teardown

/-!
# The stack of a program

The stack has a frame vector of `USER_STACK_SIZE` bytes, at whose end the initial data is written.
The area of the stack is made for an interval that ends where the data starts, rounded up to whole
pages. So it is as large as the frame vector if and only if the data is less than a page.
-/

open Exec

namespace Maturin

/-! ## Areas -/

section area

variable {F : Type} {start end_ lim : ℕ} {flags : PTEFlags} {pma : PmAreaLazy F} {area : VmArea F}

/-- What `VmArea::new` makes of an interval below a page boundary. -/
theorem VmArea.wf_of_new (h : VmArea.new start end_ flags pma = .ok area)
    (hle : end_ ≤ lim * 2 ^ 30) (hlim : lim ≤ 512) :
    area.Wf lim ∧ area.start = alignDown start ∧ area.end_ = alignUp end_ ∧ area.flags = flags ∧
      area.pma = pma ∧ start < end_ := by
  rw [VmArea.new] at h
  split_ifs at h with hge
  dsimp only at h
  split_ifs at h with hsize
  rw [Except.ok.injEq] at h
  subst h
  rw [not_not] at hsize
  have hup : alignUp end_ = alignDown (end_ + (PAGE_SIZE - 1)) := by
    rw [alignUp, wadd_of_lt (by norm_num; omega)]
  have hbound : alignUp end_ ≤ lim * 2 ^ 30 ∧ end_ ≤ alignUp end_ := by
    rw [hup, alignDown]
    simp only [PAGE_SIZE]
    omega
  have hdown := alignDown_le start
  refine ⟨⟨pageAligned_alignDown _, pageAligned_alignUp _, ?_, hbound.1, ?_⟩, rfl, rfl, rfl, rfl,
    by omega⟩
  · dsimp only
    omega
  · dsimp only
    rw [← hsize, wsub_of_le (by omega) (by omega)]

end area

section push

variable {σ φ F : Type} [FrameAllocator σ] [FileStore F φ] {shared : ℕ → ℕ} {vm : MemorySet F}
variable {w₀ w : World σ φ} {D : Set ℕ}

/-- A new area is one of the areas. -/
theorem MemorySet.wp_push_mem (vm : MemorySet F) (vma : VmArea F) (w : World σ φ) :
    wp (vm.push vma) (fun r _ ↦ vma.toRange ∈ r.2.areaMap.areas) anyPanic w := by
  rw [push, wp_bind, wp_withPt, wp_bind, RangeActionMap.mmapFixed]
  split_ifs
  · trivial
  · rw [wp_bind]
    refine wp_imp (wp_true _) fun m t _ ↦ ?_
    rw [wp_bind, wp_bind]
    refine wp_imp (wp_true _) fun _ t' _ ↦ ?_
    exact OrdMap.mem_values.mpr ⟨vma.start, OrdMap.mem_insert.mpr (Or.inl rfl)⟩

/-- A filled vector becomes an area, whose bytes are found. -/
theorem SpaceInv.wp_pushNew {f : ByteMem} {pma : PmAreaLazy F} {start end_ : ℕ} {flags : PTEFlags}
    (h : SpaceInv (spaceEnv shared) D vm w₀) (hfill : Filling f w₀ pma w)
    (hback : pma.backend = none) (hflags : flags ≠ 0) (hle : end_ ≤ 510 * 2 ^ 30) :
    wp (vm.pushNew start end_ flags pma) (fun r w' ↦ match r.1 with
      | .ok () => SpaceInv (spaceEnv shared) D r.2 w' ∧ start < end_ ∧
          (∃ vma, VmArea.new start end_ flags pma = .ok vma ∧ vma.toRange ∈ r.2.areaMap.areas) ∧
          (∀ x, r.2.readsAt w' x =
            if alignDown start ≤ x ∧ x < alignUp end_ then some (f (x - alignDown start))
            else vm.readsAt w₀ x) ∧
          ∀ x, r.2.NoFile x ↔ alignDown start ≤ x ∧ x < alignUp end_ ∨ vm.NoFile x
      | .error e => VmArea.new start end_ flags pma = .error e)
      (fun _ w' ↦ alignDown start < LOWER_LIMIT ∨ w'.oom = true ∨
        ¬Disjoint (touched (alignDown start) (alignUp end_)) D) w := by
  rw [MemorySet.pushNew]
  cases harea : VmArea.new start end_ flags pma with
  | error e =>
    rw [wp_bind]
    exact wp_mono pma.wp_drop (fun _ _ _ ↦ rfl) fun _ _ hp ↦ hp.elim
  | ok vma =>
    obtain ⟨hwf, hs, he, hfl, hpma, hlt⟩ := VmArea.wf_of_new harea hle (by norm_num)
    rw [← hpma] at hfill hback
    rw [← hs, ← he]
    have hpush := wp_and (h.wp_push_readsAt hfill hwf (hfl ▸ hflags) hback)
      (vm.wp_push_mem vma w)
    refine wp_mono hpush (fun r w' hr ↦ ?_) fun _ _ hp ↦ hp.1.imp_right (Or.imp_left And.right)
    obtain ⟨⟨hok, hinv, hread⟩, hmem⟩ := hr
    rw [hok]
    exact ⟨hinv, hlt, ⟨vma, rfl, hmem⟩, hread⟩

end push

/-! ## The stack -/

theorem touched_mono {start end_ start' end_' : ℕ} (hs : start ≤ start') (he : end_' ≤ end_) :
    touched start' end_' ⊆ touched start end_ := by
  rintro n ⟨x, hx, rfl⟩
  exact ⟨x, ⟨hs.trans hx.1, hx.2.trans_le he⟩, rfl⟩

/-- The area of a stack of `count` pages whose last `len` bytes are data. -/
theorem VmArea.new_stack {F : Type} {bottom count : ℕ} (len : ℕ) (flags : PTEFlags)
    {pma : PmAreaLazy F} (hbottom : PageAligned bottom)
    (hlt : bottom + count * PAGE_SIZE < 2 ^ 63) (hpma : pma.size = count * PAGE_SIZE)
    (hlen : len < count * PAGE_SIZE) :
    VmArea.new bottom (bottom + count * PAGE_SIZE - len) flags pma =
      if len < PAGE_SIZE then .ok ⟨bottom, bottom + count * PAGE_SIZE, flags, pma⟩
      else .error .vmArea_vmSizeNotEqualToPmSize := by
  have hdown : alignDown bottom = bottom := alignDown_of_pageAligned hbottom
  simp only [PageAligned, PAGE_SIZE] at hbottom hlt hpma hlen ⊢
  have hup : alignUp (bottom + count * 4096 - len) ≤ bottom + count * 4096 ∧
      bottom ≤ alignUp (bottom + count * 4096 - len) ∧
      (alignUp (bottom + count * 4096 - len) = bottom + count * 4096 ↔ len < 4096) := by
    rw [alignUp, wadd_of_lt (by norm_num; omega), alignDown, PAGE_SIZE]
    omega
  rw [VmArea.new, if_neg (by omega)]
  dsimp only
  rw [hdown, wsub_of_le hup.2.1 (by omega), hpma]
  by_cases hfits : len < 4096
  · rw [hup.2.2.mpr hfits, if_pos hfits, if_neg (by omega)]
  · have hne := mt hup.2.2.mp hfits
    rw [if_neg hfits, if_pos (by omega)]

/-- The area of a stack is pushed if its data is less than a page. -/
theorem SpaceInv.wp_pushNew_stack {σ φ F : Type} [FrameAllocator σ] [FileStore F φ]
    {shared : ℕ → ℕ} {vm : MemorySet F} {w₀ w : World σ φ} {D : Set ℕ} {f : ByteMem}
    {pma : PmAreaLazy F} {bottom count : ℕ} {flags : PTEFlags} (len : ℕ)
    (h : SpaceInv (spaceEnv shared) D vm w₀) (hfill : Filling f w₀ pma w)
    (hback : pma.backend = none) (hflags : flags ≠ 0) (hbottom : PageAligned bottom)
    (hlow : LOWER_LIMIT ≤ bottom) (hle : bottom + count * PAGE_SIZE ≤ 510 * 2 ^ 30)
    (hpma : pma.size = count * PAGE_SIZE) (hlen : len < count * PAGE_SIZE) :
    wp (vm.pushNew bottom (bottom + count * PAGE_SIZE - len) flags pma) (fun r w' ↦ match r.1 with
      | .ok () => len < PAGE_SIZE ∧ SpaceInv (spaceEnv shared) D r.2 w' ∧
          (∃ a ∈ r.2.areaMap.areas, a.start = bottom ∧ a.end_ = bottom + count * PAGE_SIZE) ∧
          ∀ x, r.2.readsAt w' x =
            if bottom ≤ x ∧ x < bottom + count * PAGE_SIZE then some (f (x - bottom))
            else vm.readsAt w₀ x
      | .error e => PAGE_SIZE ≤ len ∧ e = .vmArea_vmSizeNotEqualToPmSize)
      (fun _ w' ↦ w'.oom = true ∨ ¬Disjoint (touched bottom (bottom + count * PAGE_SIZE)) D) w := by
  have harea := VmArea.new_stack len flags hbottom (hle.trans_lt (by norm_num)) hpma hlen
  have hdown : alignDown bottom = bottom := alignDown_of_pageAligned hbottom
  -- the area is whole, though its end is given less the data
  have hup : alignUp (bottom + count * PAGE_SIZE - len) ≤ bottom + count * PAGE_SIZE := by
    simp only [PageAligned, PAGE_SIZE] at hbottom hle ⊢
    rw [alignUp, wadd_of_lt (by norm_num; omega), alignDown, PAGE_SIZE]
    omega
  refine wp_mono (h.wp_pushNew hfill hback hflags ((Nat.sub_le _ _).trans hle))
    (fun r w' hr ↦ ?_) fun p w' hp ↦ ?_
  · obtain ⟨res, vm'⟩ := r
    cases res with
    | error e =>
      have herr : VmArea.new bottom (bottom + count * PAGE_SIZE - len) flags pma = .error e := hr
      rw [harea] at herr
      split_ifs at herr with hlt
      exact ⟨not_lt.mp hlt, (Except.error.inj herr).symm⟩
    | ok u =>
      obtain ⟨hinv, -, ⟨vma, hvma, hmem⟩, hread, -⟩ := hr
      obtain ⟨-, -, hend, -⟩ :=
        VmArea.wf_of_new hvma ((Nat.sub_le _ _).trans hle) (by norm_num : 510 ≤ 512)
      rw [harea] at hvma
      split_ifs at hvma with hlt
      obtain rfl := Except.ok.inj hvma
      dsimp only at hend
      rw [hdown, ← hend] at hread
      exact ⟨hlt, hinv, ⟨_, hmem, rfl, rfl⟩, hread⟩
  · refine (hp.resolve_left ?_).imp_right fun hnot hdisj ↦
      hnot (hdisj.mono_left (touched_mono hdown.ge hup))
    rw [hdown]
    exact hlow.not_gt

namespace ElfFile

variable {σ φ F : Type} [FrameAllocator σ] [FileStore F φ] {shared : ℕ → ℕ} {vm : MemorySet F}
variable {w : World σ φ} {D : Set ℕ} {elf : ElfFile} {args : List String} {data : ByteMem}
variable {writer : InitStack}

/-- Data of less than a page makes a stack, and more data makes none. There is always data, since an
empty slice cannot be written at the end of the vector. -/
theorem wp_pushStack_writer (h : SpaceInv (spaceEnv shared) D vm w)
    (hwriter : (elf.initInfo args).serialize (USER_STACK_OFFSET + USER_STACK_SIZE) data
      = .ok writer)
    (hlen : writer.deref.length ≤ USER_INIT_STACK_SIZE) :
    wp (elf.pushStack args data vm) (fun r w' ↦ match r.1 with
      | .ok res => writer.deref.length < PAGE_SIZE ∧
          res = (wadd elf.entryPoint elf.dynBase,
            USER_STACK_OFFSET + USER_STACK_SIZE - writer.deref.length) ∧
          SpaceInv (spaceEnv shared) D r.2 w' ∧
          (∃ a ∈ r.2.areaMap.areas, a.start = USER_STACK_OFFSET ∧
            a.end_ = USER_STACK_OFFSET + USER_STACK_SIZE) ∧
          ∀ x, r.2.readsAt w' x =
            if USER_STACK_OFFSET ≤ x ∧ x < USER_STACK_OFFSET + USER_STACK_SIZE then
              some (ByteMem.writeBytes (USER_STACK_SIZE - writer.deref.length) writer.deref
                (fun _ ↦ 0) (x - USER_STACK_OFFSET))
            else vm.readsAt w x
      | .error e => PAGE_SIZE ≤ writer.deref.length ∧ e = .vmArea_vmSizeNotEqualToPmSize ∨
          writer.deref.length = 0 ∨ w'.oom = true)
      (fun _ w' ↦ w'.oom = true ∨
        ¬Disjoint (touched USER_STACK_OFFSET (USER_STACK_OFFSET + USER_STACK_SIZE)) D) w := by
  obtain ⟨count, hcount⟩ : ∃ count, pageCount USER_STACK_SIZE = count := ⟨_, rfl⟩
  have hpages : count = 0x200 := hcount ▸ by decide
  have hlimit : pageCount USER_VIRT_ADDR_LIMIT = 0x100000 := by decide
  rw [pushStack, hcount]
  generalize hbottom : USER_STACK_OFFSET = bottom at hwriter ⊢
  have hbottom' : bottom = 0x3FE00000 := hbottom.symm
  generalize hstack : USER_STACK_SIZE = stackSize at hwriter ⊢
  have hstack' : stackSize = count * PAGE_SIZE := by
    rw [hpages, ← hstack]
    norm_num
  clear hbottom hstack hcount
  subst hstack'
  rw [hwriter, PmAreaLazy.new, if_neg (by omega), if_neg (by omega)]
  dsimp only
  generalize writer.deref = initStack at hlen ⊢
  have hsize : USER_INIT_STACK_SIZE = 0x4000 := rfl
  simp only [PAGE_SIZE]
  have hsub : wsub (count * 4096) initStack.length = count * 4096 - initStack.length :=
    wsub_of_le (by omega) (by omega)
  have htop : wsub (bottom + count * 4096) initStack.length =
      bottom + count * 4096 - initStack.length := wsub_of_le (by omega) (by omega)
  have hnew := filling_new w count (none : Option (BackEndFile F))
  have hpma : (⟨List.replicate count none, none⟩ : PmAreaLazy F).size = count * 4096 := by
    rw [PmAreaLazy.size, List.length_replicate]
  rw [wp_bind, hsub, htop]
  refine wp_mono (hnew.wp_write (by omega)) (fun r w₁ hr ↦ ?_) fun _ _ hp ↦ hp.elim
  obtain ⟨res, pma⟩ := r
  obtain ⟨hframes, hback, hres⟩ := hr
  cases res with
  | error err =>
    dsimp only at hres ⊢
    rw [wp_bind]
    refine wp_mono pma.wp_drop (fun _ w₂ hw₂ ↦ ?_) fun _ _ hp ↦ hp.elim
    rcases hres with ⟨-, hout⟩ | ⟨-, hoom⟩
    · rw [hpma] at hout
      exact Or.inr (Or.inl (by omega))
    · exact Or.inr (Or.inr (hw₂.1.trans hoom))
  | ok k =>
    dsimp only at hres hback hframes ⊢
    have hal : PageAligned bottom := by
      rw [hbottom']
      decide
    have hlow : LOWER_LIMIT ≤ bottom := by
      rw [LOWER_LIMIT]
      omega
    have hpma' : pma.size = count * PAGE_SIZE := by
      rw [PmAreaLazy.size, hframes, List.length_replicate]
    have hflags : PTEFlags.READ ||| PTEFlags.WRITE ||| PTEFlags.USER ≠ 0 := by decide
    generalize PTEFlags.READ ||| PTEFlags.WRITE ||| PTEFlags.USER = flags at hflags ⊢
    have hpush := SpaceInv.wp_pushNew_stack initStack.length h hres hback hflags hal hlow
      (by simp only [PAGE_SIZE]; omega) hpma' (by simp only [PAGE_SIZE]; omega)
    simp only [PAGE_SIZE] at hpush
    rw [wp_bind]
    refine wp_imp hpush fun r w' hr ↦ ?_
    obtain ⟨res, vm'⟩ := r
    cases res with
    | error e => exact Or.inl hr
    | ok u =>
      obtain ⟨hlt, hinv, hmem, hread⟩ := hr
      exact ⟨hlt, rfl, hinv, hmem, hread⟩

section bitmap

variable {φ F : Type} [FileStore F φ] {vm : MemorySet F} {w : World Bitmap φ}

/-- Below the stack there is nothing in its place, so that it takes frames for its data and for
tables. -/
theorem takes_pushStack (hwriter : (elf.initInfo args).serialize
      (USER_STACK_OFFSET + USER_STACK_SIZE) data = .ok writer)
    (hlen : writer.deref.length ≤ USER_INIT_STACK_SIZE)
    (habove : ∀ a ∈ vm.areaMap.areas, a.end_ ≤ USER_STACK_OFFSET) :
    Takes id (writer.deref.length + 0x400)
      (elf.pushStack args data vm : EStateM Panic (World Bitmap φ) _) := by
  rw [pushStack]
  generalize pageCount USER_STACK_SIZE = count
  generalize hbottom : USER_STACK_OFFSET = bottom at hwriter habove ⊢
  have hbottom' : bottom = 0x3FE00000 := hbottom.symm
  generalize hstack : USER_STACK_SIZE = stackSize at hwriter ⊢
  have hstack' : stackSize = 0x200000 := hstack.symm
  clear hbottom hstack
  rw [hwriter]
  cases PmAreaLazy.new count (none : Option (BackEndFile F)) with
  | error e => exact (Takes.pure _).mono (Nat.zero_le _)
  | ok stackPma =>
    dsimp only
    generalize writer.deref = initStack at hlen ⊢
    have hsize : USER_INIT_STACK_SIZE = 0x4000 := rfl
    have htop : wsub (bottom + stackSize) initStack.length =
        bottom + stackSize - initStack.length := wsub_of_le (by omega) (by omega)
    rw [htop]
    refine (takes_write stackPma _ initStack).bind (k := 0x400) (fun r ↦ ?_) le_rfl
    obtain ⟨res, pma⟩ := r
    cases res with
    | error e =>
      refine (takes_drop pma).bind (k := 0) (fun _ ↦ Takes.pure _) (Nat.zero_le _)
    | ok k =>
      refine Takes.bind (j := 0x400) (k := 0) ?_ (fun _ ↦ Takes.pure _) le_rfl
      rw [MemorySet.pushNew]
      generalize PTEFlags.READ ||| PTEFlags.WRITE ||| PTEFlags.USER = flags
      cases harea : VmArea.new bottom (bottom + stackSize - initStack.length) flags pma with
      | error e => exact (takes_drop pma).bind (k := 0) (fun _ ↦ Takes.pure _) (Nat.zero_le _)
      | ok vma =>
        obtain ⟨-, hs, he, -⟩ := VmArea.wf_of_new harea (by omega) (by norm_num : 510 ≤ 512)
        have hup : alignUp (bottom + stackSize - initStack.length) ≤ bottom + stackSize := by
          rw [alignUp, wadd_of_lt (by norm_num; omega), alignDown, PAGE_SIZE]
          omega
        have hdown : alignDown bottom = bottom := by
          rw [hbottom']
          decide
        have hapart : ∀ a ∈ vm.areaMap.areas, a.isOverlapWith vma.start vma.end_ = false := by
          intro a ha
          rw [← Bool.not_eq_true, RangeArea.isOverlapWith_iff]
          have := habove a ha
          omega
        have hlength : (pagesIn vma.start vma.end_).length ≤ 0x200 := by
          rw [pagesIn, List.length_map, List.length_range]
          simp only [PAGE_SIZE]
          omega
        exact (takes_push hapart).mono (by omega)

/-- With frames to spare the call returns. -/
theorem wp_pushStack_spare (h : SpaceInv (spaceEnv shared) D vm w)
    (hdisj : Disjoint (touched USER_STACK_OFFSET (USER_STACK_OFFSET + USER_STACK_SIZE)) D)
    (hwriter : (elf.initInfo args).serialize (USER_STACK_OFFSET + USER_STACK_SIZE) data
      = .ok writer)
    (hlen : writer.deref.length ≤ USER_INIT_STACK_SIZE)
    (habove : ∀ a ∈ vm.areaMap.areas, a.end_ ≤ USER_STACK_OFFSET)
    (hspare : Spare (writer.deref.length + 0x400) w) :
    wp (elf.pushStack args data vm) (fun _ w' ↦ w'.oom = false) noPanic w := by
  have htakes := takes_pushStack (F := F) hwriter hlen habove 0 w hspare
  refine wp_mono (wp_and (wp_pushStack_writer h hwriter hlen) htakes)
    (fun r w' hr ↦ hr.2.2) fun p w' hp ↦ ?_
  have hoom : w'.oom = false := hp.2.2
  rcases hp.1 with htrue | hnot
  · rw [hoom] at htrue
    cases htrue
  · exact hnot hdisj

end bitmap

/-! ## A short and a long argument -/

/-- A file without segments. -/
def bare : ElfFile where
  input := []
  programHeaders := []
  sections := []
  entryPoint := 0x10000
  phOffset := 64
  phEntrySize := 56
  phCount := 0

/-- A new address space has room for a stack. -/
theorem exists_newSpace : ∃ shared, ∃ (vm : MemorySet Empty) (w : World Bitmap Unit),
    SpaceInv (spaceEnv shared) ∅ vm w ∧ Spare 0x4400 w ∧
    ∀ a ∈ vm.areaMap.areas, a.end_ ≤ USER_STACK_OFFSET := by
  have hreturns : returns (MemorySet.newMemorySetForTask PHYS_MEMORY_OFFSET :
      EStateM Panic (World Bitmap Unit) (MemorySet Empty)) World.kernel
      (fun vm w ↦ decide (w.alloc.taken.length + 0x4400 ≤ 2 ^ 24) && !w.oom &&
        vm.areaMap.areas.all fun a ↦ a.end_ ≤ USER_STACK_OFFSET) = true := by
    decide +kernel
  obtain ⟨vm, w, hrun, hP⟩ := exists_of_returns hreturns
  simp only [Bool.and_eq_true, Bool.not_eq_true', decide_eq_true_eq, List.all_eq_true] at hP
  obtain ⟨⟨hfree, hoom⟩, habove⟩ := hP
  have hreach : Reach PHYS_MEMORY_OFFSET SpaceCall.Proper ∅ vm w :=
    .new (by decide) World.kernel_inUse hrun
  obtain ⟨shared, hinv⟩ := hreach.inv fun _ hc ↦ hc
  exact ⟨shared, vm, w, hinv, ⟨hfree, hoom⟩, habove⟩

/-- The arguments of an `echo` of `n` words. -/
def echo (n : ℕ) : List String := "echo" :: List.replicate n "abcdefghijklmnopqrstuvwxyz"

theorem size_echo :
    (bare.initInfo (echo 1)).size (USER_STACK_OFFSET + USER_STACK_SIZE) < PAGE_SIZE ∧
    PAGE_SIZE ≤ (bare.initInfo (echo 100)).size (USER_STACK_OFFSET + USER_STACK_SIZE) ∧
    (bare.initInfo (echo 100)).size (USER_STACK_OFFSET + USER_STACK_SIZE) ≤
      USER_INIT_STACK_SIZE := by
  decide +kernel

/-! ## Loading the stack -/

/-- The stack is an area of its own with the data at its end, and the program starts there. -/
structure StackLoaded (elf : ElfFile) (writer : InitStack)
    (r : Except OSError (ℕ × ℕ) × MemorySet F) (w : World σ φ) : Prop where
  ok : r.1 = .ok (wadd elf.entryPoint elf.dynBase, writer.sp)
  area : ∃ a ∈ r.2.areaMap.areas, a.start = USER_STACK_OFFSET ∧
    a.end_ = USER_STACK_OFFSET + USER_STACK_SIZE
  readsAt : ∀ i (h : i < writer.deref.length),
    r.2.readsAt w (writer.sp + i) = some writer.deref[i]

/-- **Less than a page of data is loaded.** Given arguments whose data fits into its buffer, and
frames for it, the loader makes a stack with the data if and only if the data is less than a
page. -/
theorem stackLoaded_iff (h : SpaceInv (spaceEnv shared) D vm w)
    (hdisj : Disjoint (touched USER_STACK_OFFSET (USER_STACK_OFFSET + USER_STACK_SIZE)) D)
    (hargs : args ≠ []) (hfits : (elf.initInfo args).size (USER_STACK_OFFSET + USER_STACK_SIZE)
      ≤ USER_INIT_STACK_SIZE) (data : ByteMem) :
    ∃ writer, (elf.initInfo args).serialize (USER_STACK_OFFSET + USER_STACK_SIZE) data
        = .ok writer ∧
      wp (elf.pushStack args data vm) (fun r w' ↦ w'.oom = true ∨
          (elf.StackLoaded writer r w' ↔
            (elf.initInfo args).size (USER_STACK_OFFSET + USER_STACK_SIZE) < PAGE_SIZE))
        (fun _ w' ↦ w'.oom = true) w := by
  obtain ⟨writer, hwriter, hlength, hsp⟩ := InitInfo.exists_writer hargs hfits
    ⟨by norm_num, by norm_num⟩ data
  have hpos : 0 < (elf.initInfo args).size (USER_STACK_OFFSET + USER_STACK_SIZE) :=
    (elf.initInfo args).size_pos (by norm_num)
  rw [← hlength] at hfits hpos ⊢
  refine ⟨writer, hwriter, wp_mono (wp_pushStack_writer h hwriter hfits) (fun r w' hr ↦ ?_)
    fun _ _ hp ↦ hp.resolve_right (not_not.mpr hdisj)⟩
  obtain ⟨res, vm'⟩ := r
  cases res with
  | error e =>
    rcases (show _ ∨ _ ∨ _ from hr) with ⟨hle, -⟩ | hzero | hoom
    · refine Or.inr ⟨fun hloaded ↦ ?_, fun hlt ↦ absurd hlt (not_lt.mpr hle)⟩
      cases hloaded.ok
    · exact absurd hzero hpos.ne'
    · exact Or.inl hoom
  | ok res =>
    obtain ⟨hlt, rfl, -, harea, hread⟩ := hr
    refine Or.inr ⟨fun _ ↦ hlt, fun _ ↦ ⟨by rw [hsp], harea, fun i hi ↦ ?_⟩⟩
    have hsize : USER_INIT_STACK_SIZE ≤ USER_STACK_SIZE := by norm_num
    have hidx : writer.sp + i - USER_STACK_OFFSET =
        USER_STACK_SIZE - writer.deref.length + i := by omega
    dsimp only
    rw [hread, if_pos (by omega), hidx, ByteMem.writeBytes_of_mem hi]

/-- Two words are loaded. -/
theorem stackLoaded_echo : ∃ (vm : MemorySet Empty) (w : World Bitmap Unit), ∃ r w' writer,
    (bare.pushStack (echo 1) (fun _ ↦ 0) vm).run w = .ok r w' ∧
    bare.StackLoaded writer r w' := by
  obtain ⟨shared, vm, w, hinv, hspare, habove⟩ := exists_newSpace
  have hsize := size_echo.1
  obtain ⟨writer, hwriter, hwp⟩ := stackLoaded_iff hinv (Set.disjoint_empty _)
    (List.cons_ne_nil _ _) (hsize.le.trans (by norm_num)) fun _ ↦ 0
  have hfits := InitInfo.length_deref_of_serialize hwriter
  have hmax : USER_INIT_STACK_SIZE = 0x4000 := rfl
  obtain ⟨r, w', hrun, hoom⟩ := exists_of_wp (wp_pushStack_spare hinv (Set.disjoint_empty _)
    hwriter hfits habove (hspare.mono (by omega)))
  refine ⟨vm, w, r, w', writer, hrun, ?_⟩
  rcases wp_ok hwp hrun with htrue | hiff
  · rw [hoom] at htrue
    cases htrue
  · exact hiff.mpr hsize

/-- A hundred words fit into the buffer, and the loader returns an error. -/
theorem pushStack_echo : ∃ shared, ∃ (vm : MemorySet Empty) (w : World Bitmap Unit), ∃ r w',
    SpaceInv (spaceEnv shared) ∅ vm w ∧
    (bare.initInfo (echo 100)).size (USER_STACK_OFFSET + USER_STACK_SIZE) ≤
      USER_INIT_STACK_SIZE ∧
    (bare.pushStack (echo 100) (fun _ ↦ 0) vm).run w = .ok r w' ∧ w'.oom = false ∧
    r.1 = .error .vmArea_vmSizeNotEqualToPmSize := by
  obtain ⟨shared, vm, w, hinv, hspare, habove⟩ := exists_newSpace
  obtain ⟨-, hlong, hfits⟩ := size_echo
  obtain ⟨writer, hwriter, hlength, -⟩ := InitInfo.exists_writer (List.cons_ne_nil _ _) hfits
    ⟨by norm_num, by norm_num⟩ fun _ ↦ 0
  have hle := InitInfo.length_deref_of_serialize hwriter
  have hmax : USER_INIT_STACK_SIZE = 0x4000 := rfl
  have hwp := wp_and (wp_pushStack_writer hinv hwriter hle)
    (wp_pushStack_spare hinv (Set.disjoint_empty _) hwriter hle habove (hspare.mono (by omega)))
  obtain ⟨r, w', hrun, hres, hoom⟩ := exists_of_wp (wp_mono hwp (fun _ _ h ↦ h) fun _ _ h ↦ h.2)
  refine ⟨shared, vm, w, r, w', hinv, hfits, hrun, hoom, ?_⟩
  rw [← hlength] at hlong
  cases hr : r.1 with
  | ok p =>
    rw [hr] at hres
    exact absurd hres.1 (not_lt.mpr hlong)
  | error e =>
    rw [hr] at hres
    rcases hres with ⟨-, rfl⟩ | hzero | htrue
    · rfl
    · rw [hzero] at hlong
      exact absurd hlong (by norm_num)
    · rw [hoom] at htrue
      cases htrue

end ElfFile

end Maturin
