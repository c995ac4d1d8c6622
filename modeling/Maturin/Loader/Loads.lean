import Maturin.Loader.Stack

/-!
# What the loader leaves in memory

Each segment becomes an area of whole pages, and the areas are pushed in the order of the program
headers. A push takes the pages of its area away from the areas before it. So in the end a program
finds in each page what the last segment with a byte in that page has there, and zeros around it:
the image of the file is complete if and only if everything that the segments before the last one
have in the page is zero.
-/

open Exec

namespace Maturin

/-! ## What a file describes -/

/-- The segment has a page in common with the address. -/
def ProgramHeader.Touches (ph : ProgramHeader) (x : ℕ) : Prop :=
  ph.virtualAddr / PAGE_SIZE ≤ x / PAGE_SIZE ∧
    x / PAGE_SIZE ≤ (ph.virtualAddr + ph.memSize - 1) / PAGE_SIZE

instance (ph : ProgramHeader) (x : ℕ) : Decidable (ph.Touches x) :=
  inferInstanceAs (Decidable (_ ∧ _))

/-- The segments have no address in common. -/
def ProgramHeader.Disjoint (a b : ProgramHeader) : Prop :=
  a.virtualAddr + a.memSize ≤ b.virtualAddr ∨ b.virtualAddr + b.memSize ≤ a.virtualAddr

instance (a b : ProgramHeader) : Decidable (a.Disjoint b) := inferInstanceAs (Decidable (_ ∨ _))

namespace ElfFile

variable (elf : ElfFile)

/-- The segments that are loaded. -/
def loads : List ProgramHeader := elf.programHeaders.filter fun ph ↦ ph.type = .load

/-- A file without interpreter and relocations, whose segments lie apart and below the stack. -/
structure WellFormed : Prop where
  noInterp : ∀ ph ∈ elf.programHeaders, ph.type ≠ .interp
  noRelaDyn : elf.findSectionByName ".rela.dyn" = none
  noRelaPlt : elf.findSectionByName ".rela.plt" = none
  length_lt : elf.input.length < 2 ^ 64
  inFile : ∀ ph ∈ elf.loads, ph.offset + ph.fileSize ≤ elf.input.length
  fileSize_le : ∀ ph ∈ elf.loads, ph.fileSize ≤ ph.memSize
  below : ∀ ph ∈ elf.loads, ph.virtualAddr + elf.dynBase + ph.memSize ≤ USER_STACK_OFFSET
  disjoint : elf.loads.Pairwise ProgramHeader.Disjoint

/-- Byte `j` of a segment: a byte of the file, or zero behind those. -/
def byte (ph : ProgramHeader) (j : ℕ) : UInt8 :=
  if j < ph.fileSize then elf.input.getD (ph.offset + j) 0 else 0

/-- A program finds every byte of every segment. -/
def Loaded {σ φ F : Type} (vm : MemorySet F) (w : World σ φ) : Prop :=
  ∀ ph ∈ elf.loads, ∀ j < ph.memSize,
    vm.readsAt w (ph.virtualAddr + elf.dynBase + j) = some (elf.byte ph j)

/-- What a segment has in a page of a later one is zero. -/
def SharedPagesZero : Prop :=
  elf.loads.Pairwise fun ph later ↦
    ∀ j < ph.memSize, later.Touches (ph.virtualAddr + j) → elf.byte ph j = 0

/-! ## The last segment wins -/

/-- The byte at an address of the pages of a segment. -/
def areaByte (ph : ProgramHeader) (x : ℕ) : UInt8 :=
  if ph.virtualAddr ≤ x then elf.byte ph (x - ph.virtualAddr) else 0

/-- The byte at an address, when the segments were pushed from the last of the list to the first. -/
def image (segs : List ProgramHeader) (x : ℕ) : Option UInt8 :=
  (segs.find? fun ph ↦ ph.Touches x).map fun ph ↦ elf.areaByte ph x

/-- The byte at an address of memory, when the segments were pushed in this way. -/
def imageAt (segs : List ProgramHeader) (y : ℕ) : Option UInt8 :=
  if elf.dynBase ≤ y then elf.image segs (y - elf.dynBase) else none

variable {elf} {ph q : ProgramHeader} {segs : List ProgramHeader} {x j : ℕ}

theorem image_cons : elf.image (q :: segs) x =
    if q.Touches x then some (elf.areaByte q x) else elf.image segs x := by
  rw [image, List.find?_cons]
  by_cases hq : q.Touches x
  · rw [decide_eq_true hq, if_pos hq]
    rfl
  · rw [decide_eq_false hq, if_neg hq, image]

theorem imageAt_cons {y : ℕ} : elf.imageAt (q :: segs) y =
    if elf.dynBase ≤ y ∧ q.Touches (y - elf.dynBase) then
      some (elf.areaByte q (y - elf.dynBase))
    else elf.imageAt segs y := by
  rw [imageAt, imageAt, image_cons]
  by_cases hy : elf.dynBase ≤ y
  · rw [if_pos hy, if_pos hy]
    exact if_congr (and_iff_right hy).symm rfl rfl
  · rw [if_neg hy, if_neg hy, if_neg fun h ↦ hy h.1]

theorem imageAt_add : elf.imageAt segs (x + elf.dynBase) = elf.image segs x := by
  rw [imageAt, if_pos (Nat.le_add_left _ _), Nat.add_sub_cancel]

theorem touches_self (hj : j < ph.memSize) : ph.Touches (ph.virtualAddr + j) := by
  simp only [ProgramHeader.Touches, PAGE_SIZE]
  omega

theorem areaByte_self (ph : ProgramHeader) (j : ℕ) :
    elf.areaByte ph (ph.virtualAddr + j) = elf.byte ph j := by
  rw [areaByte, if_pos (Nat.le_add_right _ _), Nat.add_sub_cancel_left]

/-- A segment has zeros where another one is. -/
theorem areaByte_of_disjoint (h : q.Disjoint ph) (hq : q.fileSize ≤ q.memSize)
    (hj : j < ph.memSize) : elf.areaByte q (ph.virtualAddr + j) = 0 := by
  rw [areaByte, byte]
  split_ifs with hle hlt
  · rcases h with h | h <;> omega
  · rfl
  · rfl

/-- Something is found at every byte of a segment. -/
theorem exists_image (hph : ph ∈ segs) (hj : j < ph.memSize) :
    ∃ b, elf.image segs (ph.virtualAddr + j) = some b := by
  rw [image]
  cases hfind : segs.find? fun q ↦ q.Touches (ph.virtualAddr + j) with
  | none =>
    have hnot := List.find?_eq_none.mp hfind ph hph
    exact absurd (decide_eq_true (touches_self hj)) hnot
  | some q => exact ⟨_, rfl⟩

/-- Where a segment is zero, so is what is found. -/
theorem image_of_byte_eq_zero (hsize : ∀ ph ∈ segs, ph.fileSize ≤ ph.memSize)
    (hdisj : segs.Pairwise ProgramHeader.Disjoint) (hph : ph ∈ segs) (hj : j < ph.memSize)
    (hzero : elf.byte ph j = 0) :
    elf.image segs (ph.virtualAddr + j) = some 0 := by
  induction segs with
  | nil => exact absurd hph List.not_mem_nil
  | cons q segs ih =>
    obtain ⟨hq, hdisj⟩ := List.pairwise_cons.mp hdisj
    have hsize' := fun ph hph ↦ hsize ph (List.mem_cons_of_mem q hph)
    rw [image_cons]
    rcases List.mem_cons.mp hph with rfl | hph
    · rw [if_pos (touches_self hj), areaByte_self, hzero]
    · split_ifs
      · rw [areaByte_of_disjoint (hq ph hph) (hsize q List.mem_cons_self) hj]
      · exact ih hsize' hdisj hph

/-- Every byte is found if and only if those in pages of later segments are zero. -/
theorem image_iff (hsize : ∀ ph ∈ segs, ph.fileSize ≤ ph.memSize)
    (hdisj : segs.Pairwise ProgramHeader.Disjoint) : (∀ ph ∈ segs, ∀ j < ph.memSize,
      elf.image segs (ph.virtualAddr + j) = some (elf.byte ph j)) ↔
    segs.Pairwise fun later ph ↦
      ∀ j < ph.memSize, later.Touches (ph.virtualAddr + j) → elf.byte ph j = 0 := by
  induction segs with
  | nil => exact ⟨fun _ ↦ List.Pairwise.nil, fun _ ph hph ↦ absurd hph List.not_mem_nil⟩
  | cons q segs ih =>
    obtain ⟨hq, hdisj'⟩ := List.pairwise_cons.mp hdisj
    have hsize' := fun ph hph ↦ hsize ph (List.mem_cons_of_mem q hph)
    have hzero : ∀ ph ∈ segs, ∀ j < ph.memSize, elf.areaByte q (ph.virtualAddr + j) = 0 :=
      fun ph hph j hj ↦ areaByte_of_disjoint (hq ph hph) (hsize q List.mem_cons_self) hj
    rw [List.pairwise_cons, ← ih hsize' hdisj']
    constructor
    · intro h
      have hfirst : ∀ ph ∈ segs, ∀ j < ph.memSize, q.Touches (ph.virtualAddr + j) →
          elf.byte ph j = 0 := by
        intro ph hph j hj htouch
        have hbyte := h ph (List.mem_cons_of_mem q hph) j hj
        rw [image_cons, if_pos htouch, hzero ph hph j hj] at hbyte
        exact (Option.some.inj hbyte).symm
      refine ⟨hfirst, fun ph hph j hj ↦ ?_⟩
      by_cases hbyte : elf.byte ph j = 0
      · rw [hbyte, image_of_byte_eq_zero hsize' hdisj' hph hj hbyte]
      · have himage := h ph (List.mem_cons_of_mem q hph) j hj
        rwa [image_cons, if_neg fun htouch ↦ hbyte (hfirst ph hph j hj htouch)] at himage
    · rintro ⟨hfirst, hrest⟩ ph hph j hj
      rw [image_cons]
      rcases List.mem_cons.mp hph with rfl | hph
      · rw [if_pos (touches_self hj), areaByte_self]
      · split_ifs with htouch
        · rw [hzero ph hph j hj, hfirst ph hph j hj htouch]
        · exact hrest ph hph j hj

end ElfFile

/-! ## Loading -/

variable {σ φ F : Type} [FrameAllocator σ] [FileStore F φ] {shared : ℕ → ℕ} {vm : MemorySet F}
variable {w : World σ φ} {D : Set ℕ}

namespace ElfFile

variable {elf : ElfFile} {ph : ProgramHeader}

theorem dynBase_eq (elf : ElfFile) : elf.dynBase = 0 ∨ elf.dynBase = ELF_BASE_RELOCATE := by
  rw [dynBase]
  split
  · split_ifs
    · exact Or.inl rfl
    · exact Or.inr rfl
  · exact Or.inl rfl

theorem into_ne_zero (f : SegmentFlags) : f.into ≠ 0 := by
  obtain ⟨x, w, r⟩ := f
  revert x w r
  decide

/-- What the data of a segment, written at its page offset, gives an address of its area. -/
theorem writeBytes_data {x : ℕ} (hle : alignDown ph.virtualAddr ≤ x) :
    ByteMem.writeBytes (pageOffset ph.virtualAddr) ((elf.input.drop ph.offset).take ph.fileSize)
      (fun _ ↦ 0) (x - alignDown ph.virtualAddr) = elf.areaByte ph x := by
  have hoff : pageOffset ph.virtualAddr = ph.virtualAddr - alignDown ph.virtualAddr := by
    simp only [pageOffset, alignDown, PAGE_SIZE]
    omega
  have hdown := alignDown_le ph.virtualAddr
  rw [ByteMem.writeBytes, areaByte]
  by_cases hx : ph.virtualAddr ≤ x
  · rw [if_pos (by omega), if_pos hx, hoff,
      show x - alignDown ph.virtualAddr - (ph.virtualAddr - alignDown ph.virtualAddr)
        = x - ph.virtualAddr by omega, List.getElem?_take, byte]
    split_ifs
    · rw [List.getElem?_drop, List.getD_eq_getElem?_getD]
    · rfl
  · rw [if_neg (by omega), if_neg hx]

/-- One segment is loaded into its pages, and the other pages stay as they are. -/
theorem wp_loadSegment (h : SpaceInv (spaceEnv shared) D vm w) (hlen : elf.input.length < 2 ^ 64)
    (hfile : ph.offset + ph.fileSize ≤ elf.input.length) (hsize : ph.fileSize ≤ ph.memSize)
    (hbelow : ph.virtualAddr + elf.dynBase + ph.memSize ≤ 510 * 2 ^ 30) :
    wp (elf.loadSegment ph vm) (fun r w' ↦ r.1 = .ok () →
      SpaceInv (spaceEnv shared) D r.2 w' ∧
      (∀ y, r.2.readsAt w' y = if elf.dynBase ≤ y ∧ ph.Touches (y - elf.dynBase) then
        some (elf.areaByte ph (y - elf.dynBase)) else vm.readsAt w y) ∧
      ∀ y, r.2.NoFile y ↔ elf.dynBase ≤ y ∧ ph.Touches (y - elf.dynBase) ∨ vm.NoFile y)
      anyPanic w := by
  have hbase := elf.dynBase_eq
  have hpgoff : pageOffset ph.virtualAddr < PAGE_SIZE := Nat.mod_lt _ (by norm_num)
  rw [loadSegment, PmAreaLazy.new]
  split_ifs with hzero hbig
  · intro hok
    cases hok
  · intro hok
    cases hok
  · dsimp only
    rw [wp_bind, getData, wadd_of_lt (by omega), if_neg (by omega), wp_pure, wp_bind]
    have hnew := filling_new w (pageCount (wadd ph.memSize (pageOffset ph.virtualAddr)))
      (none : Option (BackEndFile F))
    have hdata : ((elf.input.drop ph.offset).take ph.fileSize).length ≤ ph.fileSize :=
      List.length_take_le _ _
    refine wp_mono (hnew.wp_write (by simp only [PAGE_SIZE] at hpgoff; omega))
      (fun r w₁ hr ↦ ?_) fun _ _ hp ↦ hp.elim
    obtain ⟨res, pma⟩ := r
    obtain ⟨-, hback, hres⟩ := hr
    cases res with
    | error err =>
      refine wp_bind_of_forall fun _ _ hok ↦ ?_
      cases hok
    | ok k =>
      have hstart : wadd ph.virtualAddr elf.dynBase = ph.virtualAddr + elf.dynBase :=
        wadd_of_lt (by omega)
      have hsum : wadd ph.virtualAddr ph.memSize = ph.virtualAddr + ph.memSize :=
        wadd_of_lt (by omega)
      have hend : wadd (ph.virtualAddr + ph.memSize) elf.dynBase
          = ph.virtualAddr + elf.dynBase + ph.memSize := by
        rw [wadd_of_lt (by omega)]
        omega
      dsimp only at hres hback ⊢
      rw [hstart, hsum, hend]
      refine wp_mono (h.wp_pushNew hres hback (into_ne_zero _) hbelow)
        (fun r w' hr hok ↦ ?_) fun _ _ _ ↦ trivial
      rw [hok] at hr
      obtain ⟨hinv, hlt, -, hread, hnofile⟩ := hr
      -- the pages of the new area are those that the segment touches
      have hpages : ∀ y, alignDown (ph.virtualAddr + elf.dynBase) ≤ y ∧
          y < alignUp (ph.virtualAddr + elf.dynBase + ph.memSize) ↔
          elf.dynBase ≤ y ∧ ph.Touches (y - elf.dynBase) := by
        intro y
        rw [alignUp, wadd_of_lt (by norm_num; omega)]
        simp only [alignDown, ProgramHeader.Touches, PAGE_SIZE]
        simp only [ELF_BASE_RELOCATE] at hbase
        omega
      refine ⟨hinv, fun y ↦ ?_, fun y ↦ (hnofile y).trans (or_congr_left (hpages y))⟩
      rw [hread]
      by_cases hy : elf.dynBase ≤ y ∧ ph.Touches (y - elf.dynBase)
      · have hle : alignDown ph.virtualAddr ≤ y - elf.dynBase := by
          have := hy.2.1
          simp only [alignDown, PAGE_SIZE] at this ⊢
          omega
        have hdist : y - alignDown (ph.virtualAddr + elf.dynBase)
            = y - elf.dynBase - alignDown ph.virtualAddr := by
          have := hy.1
          simp only [ELF_BASE_RELOCATE] at hbase
          simp only [alignDown, PAGE_SIZE]
          omega
        rw [if_pos ((hpages y).mpr hy), if_pos hy, hdist, writeBytes_data hle]
      · rw [if_neg (mt (hpages y).mp hy), if_neg hy]

/-- The segments are loaded one after another, each over those before it. -/
theorem wp_loadSegments (hlen : elf.input.length < 2 ^ 64) (segs : List ProgramHeader)
    (shown : List ProgramHeader) (found : ℕ → Option UInt8)
    (h : SpaceInv (spaceEnv shared) D vm w)
    (hsegs : ∀ ph ∈ segs, ph.type = .load → ph.offset + ph.fileSize ≤ elf.input.length ∧
      ph.fileSize ≤ ph.memSize ∧ ph.virtualAddr + elf.dynBase + ph.memSize ≤ 510 * 2 ^ 30)
    (hread : ∀ y, vm.readsAt w y = (elf.imageAt shown y).or (found y))
    (hfile : ∀ y, (elf.imageAt shown y).isSome → vm.NoFile y) :
    wp (elf.loadSegments segs vm) (fun r w' ↦ r.1 = .ok () → SpaceInv (spaceEnv shared) D r.2 w' ∧
      let shown := (segs.filter fun ph ↦ ph.type = .load).reverse ++ shown
      (∀ y, r.2.readsAt w' y = (elf.imageAt shown y).or (found y)) ∧
      ∀ y, (elf.imageAt shown y).isSome → r.2.NoFile y) anyPanic w := by
  induction segs generalizing shown vm w with
  | nil => exact fun _ ↦ ⟨h, hread, hfile⟩
  | cons ph segs ih =>
    have hsegs' := fun q hq ↦ hsegs q (List.mem_cons_of_mem ph hq)
    rw [loadSegments]
    by_cases hload : ph.type = .load
    · obtain ⟨hin, hsize, hbelow⟩ := hsegs ph List.mem_cons_self hload
      rw [if_neg (not_not.mpr hload), wp_bind]
      refine wp_imp (wp_loadSegment h hlen hin hsize hbelow) fun r w₁ hr ↦ ?_
      obtain ⟨res, vm₁⟩ := r
      cases res with
      | error err =>
        intro hok
        cases hok
      | ok u =>
        obtain ⟨hinv, hnow, hnofile⟩ := hr rfl
        -- the segment goes before the ones that are shown already
        have hlist : ((ph :: segs).filter fun ph ↦ ph.type = .load).reverse ++ shown =
            (segs.filter fun ph ↦ ph.type = .load).reverse ++ ph :: shown := by
          rw [List.filter_cons_of_pos (by simpa using hload), List.reverse_cons, List.append_assoc]
          rfl
        rw [hlist]
        refine ih (ph :: shown) hinv hsegs' (fun y ↦ ?_) fun y hy ↦ ?_
        · rw [hnow, imageAt_cons]
          split_ifs
          · rfl
          · exact hread y
        · rw [imageAt_cons] at hy
          refine (hnofile y).mpr ?_
          split_ifs at hy with htouch
          · exact Or.inl htouch
          · exact Or.inr (hfile y hy)
    · rw [if_pos hload, List.filter_cons_of_neg (by simpa using hload)]
      exact ih shown h hsegs' hread hfile

/-- All segments are loaded, and the other pages stay as they are. -/
theorem wp_loadAll (hlen : elf.input.length < 2 ^ 64) (h : SpaceInv (spaceEnv shared) D vm w)
    (hsegs : ∀ ph ∈ elf.programHeaders, ph.type = .load →
      ph.offset + ph.fileSize ≤ elf.input.length ∧ ph.fileSize ≤ ph.memSize ∧
        ph.virtualAddr + elf.dynBase + ph.memSize ≤ 510 * 2 ^ 30) :
    wp (elf.loadSegments elf.programHeaders vm) (fun r w' ↦ r.1 = .ok () →
      SpaceInv (spaceEnv shared) D r.2 w' ∧
      (∀ y, r.2.readsAt w' y = (elf.imageAt elf.loads.reverse y).or (vm.readsAt w y)) ∧
      ∀ y, (elf.imageAt elf.loads.reverse y).isSome → r.2.NoFile y) anyPanic w := by
  have hnil : ∀ y, elf.imageAt [] y = none := fun y ↦ by
    rw [imageAt]
    split_ifs <;> rfl
  have hall := wp_loadSegments hlen elf.programHeaders [] (vm.readsAt w) h hsegs
    (fun y ↦ by rw [hnil, Option.none_or]) fun y hy ↦ by simp [hnil] at hy
  rw [List.append_nil] at hall
  exact hall

/-- Outside of the stack nothing changes any more. -/
theorem wp_pushStack (h : SpaceInv (spaceEnv shared) D vm w) (args : List String) (data : ByteMem) :
    wp (elf.pushStack args data vm) (fun r w' ↦ r.1.isOk = true →
      ∀ x, ¬(USER_STACK_OFFSET ≤ x ∧ x < USER_STACK_OFFSET + USER_STACK_SIZE) →
        r.2.readsAt w' x = vm.readsAt w x) anyPanic w := by
  cases hwriter : (elf.initInfo args).serialize (USER_STACK_OFFSET + USER_STACK_SIZE) data with
  | error p =>
    rw [pushStack, hwriter]
    cases PmAreaLazy.new (pageCount USER_STACK_SIZE) (none : Option (BackEndFile F)) with
    | error e =>
      intro hok
      cases hok
    | ok pma => trivial
  | ok writer =>
    refine wp_mono (wp_pushStack_writer h hwriter
      (InitInfo.length_deref_of_serialize hwriter)) (fun r w' hr hok x hx ↦ ?_) fun _ _ _ ↦ trivial
    obtain ⟨res, vm'⟩ := r
    cases res with
    | error e => cases hok
    | ok p =>
      obtain ⟨-, -, -, -, hread⟩ := hr
      exact (hread x).trans (if_neg hx)

/-! ## The image -/

variable {parseUserApp : String → String → MemorySet F → List String →
  EStateM Panic (World σ φ) (Except OSError (ℕ × ℕ) × MemorySet F)}
variable {args : List String} {data : ByteMem}

theorem WellFormed.find_interp (hwf : elf.WellFormed) :
    elf.programHeaders.find? (fun ph ↦ ph.type = .interp) = none :=
  List.find?_eq_none.mpr fun ph hph ↦ by simpa using hwf.noInterp ph hph

/-- The segments, and then the stack. -/
theorem WellFormed.initVm_eq (hwf : elf.WellFormed) : elf.initVm parseUserApp vm args data = (do
    let (r, vm) ← elf.loadSegments elf.programHeaders vm
    match r with
    | .error e => pure (.error e, vm)
    | .ok () => elf.pushStack args data vm) := by
  rw [initVm, hwf.find_interp]
  change (elf.loadSegments elf.programHeaders vm >>= _) = _
  congr 1
  funext r
  obtain ⟨res, vm₁⟩ := r
  cases res with
  | error err => rfl
  | ok u =>
    dsimp only
    rw [relocateDyn, hwf.noRelaDyn]
    dsimp only
    rw [pure_bind]
    dsimp only
    rw [relocatePlt, hwf.noRelaPlt]
    dsimp only
    rw [pure_bind]

/-- Every segment is in the file and has addresses of the user. -/
theorem WellFormed.fits (hwf : elf.WellFormed) : ∀ ph ∈ elf.programHeaders, ph.type = .load →
    ph.offset + ph.fileSize ≤ elf.input.length ∧ ph.fileSize ≤ ph.memSize ∧
      ph.virtualAddr + elf.dynBase + ph.memSize ≤ 510 * 2 ^ 30 := by
  intro ph hph hload
  have hmem : ph ∈ elf.loads := List.mem_filter.mpr ⟨hph, decide_eq_true hload⟩
  exact ⟨hwf.inFile ph hmem, hwf.fileSize_le ph hmem, (hwf.below ph hmem).trans (by norm_num)⟩

/-- A program finds the image of the segments. -/
theorem WellFormed.wp_initVm (hwf : elf.WellFormed) (h : SpaceInv (spaceEnv shared) ∅ vm w) :
    wp (elf.initVm parseUserApp vm args data) (fun r w' ↦ r.1.isOk = true →
      ∀ ph ∈ elf.loads, ∀ j < ph.memSize, r.2.readsAt w' (ph.virtualAddr + elf.dynBase + j) =
        elf.image elf.loads.reverse (ph.virtualAddr + j)) anyPanic w := by
  rw [hwf.initVm_eq, wp_bind]
  refine wp_imp (wp_loadAll hwf.length_lt h hwf.fits) fun r w₁ hr ↦ ?_
  obtain ⟨res, vm₁⟩ := r
  cases res with
  | error err =>
    intro hok
    cases hok
  | ok u =>
    obtain ⟨hinv, hread, -⟩ := hr rfl
    dsimp only at hinv hread ⊢
    refine wp_imp (wp_pushStack hinv args data) fun r w' hr hok ph hph j hj ↦ ?_
    have hmem : ph ∈ elf.loads.reverse := List.mem_reverse.mpr hph
    obtain ⟨b, hb⟩ : ∃ b, elf.image elf.loads.reverse (ph.virtualAddr + j) = some b :=
      exists_image hmem hj
    have hbelow := hwf.below ph hph
    rw [hr hok _ (by omega), Nat.add_right_comm, hread, imageAt_add, hb, Option.some_or]

/-- **The image is complete if and only if shared pages lose nothing.** When the loader returns, a
program finds every byte of every segment exactly if what a segment has in the pages of later ones
is zero. -/
theorem loaded_iff (hwf : elf.WellFormed) (h : SpaceInv (spaceEnv shared) ∅ vm w)
    (parseUserApp : String → String → MemorySet F → List String →
      EStateM Panic (World σ φ) (Except OSError (ℕ × ℕ) × MemorySet F))
    (args : List String) (data : ByteMem) :
    wp (elf.initVm parseUserApp vm args data) (fun r w' ↦ r.1.isOk = true →
      (elf.Loaded r.2 w' ↔ elf.SharedPagesZero)) anyPanic w := by
  have hsize : ∀ ph ∈ elf.loads.reverse, ph.fileSize ≤ ph.memSize := fun ph hph ↦
    hwf.fileSize_le ph (List.mem_reverse.mp hph)
  have hdisj : elf.loads.reverse.Pairwise ProgramHeader.Disjoint :=
    List.pairwise_reverse.mpr (hwf.disjoint.imp Or.symm)
  refine wp_imp (hwf.wp_initVm h) fun r w' hr hok ↦ ?_
  have hread := hr hok
  rw [SharedPagesZero, ← List.pairwise_reverse, ← image_iff hsize hdisj, Loaded]
  constructor
  · intro hloaded ph hph j hj
    rw [← hread ph (List.mem_reverse.mp hph) j hj, hloaded ph (List.mem_reverse.mp hph) j hj]
  · intro himage ph hph j hj
    rw [hread ph hph j hj, himage ph (List.mem_reverse.mpr hph) j hj]

/-! ## Runs that return -/

section bitmap

variable {φ F : Type} [FileStore F φ] {vm : MemorySet F} {w : World Bitmap φ}

/-- With enough free frames and nothing in its place, a stack of less than a page is mapped. -/
theorem wp_pushStack_isOk {writer : InitStack} {g : ℕ → Option Cell}
    (h : SpaceOk (spaceEnv shared) g vm w)
    (hspare : Spare 0x1400 w) (habove : ∀ a ∈ vm.areaMap.areas, a.end_ ≤ USER_STACK_OFFSET)
    (hwriter : (elf.initInfo args).serialize (USER_STACK_OFFSET + USER_STACK_SIZE) data
      = .ok writer)
    (hlen : 0 < writer.deref.length ∧ writer.deref.length < PAGE_SIZE) :
    wp (elf.pushStack args data vm) (fun r _ ↦ r.1.isOk = true) noPanic w := by
  have hfits := InitInfo.length_deref_of_serialize hwriter
  have hpage : PAGE_SIZE = 0x1000 := rfl
  have hinv : SpaceInv (spaceEnv shared) {n | (g n).isSome} vm w :=
    ⟨g, h, fun n c hn hnot ↦ absurd (Option.isSome_of_eq_some hn) hnot⟩
  have hdisj : Disjoint (touched USER_STACK_OFFSET (USER_STACK_OFFSET + USER_STACK_SIZE))
      {n | (g n).isSome} := by
    refine Set.disjoint_left.mpr ?_
    rintro _ ⟨x, hx, rfl⟩ hsome
    obtain ⟨a, ha, hxa⟩ := (h.exists_area_iff x).mpr hsome
    exact absurd (hxa.2.trans_le (habove a ha)) (not_lt.mpr hx.1)
  have hspared := wp_pushStack_spare hinv hdisj hwriter hfits habove (hspare.mono (by omega))
  refine wp_mono (wp_and (wp_pushStack_writer hinv hwriter hfits) hspared)
    (fun r w' hr ↦ ?_) fun _ _ hp ↦ hp.2
  obtain ⟨hres, hoom⟩ := hr
  cases hr : r.1 with
  | ok p => rfl
  | error e =>
    rw [hr] at hres
    rcases hres with ⟨hle, -⟩ | hzero | htrue
    · exact absurd hlen.2 (not_lt.mpr hle)
    · exact absurd hzero hlen.1.ne'
    · rw [hoom] at htrue
      cases htrue

/-- When the segments are loaded, there are frames left and the stack fits into a page, the loader
returns. -/
theorem WellFormed.exists_initVm {writer : InitStack} {vm₁ : MemorySet F} {w₁ : World Bitmap φ}
    (hwf : elf.WellFormed) (h : SpaceInv (spaceEnv shared) ∅ vm w)
    (parseUserApp : String → String → MemorySet F → List String →
      EStateM Panic (World Bitmap φ) (Except OSError (ℕ × ℕ) × MemorySet F))
    (hrun : (elf.loadSegments elf.programHeaders vm).run w = .ok (.ok (), vm₁) w₁)
    (hspare : Spare 0x1400 w₁) (habove : ∀ a ∈ vm₁.areaMap.areas, a.end_ ≤ USER_STACK_OFFSET)
    (hwriter : (elf.initInfo args).serialize (USER_STACK_OFFSET + USER_STACK_SIZE) data
      = .ok writer)
    (hlen : 0 < writer.deref.length ∧ writer.deref.length < PAGE_SIZE) :
    ∃ r w', (elf.initVm parseUserApp vm args data).run w = .ok r w' ∧ r.1.isOk = true := by
  obtain ⟨⟨g, hspace, -⟩, -⟩ := wp_ok (wp_loadAll hwf.length_lt h hwf.fits) hrun rfl
  refine exists_of_wp ?_
  rw [hwf.initVm_eq, wp_bind]
  exact wp_of_ok hrun (wp_pushStack_isOk hspace hspare habove hwriter hlen)

end bitmap

/-! ## Two segments in one page -/

/-- Two segments of two bytes in one page, the first of which is zero or not. -/
def twoSegments (zero : Bool) : ElfFile where
  input := List.replicate 176 0 ++ [if zero then 0 else 1, 0, 3, 4]
  programHeaders := [
    { type := .load, flags := ⟨false, true, true⟩, offset := 176, virtualAddr := 0x10000,
      fileSize := 2, memSize := 2 },
    { type := .load, flags := ⟨true, false, true⟩, offset := 178, virtualAddr := 0x10800,
      fileSize := 2, memSize := 2 }]
  sections := []
  entryPoint := 0x10800
  phOffset := 64
  phEntrySize := 56
  phCount := 2

theorem wellFormed_twoSegments (zero : Bool) : (twoSegments zero).WellFormed := by
  constructor <;> revert zero <;> decide +kernel

/-- The initial stack of the program is less than a page. -/
def stackFits (elf : ElfFile) (args : List String) (data : ByteMem) : Bool :=
  match (elf.initInfo args).serialize (USER_STACK_OFFSET + USER_STACK_SIZE) data with
  | .ok writer => 0 < writer.deref.length && writer.deref.length < PAGE_SIZE
  | .error _ => false

theorem stackFits_twoSegments (zero : Bool) :
    stackFits (twoSegments zero) ["a"] (fun _ ↦ 0) = true := by
  revert zero
  decide +kernel

/-- Load a file into a new address space. -/
def loadNew (elf : ElfFile) :
    EStateM Panic (World Bitmap Unit) (Except OSError Unit × MemorySet Empty) := do
  let vm ← MemorySet.newMemorySetForTask PHYS_MEMORY_OFFSET
  elf.loadSegments elf.programHeaders vm

theorem returns_twoSegments (zero : Bool) : returns (loadNew (twoSegments zero)) World.kernel
    (fun r w ↦ r.1.isOk && decide (w.alloc.taken.length + 0x1400 ≤ 2 ^ 24) && !w.oom &&
      r.2.areaMap.areas.all fun a ↦ a.end_ ≤ USER_STACK_OFFSET) = true := by
  revert zero
  decide +kernel

/-- A program without interpreter. -/
def noParse (_ _ : String) (vm : MemorySet Empty) (_ : List String) :
    EStateM Panic (World Bitmap Unit) (Except OSError (ℕ × ℕ) × MemorySet Empty) :=
  pure (.error .loader_parseElfFailed, vm)

/-- The loader returns for both files, in a new address space. -/
theorem exists_initVm_twoSegments (zero : Bool) : ∃ shared vm w r w',
    SpaceInv (spaceEnv shared) ∅ vm w ∧
    ((twoSegments zero).initVm noParse vm ["a"] fun _ ↦ 0).run w = .ok r w' ∧
    r.1.isOk = true := by
  obtain ⟨⟨res, vm₁⟩, w₁, hrun, hP⟩ := exists_of_returns (returns_twoSegments zero)
  obtain ⟨vm, w, hnew, hload⟩ := exists_of_run_bind hrun
  simp only [Bool.and_eq_true, Bool.not_eq_true', decide_eq_true_eq, List.all_eq_true] at hP
  obtain ⟨⟨⟨hok, hfree⟩, hoom⟩, habove⟩ := hP
  obtain rfl : res = .ok () := by
    cases res with
    | error err => cases hok
    | ok u => rfl
  have hreach : Reach PHYS_MEMORY_OFFSET SpaceCall.Proper ∅ vm w :=
    .new (by decide) World.kernel_inUse hnew
  obtain ⟨shared, hinv⟩ := hreach.inv fun _ hc ↦ hc
  have hstack := stackFits_twoSegments zero
  rw [stackFits] at hstack
  split at hstack
  case h_1 writer hwriter =>
    rw [Bool.and_eq_true, decide_eq_true_eq, decide_eq_true_eq] at hstack
    obtain ⟨r, w', hinit, hr⟩ := (wellFormed_twoSegments zero).exists_initVm hinv noParse hload
      ⟨hfree, hoom⟩ habove hwriter hstack
    exact ⟨shared, vm, w, r, w', hinv, hinit, hr⟩
  case h_2 => exact absurd hstack Bool.false_ne_true

/-- When the first segment is zero, a program finds both. -/
theorem loaded_twoSegments : ∃ vm w r w',
    ((twoSegments true).initVm noParse vm ["a"] fun _ ↦ 0).run w = .ok r w' ∧
    (twoSegments true).Loaded r.2 w' := by
  have hzero : (twoSegments true).loads.Pairwise fun ph later ↦
      ∀ j < ph.memSize, later.Touches (ph.virtualAddr + j) → (twoSegments true).byte ph j = 0 := by
    decide +kernel
  have hwf := wellFormed_twoSegments true
  have hinit := exists_initVm_twoSegments true
  generalize twoSegments true = elf at hzero hwf hinit ⊢
  obtain ⟨shared, vm, w, r, w', hinv, hrun, hr⟩ := hinit
  have hiff := wp_ok (loaded_iff hwf hinv noParse ["a"] fun _ ↦ 0) hrun hr
  exact ⟨vm, w, r, w', hrun, hiff.mpr hzero⟩

/-- When it is not, the loader returns and a program finds a zero in its place. -/
theorem not_loaded_twoSegments : (twoSegments false).WellFormed ∧ ∃ shared vm w r w',
    SpaceInv (spaceEnv shared) ∅ vm w ∧
    ((twoSegments false).initVm noParse vm ["a"] fun _ ↦ 0).run w = .ok r w' ∧
    r.1.isOk = true ∧ ¬(twoSegments false).Loaded r.2 w' := by
  have hwf := wellFormed_twoSegments false
  have hinit := exists_initVm_twoSegments false
  have hdiff : ∃ ph ∈ (twoSegments false).loads, 0 < ph.memSize ∧
      (twoSegments false).image (twoSegments false).loads.reverse (ph.virtualAddr + 0) ≠
        some ((twoSegments false).byte ph 0) := by
    decide +kernel
  generalize twoSegments false = elf at hwf hinit hdiff ⊢
  obtain ⟨shared, vm, w, r, w', hinv, hrun, hr⟩ := hinit
  obtain ⟨ph, hph, hpos, hne⟩ := hdiff
  refine ⟨hwf, shared, vm, w, r, w', hinv, hrun, hr, fun hloaded ↦ hne ?_⟩
  rw [← wp_ok (hwf.wp_initVm hinv) hrun hr ph hph 0 hpos, hloaded ph hph 0 hpos]

end ElfFile

end Maturin
