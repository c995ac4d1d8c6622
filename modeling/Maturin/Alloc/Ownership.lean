import Maturin.Alloc.PageFrame
import Mathlib.Data.Set.Lattice
import Mathlib.Order.CompletePartialOrder

/-!
# Frames are owned exclusively

The pages of the regions given to `init` are at every moment split between the free bits of the
bitmap and the frames that are alive. The argument is about sets of bits; `span` carries it over to
physical addresses.
-/

open Exec Set

namespace Maturin

variable {cfg : PageFrameConfig} {cap base : ℕ}

/-! ## The addresses of a set of bits -/

/-- The addresses of the pages that a set of bits numbers. -/
def PageFrameConfig.span (cfg : PageFrameConfig) (I : Set ℕ) : Set ℕ :=
  {a | ∃ i ∈ I, cfg.frameIdxToPhysAddr i ≤ a ∧ a < cfg.frameIdxToPhysAddr i + PAGE_SIZE}

namespace PageFrameConfig

variable {I J : Set ℕ}

theorem Lawful.eq_of_mem (h : cfg.Lawful cap base) {i j a : ℕ} (hi : i < cap) (hj : j < cap)
    (hai : cfg.frameIdxToPhysAddr i ≤ a ∧ a < cfg.frameIdxToPhysAddr i + PAGE_SIZE)
    (haj : cfg.frameIdxToPhysAddr j ≤ a ∧ a < cfg.frameIdxToPhysAddr j + PAGE_SIZE) : i = j := by
  rw [h.addr i hi] at hai
  rw [h.addr j hj] at haj
  simp only [PAGE_SIZE] at *
  omega

theorem span_union : cfg.span (I ∪ J) = cfg.span I ∪ cfg.span J := by
  ext a
  constructor
  · rintro ⟨i, hi | hi, ha⟩
    · exact Or.inl ⟨i, hi, ha⟩
    · exact Or.inr ⟨i, hi, ha⟩
  · rintro (⟨i, hi, ha⟩ | ⟨i, hi, ha⟩)
    · exact ⟨i, Or.inl hi, ha⟩
    · exact ⟨i, Or.inr hi, ha⟩

theorem span_mono (hIJ : I ⊆ J) : cfg.span I ⊆ cfg.span J :=
  fun _ ⟨i, hi, ha⟩ ↦ ⟨i, hIJ hi, ha⟩

/-- Distinct bits number distinct pages. -/
theorem Lawful.disjoint_span (h : cfg.Lawful cap base) (hI : ∀ i ∈ I, i < cap)
    (hJ : ∀ j ∈ J, j < cap) (hIJ : Disjoint I J) : Disjoint (cfg.span I) (cfg.span J) := by
  rw [disjoint_left] at hIJ ⊢
  rintro a ⟨i, hi, hai⟩ ⟨j, hj, haj⟩
  refine hIJ hi ?_
  rwa [h.eq_of_mem (hI i hi) (hJ j hj) hai haj]

theorem Lawful.span_sdiff (h : cfg.Lawful cap base) (hI : ∀ i ∈ I, i < cap)
    (hJ : ∀ j ∈ J, j < cap) : cfg.span (I \ J) = cfg.span I \ cfg.span J := by
  ext a
  constructor
  · rintro ⟨i, ⟨hi, hout⟩, ha⟩
    refine ⟨⟨i, hi, ha⟩, fun hmem ↦ ?_⟩
    obtain ⟨j, hj, haj⟩ := hmem
    exact hout (h.eq_of_mem (hI i hi) (hJ j hj) ha haj ▸ hj)
  · rintro ⟨⟨i, hi, ha⟩, hout⟩
    exact ⟨i, ⟨hi, fun hj ↦ hout ⟨i, hj, ha⟩⟩, ha⟩

/-- The pages of a block of bits are contiguous. -/
theorem Lawful.span_Ico (h : cfg.Lawful cap base) {i n : ℕ} (hle : i + n ≤ cap) (hn : 0 < n) :
    cfg.span (Ico i (i + n))
      = Ico (cfg.frameIdxToPhysAddr i) (cfg.frameIdxToPhysAddr i + n * PAGE_SIZE) := by
  ext a
  rw [h.addr i (by omega), mem_Ico]
  constructor
  · rintro ⟨j, ⟨hl, hr⟩, ha⟩
    rw [h.addr j (by omega)] at ha
    simp only [PAGE_SIZE] at *
    constructor
    · omega
    · omega
  · intro ha
    have hj : (a - base) / PAGE_SIZE < cap := by
      simp only [PAGE_SIZE] at *
      omega
    refine ⟨(a - base) / PAGE_SIZE, ?_, ?_⟩
    · rw [mem_Ico]
      simp only [PAGE_SIZE] at *
      omega
    · rw [h.addr _ hj]
      simp only [PAGE_SIZE] at *
      constructor
      · omega
      · omega

end PageFrameConfig

/-! ## Regions -/

/-- The addresses of the regions. -/
def regionAddrs (regions : List (ℕ × ℕ)) : Set ℕ := {a | ∃ r ∈ regions, r.1 ≤ a ∧ a < r.2}

/-- Regions of whole pages. -/
def RegionsOk (regions : List (ℕ × ℕ)) : Prop :=
  ∀ r ∈ regions, PageAligned r.1 ∧ PageAligned r.2 ∧ r.1 ≤ r.2 ∧ r.2 < 2 ^ 64

/-- The bits of a region. -/
def regionBits (cfg : PageFrameConfig) (r : ℕ × ℕ) : Set ℕ :=
  Ico (cfg.physAddrToFrameIdx r.1) (wadd (cfg.physAddrToFrameIdx (wsub r.2 1)) 1)

/-- The pages of the bits of a region are the region, when the bitmap has these bits. -/
theorem PageFrameConfig.Lawful.span_regionBits (h : cfg.Lawful cap base) {r : ℕ × ℕ}
    (hl : PageAligned r.1) (hr : PageAligned r.2) (hle : r.1 ≤ r.2) (hlt : r.2 < 2 ^ 64)
    (hne : cfg.physAddrToFrameIdx r.1 < wadd (cfg.physAddrToFrameIdx (wsub r.2 1)) 1)
    (hcap : wadd (cfg.physAddrToFrameIdx (wsub r.2 1)) 1 ≤ cap) :
    cfg.span (regionBits cfg r) = Ico r.1 r.2 := by
  have hfits := h.fits
  have hbase := h.aligned
  have hlast : cfg.physAddrToFrameIdx (wsub r.2 1) = wsub (wsub r.2 1) base / PAGE_SIZE :=
    h.idx _ (wsub_lt _ _)
  have hw : wadd (cfg.physAddrToFrameIdx (wsub r.2 1)) 1
      = cfg.physAddrToFrameIdx (wsub r.2 1) + 1 := by
    refine wadd_of_lt ?_
    rw [hlast]
    have := wsub_lt (wsub r.2 1) base
    simp only [PAGE_SIZE]
    omega
  rw [hw] at hne hcap
  have hfirst := h.addr_idx (show r.1 < 2 ^ 64 by omega) (by omega)
  have hend := h.addr_idx (wsub_lt r.2 1) (by omega)
  rw [regionBits, hw]
  generalize cfg.physAddrToFrameIdx r.1 = i at *
  generalize cfg.physAddrToFrameIdx (wsub r.2 1) = j at *
  rw [show j + 1 = i + (j + 1 - i) by omega, h.span_Ico (by omega) (by omega)]
  rw [h.addr i (by omega)] at *
  rw [h.addr j (by omega)] at *
  have hpos : 0 < r.2 := by
    by_contra hzero
    have hz : r.2 = 0 := by omega
    rw [hz] at hend
    simp only [wsub, PAGE_SIZE] at *
    omega
  rw [wsub_of_le hpos hlt] at hend
  simp only [PageAligned, PAGE_SIZE] at *
  congr 1
  · omega
  · omega

/-! ## Who holds which bits -/

section ledger

variable {B : Type} [BitAlloc B] [LawfulBitAlloc B]

open BitAlloc (CAP)

/-- The bits of the pages of a frame. -/
def Frame.bits (cfg : PageFrameConfig) (f : Frame) : Set ℕ :=
  Ico (cfg.physAddrToFrameIdx f.startPaddr) (cfg.physAddrToFrameIdx f.startPaddr + f.frameCount)

/-- The free bits `S` and the bits of the live frames split the bits `I`. -/
structure FramePool.Owns (cfg : PageFrameConfig) (I : Set ℕ) (pool : FramePool B) (S : Set ℕ) :
    Prop where
  free : LawfulBitAlloc.Free pool.allocator S
  start : ∀ f ∈ pool.live,
    cfg.frameIdxToPhysAddr (cfg.physAddrToFrameIdx f.startPaddr) = f.startPaddr
  pos : ∀ f ∈ pool.live, 0 < f.frameCount
  le : ∀ f ∈ pool.live, cfg.physAddrToFrameIdx f.startPaddr + f.frameCount ≤ CAP B
  disjoint : pool.live.Pairwise fun f g ↦ Disjoint (f.bits cfg) (g.bits cfg)
  apart : ∀ f ∈ pool.live, Disjoint (f.bits cfg) S
  all : ∀ i, i ∈ I ↔ i ∈ S ∨ ∃ f ∈ pool.live, i ∈ f.bits cfg

variable {I S : Set ℕ} {pool pool' : FramePool B} {f : Frame}

/-- Making a frame of a block of free bits. -/
theorem FramePool.Owns.push (h : pool.Owns cfg I S) (hcfg : cfg.Lawful (CAP B) base) {k n : ℕ}
    {b : B} (hn : 0 < n) (hk : Ico k (k + n) ⊆ S)
    (hfree : LawfulBitAlloc.Free b (S \ Ico k (k + n))) :
    FramePool.Owns cfg I ⟨b, ⟨cfg.frameIdxToPhysAddr k, n⟩ :: pool.live⟩ (S \ Ico k (k + n)) ∧
      (⟨cfg.frameIdxToPhysAddr k, n⟩ : Frame).bits cfg = Ico k (k + n) := by
  have hlast : k + n - 1 < CAP B := LawfulBitAlloc.free_lt h.free (hk ⟨by omega, by omega⟩)
  have hidx := hcfg.idx_addr (show k < CAP B by omega)
  have hbits : (⟨cfg.frameIdxToPhysAddr k, n⟩ : Frame).bits cfg = Ico k (k + n) := by
    rw [Frame.bits, hidx]
  refine ⟨⟨hfree, ?_, ?_, ?_, ?_, ?_, fun i ↦ ?_⟩, hbits⟩
  · rintro f (_ | ⟨_, hf⟩)
    · rw [hidx]
    · exact h.start f hf
  · rintro f (_ | ⟨_, hf⟩)
    · exact hn
    · exact h.pos f hf
  · rintro f (_ | ⟨_, hf⟩)
    · rw [hidx]
      dsimp only
      omega
    · exact h.le f hf
  · refine List.Pairwise.cons (fun g hg ↦ ?_) h.disjoint
    rw [hbits]
    exact ((h.apart g hg).mono_right hk).symm
  · rintro f (_ | ⟨_, hf⟩)
    · rw [hbits]
      exact disjoint_sdiff_right
    · exact (h.apart f hf).mono_right sdiff_subset
  · rw [h.all i]
    simp only [List.mem_cons, exists_eq_or_imp, hbits, mem_sdiff]
    have hsub := @hk i
    tauto

/-- Dropping a frame, when the bitmap took its bits back. -/
theorem FramePool.Owns.erase (h : pool.Owns cfg I S) (hf : f ∈ pool.live) {b : B}
    (hfree : LawfulBitAlloc.Free b (S ∪ f.bits cfg)) :
    FramePool.Owns cfg I ⟨b, pool.live.erase f⟩ (S ∪ f.bits cfg) := by
  have hmem : ∀ g ∈ pool.live.erase f, g ∈ pool.live := fun g hg ↦ List.mem_of_mem_erase hg
  have hperm := List.perm_cons_erase hf
  have hpair : (f :: pool.live.erase f).Pairwise fun f g ↦ Disjoint (f.bits cfg) (g.bits cfg) :=
    (hperm.pairwise_iff fun hd ↦ hd.symm).mp h.disjoint
  rw [List.pairwise_cons] at hpair
  refine ⟨hfree, fun g hg ↦ h.start g (hmem g hg), fun g hg ↦ h.pos g (hmem g hg),
    fun g hg ↦ h.le g (hmem g hg), hpair.2, fun g hg ↦ ?_, fun i ↦ ?_⟩
  · exact (h.apart g (hmem g hg)).union_right (hpair.1 g hg).symm
  · rw [h.all i, mem_union, or_assoc]
    refine or_congr_right ?_
    simp only [hperm.mem_iff, List.mem_cons, exists_eq_or_imp]

/-- Giving back a block of taken bits, one after the other. -/
theorem dealloc_block {b : B} {k n : ℕ} (hfree : LawfulBitAlloc.Free b S) (hle : k + n ≤ CAP B)
    (hout : Disjoint (Ico k (k + n)) S) :
    ∃ b', (List.range' k n).foldlM (fun ba i ↦ BitAlloc.dealloc i ba) b = some b' ∧
      LawfulBitAlloc.Free b' (S ∪ Ico k (k + n)) := by
  induction n generalizing b S k with
  | zero => exact ⟨b, rfl, by rwa [Nat.add_zero, Ico_self, union_empty]⟩
  | succ n ih =>
    have hnot : k ∉ S := disjoint_left.mp hout ⟨le_rfl, by omega⟩
    obtain ⟨b₁, hb₁, hfree₁⟩ := LawfulBitAlloc.dealloc_taken hfree (by omega) hnot
    have hout₁ : Disjoint (Ico (k + 1) (k + 1 + n)) (insert k S) := by
      rw [disjoint_left] at hout ⊢
      intro i hmem hi
      rw [mem_Ico] at hmem
      rcases hi with heq | hi
      · omega
      · exact hout ⟨by omega, by omega⟩ hi
    obtain ⟨b₂, hb₂, hfree₂⟩ := ih hfree₁ (by omega) hout₁
    refine ⟨b₂, ?_, ?_⟩
    · rw [List.range'_succ, List.foldlM_cons, hb₁]
      exact hb₂
    · have hset : insert k S ∪ Ico (k + 1) (k + 1 + n) = S ∪ Ico k (k + (n + 1)) := by
        ext i
        rw [mem_union, mem_insert_iff, mem_Ico, mem_union, mem_Ico, or_right_comm, or_comm]
        refine or_congr_right ?_
        omega
      rwa [hset] at hfree₂

/-- The free addresses of the bitmap. -/
def FramePool.allocatable (cfg : PageFrameConfig) (pool : FramePool B) : Set ℕ :=
  cfg.span {i | i < CAP B ∧ BitAlloc.test i pool.allocator = true}

theorem FramePool.Owns.allocatable_eq (h : pool.Owns cfg I S) :
    pool.allocatable cfg = cfg.span S := by
  have hset : {i | i < CAP B ∧ BitAlloc.test i pool.allocator = true} = S := by
    ext i
    constructor
    · rintro ⟨hlt, hi⟩
      exact (LawfulBitAlloc.test_iff h.free hlt).mp hi
    · intro hi
      have hlt := LawfulBitAlloc.free_lt h.free hi
      exact ⟨hlt, (LawfulBitAlloc.test_iff h.free hlt).mpr hi⟩
  rw [FramePool.allocatable, hset]

/-- The addresses of a frame. -/
def Frame.range (cfg : PageFrameConfig) (f : Frame) : Set ℕ :=
  Ico f.startPaddr (f.startPaddr + f.size cfg)

theorem FramePool.Owns.span_bits (h : pool.Owns cfg I S) (hcfg : cfg.Lawful (CAP B) base)
    (hf : f ∈ pool.live) : cfg.span (f.bits cfg) = f.range cfg := by
  rw [Frame.bits, hcfg.span_Ico (h.le f hf) (h.pos f hf), h.start f hf, Frame.range, Frame.size,
    hcfg.pageSize]

/-! ## One call -/

/-- What making a frame does: a block of allocatable pages becomes a live frame. -/
def FramePool.Made (cfg : PageFrameConfig) (pool : FramePool B) (r : Option Frame)
    (pool' : FramePool B) : Prop :=
  match r with
  | some f => pool'.live = f :: pool.live ∧ f.range cfg ⊆ pool.allocatable cfg ∧
      pool'.allocatable cfg = pool.allocatable cfg \ f.range cfg
  | none => pool' = pool

theorem FramePool.Owns.wp_ofAnswer (h : pool.Owns cfg I S) (hcfg : cfg.Lawful (CAP B) base)
    {n : ℕ} (hn : 0 < n) {answer : B → Option (ℕ × B)}
    (hanswer : ∀ {p b}, answer pool.allocator = some (p, b) → ∃ k, p = cfg.frameIdxToPhysAddr k ∧
      Ico k (k + n) ⊆ S ∧ LawfulBitAlloc.Free b (S \ Ico k (k + n))) :
    wp (Frame.ofAnswer n answer) (fun r pool' ↦ (∃ S', pool'.Owns cfg I S') ∧
      pool.Made cfg r pool' ∧ (r = none → answer pool.allocator = none)) noPanic pool := by
  rw [Frame.ofAnswer, wp_bind, wp_get]
  cases ha : answer pool.allocator with
  | none => exact ⟨⟨S, h⟩, rfl, fun _ ↦ rfl⟩
  | some r =>
    obtain ⟨p, b⟩ := r
    obtain ⟨k, rfl, hk, hfree⟩ := hanswer ha
    obtain ⟨hown, hbits⟩ := h.push hcfg hn hk hfree
    have hspan := hown.span_bits hcfg List.mem_cons_self
    rw [hbits] at hspan
    have hS : ∀ i ∈ S, i < CAP B := fun i hi ↦ LawfulBitAlloc.free_lt h.free hi
    refine ⟨⟨_, hown⟩, ⟨rfl, ?_, ?_⟩, fun hnone ↦ absurd hnone (by simp)⟩
    · rw [← hspan, h.allocatable_eq]
      exact PageFrameConfig.span_mono hk
    · rw [hown.allocatable_eq, h.allocatable_eq, ← hspan]
      exact hcfg.span_sdiff hS fun i hi ↦ hS i (hk hi)

theorem FramePool.Owns.wp_new (h : pool.Owns cfg I S) (hcfg : cfg.Lawful (CAP B) base) :
    wp (Frame.new cfg) (fun r pool' ↦ (∃ S', pool'.Owns cfg I S') ∧ pool.Made cfg r pool' ∧
      (r = none → S = ∅)) noPanic pool := by
  refine wp_imp (h.wp_ofAnswer hcfg Nat.one_pos fun {p b} hanswer ↦ ?_) fun r pool' hr ↦ ?_
  · obtain ⟨⟨k, b'⟩, ha, hr⟩ := Option.map_eq_some_iff.mp hanswer
    obtain ⟨rfl, rfl⟩ := Prod.mk.inj hr
    obtain ⟨hk, hfree⟩ := LawfulBitAlloc.alloc_some h.free ha
    rw [← BitAlloc.Ico_succ_self] at hfree
    exact ⟨k, rfl, by rwa [BitAlloc.Ico_succ_self, singleton_subset_iff], hfree⟩
  · obtain ⟨hown, hmade, hnone⟩ := hr
    exact ⟨hown, hmade, fun heq ↦
      LawfulBitAlloc.alloc_none h.free (Option.map_eq_none_iff.mp (hnone heq))⟩

theorem FramePool.Owns.wp_newContiguous (h : pool.Owns cfg I S) (hcfg : cfg.Lawful (CAP B) base)
    {n : ℕ} (hn : 0 < n) (align : ℕ) :
    wp (Frame.newContiguous cfg n align) (fun r pool' ↦ (∃ S', pool'.Owns cfg I S') ∧
      pool.Made cfg r pool') noPanic pool := by
  refine wp_imp (h.wp_ofAnswer hcfg hn fun {p b} hanswer ↦ ?_) fun r pool' hr ↦ ⟨hr.1, hr.2.1⟩
  obtain ⟨⟨k, b'⟩, ha, hr⟩ := Option.map_eq_some_iff.mp hanswer
  obtain ⟨rfl, rfl⟩ := Prod.mk.inj hr
  obtain ⟨hk, hfree⟩ := LawfulBitAlloc.allocContiguous_some h.free ha hn
  exact ⟨k, rfl, hk, hfree⟩

/-- Dropping a live frame makes its pages allocatable, and none of them was. -/
theorem FramePool.Owns.wp_drop (h : pool.Owns cfg I S) (hcfg : cfg.Lawful (CAP B) base)
    (hf : f ∈ pool.live) :
    wp (f.drop cfg) (fun _ pool' ↦ (∃ S', pool'.Owns cfg I S') ∧
      pool'.live = pool.live.erase f ∧ Disjoint (pool.allocatable cfg) (f.range cfg) ∧
      pool'.allocatable cfg = pool.allocatable cfg ∪ f.range cfg) noPanic pool := by
  obtain ⟨b, hb, hfree⟩ := dealloc_block h.free (h.le f hf) (h.apart f hf)
  have hown := h.erase hf hfree
  have hspan := h.span_bits hcfg hf
  -- a single page is given back by one call, which is the loop over one bit
  have hfreed : (if f.frameCount = 1 then FrameAllocatorWrapper.deallocFrame cfg f.startPaddr
      pool.allocator else FrameAllocatorWrapper.deallocFrameContiguous cfg f.startPaddr
      f.frameCount pool.allocator) = some b := by
    split_ifs with hone
    · simp only [hone, List.range'_one, List.foldlM_cons, List.foldlM_nil, bind_pure] at hb
      exact hb
    · exact hb
  rw [Frame.drop, wp_bind, wp_get]
  dsimp only
  rw [hfreed]
  refine ⟨⟨_, hown⟩, rfl, ?_, ?_⟩
  · rw [h.allocatable_eq, ← hspan]
    refine hcfg.disjoint_span (fun i hi ↦ LawfulBitAlloc.free_lt h.free hi) (fun i hi ↦ ?_)
      (h.apart f hf).symm
    exact hi.2.trans_le (h.le f hf)
  · rw [hown.allocatable_eq, h.allocatable_eq, ← hspan]
    exact PageFrameConfig.span_union

/-! ## Initialisation -/

/-- The bits of the regions. -/
def regionsBits (cfg : PageFrameConfig) (regions : List (ℕ × ℕ)) : Set ℕ :=
  {i | ∃ r ∈ regions, i ∈ regionBits cfg r}

/-- The bitmap has the bits of the region. -/
def RegionFits (cfg : PageFrameConfig) (cap : ℕ) (r : ℕ × ℕ) : Prop :=
  cfg.physAddrToFrameIdx r.1 < wadd (cfg.physAddrToFrameIdx (wsub r.2 1)) 1 ∧
    wadd (cfg.physAddrToFrameIdx (wsub r.2 1)) 1 ≤ cap

theorem initRegion_some {r : ℕ × ℕ} {b b' : B} (hb : LawfulBitAlloc.Free b S)
    (h : FrameAllocatorWrapper.initRegion cfg b r = some b') :
    LawfulBitAlloc.Free b' (S ∪ regionBits cfg r) ∧ RegionFits cfg (CAP B) r := by
  rw [FrameAllocatorWrapper.initRegion] at h
  split at h
  · rename_i hlt
    have hle : wadd (cfg.physAddrToFrameIdx (wsub r.2 1)) 1 ≤ CAP B := by
      by_contra hgt
      exact absurd (h.symm.trans (LawfulBitAlloc.insert_of_lt (not_le.mp hgt))) (by simp)
    obtain ⟨b₁, hb₁, hfree⟩ := LawfulBitAlloc.insert_some hb hlt hle
    rw [Option.some.inj (h.symm.trans hb₁)]
    exact ⟨hfree, hlt, hle⟩
  · exact absurd h (by simp)

theorem init_loop {regions : List (ℕ × ℕ)} {b b' : B} (hb : LawfulBitAlloc.Free b S)
    (h : regions.foldlM (FrameAllocatorWrapper.initRegion cfg) b = some b') :
    LawfulBitAlloc.Free b' (S ∪ regionsBits cfg regions) ∧
      ∀ r ∈ regions, RegionFits cfg (CAP B) r := by
  induction regions generalizing b S with
  | nil =>
    obtain rfl := Option.some.inj h
    have hempty : regionsBits cfg [] = ∅ :=
      eq_empty_iff_forall_notMem.mpr fun i hi ↦ by simp [regionsBits] at hi
    rw [hempty, union_empty]
    exact ⟨hb, fun r hr ↦ absurd hr (by simp)⟩
  | cons r regions ih =>
    rw [List.foldlM_cons, Option.bind_eq_bind, Option.bind_eq_some_iff] at h
    obtain ⟨b₁, hfirst, hrest⟩ := h
    obtain ⟨hfree₁, hfits⟩ := initRegion_some hb hfirst
    obtain ⟨hfree, hall⟩ := ih hfree₁ hrest
    have hset : regionsBits cfg (r :: regions) = regionBits cfg r ∪ regionsBits cfg regions := by
      ext i
      simp only [regionsBits, mem_ofPred_eq, List.mem_cons, exists_eq_or_imp, mem_union]
    rw [hset, ← union_assoc]
    refine ⟨hfree, fun r' hr' ↦ ?_⟩
    rcases List.mem_cons.mp hr' with rfl | hr'
    · exact hfits
    · exact hall r' hr'

/-- The pages of the bits of the regions are the regions. -/
theorem span_regionsBits (hcfg : cfg.Lawful cap base) {regions : List (ℕ × ℕ)}
    (hreg : RegionsOk regions) (hfits : ∀ r ∈ regions, RegionFits cfg cap r) :
    cfg.span (regionsBits cfg regions) = regionAddrs regions := by
  have hspan : ∀ r ∈ regions, cfg.span (regionBits cfg r) = Ico r.1 r.2 := by
    intro r hr
    obtain ⟨hl, hend, hle, hlt⟩ := hreg r hr
    exact hcfg.span_regionBits hl hend hle hlt (hfits r hr).1 (hfits r hr).2
  ext a
  constructor
  · rintro ⟨i, ⟨r, hr, hi⟩, ha⟩
    have hmem : a ∈ cfg.span (regionBits cfg r) := ⟨i, hi, ha⟩
    rw [hspan r hr] at hmem
    exact ⟨r, hr, hmem⟩
  · rintro ⟨r, hr, ha⟩
    have hmem : a ∈ cfg.span (regionBits cfg r) := by rwa [hspan r hr]
    obtain ⟨i, hi, hai⟩ := hmem
    exact ⟨i, ⟨r, hr, hi⟩, hai⟩

/-! ## Runs -/

/-- The calls on frames. -/
inductive FrameCall
  | new
  | newContiguous (frameCount alignLog2 : ℕ)
  | drop (f : Frame)

namespace FrameCall

def run (cfg : PageFrameConfig) : FrameCall → EStateM Panic (FramePool B) (Option Frame)
  | new => Frame.new cfg
  | newContiguous frameCount alignLog2 => Frame.newContiguous cfg frameCount alignLog2
  | drop f => (fun _ ↦ none) <$> f.drop cfg

/-- Blocks are not empty, and only a live frame can be dropped. -/
def Allowed (pool : FramePool B) : FrameCall → Prop
  | new => True
  | newContiguous frameCount _ => 1 ≤ frameCount
  | drop f => f ∈ pool.live

/-- What a call does to the addresses of the regions. A single page is refused only when all of
them are held by live frames. -/
def Spec (cfg : PageFrameConfig) (regions : List (ℕ × ℕ)) (pool : FramePool B) (r : Option Frame)
    (pool' : FramePool B) : FrameCall → Prop
  | new => pool.Made cfg r pool' ∧
      (r = none → ∀ a ∈ regionAddrs regions, ∃ f ∈ pool.live, a ∈ f.range cfg)
  | newContiguous .. => pool.Made cfg r pool'
  | drop f => pool'.live = pool.live.erase f ∧ Disjoint (pool.allocatable cfg) (f.range cfg) ∧
      pool'.allocatable cfg = pool.allocatable cfg ∪ f.range cfg

end FrameCall

/-- The states of the runs that start with `init`. -/
inductive FramePool.Reach (cfg : PageFrameConfig) (regions : List (ℕ × ℕ)) : FramePool B → Prop
  | init {b : B} (h : FrameAllocatorWrapper.init cfg regions = some b) : Reach cfg regions ⟨b, []⟩
  | call {pool pool' : FramePool B} {c : FrameCall} {r : Option Frame} (h : Reach cfg regions pool)
      (hc : c.Allowed pool) (hrun : (c.run cfg).run pool = .ok r pool') : Reach cfg regions pool'

/-- The state of a run: the pages of the regions are split between bits and frames. -/
def FramePool.Split (cfg : PageFrameConfig) (regions : List (ℕ × ℕ)) (pool : FramePool B) : Prop :=
  (∃ S, pool.Owns cfg (regionsBits cfg regions) S) ∧
    cfg.span (regionsBits cfg regions) = regionAddrs regions

variable {regions : List (ℕ × ℕ)} {c : FrameCall}

theorem FramePool.Split.wp_run (h : pool.Split cfg regions) (hcfg : cfg.Lawful (CAP B) base)
    (hc : c.Allowed pool) :
    wp (c.run cfg) (fun r pool' ↦ pool'.Split cfg regions ∧ c.Spec cfg regions pool r pool')
      noPanic pool := by
  obtain ⟨⟨S, hown⟩, hspan⟩ := h
  cases c with
  | new =>
    refine wp_imp (hown.wp_new hcfg) fun r pool' hr ↦ ?_
    obtain ⟨hown', hmade, hnone⟩ := hr
    refine ⟨⟨hown', hspan⟩, hmade, fun heq a ha ↦ ?_⟩
    rw [← hspan] at ha
    obtain ⟨i, hi, hai⟩ := ha
    rcases (hown.all i).mp hi with hS | ⟨f, hf, hif⟩
    · rw [hnone heq] at hS
      exact hS.elim
    · refine ⟨f, hf, ?_⟩
      rw [← hown.span_bits hcfg hf]
      exact ⟨i, hif, hai⟩
  | newContiguous n align =>
    refine wp_imp (hown.wp_newContiguous hcfg hc align) fun r pool' hr ↦ ?_
    exact ⟨⟨hr.1, hspan⟩, hr.2⟩
  | drop f =>
    refine (wp_map _ _).mpr (wp_imp (hown.wp_drop hcfg hc) fun _ pool' hr ↦ ?_)
    exact ⟨⟨hr.1, hspan⟩, hr.2⟩

theorem FramePool.Reach.split (h : FramePool.Reach cfg regions pool)
    (hcfg : cfg.Lawful (CAP B) base) (hreg : RegionsOk regions) : pool.Split cfg regions := by
  induction h with
  | @init b h =>
    obtain ⟨hfree, hfits⟩ := init_loop LawfulBitAlloc.free_default h
    rw [empty_union] at hfree
    refine ⟨⟨_, hfree, ?_, ?_, ?_, .nil, ?_, fun i ↦ ?_⟩, span_regionsBits hcfg hreg hfits⟩
    · exact fun f hf ↦ absurd hf (by simp)
    · exact fun f hf ↦ absurd hf (by simp)
    · exact fun f hf ↦ absurd hf (by simp)
    · exact fun f hf ↦ absurd hf (by simp)
    · simp
  | call _ hc hrun ih =>
    have hr := wp_ok (ih.wp_run hcfg hc) hrun
    exact hr.1

end ledger

end Maturin
