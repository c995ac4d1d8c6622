import Maturin.Alloc.Cascade
import Maturin.Memory.Bitmap

/-!
# The crate `maturin-page-frame`

`Frame` owns pages of physical memory: making one takes bits from a global bitmap and dropping it
gives them back. The bitmap numbers the pages by the functions of a `PageFrameConfig`, of which the
crate has a default and the kernel its own. The state is the bitmap together with the frames that
are alive.
-/

open Exec

namespace Maturin

/-! ## Numbering the pages -/

/-- The functions of the trait `PageFrameConfig` that the allocator uses. -/
structure PageFrameConfig where
  getPageSize : ℕ
  physAddrToFrameIdx : ℕ → ℕ
  frameIdxToPhysAddr : ℕ → ℕ

namespace PageFrameConfig

/-- The default methods of the trait. -/
def default : PageFrameConfig where
  getPageSize := PAGE_SIZE
  physAddrToFrameIdx addr := addr / PAGE_SIZE
  frameIdxToPhysAddr idx := idx * PAGE_SIZE % 2 ^ 64

/-- The configuration of `memory/allocator/frame.rs`. -/
def kernel : PageFrameConfig where
  getPageSize := PAGE_SIZE
  physAddrToFrameIdx addr := wsub addr PHYS_MEMORY_OFFSET / PAGE_SIZE
  frameIdxToPhysAddr idx := wadd (idx * PAGE_SIZE % 2 ^ 64) PHYS_MEMORY_OFFSET

/-- The bits of a bitmap with `cap` bits number the pages from `base` on. -/
structure Lawful (cfg : PageFrameConfig) (cap base : ℕ) : Prop where
  pageSize : cfg.getPageSize = PAGE_SIZE
  aligned : PageAligned base
  fits : base + cap * PAGE_SIZE < 2 ^ 64
  idx : ∀ addr < 2 ^ 64, cfg.physAddrToFrameIdx addr = wsub addr base / PAGE_SIZE
  addr : ∀ i < cap, cfg.frameIdxToPhysAddr i = i * PAGE_SIZE + base

theorem lawful_default : default.Lawful (BitAlloc.CAP BitAlloc16M) 0 := by
  have hcap : BitAlloc.CAP BitAlloc16M = 2 ^ 24 := rfl
  refine ⟨rfl, rfl, by rw [hcap]; decide, fun addr hlt ↦ ?_, fun i hi ↦ ?_⟩
  · rw [wsub_of_le (Nat.zero_le _) hlt]
    rfl
  · simp only [default, PAGE_SIZE, hcap] at *
    omega

theorem lawful_kernel : kernel.Lawful (BitAlloc.CAP BitAlloc16M) PHYS_MEMORY_OFFSET := by
  have hcap : BitAlloc.CAP BitAlloc16M = 2 ^ 24 := rfl
  refine ⟨rfl, by decide, by rw [hcap]; decide, fun _ _ ↦ rfl, fun i hi ↦ ?_⟩
  simp only [kernel, wadd, PAGE_SIZE, PHYS_MEMORY_OFFSET, hcap] at *
  omega

variable {cfg : PageFrameConfig} {cap base : ℕ}

/-- A bit is the number of its page. -/
theorem Lawful.idx_addr (h : cfg.Lawful cap base) {i : ℕ} (hi : i < cap) :
    cfg.physAddrToFrameIdx (cfg.frameIdxToPhysAddr i) = i := by
  have hfits := h.fits
  have hle : (i + 1) * PAGE_SIZE ≤ cap * PAGE_SIZE := Nat.mul_le_mul_right _ hi
  rw [h.addr i hi, h.idx _ (by simp only [PAGE_SIZE] at *; omega), wsub]
  simp only [PAGE_SIZE] at *
  omega

/-- An address lies in the page with its number. -/
theorem Lawful.addr_idx (h : cfg.Lawful cap base) {addr : ℕ} (hlt : addr < 2 ^ 64)
    (hi : cfg.physAddrToFrameIdx addr < cap) :
    cfg.frameIdxToPhysAddr (cfg.physAddrToFrameIdx addr) ≤ addr ∧
      addr < cfg.frameIdxToPhysAddr (cfg.physAddrToFrameIdx addr) + PAGE_SIZE := by
  have hfits := h.fits
  have hle : cfg.physAddrToFrameIdx addr * PAGE_SIZE + PAGE_SIZE ≤ cap * PAGE_SIZE := by
    rw [← Nat.succ_mul]
    exact Nat.mul_le_mul_right _ hi
  rw [h.addr _ hi]
  rw [h.idx addr hlt, wsub] at *
  simp only [PAGE_SIZE] at *
  omega

end PageFrameConfig

/-! ## Frames -/

/-- `Frame` -/
structure Frame where
  startPaddr : ℕ
  frameCount : ℕ
  deriving DecidableEq

def Frame.size (cfg : PageFrameConfig) (f : Frame) : ℕ := f.frameCount * cfg.getPageSize

/-- The bitmap and the frames that are alive. -/
structure FramePool (B : Type) where
  allocator : B
  live : List Frame

variable {B : Type} [BitAlloc B]

namespace FrameAllocatorWrapper

/-- One round of `init`: mark the pages of a region as free. -/
def initRegion (cfg : PageFrameConfig) (ba : B) (region : ℕ × ℕ) : Option B :=
  let frameStart := cfg.physAddrToFrameIdx region.1
  let frameEnd := wadd (cfg.physAddrToFrameIdx (wsub region.2 1)) 1
  if frameStart < frameEnd then BitAlloc.insert frameStart frameEnd ba else none

def init (cfg : PageFrameConfig) (regions : List (ℕ × ℕ)) : Option B :=
  regions.foldlM (initRegion cfg) BitAlloc.DEFAULT

def allocFrame (cfg : PageFrameConfig) (ba : B) : Option (ℕ × B) :=
  (BitAlloc.alloc ba).map fun r ↦ (cfg.frameIdxToPhysAddr r.1, r.2)

def allocFrameContiguous (cfg : PageFrameConfig) (frameCount alignLog2 : ℕ) (ba : B) :
    Option (ℕ × B) :=
  (BitAlloc.allocContiguous frameCount alignLog2 ba).map fun r ↦
    (cfg.frameIdxToPhysAddr r.1, r.2)

def deallocFrame (cfg : PageFrameConfig) (target : ℕ) (ba : B) : Option B :=
  BitAlloc.dealloc (cfg.physAddrToFrameIdx target) ba

def deallocFrameContiguous (cfg : PageFrameConfig) (target frameCount : ℕ) (ba : B) : Option B :=
  (List.range' (cfg.physAddrToFrameIdx target) frameCount).foldlM
    (fun ba i ↦ BitAlloc.dealloc i ba) ba

end FrameAllocatorWrapper

open FrameAllocatorWrapper

namespace Frame

/-- Keep the answer of the allocator as a frame. -/
def ofAnswer (frameCount : ℕ) (answer : B → Option (ℕ × B)) :
    EStateM Panic (FramePool B) (Option Frame) := do
  let pool ← get
  match answer pool.allocator with
  | some (startPaddr, allocator) =>
    set { pool with allocator, live := ⟨startPaddr, frameCount⟩ :: pool.live }
    pure (some ⟨startPaddr, frameCount⟩)
  | none => pure none

def new (cfg : PageFrameConfig) : EStateM Panic (FramePool B) (Option Frame) :=
  ofAnswer 1 (allocFrame cfg)

def newContiguous (cfg : PageFrameConfig) (frameCount alignLog2 : ℕ) :
    EStateM Panic (FramePool B) (Option Frame) :=
  ofAnswer frameCount (allocFrameContiguous cfg frameCount alignLog2)

/-- The `Drop` of a frame; a bit that is free already fails the assertion of the bitmap. -/
def drop (cfg : PageFrameConfig) (f : Frame) : EStateM Panic (FramePool B) Unit := do
  let pool ← get
  let freed :=
    if f.frameCount = 1 then deallocFrame cfg f.startPaddr pool.allocator
    else deallocFrameContiguous cfg f.startPaddr f.frameCount pool.allocator
  match freed with
  | some allocator => set { pool with allocator, live := pool.live.erase f }
  | none => throw .assertFailed

end Frame

end Maturin
