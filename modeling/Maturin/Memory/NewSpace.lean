import Maturin.Memory.PageMap
import Maturin.Memory.Space

/-!
# The address space of a new process

A new address space has a page table of its own whose last two root slots are those of the kernel.
Everything reached through them is the kernel's, so from then on the page table owns 510 root slots
and leaves the entries of the others alone.
-/

open Exec

namespace Maturin

variable {σ φ F : Type} [FrameAllocator σ] {e : PtEnv} {w : World σ φ} {kernelRoot : ℕ}

/-- What the page table of a process leaves alone: the kernel's root slots and the frames
`foreign`. -/
def userEnv (kernelRoot : ℕ) (foreign : Set ℕ) (w : World σ φ) : PtEnv where
  lim := 510
  shared := entryAt w.mem kernelRoot
  foreign
  mem := w.mem
  oom := w.oom

namespace PtInv

variable {tr : ℕ → Option (ℕ × PTEFlags)} {tabs : Set ℕ} {s : PageTable × World σ φ}

/-- A foreign frame that is a table keeps its entries. -/
theorem entryAt_foreign (h : PtInv e tr tabs s) (hroot : kernelRoot ∈ e.foreign) {i : ℕ}
    (hi : i < 512) : entryAt s.2.mem kernelRoot i = entryAt e.mem kernelRoot i :=
  entryAt_congr hi (h.foreign kernelRoot hroot).2.2.2

/-- Copying a slot that belongs to others. -/
theorem wp_copySlot (h : PtInv e tr tabs s) (hroot : kernelRoot ∈ e.foreign) {i : ℕ}
    (hle : e.lim ≤ i) (hi : i < 512) :
    wp (PageTable.copySlot kernelRoot i) (fun _ s' ↦
      PtInv { e with shared := Function.update e.shared i (entryAt e.mem kernelRoot i) } tr tabs s')
      noPanic s := by
  rw [PageTable.copySlot, wp_bind, wp_get, wp_bind, wp_readPte, wp_writePte,
    ← h.entryAt_foreign hroot hi]
  exact h.store_shared hle hi (ByteMem.load_lt 8 _ _)

/-- `map_kernel_regions` takes over the last two root slots of the kernel. -/
theorem wp_mapKernelRegions (h : PtInv e tr tabs s) (hlim : e.lim = 512)
    (hroot : kernelRoot ∈ e.foreign) :
    wp (PageTable.mapKernelRegions kernelRoot) (fun _ s' ↦
      PtInv { e with lim := 510, shared := entryAt e.mem kernelRoot } tr tabs s') noPanic s := by
  change wp (PageTable.copySlot kernelRoot 510 >>= fun _ ↦
    PageTable.copySlot kernelRoot 511 >>= fun _ ↦ pure ()) _ _ _
  rw [wp_bind]
  refine wp_imp ((h.shrink (k := 510) (by omega)).wp_copySlot hroot (i := 510) le_rfl (by norm_num))
    fun _ s₁ h₁ ↦ ?_
  rw [wp_bind]
  refine wp_imp (h₁.wp_copySlot hroot (i := 511) (by norm_num) (by norm_num)) fun _ s₂ h₂ ↦ ?_
  refine ⟨h₂.lim_le, h₂.tables, h₂.page, h₂.translate_eq, h₂.tabs, fun i hle hi ↦ ?_, h₂.foreign,
    h₂.oom⟩
  rw [h₂.shared i hle hi]
  dsimp only at hle ⊢
  by_cases h511 : i = 511
  · rw [h511, Function.update_self]
  · obtain rfl : i = 510 := by omega
    rw [Function.update_of_ne (by norm_num), Function.update_self]

end PtInv

/-- The address space of a new process has no pages, and its tables are new. -/
theorem wp_newMemorySetForTask {foreign : Set ℕ}
    (hforeign : ∀ p ∈ foreign, PageAligned p ∧ p ∈ w.inUse) (hroot : kernelRoot ∈ foreign) :
    wp (MemorySet.newMemorySetForTask kernelRoot) (fun (ms : MemorySet F) w' ↦
      SpaceOk (userEnv kernelRoot foreign w) (fun _ ↦ none) ms w')
      (fun p w' ↦ p = .unwrap .newUser .pageTable_frameAllocFailed ∧ w'.oom = true) w := by
  rw [MemorySet.newMemorySetForTask, wp_bind, MemorySet.newUser, wp_bind, wp_unwrap]
  refine wpe_mono (PtInv.wpe_new (fun _ ↦ 0) hforeign) (fun r w₁ hr ↦ ?_) fun _ _ h ↦ h.elim
  rcases r with err | pt
  · obtain ⟨rfl, rfl⟩ := hr
    exact ⟨rfl, rfl⟩
  · dsimp only
    rw [wp_pure, wp_bind, wp_withFst]
    refine wp_mono (hr.1.wp_mapKernelRegions rfl hroot) (fun _ s hs ↦ ?_) fun _ _ h ↦ h.elim
    refine ⟨fun x hx ↦ absurd hx (OrdMap.notMem_empty x), ⟨⟨fun a ha ↦ ?_, List.Pairwise.nil,
      fun n hn ↦ absurd hn (by simp)⟩, ∅, ⟨fun hn ↦ absurd hn (by simp), hs, fun hn ↦ ?_,
      fun hn ↦ ?_⟩, fun n hn ↦ absurd hn (by simp)⟩, rfl, rfl⟩
    · exact absurd ha List.not_mem_nil
    · exact absurd hn (by simp [pageAt])
    · exact absurd hn (by simp [pageAt])

end Maturin
