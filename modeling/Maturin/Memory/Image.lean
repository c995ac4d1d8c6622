import Maturin.Memory.Backing
import Maturin.Memory.Contents
import Maturin.Memory.Spaces

/-!
# What a program finds in a new area

The loader fills the frames of an area before it pushes the area. `Filling f w₀ pma w` says that the
frame vector `pma`, whose frames are all new since `w₀`, holds the bytes `f` in the world `w`, where
a page without a frame counts as zeros. Writing into the vector writes into `f`, and after the push
a program finds `f` at the addresses of the area and what it found before at all others.

A program finds zeros in a page that has no frame yet, unless there is a file behind the page.
-/

open Exec

namespace Maturin

variable {σ φ F : Type}

/-- The byte that a program finds at an address, if no file decides it. -/
def MemorySet.readsAt (ms : MemorySet F) (w : World σ φ) (vaddr : ℕ) : Option UInt8 :=
  (ms.byteAt w vaddr).bind fun x ↦
    x.2.or (if (ms.backingAt vaddr).isSome then none else some 0)

/-- There is an area at the address, and no file behind it. -/
def MemorySet.NoFile (ms : MemorySet F) (x : ℕ) : Prop :=
  ∃ area, ms.areaMap.find x = some area ∧ area.pma.backend = none

/-- The byte at an offset of an area. -/
def PmAreaLazy.byteAt (pma : PmAreaLazy F) (mem : ByteMem) (k : ℕ) : UInt8 :=
  match pma.frames[k / PAGE_SIZE]?.join with
  | some p => mem (p + k % PAGE_SIZE)
  | none => 0

/-! ## Filling a frame vector -/

section filling

variable [FrameAllocator σ] {f : ByteMem} {pma : PmAreaLazy F} {w₀ w w' : World σ φ}

/-- The frames of the vector are new since `w₀`, and hold the bytes `f`. -/
structure Filling (f : ByteMem) (w₀ : World σ φ) (pma : PmAreaLazy F) (w : World σ φ) : Prop where
  untouched : Untouched w₀ w
  fresh : ∀ {j p : ℕ}, pma.frames[j]? = some (some p) →
    PageAligned p ∧ p < 2 ^ 56 ∧ p ∈ w.inUse ∧ p ∉ w₀.inUse
  inj : ∀ {j k p : ℕ}, pma.frames[j]? = some (some p) → pma.frames[k]? = some (some p) → j = k
  byteAt_eq : ∀ k < pma.size, pma.byteAt w.mem k = f k

/-- A vector without frames holds zeros. -/
theorem filling_new (w : World σ φ) (count : ℕ) (backend : Option (BackEndFile F)) :
    Filling (fun _ ↦ 0) w ⟨List.replicate count none, backend⟩ w := by
  have hno : ∀ {j p : ℕ}, (List.replicate count (none : Option ℕ))[j]? ≠ some (some p) := by
    intro j p hj
    rw [List.getElem?_replicate] at hj
    split_ifs at hj
    exact absurd hj (by simp)
  refine ⟨Untouched.refl w, fun hj ↦ absurd hj hno, fun hj ↦ absurd hj hno, fun k _ ↦ ?_⟩
  rw [PmAreaLazy.byteAt]
  cases hk : (List.replicate count (none : Option ℕ))[k / PAGE_SIZE]?.join with
  | none => rfl
  | some p => exact absurd (Option.join_eq_some_iff.mp hk) hno

namespace Filling

theorem owns (h : Filling f w₀ pma w) : pma.Owns w where
  frame hj := ⟨(h.fresh hj).1, (h.fresh hj).2.1, (h.fresh hj).2.2.1⟩
  inj := h.inj

/-- The vector gets new frames, or other bytes. -/
theorem grown {f' : ByteMem} {pma' : PmAreaLazy F} (h : Filling f w₀ pma w)
    (hgrown : Grown pma w pma' w')
    (hf : ∀ k < pma.size, pma'.contents (fun _ ↦ 0) w'.mem k = f' k) :
    Filling f' w₀ pma' w' := by
  refine ⟨⟨fun p hp hal ↦ ?_, fun ho ↦ hgrown.oom (h.untouched.oom ho)⟩, fun {j p} hj ↦ ?_,
    hgrown.owns.inj, fun k hk ↦ hf k (hgrown.size_eq ▸ hk)⟩
  · obtain ⟨huse, hmem⟩ := h.untouched.kept p hp hal
    obtain ⟨huse', hmem'⟩ := hgrown.kept p huse hal fun j hj ↦ (h.fresh hj).2.2.2 hp
    exact ⟨huse', fun x hl hr ↦ (hmem' x hl hr).trans (hmem x hl hr)⟩
  · obtain ⟨hal, hlt, huse⟩ := hgrown.owns.frame hj
    refine ⟨hal, hlt, huse, fun hp ↦ ?_⟩
    rcases hgrown.new hj with hold | hfresh
    · exact (h.fresh hold).2.2.2 hp
    · exact hfresh (h.untouched.kept p hp hal).1

end Filling

variable {off : ℕ} {src : List UInt8}

/-- Writing bytes into a vector that is being filled. -/
theorem Filling.wp_write (h : Filling f w₀ pma w) (hlt : off + src.length < 2 ^ 64) :
    wp (pma.write off src) (fun r w' ↦
      r.2.frames.length = pma.frames.length ∧ r.2.backend = pma.backend ∧
      match r.1 with
      | .ok _ => Filling (ByteMem.writeBytes off src f) w₀ r.2 w'
      | .error err => err = .pmArea_outOfRange ∧ (off ≥ pma.size ∨ off + src.length > pma.size) ∨
          err = .memory_runOutOfMemory ∧ w'.oom = true) noPanic w := by
  by_cases hrange : off ≥ pma.size ∨ off + src.length > pma.size
  · rw [PmAreaLazy.write_outOfRange (wadd_of_lt hlt ▸ hrange)]
    exact ⟨rfl, rfl, Or.inl ⟨rfl, hrange⟩⟩
  · rw [not_or, not_le, not_lt] at hrange
    -- a page without a frame counts as zeros, so that a new frame changes no byte
    refine wp_imp (h.owns.wp_write (z := fun _ ↦ 0) hrange.1 hrange.2 hlt
      fun _ _ _ _ _ ↦ rfl) fun r w' hr ↦ ?_
    obtain ⟨hgrown, -, ⟨hok, hcontents⟩ | ⟨j, -, herr, hoom, -⟩⟩ := hr
    · refine ⟨hgrown.length_eq, hgrown.backend_eq, ?_⟩
      rw [hok]
      refine h.grown hgrown fun k hk ↦ ?_
      rw [hcontents]
      exact ByteMem.writeBytes_congr (h.byteAt_eq k hk)
    · refine ⟨hgrown.length_eq, hgrown.backend_eq, ?_⟩
      rw [herr]
      exact Or.inr ⟨rfl, hoom⟩

end filling

/-! ## The files behind an address space -/

section push

variable [FrameAllocator σ] [FileStore F φ] {e : PtEnv} {g : ℕ → Option Cell} {ms : MemorySet F}
variable {w₀ w : World σ φ} {b : ℕ → Option (BackEndFile F)} {vma : VmArea F}

namespace SpaceOk

/-- Each page has the part of a file behind it that its area gives it. -/
theorem exists_backs (h : SpaceOk e g ms w) : ∃ b, Backs b ms.areaMap.areas := by
  refine ⟨fun n ↦ (ms.areaMap.find (n * PAGE_SIZE)).bind (·.backing n), fun a ha n hn ↦ ?_⟩
  dsimp only
  rw [((areaLaws e 0).find_eq_some_iff h.represents).mpr ⟨a, ha, hn, rfl⟩]
  rfl

theorem backingAt_eq (h : SpaceOk e g ms w) (hb : Backs b ms.areaMap.areas) (x : ℕ) :
    ms.backingAt x = (g (x / PAGE_SIZE)).bind fun _ ↦ b (x / PAGE_SIZE) := by
  rw [MemorySet.backingAt]
  cases hg : g (x / PAGE_SIZE) with
  | none =>
    rw [h.find_eq_none hg]
    rfl
  | some c =>
    obtain ⟨a, ha, hx⟩ := (h.exists_area_iff x).mpr (by rw [hg]; rfl)
    have hn := ((h.coherent.layout.area a ha).mem_range_iff x).mp hx
    rw [((areaLaws e 0).find_eq_some_iff h.represents).mpr ⟨a, ha, hx, rfl⟩]
    exact hb a ha _ hn

/-- Where there is no file, in terms of the cells. -/
theorem noFile_iff (h : SpaceOk e g ms w) (hb : Backs b ms.areaMap.areas) (x : ℕ) :
    ms.NoFile x ↔ (g (x / PAGE_SIZE)).isSome ∧ b (x / PAGE_SIZE) = none := by
  have hback := h.backingAt_eq hb x
  rw [MemorySet.backingAt] at hback
  cases hg : g (x / PAGE_SIZE) with
  | none =>
    rw [MemorySet.NoFile, h.find_eq_none hg]
    simp
  | some c =>
    obtain ⟨a, L, -, hfind, -⟩ := h.exists_find hg
    rw [hfind, hg, Option.bind_some, Option.bind_some] at hback
    rw [MemorySet.NoFile, hfind, ← hback, Option.map_eq_none_iff]
    simp

/-- What a program finds, in terms of the cells. -/
theorem readsAt_eq (h : SpaceOk e g ms w) (hb : Backs b ms.areaMap.areas) (x : ℕ) :
    ms.readsAt w x = (g (x / PAGE_SIZE)).bind fun c ↦
      (c.page.map fun pg ↦ pg.data (x % PAGE_SIZE)).or
        (if (b (x / PAGE_SIZE)).isSome then none else some 0) := by
  rw [MemorySet.readsAt, h.byteAt_eq, h.backingAt_eq hb]
  cases g (x / PAGE_SIZE) <;> rfl

/-- The files behind the pages outside a new area stay the same. -/
theorem wp_push_backs (h : SpaceOk e g ms w) (hb : Backs b ms.areaMap.areas)
    (hwf : vma.Wf e.lim) (hlow : LOWER_LIMIT ≤ vma.start)
    (hfree : ∀ n ∈ touched vma.start vma.end_, ∀ c ∈ g n, c.Free) :
    wp (ms.push vma) (fun r _ ↦
      Backs (PointMap.overwrite vma.toRange.pages vma.backing b) r.2.areaMap.areas)
      anyPanic w := by
  have hup : vma.end_ ≤ UPPER_LIMIT := by
    have hle := hwf.le
    have hlim := h.coherent.lim_le
    simp only [UPPER_LIMIT]
    omega
  have hrep : (fileLaws e b g w.files 0).Represents (onPages g) ms.areaMap (ms.pt, w) :=
    ⟨h.keyed, ⟨g, rfl, h.coherent, hb, Released.refl b g w.files⟩, h.args_eq⟩
  rw [MemorySet.push, wp_bind, wp_withPt, wp_bind]
  refine (fileLaws e b g w.files 0).wp_mmapFixed hrep hwf.lt hlow hup (fun a ha ↦ ?_)
    fun m t hm ↦ ?_
  · obtain ⟨hs, he, hf⟩ := Cuttable.of_aligned (a := a) hwf.aligned hwf.aligned_end hfree
    exact ⟨hs, he, hf⟩
  · rw [wp_bind]
    refine wp_imp (wp_true _) fun _ s _ ↦ ?_
    obtain ⟨g₁, hg₁, hcoh, hbacks, -⟩ := hm.good
    refine fun a ha n hn ↦ ?_
    obtain ⟨k, hk⟩ := OrdMap.mem_values.mp ha
    rcases OrdMap.mem_insert.mp hk with hk | ⟨hk, -⟩
    · rw [Prod.mk.injEq] at hk
      rw [hk.2] at hn ⊢
      exact (PointMap.overwrite_of_mem hn).symm
    · have ha := OrdMap.mem_values.mpr ⟨k, hk⟩
      -- what is left of the old areas has no page of the new one
      have hout : n ∉ vma.toRange.pages := by
        intro hin
        obtain ⟨p, hp, -⟩ := (hcoh.layout.area a ha).ok
        have hpages := hn
        rw [(hcoh.layout.area a ha).pages_eq hp] at hpages
        obtain ⟨c, hc, -⟩ := hp.cell (n - p) (by have := hpages.1; have := hpages.2; omega)
        rw [Nat.add_sub_cancel' hpages.1, ← onPages_page g₁ n, ← hg₁,
          PointMap.erase_of_mem (I := Set.Ico vma.start vma.end_) hin] at hc
        exact absurd hc (by simp)
      rw [PointMap.overwrite_of_notMem hout]
      exact hbacks a ha n hn

end SpaceOk

/-! ## Pushing a filled area -/

omit [FileStore F φ] in
/-- The frames of a filled vector may go into the address space. -/
theorem Filling.newFrames {f : ByteMem} (hfill : Filling f w₀ vma.pma w) (h : SpaceOk e g ms w₀)
    (hflags : vma.flags ≠ 0) : NewFrames e g vma (ms.pt, w) := by
  obtain ⟨T, hb, -⟩ := h.coherent.backed
  refine ⟨fun hi ↦ ?_, hfill.inj, fun _ ↦ hflags⟩
  obtain ⟨hal, hlt, huse, hnot⟩ := hfill.fresh hi
  exact ⟨hal, hlt, huse, fun hheld ↦ hnot (hb.of_held hheld).1⟩

/-- The page of an address in an area, and its place in the frame vector. -/
theorem VmArea.Wf.page_of_mem {lim x : ℕ} (h : vma.Wf lim) (hx : x ∈ Set.Ico vma.start vma.end_) :
    x / PAGE_SIZE ∈ vma.toRange.pages ∧ x - vma.start < vma.pma.size ∧
      (x - vma.start) / PAGE_SIZE = x / PAGE_SIZE - vma.start / PAGE_SIZE ∧
      (x - vma.start) % PAGE_SIZE = x % PAGE_SIZE := by
  obtain ⟨hl, hr⟩ := hx
  have hs := h.aligned
  have he := h.aligned_end
  have hsize := h.size_eq
  simp only [PageAligned, PAGE_SIZE] at hs he
  refine ⟨⟨?_, ?_⟩, ?_, ?_, ?_⟩
  · simp only [VmArea.toRange, PAGE_SIZE]
    omega
  · simp only [VmArea.toRange, PAGE_SIZE]
    omega
  · omega
  · simp only [PAGE_SIZE]
    omega
  · simp only [PAGE_SIZE]
    omega

/-- A push that has to take a frame away that was not entered does not return. -/
theorem SpaceOk.wp_push_of_not_free (h : SpaceOk e g ms w) (hwf : vma.Wf e.lim)
    (hlow : LOWER_LIMIT ≤ vma.start)
    (hnot : ¬∀ n ∈ touched vma.start vma.end_, ∀ c ∈ g n, c.Free) :
    wp (ms.push vma) (fun _ _ ↦ False) anyPanic w := by
  have hup : vma.end_ ≤ UPPER_LIMIT := by
    have hle := hwf.le
    have hlim := h.coherent.lim_le
    simp only [UPPER_LIMIT]
    omega
  rw [MemorySet.push, wp_bind, wp_withPt, wp_bind]
  refine wp_imp ((areaLaws_strict e 0).wp_mmapFixed h.represents hwf.lt hlow hup hwf.aligned
    hwf.aligned_end (fun hall ↦ hnot fun n hn c hc ↦ ?_) _) fun _ _ h ↦ h.elim
  obtain ⟨x, hx, rfl⟩ := hn
  exact hall x hx c hc

/-- **A filled area is found.** After the push a program finds the bytes of the area at its
addresses, and what it found before at the others. -/
theorem SpaceInv.wp_push_readsAt {f : ByteMem} {D : Set ℕ} (h : SpaceInv e D ms w₀)
    (hfill : Filling f w₀ vma.pma w) (hwf : vma.Wf e.lim) (hflags : vma.flags ≠ 0)
    (hback : vma.pma.backend = none) :
    wp (ms.push vma) (fun r w' ↦ r.1 = .ok () ∧ SpaceInv e D r.2 w' ∧
      (∀ x, r.2.readsAt w' x =
        if vma.start ≤ x ∧ x < vma.end_ then some (f (x - vma.start)) else ms.readsAt w₀ x) ∧
      ∀ x, r.2.NoFile x ↔ vma.start ≤ x ∧ x < vma.end_ ∨ ms.NoFile x)
      (fun p w' ↦ vma.start < LOWER_LIMIT ∨
        p = .unwrap .pushMapArea .pageTable_frameAllocFailed ∧ w'.oom = true ∨
        ¬Disjoint (touched vma.start vma.end_) D) w := by
  obtain ⟨g, hok₀, hD⟩ := h
  have hok := hok₀.of_untouched hfill.untouched
  obtain ⟨b, hb⟩ := hok₀.exists_backs
  by_cases hlow : LOWER_LIMIT ≤ vma.start
  swap
  · rw [MemorySet.push, wp_bind, wp_withPt, wp_bind, RangeActionMap.mmapFixed,
      if_pos (Or.inl (not_le.mp hlow))]
    exact Or.inl (not_le.mp hlow)
  by_cases hfree : ∀ n ∈ touched vma.start vma.end_, ∀ c ∈ g n, c.Free
  swap
  · have hdisj : ¬Disjoint (touched vma.start vma.end_) D := fun hdisj ↦
      hfree (SpaceInv.free_of_disjoint hD hdisj)
    exact wp_mono (hok.wp_push_of_not_free hwf hlow hfree) (fun _ _ hr ↦ hr.elim)
      fun _ _ _ ↦ Or.inr (Or.inr hdisj)
  refine wp_mono (wp_and (hok.wp_push hwf hlow (hfill.newFrames hok₀ hflags) hfree)
    (hok.wp_push_backs hb hwf hlow hfree)) (fun r w' hr ↦ ?_) fun p w' hp ↦ Or.inr (Or.inl hp.1)
  obtain ⟨⟨hres, hok'⟩, hb'⟩ := hr
  have hpage : ∀ x, vma.start ≤ x ∧ x < vma.end_ ↔ x / PAGE_SIZE ∈ vma.toRange.pages := by
    intro x
    refine ⟨fun hx ↦ (hwf.page_of_mem hx).1, ?_⟩
    rintro ⟨hl, hr⟩
    have hs := hwf.aligned
    have he := hwf.aligned_end
    simp only [VmArea.toRange, PageAligned, PAGE_SIZE] at hl hr hs he
    omega
  refine ⟨hres, ⟨_, hok', SpaceInv.free_overwrite hD fun n c hc pg hpg ↦ ?_⟩, fun x ↦ ?_,
    fun x ↦ ?_⟩
  · exact (newCells_page (n := n) (by rw [hc]; exact hpg)).2.2
  · rw [hok'.readsAt_eq hb']
    by_cases hx : vma.start ≤ x ∧ x < vma.end_
    · obtain ⟨hin, hsize, hidx, hmod⟩ := hwf.page_of_mem hx
      have hlt : x % PAGE_SIZE < PAGE_SIZE := Nat.mod_lt _ (by norm_num)
      rw [if_pos hx, PointMap.overwrite_of_mem hin, PointMap.overwrite_of_mem hin, newCells,
        Option.bind_some, VmArea.backing, hback, ← hfill.byteAt_eq _ hsize, PmAreaLazy.byteAt,
        hidx, hmod]
      cases vma.pma.frames[x / PAGE_SIZE - vma.start / PAGE_SIZE]?.join with
      | none => rfl
      | some p =>
        exact congrArg some (if_pos hlt)
    · have hout := mt (hpage x).mpr hx
      rw [if_neg hx, PointMap.overwrite_of_notMem hout, PointMap.overwrite_of_notMem hout,
        ← hok.readsAt_eq hb, MemorySet.readsAt, MemorySet.readsAt]
      congr 1
      refine MemorySet.byteAt_congr (fun p hp ↦ ?_) x
      have hheld : p ∈ held e g ms.pt := by
        rw [hok₀.held_eq]
        exact Or.inl hp
      obtain ⟨T, hbk, -⟩ := hok₀.coherent.backed
      exact hfill.untouched.kept p (hbk.of_held hheld).1 (hbk.of_held hheld).2
  · rw [hok'.noFile_iff hb', hok.noFile_iff hb, hpage x]
    by_cases hx : x / PAGE_SIZE ∈ vma.toRange.pages
    · rw [PointMap.overwrite_of_mem hx, PointMap.overwrite_of_mem hx, VmArea.backing, hback]
      exact iff_of_true ⟨rfl, rfl⟩ (Or.inl hx)
    · rw [PointMap.overwrite_of_notMem hx, PointMap.overwrite_of_notMem hx]
      exact (or_iff_right hx).symm

end push

end Maturin
