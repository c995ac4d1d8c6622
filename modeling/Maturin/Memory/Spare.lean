import Maturin.Memory.Bitmap
import Maturin.Memory.Space
import Mathlib.Data.List.Perm.Subperm

/-!
# How many frames a call takes

On the bitmap allocator a call that takes at most `k` frames does not run out as long as `k` bits
are free. `Takes f k x` says that the program `x` takes at most `k` frames, also if it panics, where
`f` picks the machine out of the state that `x` works on.
-/

open Exec

namespace Maturin

variable {φ F τ α β : Type}

/-- At least `n` bits are free, and no frame was refused so far. -/
def Spare (n : ℕ) (w : World Bitmap φ) : Prop :=
  w.alloc.taken.length + n ≤ 2 ^ 24 ∧ w.oom = false

theorem Spare.mono {m n : ℕ} {w : World Bitmap φ} (h : Spare n w) (hle : m ≤ n) : Spare m w :=
  ⟨by have := h.1; omega, h.2⟩

/-- The program takes at most `k` frames. -/
def Takes (f : τ → World Bitmap φ) (k : ℕ) (x : EStateM Panic τ α) : Prop :=
  ∀ n s, Spare (k + n) (f s) → wp x (fun _ t ↦ Spare n (f t)) (fun _ t ↦ Spare n (f t)) s

namespace Takes

variable {f : τ → World Bitmap φ} {j k m : ℕ}

/-- What leaves the allocator alone takes nothing. -/
theorem of_maintains {x : EStateM Panic τ α} (hx : ∀ n, Maintains (fun s ↦ Spare n (f s)) x) :
    Takes f 0 x := fun n s hs ↦ hx n s (by rwa [Nat.zero_add] at hs)

theorem pure (a : α) : Takes f 0 (Pure.pure a : EStateM Panic τ α) :=
  of_maintains fun _ ↦ Maintains.pure a

theorem mono {x : EStateM Panic τ α} (hx : Takes f j x) (hjk : j ≤ k) : Takes f k x :=
  fun n s hs ↦ hx n s (hs.mono (by omega))

theorem bind {x : EStateM Panic τ β} {g : β → EStateM Panic τ α} (hx : Takes f j x)
    (hg : ∀ b, Takes f k (g b)) (hm : j + k ≤ m) : Takes f m (x >>= g) := by
  intro n s hs
  rw [wp_bind]
  exact wp_mono (hx (k + n) s (hs.mono (by omega))) (fun b t ht ↦ hg b n t ht)
    fun _ t ht ↦ ht.mono (by omega)

theorem run_lift {Err : Type} {x : EStateM Panic τ α} (hx : Takes f k x) :
    Takes f k (ExceptT.lift x : ExceptT Err (EStateM Panic τ) α).run := by
  intro n s hs
  change wp (Except.ok <$> x) _ _ s
  rw [wp_map]
  exact hx n s hs

theorem run_bind {Err : Type} {x : ExceptT Err (EStateM Panic τ) β}
    {g : β → ExceptT Err (EStateM Panic τ) α} (hx : Takes f j x.run)
    (hg : ∀ b, Takes f k (g b).run) (hm : j + k ≤ m) : Takes f m (x >>= g).run := by
  refine hx.bind (fun r ↦ ?_) hm
  cases r with
  | ok b => exact hg b
  | error e => exact (pure (Except.error e)).mono (Nat.zero_le _)

theorem run_forM {Err : Type} {l : List β} {g : β → ExceptT Err (EStateM Panic τ) PUnit}
    (hg : ∀ b, Takes f k (g b).run) : Takes f (l.length * k) (l.forM g).run := by
  induction l with
  | nil => exact (pure _).mono (Nat.zero_le _)
  | cons b l ih =>
    rw [List.length_cons, Nat.add_mul, Nat.one_mul]
    exact run_bind (hg b) (fun _ ↦ ih) (Nat.add_comm _ _).le

theorem onSnd {x : EStateM Panic (World Bitmap φ) α} (hx : Takes id k x) :
    Takes (fun s : β × World Bitmap φ ↦ s.2) k (Exec.onSnd x) := by
  intro n s hs
  rw [wp_onSnd]
  exact hx n s.2 hs

end Takes

/-! ## Allocation -/

namespace Bitmap

/-- The bits that the search passes over are taken. -/
theorem mem_of_firstFree_eq_none {taken : List ℕ} {fuel i : ℕ} (h : firstFree taken fuel i = none)
    {j : ℕ} (hl : i ≤ j) (hr : j < i + fuel) : j ∈ taken := by
  induction fuel generalizing i with
  | zero => omega
  | succ fuel ih =>
    rw [firstFree] at h
    split_ifs at h with hi
    by_cases hij : j = i
    · exact hij ▸ hi
    · exact ih h (by omega) (by omega)

theorem firstFree_lt {taken : List ℕ} {fuel i j : ℕ} (h : firstFree taken fuel i = some j) :
    j < i + fuel := by
  induction fuel generalizing i with
  | zero => cases h
  | succ fuel ih =>
    rw [firstFree] at h
    split_ifs at h with hi
    · have := ih h
      omega
    · rw [Option.some.injEq] at h
      omega

/-- A bitmap with a free bit hands one out. -/
theorem exists_alloc {s : Bitmap} (h : s.taken.length < 2 ^ 24) :
    ∃ p t, alloc s = some (p, t) ∧ t.taken.length = s.taken.length + 1 := by
  rw [alloc]
  cases hfree : firstFree s.taken (s.taken.length + 1) 0 with
  | none =>
    -- more bits than are taken cannot all be taken
    have hsub : List.range (s.taken.length + 1) ⊆ s.taken := fun j hj ↦
      mem_of_firstFree_eq_none hfree (Nat.zero_le j) (by rw [List.mem_range] at hj; omega)
    have hle := (List.subperm_of_subset List.nodup_range hsub).length_le
    rw [List.length_range] at hle
    omega
  | some i =>
    have hi := firstFree_lt hfree
    dsimp only
    rw [if_pos (by omega)]
    exact ⟨_, _, rfl, List.length_cons⟩

end Bitmap

theorem takes_frameNew : Takes id 1 (frameNew : EStateM Panic (World Bitmap φ) _) := by
  intro n w hw
  have hle : w.alloc.taken.length + (1 + n) ≤ 2 ^ 24 := hw.1
  obtain ⟨p, t, halloc, hlen⟩ := Bitmap.exists_alloc (s := w.alloc) (by omega)
  have halloc' : FrameAllocator.alloc w.alloc = some (p, t) := halloc
  rw [frameNew, wp_bind, wp_get, halloc']
  refine ⟨?_, hw.2⟩
  change t.taken.length + n ≤ 2 ^ 24
  omega

/-! ## Tables and areas -/

section tables

/-- The machine beside a page table. -/
abbrev machine (s : PageTable × World Bitmap φ) : World Bitmap φ := s.2

theorem takes_readPte (pte : ℕ) : Takes (machine (φ := φ)) 0 (readPte pte) :=
  .of_maintains fun _ ↦ Maintains.get.bind fun _ ↦ Maintains.pure _

theorem takes_writePte (pte bits : ℕ) : Takes (machine (φ := φ)) 0 (writePte pte bits) :=
  .of_maintains fun _ ↦ Maintains.modify fun _ hs ↦ hs

theorem takes_frameZero (paddr : ℕ) :
    Takes id 0 (frameZero paddr : EStateM Panic (World Bitmap φ) Unit) :=
  .of_maintains fun _ ↦ Maintains.modify fun _ hs ↦ hs

namespace PageTable

theorem takes_allocAndSet (pte : ℕ) : Takes (machine (φ := φ)) 1 (allocAndSet pte) := by
  refine takes_frameNew.onSnd.bind (k := 0) (fun r ↦ ?_) le_rfl
  cases r with
  | none => exact Takes.pure _
  | some frame =>
    refine (takes_frameZero frame).onSnd.bind (k := 0) (fun _ ↦ ?_) le_rfl
    exact (takes_writePte _ _).bind (fun _ ↦ Takes.pure _) le_rfl

theorem takes_getAddrCreate (pte : ℕ) : Takes (machine (φ := φ)) 1 (getAddrCreate pte) := by
  refine (takes_readPte pte).bind (k := 1) (fun bits ↦ ?_) le_rfl
  split_ifs
  · exact (Takes.pure _).mono (Nat.zero_le _)
  · refine (takes_allocAndSet pte).bind (k := 0) (fun r ↦ ?_) le_rfl
    cases r with
    | none => exact Takes.pure _
    | some frame =>
      refine Takes.bind (j := 0) (k := 0) (.of_maintains fun _ ↦ ?_) (fun _ ↦ ?_) le_rfl
      · exact Maintains.modify fun _ hs ↦ hs
      · exact (takes_readPte pte).bind (fun _ ↦ Takes.pure _) le_rfl

theorem takes_findPteCreate (vaddr : ℕ) : Takes (machine (φ := φ)) 2 (findPteCreate vaddr) := by
  refine Takes.bind (j := 0) (k := 2) (.of_maintains fun _ ↦ Maintains.get) (fun s ↦ ?_) le_rfl
  refine (takes_getAddrCreate _).bind (k := 1) (fun r ↦ ?_) le_rfl
  cases r with
  | none => exact (Takes.pure _).mono (Nat.zero_le _)
  | some paddr =>
    refine (takes_getAddrCreate _).bind (k := 0) (fun r ↦ ?_) le_rfl
    cases r with
    | none => exact Takes.pure _
    | some paddr => exact Takes.pure _

/-- A page takes at most two tables. -/
theorem takes_map (vaddr paddr : ℕ) (flags : PTEFlags) :
    Takes (machine (φ := φ)) 2 (map vaddr paddr flags).run := by
  refine (takes_findPteCreate vaddr).run_lift.run_bind (k := 0) (fun r ↦ ?_) le_rfl
  cases r with
  | none => exact Takes.pure _
  | some pte =>
    refine (takes_readPte pte).run_lift.run_bind (k := 0) (fun bits ↦ ?_) le_rfl
    split_ifs
    · exact Takes.pure _
    · exact (takes_writePte _ _).run_lift
    · exact Takes.pure _

end PageTable

variable [FileStore F φ]

theorem takes_mapArea (area : VmArea F) :
    Takes (machine (φ := φ)) ((pagesIn area.start area.end_).length * 2) area.mapArea.run := by
  refine Takes.run_forM fun vaddr ↦ ?_
  have hget : Takes id 0
      (area.pma.getFrame ((vaddr - area.start) / PAGE_SIZE) false :
        EStateM Panic (World Bitmap φ) _) := by
    refine .of_maintains fun _ ↦ ?_
    rw [PmAreaLazy.getFrame]
    cases area.pma.frames[(vaddr - area.start) / PAGE_SIZE]? with
    | none => exact Maintains.throw _
    | some frame =>
      cases frame with
      | none => exact Maintains.pure _
      | some paddr => exact Maintains.pure _
  refine hget.onSnd.run_lift.run_bind (k := 2) (fun r ↦ ?_) le_rfl
  obtain ⟨r, pma⟩ := r
  cases r with
  | error err => exact (Takes.pure _).mono (Nat.zero_le _)
  | ok frame =>
    cases frame with
    | none => exact PageTable.takes_map vaddr 0 0
    | some paddr => exact PageTable.takes_map vaddr paddr _

/-- An area that meets no other takes at most two tables for each of its pages. -/
theorem takes_push {ms : MemorySet F} {vma : VmArea F}
    (h : ∀ a ∈ ms.areaMap.areas, a.isOverlapWith vma.start vma.end_ = false) :
    Takes id ((pagesIn vma.start vma.end_).length * 2)
      (ms.push vma : EStateM Panic (World Bitmap φ) _) := by
  intro n w hw
  rw [MemorySet.push, wp_bind, wp_withPt, wp_bind, RangeActionMap.mmapFixed]
  have hw' : Spare n w := hw.mono (Nat.le_add_left _ _)
  split_ifs
  · exact hw'
  · rw [wp_bind]
    refine wp_imp (SegmentLaws.wp_unmap_of_forall_not h) fun m t hm ↦ ?_
    obtain ⟨rfl, rfl⟩ := hm
    rw [wp_bind, wp_bind, wp_unwrap]
    refine wp_mono (takes_mapArea vma n (ms.pt, w) hw) (fun r s hs ↦ ?_) fun _ _ hs ↦ hs
    cases r with
    | error err => exact hs
    | ok u => exact hs

omit [FileStore F φ] in
/-- The loop over the pieces of a range takes at most one frame a round. -/
theorem takes_forEachLoop {op : ℕ → ℕ → ℕ → EStateM Panic (World Bitmap φ) Unit}
    (hop : ∀ i p n, Takes id 0 (op i p n)) (rounds : ℕ) (pma : PmAreaLazy F)
    (start len processed : ℕ) :
    Takes id rounds (PmAreaLazy.forEachLoop op rounds pma start len processed) := by
  induction rounds generalizing pma start len processed with
  | zero => exact Takes.pure _
  | succ rounds ih =>
    rw [PmAreaLazy.forEachLoop]
    split_ifs
    · dsimp only
      cases pma.frames[alignDown start / PAGE_SIZE]? with
      | none =>
        intro n w hw
        exact hw.mono (Nat.le_add_left _ _)
      | some frame =>
        cases frame with
        | some p => exact (hop _ _ _).bind (fun _ ↦ ih _ _ _ _) (by omega)
        | none =>
          refine takes_frameNew.bind (k := rounds) (fun r ↦ ?_) (Nat.add_comm _ _).le
          cases r with
          | none => exact (Takes.pure _).mono (Nat.zero_le _)
          | some p =>
            refine (takes_frameZero p).bind (k := rounds) (fun _ ↦ ?_) (Nat.zero_add _).le
            exact (hop _ _ _).bind (fun _ ↦ ih _ _ _ _) (Nat.zero_add _).le
    · exact (Takes.pure _).mono (Nat.zero_le _)

omit [FileStore F φ] in
theorem takes_write (pma : PmAreaLazy F) (offset : ℕ) (src : List UInt8) :
    Takes id src.length (pma.write offset src : EStateM Panic (World Bitmap φ) _) := by
  rw [PmAreaLazy.write, PmAreaLazy.forEachFrame]
  split_ifs
  · exact (Takes.pure _).mono (Nat.zero_le _)
  · refine takes_forEachLoop (fun _ _ _ ↦ .of_maintains fun _ ↦ ?_) _ _ _ _ _
    exact Maintains.modify fun _ hs ↦ hs

omit [FileStore F φ] in
theorem takes_drop (pma : PmAreaLazy F) :
    Takes id 0 (pma.drop : EStateM Panic (World Bitmap φ) Unit) := by
  refine .of_maintains fun n w hw ↦ wp_forM (fun w ↦ Spare n w) (fun frame w hw ↦ ?_) hw
  cases frame with
  | none => exact hw
  | some p =>
    have hle : (FrameAllocator.dealloc p w.alloc).taken.length ≤ w.alloc.taken.length :=
      List.length_filter_le _ _
    exact ⟨(Nat.add_le_add_right hle n).trans hw.1, hw.2⟩

end tables

end Maturin
