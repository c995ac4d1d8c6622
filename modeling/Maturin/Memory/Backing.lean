import Maturin.Memory.Fork

/-!
# The files behind an address space

Every page of an area with a file behind it stands for the part of the file that starts at a fixed
offset, whatever cuts made the area. `Backs b L` says so of the areas `L`: the part behind page `n`
is `b n`. Cutting areas keeps it, and removing one releases its pages into the parts behind them.

`Released b g₀ g s t` accounts for the files while pages disappear: from the cells `g₀` and the
state `s` of the files every page that has gone since was released exactly once, which led to `t`.
-/

open Exec

namespace Maturin

variable {σ φ F : Type}

/-! ## Which part of a file is behind a page -/

/-- The part of a file behind page `n` of the area. -/
def VmArea.backing (area : VmArea F) (n : ℕ) : Option (BackEndFile F) :=
  area.pma.backend.map (·.split (n * PAGE_SIZE - area.start))

/-- The parts of files behind the pages of the areas are `b`. -/
def Backs (b : ℕ → Option (BackEndFile F)) (L : List (RangeArea (VmArea F))) : Prop :=
  ∀ a ∈ L, ∀ n ∈ a.pages, a.segment.backing n = b n

namespace Backs

variable {b : ℕ → Option (BackEndFile F)} {L L' : List (RangeArea (VmArea F))}
variable {a : RangeArea (VmArea F)} {m : RangeActionMap (VmArea F)}

theorem perm (hL : L.Perm L') (h : Backs b L) : Backs b L' := fun a ha ↦
  h a (hL.mem_iff.mpr ha)

theorem tail (h : Backs b (a :: L)) : Backs b L := fun b hb ↦ h b (List.mem_cons_of_mem a hb)

theorem cons (h : Backs b L) (ha : ∀ n ∈ a.pages, a.segment.backing n = b n) :
    Backs b (a :: L) := by
  intro c hc
  rcases List.mem_cons.mp hc with rfl | hc
  · exact ha
  · exact h c hc

/-- Only the pages of the areas matter. -/
theorem congr {b' : ℕ → Option (BackEndFile F)} (h : Backs b L)
    (hb : ∀ a ∈ L, ∀ n ∈ a.pages, b' n = b n) : Backs b' L := fun a ha n hn ↦
  (h a ha n hn).trans (hb a ha n hn).symm

/-- Changing an area in place keeps the files behind it. -/
theorem setSegment (h : Backs b m.areas) {pos : ℕ} {area seg : VmArea F}
    (hfind : m.find pos = some area) (hstart : seg.start = area.start)
    (hbackend : seg.pma.backend = area.pma.backend) : Backs b (m.setSegment pos seg).areas := by
  have hbacking : seg.backing = area.backing := by
    funext n
    rw [VmArea.backing, VmArea.backing, hstart, hbackend]
  rw [RangeActionMap.find] at hfind
  rw [RangeActionMap.setSegment]
  cases hle : m.segments.findLE pos with
  | none => exact h
  | some x =>
    rw [hle] at hfind
    dsimp only at hfind
    split_ifs at hfind with hin
    have hx : x.2 ∈ m.areas := OrdMap.mem_values.mpr ⟨x.1, (OrdMap.findLE_eq_some.mp hle).1⟩
    intro a ha n hn
    obtain ⟨k, hk⟩ := OrdMap.mem_values.mp ha
    rcases OrdMap.mem_insert.mp hk with hk | ⟨hk, -⟩
    · rw [Prod.mk.injEq] at hk
      rw [hk.2] at hn ⊢
      rw [← h x.2 hx n hn, hbacking, Option.some.inj hfind]
    · exact h a (OrdMap.mem_values.mpr ⟨k, hk⟩) n hn

end Backs

/-! ## Accounting for released pages -/

/-- Every page of `g₀` that is not in `g` was released once, and the others are as they were. -/
structure Released [FileStore F φ] (b : ℕ → Option (BackEndFile F)) (g₀ g : ℕ → Option Cell)
    (s t : φ) : Prop where
  page : ∀ n, (g n).isSome → pageAt g n = pageAt g₀ n
  run : ∃ ns : List ℕ, ns.Nodup ∧ (∀ n, n ∈ ns ↔ (pageAt g₀ n).isSome ∧ g n = none) ∧
    FileRun (ns.flatMap fun n ↦ releaseOps (pageAt g₀ n) (b n)) s t

theorem flatMap_filter {α β : Type*} {f : α → List β} {P : α → Bool} {l : List α}
    (h : ∀ x ∈ l, P x = false → f x = []) : (l.filter P).flatMap f = l.flatMap f := by
  induction l with
  | nil => rfl
  | cons x l ih =>
    have ih := ih fun y hy ↦ h y (List.mem_cons_of_mem x hy)
    rw [List.filter_cons, List.flatMap_cons]
    split_ifs with hx
    · rw [List.flatMap_cons, ih]
    · rw [h x List.mem_cons_self ((Bool.not_eq_true _).mp hx), List.nil_append, ih]

namespace Released

variable [FileStore F φ] {b : ℕ → Option (BackEndFile F)} {g₀ g : ℕ → Option Cell} {s t u : φ}

theorem refl (b : ℕ → Option (BackEndFile F)) (g : ℕ → Option Cell) (s : φ) :
    Released b g g s s where
  page _ _ := rfl
  run := by
    refine ⟨[], List.nodup_nil, fun n ↦ ⟨fun h ↦ absurd h List.not_mem_nil, fun h ↦ ?_⟩, .nil s⟩
    rw [pageAt, h.2] at h
    exact absurd h.1 (by simp)

/-- Only which pages have gone matters. -/
theorem congr {g' : ℕ → Option Cell} (h : Released b g₀ g s t)
    (hnone : ∀ n, g' n = none ↔ g n = none) (hpage : ∀ n, pageAt g' n = pageAt g n) :
    Released b g₀ g' s t where
  page n hn := by
    rw [hpage]
    refine h.page n ?_
    rw [Option.isSome_iff_ne_none] at hn ⊢
    rwa [ne_eq, ← hnone]
  run := by
    obtain ⟨ns, hnodup, hmem, hrun⟩ := h.run
    exact ⟨ns, hnodup, fun n ↦ by rw [hmem, hnone], hrun⟩

/-- The pages of an area are released one after another. -/
theorem erase (h : Released b g₀ g s t) {lim p : ℕ} {area : VmArea F} (hp : AreaOk lim g p area)
    (hb : ∀ n ∈ Set.Ico p (p + area.pma.frames.length), area.backing n = b n)
    (hrun : FileRun (area.releaseOps g p 0 area.pma.frames.length) t u) :
    Released b g₀ (PointMap.erase (Set.Ico p (p + area.pma.frames.length)) g) s u := by
  obtain ⟨ns, hnodup, hmem, hbefore⟩ := h.run
  have hsome : ∀ n ∈ Set.Ico p (p + area.pma.frames.length), (g n).isSome := by
    intro n hn
    obtain ⟨c, hc, -⟩ := hp.cell (n - p) (by have := hn.1; have := hn.2; omega)
    rw [Nat.add_sub_cancel' hn.1] at hc
    rw [hc]
    rfl
  refine ⟨fun n hn ↦ ?_, ns ++ (List.range' p area.pma.frames.length).filter
    (fun n ↦ (pageAt g₀ n).isSome), ?_, fun n ↦ ?_, ?_⟩
  · by_cases hin : n ∈ Set.Ico p (p + area.pma.frames.length)
    · rw [PointMap.erase_of_mem hin] at hn
      exact absurd hn (by simp)
    · rw [PointMap.erase_of_notMem hin] at hn
      rw [← h.page n hn, pageAt, PointMap.erase_of_notMem hin, pageAt]
  · refine List.nodup_append.mpr ⟨hnodup, List.Nodup.filter _ (List.nodup_range' ..),
      fun x hx y hy hxy ↦ ?_⟩
    subst hxy
    have hx' := hsome x (List.mem_range'_1.mp (List.mem_filter.mp hy).1)
    rw [((hmem x).mp hx).2] at hx'
    exact absurd hx' (by simp)
  · rw [List.mem_append, hmem, List.mem_filter, List.mem_range'_1]
    by_cases hin : n ∈ Set.Ico p (p + area.pma.frames.length)
    · rw [PointMap.erase_of_mem hin]
      have := hsome n hin
      constructor
      · rintro (h | h)
        · exact ⟨h.1, rfl⟩
        · exact ⟨h.2, rfl⟩
      · exact fun h ↦ Or.inr ⟨hin, h.1⟩
    · rw [PointMap.erase_of_notMem hin]
      exact ⟨fun h ↦ h.elim id fun h ↦ absurd h.1 hin, Or.inl⟩
  · rw [List.flatMap_append, flatMap_filter fun n _ hn ↦ ?_]
    · refine hbefore.append ?_
      -- the same operations, counted from the first page of the area
      have hops : area.releaseOps g p 0 area.pma.frames.length
          = (List.range' p area.pma.frames.length).flatMap fun n ↦
              releaseOps (pageAt g₀ n) (b n) := by
        have hrange : List.range' p area.pma.frames.length
            = (List.range' 0 area.pma.frames.length).map fun j ↦ p + j := by
          rw [← List.range_eq_range', List.range'_eq_map_range]
        rw [VmArea.releaseOps, hrange, List.flatMap_map]
        refine List.flatMap_congr fun j hj ↦ ?_
        have hmem : p + j ∈ Set.Ico p (p + area.pma.frames.length) := by
          have := (List.mem_range'_1.mp hj).2
          exact ⟨by omega, by omega⟩
        have hstart : (p + j) * PAGE_SIZE - area.start = j * PAGE_SIZE := by
          rw [hp.start_eq, Nat.add_mul, Nat.add_sub_cancel_left]
        rw [h.page _ (hsome _ hmem), ← hb _ hmem, VmArea.backing, hstart]
      rwa [← hops]
    · cases hpage : pageAt g₀ n with
      | none => rfl
      | some pg =>
        rw [hpage] at hn
        exact absurd hn (by simp)

end Released

/-! ## The laws of segments, with the files -/

section laws

variable [FrameAllocator σ] [FileStore F φ] {J : φ → Prop}

theorem maintains_getFrame_false (pma : PmAreaLazy F) (i : ℕ) :
    Maintains (fun w : World σ φ ↦ J w.files) (pma.getFrame i false) := by
  rw [PmAreaLazy.getFrame]
  cases pma.frames[i]? with
  | none => exact Maintains.throw _
  | some frame =>
    cases frame with
    | none => exact Maintains.pure _
    | some paddr => exact Maintains.pure _

theorem maintains_modifyAreaFlags (area : VmArea F) :
    Maintains (fun s : PageTable × World σ φ ↦ J s.2.files) area.modifyAreaFlags.run := by
  refine Maintains.run_forM fun vaddr ↦ ?_
  refine (Maintains.onSnd fun _ ↦ maintains_getFrame_false _ _).run_lift.run_bind fun r ↦ ?_
  obtain ⟨r, pma⟩ := r
  cases r with
  | error err => exact Maintains.pure _
  | ok frame =>
    cases frame with
    | none => exact Maintains.pure _
    | some paddr => exact (PageTable.maintains_setFlags vaddr _).unwrap.run_lift

theorem maintains_modify (area : VmArea F) (flag : IdentType) (args : ArgsType) :
    Maintains (fun s : PageTable × World σ φ ↦ J s.2.files) (Segment.modify area flag args) :=
  (maintains_modifyAreaFlags _).unwrap.bind fun _ ↦ Maintains.pure _

variable {e : PtEnv} {g g₀ : ℕ → Option Cell} {b : ℕ → Option (BackEndFile F)} {s₀ : φ}
variable {a : RangeArea (VmArea F)} {L : List (RangeArea (VmArea F))}
variable {s : PageTable × World σ φ} {args : ArgsType}

/-- Coherent areas over the parts `b` of files, some of whose pages were released since `s₀`. -/
structure Accounted (e : PtEnv) (b : ℕ → Option (BackEndFile F)) (g₀ : ℕ → Option Cell) (s₀ : φ)
    (g : ℕ → Option Cell) (L : List (RangeArea (VmArea F))) (s : PageTable × World σ φ) : Prop where
  coherent : Coherent e g L s
  backs : Backs b L
  released : Released b g₀ g s₀ s.2.files

namespace Accounted

theorem wp_split (h : Accounted e b g₀ s₀ g (a :: L) s) {pos : ℕ} (hl : a.start < pos)
    (hr : pos < a.end_) (hpos : PageAligned pos) :
    wp (Segment.split a.segment pos args) (fun r t ↦
      Accounted e b g₀ s₀ g (⟨a.start, pos, r.1⟩ :: ⟨pos, a.end_, r.2⟩ :: L) t) noPanic s := by
  have ha := h.coherent.layout.area a List.mem_cons_self
  refine wp_imp (h.coherent.wp_split hl hr hpos) fun r t ht ↦ ?_
  obtain ⟨hcoh, rfl, hleft, hright⟩ := ht
  have hstart₁ := (hcoh.layout.area _ List.mem_cons_self).start_eq
  have hstart₂ := (hcoh.layout.area _ (List.mem_cons_of_mem _ List.mem_cons_self)).start_eq
  dsimp only at hstart₁ hstart₂
  refine ⟨hcoh, (h.backs.tail.cons fun n hn ↦ ?_).cons fun n hn ↦ ?_, h.released⟩
  · -- the right part starts further on, by as much as its page number is smaller
    have hin : n ∈ a.pages := ⟨hl.le.trans hn.1, hn.2⟩
    have hle : pos ≤ n * PAGE_SIZE := hn.1
    rw [← h.backs a List.mem_cons_self n hin, VmArea.backing, VmArea.backing, hstart₂, hright,
      Option.map_map, ha.start_eq]
    congr 1
    funext backend
    rw [Function.comp_apply, BackEndFile.split_split]
    congr 1
    omega
  · have hin : n ∈ a.pages := ⟨hn.1, lt_trans hn.2 hr⟩
    rw [← h.backs a List.mem_cons_self n hin, VmArea.backing, VmArea.backing, hstart₁, hleft,
      ha.start_eq]

theorem wp_remove (h : Accounted e b g₀ s₀ g (a :: L) s)
    (hfree : ∀ x ∈ a.range, ∀ c ∈ onPages g x, c.Free) :
    wp (Segment.remove a.segment args) (fun _ t ↦
      Accounted e b g₀ s₀ (PointMap.erase a.pages g) L t) noPanic s := by
  have ha := h.coherent.layout.area a List.mem_cons_self
  obtain ⟨p, hp, -⟩ := ha.ok
  have hpages := ha.pages_eq hp
  have hstart : a.start / PAGE_SIZE = p := by
    rw [ha.start_page hp, Nat.mul_div_cancel p (by norm_num)]
  refine wp_imp (h.coherent.wp_remove hfree) fun _ t ht ↦ ?_
  rw [hstart] at ht
  refine ⟨ht.1, h.backs.tail, ?_⟩
  rw [hpages]
  exact h.released.erase hp (fun n hn ↦ h.backs a List.mem_cons_self n (hpages ▸ hn)) ht.2

theorem wp_modify (h : Accounted e b g₀ s₀ g (a :: L) s) {flag : IdentType}
    (hfree : ∀ x ∈ a.range, ∀ c ∈ onPages g x, c.Free) :
    wp (Segment.modify a.segment flag args) (fun seg t ↦ Accounted e b g₀ s₀
      (PointMap.update a.pages (Cell.withFlags (BitVec.ofNat 8 flag)) g)
      (⟨a.start, a.end_, seg⟩ :: L) t) noPanic s := by
  have ha := h.coherent.layout.area a List.mem_cons_self
  refine wp_mono (wp_and (h.coherent.wp_modify hfree)
    (maintains_modify (J := fun t ↦ t = s.2.files) a.segment flag args s rfl)) (fun seg t ht ↦ ?_)
    fun _ _ hp ↦ hp.1
  obtain ⟨⟨hcoh, hpma⟩, hfiles⟩ := ht
  have hseg := (hcoh.layout.area _ List.mem_cons_self).start_eq
  dsimp only at hseg
  refine ⟨hcoh, h.backs.tail.cons fun n hn ↦ ?_, ?_⟩
  · rw [← h.backs a List.mem_cons_self n hn, VmArea.backing, VmArea.backing, hpma,
      hseg, ha.start_eq]
  · rw [hfiles]
    refine h.released.congr (fun n ↦ ?_) fun n ↦ ?_
    · rw [← Option.isNone_iff_eq_none, ← Option.isNone_iff_eq_none, ← Option.not_isSome,
        PointMap.isSome_update, Option.not_isSome]
    · by_cases hn : n ∈ a.pages
      · rw [pageAt, PointMap.update_of_mem hn, pageAt]
        cases g n <;> rfl
      · rw [pageAt, PointMap.update_of_notMem hn, pageAt]

end Accounted

/-- Areas over parts of files are segments. -/
def fileLaws (e : PtEnv) (b : ℕ → Option (BackEndFile F)) (g₀ : ℕ → Option Cell) (s₀ : φ)
    (args : ArgsType) : SegmentLaws (VmArea F) (PageTable × World σ φ) Cell args where
  Good f L s := ∃ g, f = onPages g ∧ Accounted e b g₀ s₀ g L s
  Cut := PageAligned
  Free := Cell.Free
  setFlag flag := Cell.withFlags (BitVec.ofNat 8 flag)
  perm hL h := by
    obtain ⟨g, rfl, h⟩ := h
    exact ⟨g, rfl, h.coherent.perm hL, h.backs.perm hL, h.released⟩
  nonempty h a ha := by
    obtain ⟨g, rfl, h⟩ := h
    exact (h.coherent.layout.area a ha).lt
  apart h := by
    obtain ⟨g, rfl, h⟩ := h
    exact h.coherent.layout.apart
  cover h x hx := by
    obtain ⟨g, rfl, h⟩ := h
    obtain ⟨a, ha, hmem⟩ := h.coherent.layout.cover (x / PAGE_SIZE) hx
    exact ⟨a, ha, ((h.coherent.layout.area a ha).mem_range_iff x).mpr hmem⟩
  split h hl hr hcut := by
    obtain ⟨g, rfl, h⟩ := h
    exact wp_imp (h.wp_split hl hr hcut) fun r t ht ↦ ⟨g, rfl, ht⟩
  remove h hfree := by
    obtain ⟨g, rfl, h⟩ := h
    have ha := h.coherent.layout.area _ List.mem_cons_self
    exact wp_imp (h.wp_remove hfree) fun _ t ht ↦ ⟨_, PointMap.erase_comp ha.mem_range_iff, ht⟩
  modify h hfree := by
    obtain ⟨g, rfl, h⟩ := h
    have ha := h.coherent.layout.area _ List.mem_cons_self
    exact wp_imp (h.wp_modify hfree) fun _ t ht ↦ ⟨_, PointMap.update_comp ha.mem_range_iff, ht⟩

end laws

end Maturin
