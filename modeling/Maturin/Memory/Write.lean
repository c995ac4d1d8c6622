import Maturin.Memory.Contents
import Maturin.Memory.Space

/-!
# Writing past the page table

`MemorySet::write` puts bytes into the frames of the areas directly. A page without a frame gets
one, but no entry: the page table learns of it only when the page is touched through `faultIn`. So
writing keeps the cells up to the contents of pages, and adds pages that are not mapped.
-/

open Exec

namespace Maturin

variable {σ φ F : Type}

/-- What writing does to a cell. -/
structure Cell.Written (c c' : Cell) : Prop where
  flags_eq : c'.flags = c.flags
  old : ∀ pg ∈ c.page, ∃ data, c'.page = some { pg with data }
  new : c.page = none → ∀ pg ∈ c'.page, pg.mapped = false

/-- What writing does to the cells. -/
def Written (g g' : ℕ → Option Cell) : Prop := ∀ n, Option.Rel Cell.Written (g n) (g' n)

namespace Written

variable {g g' g'' : ℕ → Option Cell} {n : ℕ} {c c' : Cell}

theorem refl (g : ℕ → Option Cell) : Written g g := by
  intro n
  cases g n with
  | none => exact .none
  | some c => exact .some ⟨rfl, fun pg hpg ↦ ⟨pg.data, hpg⟩, fun h pg hpg ↦ by simp [h] at hpg⟩

theorem trans (h : Written g g') (h' : Written g' g'') : Written g g'' := by
  intro n
  have hn := h n
  have hn' := h' n
  generalize g n = x, g' n = y, g'' n = z at hn hn'
  cases hn with
  | none =>
    cases hn'
    exact .none
  | some hc =>
    rename_i c₁ c₂
    cases hn' with
    | some hc' =>
      refine .some ⟨hc'.flags_eq.trans hc.flags_eq, fun pg hpg ↦ ?_, fun hnone pg hpg ↦ ?_⟩
      · obtain ⟨data, hdata⟩ := hc.old pg hpg
        obtain ⟨data', hdata'⟩ := hc'.old _ hdata
        exact ⟨data', hdata'⟩
      · cases hpage : c₂.page with
        | none => exact hc'.new hpage pg hpg
        | some pg₂ =>
          obtain ⟨data, hdata⟩ := hc'.old pg₂ hpage
          rw [hdata, Option.mem_some_iff] at hpg
          rw [← hpg]
          exact hc.new hnone pg₂ hpage

theorem update (hg : g n = some c) (hc : c.Written c') :
    Written g (Function.update g n (some c')) := by
  intro m
  by_cases hm : m = n
  · rw [hm, Function.update_self, hg]
    exact .some hc
  · rw [Function.update_of_ne hm]
    exact refl g m

end Written

variable [FrameAllocator σ] [FileStore F φ] {e : PtEnv} {g : ℕ → Option Cell}
variable {a : RangeArea (VmArea F)} {L : List (RangeArea (VmArea F))} {pt : PageTable}
variable {w : World σ φ}

/-- An operation on the bytes of a piece of memory changes nothing else. -/
def Local (op : ℕ → ℕ → ℕ → EStateM Panic (World σ φ) Unit) : Prop :=
  ∀ processed paddr n w, wp (op processed paddr n) (fun _ w' ↦ w'.inUse = w.inUse ∧
    w'.oom = w.oom ∧ ∀ y, y < paddr ∨ paddr + n ≤ y → w'.mem y = w.mem y) noPanic w

omit [FileStore F φ] in
/-- The loop over the pages of a range: frames appear, contents change. -/
theorem Coherent.wp_forEachLoop {op : ℕ → ℕ → ℕ → EStateM Panic (World σ φ) Unit} (hop : Local op)
    {area : VmArea F} {pma : PmAreaLazy F} {start len : ℕ}
    (h : Coherent e g (⟨a.start, a.end_, { area with pma }⟩ :: L) (pt, w))
    (hlen : start + len ≤ pma.size) :
    wp (PmAreaLazy.forEachLoop op len pma start len 0) (fun r w' ↦
      ∃ g', Written g g' ∧
        Coherent e g' (⟨a.start, a.end_, { area with pma := r.2 }⟩ :: L) (pt, w')) noPanic w := by
  have hloop : wp (PmAreaLazy.forEachLoopWith (fun _ : Unit ↦ op) len pma () (start + 0) (len - 0)
      0) _ noPanic w :=
    PmAreaLazy.wp_forEachLoopWith (I := fun _ _ pma' w' ↦ pma'.size = pma.size ∧ ∃ g',
      Written g g' ∧ Coherent e g' (⟨a.start, a.end_, { area with pma := pma' }⟩ :: L) (pt, w'))
      (fun hI ↦ by rw [hI.1]; exact hlen) ?_ ?_ len ⟨rfl, g, .refl g, h⟩ (Nat.zero_le _) le_rfl
  · rw [PmAreaLazy.forEachLoop_eq, wp_map]
    refine wp_imp hloop fun r w' hr ↦ ?_
    rcases hr with ⟨-, -, hI⟩ | ⟨-, -, -, -, -, hI⟩
    · exact hI
    · exact hI
  · rintro k n - pma' p w' ⟨hsize, g', hg', hcoh⟩ hp - hpage
    obtain ⟨q, hok, -⟩ := (hcoh.layout.area _ List.mem_cons_self).ok
    obtain ⟨T, hb, hT⟩ := hcoh.backed
    have hlt := (List.getElem?_eq_some_iff.mp hp).1
    obtain ⟨c, hc, hframe⟩ := hok.cell _ hlt
    obtain ⟨pg, hpg, rfl⟩ := Option.map_eq_some_iff.mp (Option.some.inj (hframe.symm.trans hp))
    refine wp_imp (hop _ _ _ w') fun _ w₁ hw₁ ↦ ?_
    obtain ⟨huse, hoom, hmem⟩ := hw₁
    -- the page has a frame, and only its contents change
    have hb' := hb.write hc hpg (w := w₁) huse (fun y hy ↦ hmem y (by omega)) hoom
    have hset := hcoh.setFrame hok hlt hT hc hb' rfl
      (show pma'.frames.length = _ from rfl) (by rw [hp]; rfl) fun _ _ ↦ rfl
    refine ⟨hsize, _, hg'.trans (Written.update hc ?_), hset⟩
    refine ⟨rfl, fun pg' hpg' ↦ ?_, fun hnone ↦ ?_⟩
    · rw [hpg, Option.mem_some_iff] at hpg'
      subst hpg'
      exact ⟨_, rfl⟩
    · rw [hpg] at hnone
      exact absurd hnone (by simp)
  · rintro k - pma' w' ⟨hsize, g', hg', hcoh⟩ - hnone
    obtain ⟨q, hok, -⟩ := (hcoh.layout.area _ List.mem_cons_self).ok
    obtain ⟨T, hb, hT⟩ := hcoh.backed
    have hlt := (List.getElem?_eq_some_iff.mp hnone).1
    obtain ⟨c, hc, hframe⟩ := hok.cell _ hlt
    -- the page gets a frame of zeros
    have hpage : c.page = none :=
      Option.map_eq_none_iff.mp (Option.some.inj (hframe.symm.trans hnone))
    refine wp_imp wp_frameNew fun r w₁ hr ↦ ?_
    cases r with
    | none =>
      subst hr
      refine ⟨rfl, hsize, g', hg', hcoh.layout, T, ?_, hT⟩
      exact hb.of_world (fun q hq ↦ ⟨(hb.of_held hq).1, fun _ _ _ ↦ rfl⟩) fun _ ↦ rfl
    | some p =>
      obtain ⟨hfresh, hal, hlt', huse, hmem, hoom⟩ := hr
      have hb' := hb.alloc hc hpage (w := w₁.setMem (ByteMem.fill p PAGE_SIZE 0 w₁.mem)) hfresh hal
        hlt' huse (fun y hy ↦ by rw [World.setMem_mem, ByteMem.fill_of_notMem hy, hmem]) hoom
      have hset := hcoh.setFrame hok hlt hT hc hb' rfl
        (show ({ pma' with frames := pma'.frames.set ((start + k) / PAGE_SIZE) (some p) } :
          PmAreaLazy F).frames.length = _ from List.length_set ..) (List.getElem?_set_self hlt)
        fun j hj ↦ List.getElem?_set_ne hj.symm
      refine ⟨by rw [← hsize, PmAreaLazy.size, PmAreaLazy.size, List.length_set], _,
        hg'.trans (Written.update hc ?_), hset⟩
      refine ⟨rfl, fun pg' hpg' ↦ ?_, fun _ pg' hpg' ↦ ?_⟩
      · rw [hpage] at hpg'
        exact absurd hpg' (by simp)
      · rw [Option.mem_some_iff] at hpg'
        rw [← hpg']

theorem local_writeBytes (src : List UInt8) :
    Local (σ := σ) (φ := φ) fun processed paddr n ↦
      modify fun w ↦ w.setMem (w.mem.writeBytes paddr ((src.drop processed).take n)) := by
  intro processed paddr n w
  have hlen : ((src.drop processed).take n).length ≤ n := List.length_take_le n _
  exact ⟨rfl, rfl, fun y hy ↦ ByteMem.writeBytes_of_notMem (by omega)⟩

omit [FileStore F φ] in
/-- Writing into an area. -/
theorem Coherent.wp_write {x : ℕ} (h : Coherent e g (a :: L) (pt, w)) (hx : x ∈ a.range)
    {src : List UInt8} (hlen : x + src.length ≤ a.end_) :
    wp (a.segment.pma.write (x - a.segment.start) src) (fun r w' ↦ ∃ g', Written g g' ∧
      Coherent e g' (⟨a.start, a.end_, { a.segment with pma := r.2 }⟩ :: L) (pt, w'))
      noPanic w := by
  have ha := h.layout.area a List.mem_cons_self
  obtain ⟨p, hp, -⟩ := ha.ok
  have hend := hp.end_lt h.lim_le
  have hsize := hp.size_eq
  have hstart := ha.start_eq
  have hend' := ha.end_eq
  obtain ⟨hl, hr⟩ := hx
  rw [PmAreaLazy.write, PmAreaLazy.forEachFrame, wadd_of_lt (by omega), if_neg (by omega)]
  have hle : x - a.segment.start + src.length ≤ a.segment.pma.size := by omega
  exact h.wp_forEachLoop (local_writeBytes src) hle

/-! ## Writing into an address space -/

/-- `write` keeps the pages and their frames; what it adds is not mapped. -/
theorem SpaceOk.wp_writeLoop {ms : MemorySet F} {src : List UInt8} {accessFlags : PTEFlags}
    (rounds : ℕ) {start len processed : ℕ} (h : SpaceOk e g ms w) :
    wp (ms.writeLoop src accessFlags rounds start len processed) (fun r w' ↦
      ∃ g', Written g g' ∧ SpaceOk e g' r.2 w') (fun p _ ↦ p = .indexOutOfBounds) w := by
  induction rounds generalizing ms start len processed g w with
  | zero => exact ⟨g, Written.refl g, h⟩
  | succ rounds ih =>
    rw [MemorySet.writeLoop]
    by_cases hpos : len > 0
    · rw [if_pos hpos]
      cases hg : g (start / PAGE_SIZE) with
      | none =>
        rw [h.find_eq_none hg]
        exact ⟨g, Written.refl g, h⟩
      | some c =>
        obtain ⟨a, L, hx, hfind, -, hcoh, hset⟩ := h.exists_find hg
        have hend := (hcoh.layout.area a List.mem_cons_self).end_eq
        rw [hfind]
        dsimp only
        split_ifs with hbefore hdenied hsrc
        · exact ⟨g, Written.refl g, h⟩
        · exact ⟨g, Written.refl g, h⟩
        · rfl
        · rw [wp_bind]
          have hlen := List.length_take_le (min (a.segment.end_ - start) len) (src.drop processed)
          refine wp_mono (hcoh.wp_write hx (by omega)) (fun r w₁ hr ↦ ?_) fun _ _ h ↦ h.elim
          obtain ⟨g₁, hg₁, hcoh₁⟩ := hr
          have hok := hset _ g₁ _ hcoh₁
          rcases r with ⟨res, pma⟩
          cases res with
          | error err => exact ⟨g₁, hg₁, hok⟩
          | ok k =>
            refine wp_imp (ih hok) fun r w' hr ↦ ?_
            obtain ⟨g', hg', hok'⟩ := hr
            exact ⟨g', hg₁.trans hg', hok'⟩
    · rw [if_neg hpos]
      exact ⟨g, Written.refl g, h⟩

theorem SpaceOk.wp_write {ms : MemorySet F} (h : SpaceOk e g ms w) (start len : ℕ)
    (src : List UInt8) (accessFlags : PTEFlags) :
    wp (ms.write start len src accessFlags) (fun r w' ↦
      ∃ g', Written g g' ∧ SpaceOk e g' r.2 w') (fun p _ ↦ p = .indexOutOfBounds) w :=
  h.wp_writeLoop len

end Maturin
