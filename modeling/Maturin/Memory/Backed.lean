import Maturin.Lib.PointMap
import Maturin.Memory.Area
import Maturin.Memory.Translate
import Mathlib.Order.Interval.Set.Basic

/-!
# What stands behind the pages of an address space

The abstract state of an address space is a partial function from page numbers to cells. A cell has
the flags of its area and, once the page has a frame, the frame, its contents and whether the page
table maps it. A page that has a frame but no entry is possible: that is how an area is about to be
mapped, and how `MemorySet::write` leaves the pages it touches first.

`Backed e T g` says that the page table and the memory realise the cells `g`: the entries are those
of the mapped pages, and the frames are separate, in use, and hold the contents. The lemmas are
about one page at a time: what mapping, unmapping, freeing and allocating do to the cells.
-/

open Exec

namespace Maturin

/-- The frame of a page. -/
structure Page where
  paddr : ℕ
  /-- The bytes of the page. -/
  data : ℕ → UInt8
  /-- Does the page table map the page? -/
  mapped : Bool

/-- The contents of the frame at `p`, and zeros behind them. -/
def pageData (mem : ByteMem) (p i : ℕ) : UInt8 := if i < PAGE_SIZE then mem (p + i) else 0

theorem pageData_congr {mem mem' : ByteMem} {p : ℕ}
    (h : ∀ x, p ≤ x → x < p + PAGE_SIZE → mem' x = mem x) : pageData mem' p = pageData mem p := by
  funext i
  rw [pageData, pageData]
  split_ifs with hi
  · exact h _ (by omega) (by omega)
  · rfl

/-- A page of an area. -/
structure Cell where
  flags : PTEFlags
  page : Option Page

namespace Cell

/-- The mapping that the page table must hold. -/
def entry (c : Cell) : Option (ℕ × PTEFlags) :=
  c.page.bind fun pg ↦ if pg.mapped then some (pg.paddr, c.flags.mapped) else none

/-- The page table maps the page if it has a frame. -/
def Free (c : Cell) : Prop := ∀ pg ∈ c.page, pg.mapped = true

/-- The page without its frame. -/
def clear (c : Cell) : Cell := { c with page := none }

def withFlags (flags : PTEFlags) (c : Cell) : Cell := { c with flags }

/-- The page with its frame mapped. -/
def map (c : Cell) : Cell := { c with page := c.page.map fun pg ↦ { pg with mapped := true } }

end Cell

variable {σ φ F : Type} [FrameAllocator σ]

/-- The page of a cell. -/
def pageAt (g : ℕ → Option Cell) (n : ℕ) : Option Page := (g n).bind Cell.page

/-- The entries that the cells ask for. -/
def entries (g : ℕ → Option Cell) (n : ℕ) : Option (ℕ × PTEFlags) := (g n).bind Cell.entry

/-- The frame of a page belongs to the address space and holds the contents of the page. -/
structure PageOk (e : PtEnv) (s : PageTable × World σ φ) (pg : Page) : Prop where
  aligned : PageAligned pg.paddr
  lt : pg.paddr < 2 ^ 56
  inUse : pg.paddr ∈ s.2.inUse
  notTable : pg.paddr ∉ s.1.frames
  notForeign : pg.paddr ∉ e.foreign
  data : ∀ i < PAGE_SIZE, s.2.mem (pg.paddr + i) = pg.data i

/-- The frames of the cells are separate. -/
structure FramesOk (e : PtEnv) (g : ℕ → Option Cell) (s : PageTable × World σ φ) : Prop where
  ok : ∀ {n pg}, pageAt g n = some pg → PageOk e s pg
  inj : ∀ {n m pg pg'}, pageAt g n = some pg → pageAt g m = some pg' → pg.paddr = pg'.paddr → n = m

/-- The page table and the memory realise the cells; `T` are regions with leaf tables. -/
structure Backed (e : PtEnv) (T : Set ℕ) (g : ℕ → Option Cell) (s : PageTable × World σ φ) :
    Prop where
  below : ∀ {n}, (g n).isSome → n / 2 ^ 18 < e.lim
  table : PtInv e (entries g) T s
  frames : FramesOk e g s

variable {e : PtEnv} {T : Set ℕ} {g g' : ℕ → Option Cell} {s s' : PageTable × World σ φ}
variable {tr : ℕ → Option (ℕ × PTEFlags)} {n m : ℕ} {c c' : Cell} {pg : Page}

/-! ## The page table under changes of the world -/

omit [FrameAllocator σ] in
theorem entryAt_congr {mem mem' : ByteMem} {t i : ℕ} (hi : i < 512)
    (h : ∀ x, t ≤ x → x < t + PAGE_SIZE → mem' x = mem x) : entryAt mem' t i = entryAt mem t i := by
  have hslot := PtInv.slot_mem (p := t) hi
  exact ByteMem.load_congr fun x hl hr ↦ h x (by omega) (by omega)

/-- Only the tables and the foreign frames matter to a page table. -/
theorem PtInv.of_world (h : PtInv e tr T s) {w : World σ φ}
    (htable : ∀ p ∈ s.1.frames, p ∈ w.inUse ∧
      ∀ x, p ≤ x → x < p + PAGE_SIZE → w.mem x = s.2.mem x)
    (hforeign : ∀ p ∈ e.foreign, p ∈ w.inUse ∧
      ∀ x, p ≤ x → x < p + PAGE_SIZE → w.mem x = s.2.mem x)
    (hoom : s.2.oom = true → w.oom = true) : PtInv e tr T (s.1, w) := by
  obtain ⟨role, hT⟩ := h.tables
  have hentry : ∀ t r i, role t = some r → i < 512 → entryAt w.mem t i = entryAt s.2.mem t i :=
    fun t r i ht hi ↦ entryAt_congr hi (htable t (hT.frame ht)).2
  -- the tables are the same, and so are the walks through them
  have hleaf : ∀ r, r / 512 < e.lim →
      leafTable w.mem s.1.rootPaddr r = leafTable s.2.mem s.1.rootPaddr r := fun r hr ↦
    hT.leafTable_congr hr fun t r i ht _ hi ↦
      hentry t r i ht (hi.trans_le (r.width_le h.lim_le))
  refine ⟨h.lim_le, ⟨role, hT.congr fun t r i ht _ hi ↦
    hentry t r i ht (hi.trans_le (r.width_le h.lim_le))⟩, ?_, ?_, ?_, ?_, ?_,
    fun he ↦ hoom (h.oom he)⟩
  · exact fun p hp ↦ ⟨(h.page p hp).1, (h.page p hp).2.1, (htable p hp).1⟩
  · intro n hn
    have hn' : n / 512 / 512 < e.lim := by omega
    rw [← h.translate_eq n hn, translate, translate, hleaf _ hn']
    cases hl : leafTable s.2.mem s.1.rootPaddr (n / 512) with
    | none => rw [Option.bind_none, Option.bind_none]
    | some l =>
      rw [Option.bind_some, Option.bind_some]
      exact mappingAt_congr (hentry l _ _ (hT.role_leafTable hn' hl) (Nat.mod_lt _ (by norm_num)))
  · intro r hr hlim
    rw [hleaf r hlim]
    exact h.tabs r hr hlim
  · intro i hle hi
    rw [← h.shared i hle hi]
    exact hentry _ _ _ hT.root hi
  · intro p hp
    obtain ⟨hal, -, hnot, hsame⟩ := h.foreign p hp
    exact ⟨hal, (hforeign p hp).1, hnot, fun x hl hr ↦ by
      rw [(hforeign p hp).2 x hl hr, hsame x hl hr]⟩

/-! ## Guarding the frames of the cells

The specifications of the page table keep the frames of an environment. Taking the frames of the
cells into the environment shows that the page table leaves them alone. -/

/-- The environment with more frames to be left alone, as they are now. -/
def PtEnv.protect (e : PtEnv) (N : Set ℕ) (w : World σ φ) : PtEnv :=
  { e with foreign := e.foreign ∪ N, mem := w.mem, oom := w.oom }

/-- The environment with the frames of the cells. -/
def PtEnv.guard (e : PtEnv) (g : ℕ → Option Cell) (w : World σ φ) : PtEnv :=
  e.protect {p | ∃ n pg, pageAt g n = some pg ∧ pg.paddr = p} w

theorem FramesOk.guard (h : FramesOk e g s) (ht : PtInv e tr T s) :
    PtInv (e.guard g s.2) tr T s where
  lim_le := ht.lim_le
  tables := ht.tables
  page := ht.page
  translate_eq := ht.translate_eq
  tabs := ht.tabs
  shared := ht.shared
  foreign p hp := by
    rcases hp with hp | ⟨n, pg, hpg, rfl⟩
    · obtain ⟨hal, huse, hnot, -⟩ := ht.foreign p hp
      exact ⟨hal, huse, hnot, fun _ _ _ ↦ rfl⟩
    · have hok := h.ok hpg
      exact ⟨hok.aligned, hok.inUse, hok.notTable, fun _ _ _ ↦ rfl⟩
  oom h := h

/-- After an operation of the page table the frames of the cells are as before. -/
theorem FramesOk.unguard (h : FramesOk e g s) (ht : PtInv e tr T s)
    {tr' : ℕ → Option (ℕ × PTEFlags)} {T' : Set ℕ} (h' : PtInv (e.guard g s.2) tr' T' s') :
    PtInv e tr' T' s' ∧ FramesOk e g s' := by
  refine ⟨⟨h'.lim_le, h'.tables, h'.page, h'.translate_eq, h'.tabs, h'.shared, fun p hp ↦ ?_,
    fun he ↦ h'.oom (ht.oom he)⟩, fun {n pg} hpg ↦ ?_, h.inj⟩
  · obtain ⟨hal, huse, hnot, hsame⟩ := h'.foreign p (Or.inl hp)
    refine ⟨hal, huse, hnot, fun x hl hr ↦ ?_⟩
    exact (hsame x hl hr).trans ((ht.foreign p hp).2.2.2 x hl hr)
  · have hok := h.ok hpg
    obtain ⟨hal, huse, hnot, hsame⟩ := h'.foreign pg.paddr (Or.inr ⟨n, pg, hpg, rfl⟩)
    refine ⟨hal, hok.lt, huse, hnot, hok.notForeign, fun i hi ↦ ?_⟩
    rw [hsame _ (by omega) (by omega)]
    exact hok.data i hi

omit [FrameAllocator σ] in
/-- A page that was entered has an entry with its frame. -/
theorem entries_of_mapped (hg : g n = some c) (hpg : c.page = some pg)
    (hmapped : pg.mapped = true) : entries g n = some (pg.paddr, c.flags.mapped) := by
  rw [entries, hg, Option.bind_some, Cell.entry, hpg, Option.bind_some, if_pos hmapped]

omit [FrameAllocator σ] in
/-- Every entry is that of a page. -/
theorem exists_page_of_entries {m : ℕ × PTEFlags} (h : entries g n = some m) :
    ∃ c pg, g n = some c ∧ c.page = some pg ∧ pg.mapped = true ∧
      m = (pg.paddr, c.flags.mapped) := by
  obtain ⟨c, hc, hentry⟩ := Option.bind_eq_some_iff.mp h
  obtain ⟨pg, hpg, hif⟩ := Option.bind_eq_some_iff.mp hentry
  split_ifs at hif with hmapped
  exact ⟨c, pg, hc, hpg, hmapped, (Option.some.inj hif).symm⟩

omit [FrameAllocator σ] in
theorem entries_of_not_mapped (hg : g n = some c) (hpg : c.page = some pg)
    (hmapped : pg.mapped = false) : entries g n = none := by
  rw [entries, hg, Option.bind_some, Cell.entry, hpg, Option.bind_some, if_neg (by simp [hmapped])]

/-! ## Changing one cell -/

omit [FrameAllocator σ] in
theorem entries_update (g : ℕ → Option Cell) (n : ℕ) (v : Option Cell) :
    entries (Function.update g n v) = Function.update (entries g) n (v.bind Cell.entry) := by
  funext m
  by_cases h : m = n
  · rw [h, entries, Function.update_self, Function.update_self]
  · rw [entries, Function.update_of_ne h, Function.update_of_ne h, entries]

omit [FrameAllocator σ] in
theorem pageAt_update_self (g : ℕ → Option Cell) (n : ℕ) (v : Option Cell) :
    pageAt (Function.update g n v) n = v.bind Cell.page := by
  rw [pageAt, Function.update_self]

omit [FrameAllocator σ] in
theorem pageAt_update_of_ne {g : ℕ → Option Cell} {v : Option Cell} (h : m ≠ n) :
    pageAt (Function.update g n v) m = pageAt g m := by
  rw [pageAt, Function.update_of_ne h, pageAt]

/-- A new frame that no other cell has may take the place of the old one. -/
theorem FramesOk.update (h : FramesOk e g s) {v : Option Cell}
    (hok : ∀ pg ∈ v.bind Cell.page, PageOk e s pg)
    (hinj : ∀ pg ∈ v.bind Cell.page, ∀ m pg', m ≠ n → pageAt g m = some pg' →
      pg'.paddr ≠ pg.paddr) : FramesOk e (Function.update g n v) s where
  ok {m pg} hpg := by
    by_cases hm : m = n
    · rw [hm, pageAt_update_self] at hpg
      exact hok pg hpg
    · rw [pageAt_update_of_ne hm] at hpg
      exact h.ok hpg
  inj {m k pg pg'} hm hk heq := by
    by_cases hmn : m = n
    · by_cases hkn : k = n
      · rw [hmn, hkn]
      · rw [hmn, pageAt_update_self] at hm
        rw [pageAt_update_of_ne hkn] at hk
        exact absurd heq.symm (hinj pg hm k pg' hkn hk)
    · by_cases hkn : k = n
      · rw [hkn, pageAt_update_self] at hk
        rw [pageAt_update_of_ne hmn] at hm
        exact absurd heq (hinj pg' hk m pg hmn hm)
      · rw [pageAt_update_of_ne hmn] at hm
        rw [pageAt_update_of_ne hkn] at hk
        exact h.inj hm hk heq

/-- A cell may lose its frame. -/
theorem FramesOk.update_noPage (h : FramesOk e g s) {v : Option Cell}
    (hv : v.bind Cell.page = none) : FramesOk e (Function.update g n v) s :=
  h.update (by rw [hv]; exact fun _ h ↦ absurd h (by simp))
    (by rw [hv]; exact fun _ h ↦ absurd h (by simp))

/-- A cell may keep its frame and contents, whatever happens to its flags and its entry. -/
theorem FramesOk.update_samePage (h : FramesOk e g s) (hg : g n = some c)
    (hpage : ∀ pg ∈ c'.page, ∃ pg₀ ∈ c.page, pg₀.paddr = pg.paddr ∧ pg₀.data = pg.data) :
    FramesOk e (Function.update g n (some c')) s := by
  refine h.update (fun pg hpg ↦ ?_) fun pg hpg m pg' hm hpg' ↦ ?_
  · obtain ⟨pg₀, hpg₀, haddr, hdata⟩ := hpage pg hpg
    have hok : PageOk e s pg₀ := h.ok (by rw [pageAt, hg]; exact hpg₀)
    exact ⟨haddr ▸ hok.aligned, haddr ▸ hok.lt, haddr ▸ hok.inUse, haddr ▸ hok.notTable,
      haddr ▸ hok.notForeign, haddr ▸ hdata ▸ hok.data⟩
  · obtain ⟨pg₀, hpg₀, haddr, -⟩ := hpage pg hpg
    intro heq
    exact hm (h.inj hpg' (by rw [pageAt, hg]; exact hpg₀) (heq.trans haddr.symm))

omit [FrameAllocator σ] in
theorem below_update (h : ∀ {n}, (g n).isSome → n / 2 ^ 18 < e.lim) {v : Option Cell}
    (hv : v.isSome → n / 2 ^ 18 < e.lim) {m : ℕ} (hm : (Function.update g n v m).isSome) :
    m / 2 ^ 18 < e.lim := by
  by_cases hmn : m = n
  · rw [hmn, Function.update_self] at hm
    exact hmn ▸ hv hm
  · rw [Function.update_of_ne hmn] at hm
    exact h hm

/-- Changes of a cell that do not concern the page table. -/
theorem Backed.update (h : Backed e T g s) {v : Option Cell} (hn : v.isSome → n / 2 ^ 18 < e.lim)
    (hentry : v.bind Cell.entry = entries g n) (hframes : FramesOk e (Function.update g n v) s) :
    Backed e T (Function.update g n v) s where
  below := below_update h.below hn
  table := by
    rw [entries_update, hentry, Function.update_eq_self]
    exact h.table
  frames := hframes

/-! ## Changing the world -/

/-- The frame `p` stays in use and keeps its contents. -/
def Kept (w w' : World σ φ) (p : ℕ) : Prop :=
  p ∈ w'.inUse ∧ ∀ x, p ≤ x → x < p + PAGE_SIZE → w'.mem x = w.mem x

/-- The frames that an address space relies on. -/
def held (e : PtEnv) (g : ℕ → Option Cell) (pt : PageTable) : Set ℕ :=
  {p | p ∈ pt.frames ∨ p ∈ e.foreign ∨ ∃ n pg, pageAt g n = some pg ∧ pg.paddr = p}

omit [FrameAllocator σ] in
theorem held_update_none {pt : PageTable} : held e (Function.update g n none) pt ⊆ held e g pt := by
  rintro p (hp | hp | ⟨m, pg, hpg, rfl⟩)
  · exact Or.inl hp
  · exact Or.inr (Or.inl hp)
  · by_cases hm : m = n
    · rw [hm, pageAt_update_self] at hpg
      exact absurd hpg (by simp)
    · rw [pageAt_update_of_ne hm] at hpg
      exact Or.inr (Or.inr ⟨m, pg, hpg, rfl⟩)

/-- The frames that an address space relies on are in use. -/
theorem Backed.of_held (h : Backed e T g s) {p : ℕ} (hp : p ∈ held e g s.1) :
    p ∈ s.2.inUse ∧ PageAligned p := by
  rcases hp with hp | hp | ⟨n, pg, hpg, rfl⟩
  · exact ⟨(h.table.page p hp).2.2, (h.table.page p hp).1⟩
  · exact ⟨(h.table.foreign p hp).2.1, (h.table.foreign p hp).1⟩
  · exact ⟨(h.frames.ok hpg).inUse, (h.frames.ok hpg).aligned⟩

/-- Only the frames that an address space relies on matter to it. -/
theorem Backed.of_world (h : Backed e T g s) {w : World σ φ}
    (hkeep : ∀ p ∈ held e g s.1, Kept s.2 w p) (hoom : s.2.oom = true → w.oom = true) :
    Backed e T g (s.1, w) where
  below := h.below
  table := h.table.of_world (fun p hp ↦ hkeep p (Or.inl hp))
    (fun p hp ↦ hkeep p (Or.inr (Or.inl hp))) hoom
  frames := by
    refine ⟨fun {n pg} hpg ↦ ?_, h.frames.inj⟩
    have hok := h.frames.ok hpg
    have hk := hkeep pg.paddr (Or.inr (Or.inr ⟨n, pg, hpg, rfl⟩))
    refine ⟨hok.aligned, hok.lt, hk.1, hok.notTable, hok.notForeign, fun i hi ↦ ?_⟩
    rw [← hok.data i hi]
    exact hk.2 _ (by omega) (by omega)

/-- Frames that the address space does not rely on may be protected from it. -/
theorem Backed.protect (h : Backed e T g s) {N : Set ℕ}
    (hN : ∀ p ∈ N, PageAligned p ∧ p ∈ s.2.inUse ∧ p ∉ held e g s.1) :
    Backed (e.protect N s.2) T g s where
  below := h.below
  table :=
    { h.table with
      foreign := by
        rintro p (hp | hp)
        · obtain ⟨hal, huse, hnot, -⟩ := h.table.foreign p hp
          exact ⟨hal, huse, hnot, fun _ _ _ ↦ rfl⟩
        · obtain ⟨hal, huse, hnot⟩ := hN p hp
          exact ⟨hal, huse, fun hmem ↦ hnot (Or.inl hmem), fun _ _ _ ↦ rfl⟩
      oom := id }
  frames := by
    refine ⟨fun {n pg} hpg ↦ ?_, h.frames.inj⟩
    have hok := h.frames.ok hpg
    refine ⟨hok.aligned, hok.lt, hok.inUse, hok.notTable, ?_, hok.data⟩
    rintro (hp | hp)
    · exact hok.notForeign hp
    · exact (hN _ hp).2.2 (Or.inr (Or.inr ⟨n, pg, hpg, rfl⟩))

/-- What protection gave: the address space is as without it, and the frames are untouched. -/
theorem Backed.unprotect {N : Set ℕ} {w : World σ φ} (h : Backed (e.protect N w) T g s)
    {pt : PageTable} (hforeign : ForeignKept e pt w) (hoom : e.oom = true → w.oom = true) :
    Backed e T g s ∧ ∀ p ∈ N, PageAligned p ∧ Kept w s.2 p ∧ p ∉ held e g s.1 ∨ p ∈ e.foreign := by
  refine ⟨⟨h.below, { h.table with foreign := ?_, oom := fun he ↦ h.table.oom (hoom he) },
    fun {n pg} hpg ↦ ?_, h.frames.inj⟩, fun p hp ↦ ?_⟩
  · intro p hp
    obtain ⟨hal, huse, hnot, hsame⟩ := h.table.foreign p (Or.inl hp)
    exact ⟨hal, huse, hnot, fun x hl hr ↦ (hsame x hl hr).trans ((hforeign p hp).2.2.2 x hl hr)⟩
  · have hok := h.frames.ok hpg
    exact ⟨hok.aligned, hok.lt, hok.inUse, hok.notTable, fun hmem ↦ hok.notForeign (Or.inl hmem),
      hok.data⟩
  · by_cases hpe : p ∈ e.foreign
    · exact Or.inr hpe
    · left
      obtain ⟨hal, huse, hnot, hsame⟩ := h.table.foreign p (Or.inr hp)
      refine ⟨hal, ⟨huse, hsame⟩, ?_⟩
      rintro (hmem | hmem | ⟨n, pg, hpg, rfl⟩)
      · exact hnot hmem
      · exact hpe hmem
      · exact (h.frames.ok hpg).notForeign (Or.inr hp)

/-- A page may get another frame or other contents, as long as its entry is the same. -/
theorem Backed.setPage (h : Backed e T g s) (hg : g n = some c) {pg : Page} {w : World σ φ}
    (hal : PageAligned pg.paddr) (hlt : pg.paddr < 2 ^ 56) (huse : pg.paddr ∈ w.inUse)
    (hnew : ∀ p ∈ held e (Function.update g n none) s.1, p ≠ pg.paddr)
    (hkeep : ∀ p ∈ s.2.inUse, p ∈ w.inUse)
    (hmem : ∀ x, x < pg.paddr ∨ pg.paddr + PAGE_SIZE ≤ x → w.mem x = s.2.mem x)
    (hdata : ∀ i < PAGE_SIZE, w.mem (pg.paddr + i) = pg.data i)
    (hentry : Cell.entry { c with page := some pg } = c.entry)
    (hoom : s.2.oom = true → w.oom = true) :
    Backed e T (Function.update g n (some { c with page := some pg })) (s.1, w) := by
  have hframe : ∀ p, PageAligned p → p ∈ s.2.inUse → p ≠ pg.paddr → Kept s.2 w p := by
    intro p hpal hpuse hne
    refine ⟨hkeep p hpuse, fun x hl hr ↦ hmem x ?_⟩
    rcases page_disjoint hpal hal hne with h | h <;> omega
  have hheld : ∀ p ∈ held e (Function.update g n none) s.1, Kept s.2 w p := by
    intro p hp
    have hbelow := h.of_held (held_update_none hp)
    exact hframe p hbelow.2 hbelow.1 (hnew p hp)
  -- without the page, nothing has changed
  have hcleared : FramesOk e (Function.update g n none) (s.1, w) := by
    have hold := h.frames.update_noPage (n := n) (v := none) rfl
    refine ⟨fun {m pg'} hm ↦ ?_, hold.inj⟩
    have hok := hold.ok hm
    have hk := hheld pg'.paddr (Or.inr (Or.inr ⟨m, pg', hm, rfl⟩))
    refine ⟨hok.aligned, hok.lt, hk.1, hok.notTable, hok.notForeign, fun i hi ↦ ?_⟩
    rw [← hok.data i hi]
    exact hk.2 _ (by omega) (by omega)
  refine ⟨below_update h.below fun _ ↦ h.below (by rw [hg]; rfl), ?_, ?_⟩
  · have hsame : entries (Function.update g n (some { c with page := some pg })) = entries g := by
      rw [entries_update, Option.bind_some, hentry]
      have : c.entry = entries g n := by rw [entries, hg, Option.bind_some]
      rw [this, Function.update_eq_self]
    rw [hsame]
    exact h.table.of_world (fun p hp ↦ hheld p (Or.inl hp))
      (fun p hp ↦ hheld p (Or.inr (Or.inl hp))) hoom
  · have hnewPage : FramesOk e
        (Function.update (Function.update g n none) n (some { c with page := some pg }))
        (s.1, w) := by
      refine hcleared.update (fun pg' hpg' ↦ ?_) fun pg' hpg' m pg'' _ hpg'' ↦ ?_
      · obtain rfl : pg = pg' := Option.some.inj hpg'
        exact ⟨hal, hlt, huse, fun hmem ↦ hnew _ (Or.inl hmem) rfl,
          fun hmem ↦ hnew _ (Or.inr (Or.inl hmem)) rfl, hdata⟩
      · obtain rfl : pg = pg' := Option.some.inj hpg'
        exact hnew _ (Or.inr (Or.inr ⟨m, pg'', hpg'', rfl⟩))
    rwa [Function.update_idem] at hnewPage

/-- A page without a frame gets a new one. -/
theorem Backed.alloc (h : Backed e T g s) (hg : g n = some c) (hpage : c.page = none) {p : ℕ}
    {w : World σ φ} (hfresh : p ∉ s.2.inUse) (hal : PageAligned p) (hlt : p < 2 ^ 56)
    (huse : w.inUse = insert p s.2.inUse)
    (hmem : ∀ x, x < p ∨ p + PAGE_SIZE ≤ x → w.mem x = s.2.mem x) (hoom : w.oom = s.2.oom) :
    Backed e T (Function.update g n
      (some { c with page := some ⟨p, pageData w.mem p, false⟩ })) (s.1, w) := by
  refine h.setPage hg hal hlt (huse ▸ Set.mem_insert p _) (fun q hq heq ↦ ?_)
    (fun q hq ↦ huse ▸ Set.mem_insert_of_mem p hq) hmem (fun _ hi ↦ (if_pos hi).symm) ?_
    fun ho ↦ by rwa [hoom]
  · obtain rfl : q = p := heq
    exact hfresh (h.of_held (held_update_none hq)).1
  · rw [Cell.entry, Cell.entry, hpage]
    rfl

/-- The contents of a page change with those of its frame. -/
theorem Backed.write (h : Backed e T g s) (hg : g n = some c) (hpage : c.page = some pg)
    {w : World σ φ} (huse : w.inUse = s.2.inUse)
    (hmem : ∀ x, x < pg.paddr ∨ pg.paddr + PAGE_SIZE ≤ x → w.mem x = s.2.mem x)
    (hoom : w.oom = s.2.oom) :
    Backed e T (Function.update g n
      (some { c with page := some { pg with data := pageData w.mem pg.paddr } })) (s.1, w) := by
  have hat : pageAt g n = some pg := by rw [pageAt, hg]; exact hpage
  have hok := h.frames.ok hat
  have hal : PageAligned { pg with data := pageData w.mem pg.paddr }.paddr := hok.aligned
  refine h.setPage hg hal hok.lt (huse ▸ hok.inUse) (fun q hq heq ↦ ?_) (fun q hq ↦ huse ▸ hq) hmem
    (fun _ hi ↦ (if_pos hi).symm) ?_ fun ho ↦ by rwa [hoom]
  · -- no table, foreign frame or other page is in the frame of the page
    rcases hq with hq | hq | ⟨m, pg', hpg', hpaddr⟩
    · exact hok.notTable (heq ▸ hq)
    · exact hok.notForeign (heq ▸ hq)
    · by_cases hm : m = n
      · rw [hm, pageAt_update_self] at hpg'
        exact absurd hpg' (by simp)
      · rw [pageAt_update_of_ne hm] at hpg'
        exact hm (h.frames.inj hpg' hat (hpaddr.trans heq))
  · rw [Cell.entry, Cell.entry, hpage]
    rfl

/-- The entry of a page that has a frame is written to its leaf table. -/
theorem Backed.store_entry (h : Backed e T g s) (hg : g n = some c) (hpage : c.page = some pg)
    {leaf : ℕ} (hleaf : leafTable s.2.mem s.1.rootPaddr (n / 512) = some leaf) :
    Backed e T (Function.update g n (some c.map)) (s.1, s.2.setMem (s.2.mem.store 8
      (getPteAt leaf (n % 512)) (PageTableEntry.setAll pg.paddr c.flags.mapped))) := by
  have hn := h.below (n := n) (by rw [hg]; rfl)
  have hok : PageOk e s pg := h.frames.ok (n := n) (by rw [pageAt, hg]; exact hpage)
  have hbits : PageTableEntry.setAll pg.paddr c.flags.mapped < 2 ^ 64 :=
    PageTableEntry.setAll_lt (hok.lt.trans (by norm_num))
  have hstore := (h.frames.guard h.table).store_leaf hn hleaf hbits
  rw [PtInv.decode_setAll hok.aligned hok.lt] at hstore
  obtain ⟨htable, hframes⟩ := h.frames.unguard h.table hstore
  refine ⟨below_update h.below fun _ ↦ hn, ?_, hframes.update_samePage hg fun pg' hpg' ↦ ?_⟩
  · rw [entries_update, Option.bind_some, Cell.entry, Cell.map, hpage]
    exact htable
  · rw [Cell.map, hpage, Option.map_some, Option.mem_some_iff] at hpg'
    subst hpg'
    exact ⟨pg, hpage, rfl, rfl⟩

/-! ## Operations on one page -/

/-- The address of a page of the address space. -/
theorem vpn_page (hlim : e.lim ≤ 512) (hn : n / 2 ^ 18 < e.lim) : vpn (n * PAGE_SIZE) = n := by
  simp only [vpn, PAGE_SIZE]
  omega

/-- Map a page that has a frame but no entry. -/
theorem Backed.wpe_map (h : Backed e T g s) (hg : g n = some c) (hpg : c.page = some pg)
    (hmapped : pg.mapped = false) (hflags : c.flags ≠ 0) :
    wpe (PageTable.map (n * PAGE_SIZE) pg.paddr c.flags) (fun r s' ↦ match r with
      | .ok () => Backed e (insert (n / 512) T) (Function.update g n (some c.map)) s'
      | .error e' => e' = .pageTable_frameAllocFailed ∧ Backed e T g s' ∧ s'.2.oom = true)
      noPanic s := by
  have hlim := h.table.lim_le
  have hn := h.below (n := n) (by rw [hg]; rfl)
  have hv := vpn_page hlim hn
  have hok : PageOk e s pg := h.frames.ok (n := n) (by rw [pageAt, hg]; exact hpg)
  have hnone := entries_of_not_mapped hg hpg hmapped
  refine wpe_imp ((h.frames.guard h.table).wp_map (by rw [hv]; exact hn) hok.aligned hok.lt)
    fun r s' hr ↦ ?_
  rw [hv] at hr
  rcases r with e' | u
  · cases e'
    case pageTable_pageAlreadyMapped =>
      rw [hnone] at hr
      exact absurd hr.1 (by simp)
    case pageTable_frameAllocFailed =>
      obtain ⟨htable, hframes⟩ := h.frames.unguard h.table hr.2.1
      exact ⟨rfl, ⟨h.below, htable, hframes⟩, hr.2.2⟩
    all_goals exact hr.elim
  · obtain ⟨htable, hframes⟩ := h.frames.unguard h.table hr.2
    rw [if_neg hflags] at htable
    refine ⟨below_update h.below fun _ ↦ hn, ?_, ?_⟩
    · rw [entries_update, Option.bind_some, Cell.entry, Cell.map, hpg]
      exact htable
    · refine hframes.update_samePage hg fun pg' hpg' ↦ ?_
      rw [Cell.map, hpg, Option.map_some, Option.mem_some_iff] at hpg'
      subst hpg'
      exact ⟨pg, hpg, rfl, rfl⟩

/-- Create the tables of a page without a frame. -/
theorem Backed.wpe_map_empty (h : Backed e T g s) (hn : n / 2 ^ 18 < e.lim)
    (hnone : entries g n = none) :
    wpe (PageTable.map (n * PAGE_SIZE) 0 0) (fun r s' ↦ match r with
      | .ok () => Backed e (insert (n / 512) T) g s'
      | .error e' => e' = .pageTable_frameAllocFailed ∧ Backed e T g s' ∧ s'.2.oom = true)
      noPanic s := by
  have hv := vpn_page h.table.lim_le hn
  refine wpe_imp ((h.frames.guard h.table).wp_map (by rw [hv]; exact hn) (by decide) (by norm_num))
    fun r s' hr ↦ ?_
  rw [hv] at hr
  rcases r with e' | u
  · cases e'
    case pageTable_pageAlreadyMapped =>
      rw [hnone] at hr
      exact absurd hr.1 (by simp)
    case pageTable_frameAllocFailed =>
      obtain ⟨htable, hframes⟩ := h.frames.unguard h.table hr.2.1
      exact ⟨rfl, ⟨h.below, htable, hframes⟩, hr.2.2⟩
    all_goals exact hr.elim
  · obtain ⟨htable, hframes⟩ := h.frames.unguard h.table hr.2
    rw [if_pos rfl] at htable
    exact ⟨h.below, htable, hframes⟩

/-- Change the flags of a mapped page. -/
theorem Backed.wpe_setFlags (h : Backed e T g s) (hg : g n = some c) (hpg : c.page = some pg)
    (hmapped : pg.mapped = true) (fl : PTEFlags) :
    wpe (PageTable.setFlags (n * PAGE_SIZE) fl) (fun r s' ↦ r = .ok () ∧
      Backed e T (Function.update g n (some (c.withFlags fl))) s') noPanic s := by
  have hn := h.below (n := n) (by rw [hg]; rfl)
  have hv := vpn_page h.table.lim_le hn
  have hentry := entries_of_mapped hg hpg hmapped
  refine wpe_imp ((h.frames.guard h.table).wp_setFlags (by rw [hv]; exact hn)) fun r s' hr ↦ ?_
  rw [hv] at hr
  rcases r with e' | u
  · cases e'
    case pageTable_pageNotMapped =>
      rw [hentry] at hr
      exact absurd hr.1 (by simp)
    case pageTable_frameAllocFailed =>
      rw [hentry] at hr
      exact absurd hr.1 (by simp)
    all_goals exact hr.elim
  · obtain ⟨m, hm, hinv⟩ := hr
    rw [hentry, Option.some.injEq] at hm
    subst hm
    obtain ⟨htable, hframes⟩ := h.frames.unguard h.table hinv
    refine ⟨rfl, below_update h.below fun _ ↦ hn, ?_, ?_⟩
    · rw [entries_update, Option.bind_some, Cell.entry, Cell.withFlags, hpg, Option.bind_some,
        if_pos hmapped]
      exact htable
    · exact hframes.update_samePage hg fun pg' hpg' ↦ ⟨pg', hpg', rfl, rfl⟩

/-- Giving a frame back leaves the tables alone. -/
theorem Backed.table_of_freed (h : Backed e T g s) (hat : pageAt g n = some pg) {w : World σ φ}
    (huse : w.inUse = s.2.inUse \ {pg.paddr}) (hmem : w.mem = s.2.mem) (hoom : w.oom = s.2.oom) :
    PtInv e (entries g) T (s.1, w) := by
  have hok := h.frames.ok hat
  have hkeep : ∀ p ∈ s.2.inUse, p ≠ pg.paddr → p ∈ w.inUse := by
    intro p hp hne
    rw [huse]
    exact ⟨hp, hne⟩
  refine h.table.of_world (fun p hp ↦ ⟨?_, fun _ _ _ ↦ by rw [hmem]⟩)
    (fun p hp ↦ ⟨?_, fun _ _ _ ↦ by rw [hmem]⟩) fun ho ↦ by rwa [hoom]
  · exact hkeep p (h.table.page p hp).2.2 fun heq ↦ hok.notTable (heq ▸ hp)
  · exact hkeep p (h.table.foreign p hp).2.1 fun heq ↦ hok.notForeign (heq ▸ hp)

/-- Unmap a page whose frame was just given back. -/
theorem Backed.wpe_unmap (h : Backed e T g s) (hg : g n = some c) (hpg : c.page = some pg)
    (hmapped : pg.mapped = true) {w : World σ φ} (huse : w.inUse = s.2.inUse \ {pg.paddr})
    (hmem : w.mem = s.2.mem) (hoom : w.oom = s.2.oom) :
    wpe (PageTable.unmap (n * PAGE_SIZE)) (fun r s' ↦ r = .ok () ∧
      Backed e T (Function.update g n (some c.clear)) s') noPanic (s.1, w) := by
  have hn := h.below (n := n) (by rw [hg]; rfl)
  have hv := vpn_page h.table.lim_le hn
  have hat : pageAt g n = some pg := by rw [pageAt, hg]; exact hpg
  have hentry := entries_of_mapped hg hpg hmapped
  have htable := h.table_of_freed hat huse hmem hoom
  -- the frame is freed already, so that no page may keep it
  have hframes : FramesOk e (Function.update g n (some c.clear)) (s.1, w) := by
    have hclear : FramesOk e (Function.update g n (some c.clear)) s :=
      h.frames.update_noPage rfl
    refine ⟨fun {m pg'} hm ↦ ?_, hclear.inj⟩
    have hok' := hclear.ok hm
    have hmn : m ≠ n := by
      rintro rfl
      rw [pageAt_update_self] at hm
      exact absurd hm (by simp [Cell.clear])
    rw [pageAt_update_of_ne hmn] at hm
    refine ⟨hok'.aligned, hok'.lt, ?_, hok'.notTable, hok'.notForeign, fun i hi ↦ ?_⟩
    · rw [huse]
      exact ⟨hok'.inUse, fun heq ↦ hmn (h.frames.inj hm hat heq)⟩
    · rw [← hok'.data i hi, hmem]
  refine wpe_imp ((hframes.guard htable).wp_unmap (by rw [hv]; exact hn)) fun r s' hr ↦ ?_
  rw [hv] at hr
  rcases r with e' | u
  · cases e'
    case pageTable_pageNotMapped =>
      rw [hentry] at hr
      exact absurd hr.1 (by simp)
    case pageTable_virtNotFound =>
      rw [hentry] at hr
      exact absurd hr.1 (by simp)
    all_goals exact hr.elim
  · obtain ⟨htable', hframes'⟩ := hframes.unguard htable hr.2
    refine ⟨rfl, below_update h.below fun _ ↦ hn, ?_, hframes'⟩
    rw [entries_update]
    exact htable'

/-- A page that was not entered cannot be unmapped. -/
theorem Backed.wpe_unmap_of_not_mapped (h : Backed e T g s) (hg : g n = some c)
    (hpg : c.page = some pg) (hmapped : pg.mapped = false) {w : World σ φ}
    (huse : w.inUse = s.2.inUse \ {pg.paddr}) (hmem : w.mem = s.2.mem) (hoom : w.oom = s.2.oom) :
    wpe (PageTable.unmap (n * PAGE_SIZE)) (fun r _ ↦ ∃ err, r = .error err) noPanic (s.1, w) := by
  have hn := h.below (n := n) (by rw [hg]; rfl)
  have hv := vpn_page h.table.lim_le hn
  have hentry := entries_of_not_mapped hg hpg hmapped
  have htable := h.table_of_freed (by rw [pageAt, hg]; exact hpg) huse hmem hoom
  refine wpe_imp (htable.wp_unmap (by rw [hv]; exact hn)) fun r s' hr ↦ ?_
  rcases r with err | u
  · exact ⟨err, rfl⟩
  · rw [hv, hentry] at hr
    exact absurd hr.1 (by simp)

end Maturin
