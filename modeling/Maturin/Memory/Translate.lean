import Maturin.Memory.PageTable
import Mathlib.Logic.Function.Basic

/-!
# The translation that a page table computes

`translate` walks the three levels in memory. For the walk to behave like a finite map the tables
must be separate frames: a ghost function gives each table its role in the tree, the table an entry
points to has the role that the entry's slot asks for, and so the tables on the way to different
pages are different frames.

`PtInv e tr tabs` says that the page table on the state computes the translation `tr`, with leaf
tables for the regions `tabs`. The environment `e` fixes what the page table must leave alone: how
many root slots it owns, the entries of the slots it shares, and the contents of foreign frames.
Pages are numbered by `vpn`, and a region is the 512 pages of a leaf table.
-/

open Exec

namespace Maturin

/-! ## Walking the tables -/

/-- The entry in a slot of a table. -/
def entryAt (mem : ByteMem) (table i : ℕ) : ℕ := mem.load 8 (getPteAt table i)

/-- The table that a slot points to. -/
def nextTable (mem : ByteMem) (table i : ℕ) : Option ℕ :=
  if PageTableEntry.isValid (entryAt mem table i) then
    some (PageTableEntry.addr (entryAt mem table i))
  else none

/-- The mapping in a slot of a leaf table. -/
def mappingAt (mem : ByteMem) (table i : ℕ) : Option (ℕ × PTEFlags) :=
  if PageTableEntry.isValid (entryAt mem table i) then
    some (PageTableEntry.addr (entryAt mem table i), PageTableEntry.flags (entryAt mem table i))
  else none

/-- The leaf table of a region. -/
def leafTable (mem : ByteMem) (root r : ℕ) : Option ℕ :=
  (nextTable mem root (r / 512)).bind fun mid ↦ nextTable mem mid (r % 512)

/-- The frame and the flags to which a page is mapped. -/
def translate (mem : ByteMem) (root n : ℕ) : Option (ℕ × PTEFlags) :=
  (leafTable mem root (n / 512)).bind fun leaf ↦ mappingAt mem leaf (n % 512)

theorem nextTable_congr {mem mem' : ByteMem} {t i : ℕ} (h : entryAt mem' t i = entryAt mem t i) :
    nextTable mem' t i = nextTable mem t i := by
  rw [nextTable, nextTable, h]

theorem addr_of_nextTable {mem : ByteMem} {t i q : ℕ} (h : nextTable mem t i = some q) :
    PageTableEntry.addr (entryAt mem t i) = q := by
  rw [nextTable] at h
  split_ifs at h
  exact Option.some.inj h

theorem mappingAt_congr {mem mem' : ByteMem} {t i : ℕ} (h : entryAt mem' t i = entryAt mem t i) :
    mappingAt mem' t i = mappingAt mem t i := by
  rw [mappingAt, mappingAt, h]

/-! ## The tree of tables -/

/-- What a table is in the tree: the root, the table of a root slot or the table of a region. -/
inductive Role
  | root
  | mid (i : ℕ)
  | leaf (r : ℕ)
  deriving DecidableEq

namespace Role

/-- The role of the table that a slot points to. -/
def child : Role → ℕ → Option Role
  | root, i => some (mid i)
  | mid i, j => some (leaf (512 * i + j))
  | leaf _, _ => none

/-- The number of slots that belong to the address space. -/
def width (lim : ℕ) : Role → ℕ
  | root => lim
  | mid _ => 512
  | leaf _ => 512

theorem width_le {lim : ℕ} (h : lim ≤ 512) (r : Role) : r.width lim ≤ 512 := by
  cases r with
  | root => exact h
  | mid _ => exact le_rfl
  | leaf _ => exact le_rfl

end Role

/-- The tables form a tree of separate frames. -/
structure Tables (lim : ℕ) (role : ℕ → Option Role) (pt : PageTable) (mem : ByteMem) : Prop where
  root : role pt.rootPaddr = some .root
  frame : ∀ {p r}, role p = some r → p ∈ pt.frames
  next : ∀ {p r i r' q}, role p = some r → r.child i = some r' → i < r.width lim →
    nextTable mem p i = some q → role q = some r'

namespace Tables

variable {lim : ℕ} {role : ℕ → Option Role} {pt : PageTable} {mem mem' : ByteMem} {r n l : ℕ}

/-- The tables on the way to a region have the roles of the region. -/
theorem role_leafTable (h : Tables lim role pt mem) (hr : r / 512 < lim)
    (hl : leafTable mem pt.rootPaddr r = some l) : role l = some (.leaf r) := by
  obtain ⟨mid, hmid, hleaf⟩ := Option.bind_eq_some_iff.mp hl
  have hrole := h.next h.root (i := r / 512) rfl hr hmid
  have hlt : r % 512 < 512 := Nat.mod_lt _ (by norm_num)
  have := h.next hrole (i := r % 512) rfl hlt hleaf
  rwa [Nat.div_add_mod] at this

/-- Memory changes that keep the entries of all tables but leaf tables keep the tree. -/
theorem congr (h : Tables lim role pt mem)
    (hmem : ∀ p r i, role p = some r → (∀ s, r ≠ .leaf s) → i < r.width lim →
      entryAt mem' p i = entryAt mem p i) : Tables lim role pt mem' where
  root := h.root
  frame := h.frame
  next {p r i r' q} hp hchild hi hq := by
    have hleaf : ∀ s, r ≠ .leaf s := by
      rintro s rfl
      cases hchild
    rw [nextTable_congr (hmem p r i hp hleaf hi)] at hq
    exact h.next hp hchild hi hq

theorem leafTable_congr (h : Tables lim role pt mem) (hr : r / 512 < lim)
    (hmem : ∀ p r i, role p = some r → (∀ s, r ≠ .leaf s) → i < r.width lim →
      entryAt mem' p i = entryAt mem p i) :
    leafTable mem' pt.rootPaddr r = leafTable mem pt.rootPaddr r := by
  have hroot := nextTable_congr (hmem _ _ (r / 512) h.root (fun _ ↦ nofun) hr)
  rw [leafTable, leafTable, hroot]
  cases hmid : nextTable mem pt.rootPaddr (r / 512) with
  | none => rw [Option.bind_none, Option.bind_none]
  | some mid =>
    have hrole := h.next h.root (i := r / 512) rfl hr hmid
    have hlt : r % 512 < 512 := Nat.mod_lt _ (by norm_num)
    rw [Option.bind_some, Option.bind_some]
    exact nextTable_congr (hmem _ _ _ hrole (fun _ ↦ nofun) hlt)

/-- The tree over fewer root slots. -/
theorem shrink (h : Tables lim role pt mem) {k : ℕ} (hk : k ≤ lim) : Tables k role pt mem where
  root := h.root
  frame := h.frame
  next {p r i r' q} hp hchild hi hq := by
    refine h.next hp hchild ?_ hq
    cases r with
    | root => exact lt_of_lt_of_le hi hk
    | mid _ => exact hi
    | leaf _ => exact hi

end Tables

/-! ## The invariant -/

/-- What a page table must leave alone. -/
structure PtEnv where
  /-- The number of root slots that the page table owns. -/
  lim : ℕ
  /-- The entries of the other root slots. -/
  shared : ℕ → ℕ
  /-- The frames of others. -/
  foreign : Set ℕ
  /-- The contents of the foreign frames. -/
  mem : ByteMem
  /-- An allocation had failed before. -/
  oom : Bool

variable {σ φ : Type} [FrameAllocator σ]

/-- Frames of others are in use, are not tables, and keep their contents. -/
def ForeignKept (e : PtEnv) (pt : PageTable) (w : World σ φ) : Prop :=
  ∀ p ∈ e.foreign, PageAligned p ∧ p ∈ w.inUse ∧ p ∉ pt.frames ∧
    ∀ x, p ≤ x → x < p + PAGE_SIZE → w.mem x = e.mem x

/-- The page table computes the translation `tr` and has leaf tables for the regions `tabs`. -/
structure PtInv (e : PtEnv) (tr : ℕ → Option (ℕ × PTEFlags)) (tabs : Set ℕ)
    (s : PageTable × World σ φ) : Prop where
  lim_le : e.lim ≤ 512
  tables : ∃ role, Tables e.lim role s.1 s.2.mem
  page : ∀ p ∈ s.1.frames, PageAligned p ∧ p < 2 ^ 56 ∧ p ∈ s.2.inUse
  translate_eq : ∀ n, n / 2 ^ 18 < e.lim → translate s.2.mem s.1.rootPaddr n = tr n
  tabs : ∀ r ∈ tabs, r / 512 < e.lim → (leafTable s.2.mem s.1.rootPaddr r).isSome
  shared : ∀ i, e.lim ≤ i → i < 512 → entryAt s.2.mem s.1.rootPaddr i = e.shared i
  foreign : ForeignKept e s.1 s.2
  oom : e.oom = true → s.2.oom = true

namespace PtInv

variable {e : PtEnv} {tr : ℕ → Option (ℕ × PTEFlags)} {tabs : Set ℕ} {s : PageTable × World σ φ}
variable {v : ℕ}

/-! ## Entries of different slots do not overlap -/

omit [FrameAllocator σ] in
theorem slot_disjoint {p q i j : ℕ} (hp : PageAligned p) (hq : PageAligned q) (hi : i < 512)
    (hj : j < 512) (hne : p ≠ q ∨ i ≠ j) :
    getPteAt p i + 8 ≤ getPteAt q j ∨ getPteAt q j + 8 ≤ getPteAt p i := by
  simp only [PageAligned, PAGE_SIZE] at hp hq
  simp only [getPteAt]
  omega

omit [FrameAllocator σ] in
/-- A slot lies in its table. -/
theorem slot_mem {p i : ℕ} (hi : i < 512) :
    p ≤ getPteAt p i ∧ getPteAt p i + 8 ≤ p + PAGE_SIZE := by
  simp only [getPteAt, PAGE_SIZE]
  omega

/-- What a store to a slot does to the entries of a table. -/
theorem entryAt_store {mem : ByteMem} {p q i j bits : ℕ} (hp : PageAligned p) (hq : PageAligned q)
    (hi : i < 512) (hj : j < 512) (hbits : bits < 2 ^ 64) :
    entryAt (mem.store 8 (getPteAt p i) bits) q j =
      if p = q ∧ i = j then bits else entryAt mem q j := by
  rw [entryAt]
  split_ifs with h
  · rw [h.1, h.2]
    exact ByteMem.load_store hbits
  · refine ByteMem.load_store_of_disjoint (slot_disjoint hq hp hj hi ?_)
    by_contra hne
    rw [not_or, not_ne_iff, not_ne_iff] at hne
    exact h ⟨hne.1.symm, hne.2.symm⟩

/-- A store to a table keeps the foreign frames. -/
theorem foreign_store {pt : PageTable} {w : World σ φ} {p i bits : ℕ} (h : ForeignKept e pt w)
    (hp : PageAligned p) (hmem : p ∈ pt.frames) (hi : i < 512) :
    ForeignKept e pt (w.setMem (w.mem.store 8 (getPteAt p i) bits)) := by
  intro q hq
  obtain ⟨hal, huse, hnot, hsame⟩ := h q hq
  refine ⟨hal, huse, hnot, fun x hl hr ↦ ?_⟩
  have hne : p ≠ q := fun heq ↦ hnot (heq ▸ hmem)
  have hslot := slot_mem (p := p) hi
  rw [← hsame x hl hr, World.setMem_mem]
  refine ByteMem.store_of_notMem ?_
  rcases page_disjoint hp hal hne with h | h <;> omega

omit [FrameAllocator σ] in
theorem translate_eq_none_of_leafTable {mem : ByteMem} {root n : ℕ}
    (h : leafTable mem root (n / 512) = none) : translate mem root n = none := by
  rw [translate, h, Option.bind_none]

/-! ## Writing a leaf entry -/

/-- The mapping that the bits of an entry stand for. -/
def decode (bits : ℕ) : Option (ℕ × PTEFlags) :=
  if PageTableEntry.isValid bits then some (PageTableEntry.addr bits, PageTableEntry.flags bits)
  else none

theorem decode_zero : decode 0 = none := if_neg (by decide)

omit [FrameAllocator σ] in
theorem decode_setAll {paddr : ℕ} (hal : PageAligned paddr) (hlt : paddr < 2 ^ 56)
    (fl : PTEFlags) :
    decode (PageTableEntry.setAll paddr fl.mapped) = some (paddr, fl.mapped) := by
  rw [decode, PageTableEntry.isValid, PageTableEntry.flags_setAll,
    PageTableEntry.addr_setAll hal hlt,
    if_pos (by simpa using fl.mapped_valid)]

omit [FrameAllocator σ] in
theorem decode_setFlags (bits : ℕ) (fl : PTEFlags) :
    decode (PageTableEntry.setFlags bits fl.mapped) =
      some (PageTableEntry.addr bits, fl.mapped) := by
  rw [decode, PageTableEntry.isValid, PageTableEntry.flags_setFlags, PageTableEntry.addr_setFlags,
    if_pos (by simpa using fl.mapped_valid)]

/-- Writing the leaf entry of a page changes the translation of that page alone. -/
theorem store_leaf (h : PtInv e tr tabs s) {n leaf bits : ℕ} (hn : n / 2 ^ 18 < e.lim)
    (hleaf : leafTable s.2.mem s.1.rootPaddr (n / 512) = some leaf) (hbits : bits < 2 ^ 64) :
    PtInv e (Function.update tr n (decode bits)) tabs
      (s.1, s.2.setMem (s.2.mem.store 8 (getPteAt leaf (n % 512)) bits)) := by
  obtain ⟨role, hT⟩ := h.tables
  have hregion : ∀ m : ℕ, m / 2 ^ 18 = m / 512 / 512 := fun m ↦ by omega
  have hrole : role leaf = some (.leaf (n / 512)) := hT.role_leafTable (hregion n ▸ hn) hleaf
  have hleafPage := h.page leaf (hT.frame hrole)
  have hslot : n % 512 < 512 := Nat.mod_lt _ (by norm_num)
  have hentry : ∀ t r j, role t = some r → j < 512 →
      entryAt (s.2.mem.store 8 (getPteAt leaf (n % 512)) bits) t j =
        if leaf = t ∧ n % 512 = j then bits else entryAt s.2.mem t j := fun t r j ht hj ↦
    entryAt_store hleafPage.1 (h.page t (hT.frame ht)).1 hslot hj hbits
  have hkeep : ∀ t r j, role t = some r → (∀ u, r ≠ .leaf u) → j < 512 →
      entryAt (s.2.mem.store 8 (getPteAt leaf (n % 512)) bits) t j = entryAt s.2.mem t j := by
    intro t r j ht hnot hj
    rw [hentry t r j ht hj, if_neg]
    rintro ⟨rfl, -⟩
    rw [hrole, Option.some.injEq] at ht
    exact hnot _ ht.symm
  have hkeep' : ∀ t r j, role t = some r → (∀ u, r ≠ .leaf u) → j < r.width e.lim →
      entryAt (s.2.mem.store 8 (getPteAt leaf (n % 512)) bits) t j = entryAt s.2.mem t j :=
    fun t r j ht hnot hj ↦ hkeep t r j ht hnot (hj.trans_le (r.width_le h.lim_le))
  exact
    { lim_le := h.lim_le
      tables := ⟨role, hT.congr hkeep'⟩
      page := h.page
      translate_eq := by
        intro m hm
        have hm' : m / 512 / 512 < e.lim := hregion m ▸ hm
        rw [translate, World.setMem_mem, hT.leafTable_congr hm' hkeep']
        cases hl : leafTable s.2.mem s.1.rootPaddr (m / 512) with
        | none =>
          have hne : m ≠ n := by
            rintro rfl
            rw [hleaf] at hl
            exact absurd hl (by simp)
          rw [Function.update_of_ne hne, ← h.translate_eq m hm, translate_eq_none_of_leafTable hl,
            Option.bind_none]
        | some l =>
          have hl' := hT.role_leafTable hm' hl
          have hm512 : m % 512 < 512 := Nat.mod_lt _ (by norm_num)
          have hval := hentry l _ _ hl' hm512
          rw [Option.bind_some]
          by_cases heq : m = n
          · subst heq
            rw [hleaf, Option.some.injEq] at hl
            rw [if_pos ⟨hl, rfl⟩] at hval
            rw [Function.update_self, mappingAt, hval]
            rfl
          · have hdiff : ¬ (leaf = l ∧ n % 512 = m % 512) := by
              rintro ⟨rfl, hmod⟩
              rw [hrole, Option.some.injEq, Role.leaf.injEq] at hl'
              omega
            rw [if_neg hdiff] at hval
            rw [Function.update_of_ne heq, ← h.translate_eq m hm, translate, hl,
              Option.bind_some]
            exact mappingAt_congr hval
      tabs := by
        intro r hr hlim
        rw [World.setMem_mem, hT.leafTable_congr hlim hkeep']
        exact h.tabs r hr hlim
      shared := by
        intro i hle hlt
        rw [World.setMem_mem, hkeep _ _ _ hT.root (fun _ ↦ nofun) hlt]
        exact h.shared i hle hlt
      foreign := foreign_store h.foreign hleafPage.1 (hT.frame hrole) hslot
      oom := h.oom }

/-! ## The slots of others -/

/-- A page table may give up root slots. -/
theorem shrink (h : PtInv e tr tabs s) {k : ℕ} (hk : k ≤ e.lim) :
    PtInv { e with lim := k, shared := entryAt s.2.mem s.1.rootPaddr } tr tabs s where
  lim_le := hk.trans h.lim_le
  tables := by
    obtain ⟨role, hT⟩ := h.tables
    exact ⟨role, hT.shrink hk⟩
  page := h.page
  translate_eq n hn := h.translate_eq n (lt_of_lt_of_le hn hk)
  tabs r hr hlim := h.tabs r hr (lt_of_lt_of_le hlim hk)
  shared _ _ _ := rfl
  foreign := h.foreign
  oom := h.oom

/-- Writing a root slot that belongs to others. -/
theorem store_shared (h : PtInv e tr tabs s) {i bits : ℕ} (hle : e.lim ≤ i) (hi : i < 512)
    (hbits : bits < 2 ^ 64) :
    PtInv { e with shared := Function.update e.shared i bits } tr tabs
      (s.1, s.2.setMem (s.2.mem.store 8 (getPteAt s.1.rootPaddr i) bits)) := by
  obtain ⟨role, hT⟩ := h.tables
  have hroot := h.page _ (hT.frame hT.root)
  have hentry : ∀ t r j, role t = some r → j < 512 →
      entryAt (s.2.mem.store 8 (getPteAt s.1.rootPaddr i) bits) t j =
        if s.1.rootPaddr = t ∧ i = j then bits else entryAt s.2.mem t j := fun t r j ht hj ↦
    entryAt_store hroot.1 (h.page t (hT.frame ht)).1 hi hj hbits
  have hkeep : ∀ t r j, role t = some r → j < r.width e.lim →
      entryAt (s.2.mem.store 8 (getPteAt s.1.rootPaddr i) bits) t j = entryAt s.2.mem t j := by
    intro t r j ht hj
    rw [hentry t r j ht (hj.trans_le (r.width_le h.lim_le)), if_neg]
    rintro ⟨rfl, rfl⟩
    rw [hT.root, Option.some.injEq] at ht
    rw [← ht, Role.width] at hj
    omega
  have hleaf : ∀ r, r / 512 < e.lim →
      leafTable (s.2.mem.store 8 (getPteAt s.1.rootPaddr i) bits) s.1.rootPaddr r
        = leafTable s.2.mem s.1.rootPaddr r := fun r hr ↦
    hT.leafTable_congr hr fun t r j ht _ hj ↦ hkeep t r j ht hj
  refine ⟨h.lim_le, ⟨role, hT.congr fun t r j ht _ hj ↦ hkeep t r j ht hj⟩, h.page, ?_, ?_, ?_,
    foreign_store h.foreign hroot.1 (hT.frame hT.root) hi, h.oom⟩
  · intro n hn
    have hn' : n / 512 / 512 < e.lim := by
      dsimp only at hn
      omega
    rw [← h.translate_eq n hn, translate, translate, World.setMem_mem, hleaf _ hn']
    cases hl : leafTable s.2.mem s.1.rootPaddr (n / 512) with
    | none => rw [Option.bind_none, Option.bind_none]
    | some l =>
      rw [Option.bind_some, Option.bind_some]
      have hmod : n % 512 < 512 := Nat.mod_lt _ (by norm_num)
      exact mappingAt_congr (hkeep l _ _ (hT.role_leafTable hn' hl) hmod)
  · intro r hr hlim
    rw [World.setMem_mem, hleaf r hlim]
    exact h.tabs r hr hlim
  · intro j hlej hj
    rw [World.setMem_mem, hentry _ _ j hT.root hj]
    dsimp only
    by_cases hij : i = j
    · rw [if_pos ⟨rfl, hij⟩, ← hij, Function.update_self]
    · rw [if_neg fun h ↦ hij h.2, Function.update_of_ne fun h ↦ hij h.symm]
      exact h.shared j hlej hj

/-! ## Creating a table -/

/-- Slot `i` of the table `p` now points to the new, empty table `q`. -/
structure Grown (frames : List ℕ) (mem mem' : ByteMem) (p i q : ℕ) : Prop where
  same : ∀ t ∈ frames, ∀ j < 512, t ≠ p ∨ j ≠ i → entryAt mem' t j = entryAt mem t j
  link : nextTable mem' p i = some q
  empty : ∀ j < 512, entryAt mem' q j = 0

omit [FrameAllocator σ] in
theorem grown_of_fresh {frames : List ℕ} {mem : ByteMem} {p i q : ℕ}
    (hframes : ∀ t ∈ frames, PageAligned t) (hp : p ∈ frames) (hi : i < 512) (hq : q ∉ frames)
    (hal : PageAligned q) (hlt : q < 2 ^ 56) :
    Grown frames mem ((ByteMem.fill q PAGE_SIZE 0 mem).store 8 (getPteAt p i)
      (PageTableEntry.setAll q PTEFlags.VALID)) p i q := by
  have hbits : PageTableEntry.setAll q PTEFlags.VALID < 2 ^ 64 :=
    PageTableEntry.setAll_lt (hlt.trans (by norm_num))
  have hvalid : PageTableEntry.isValid (PageTableEntry.setAll q PTEFlags.VALID) = true := by
    rw [PageTableEntry.isValid, PageTableEntry.flags_setAll]
    decide
  refine ⟨fun t ht j hj hne ↦ ?_, ?_, fun j hj ↦ ?_⟩
  · rw [entryAt_store (hframes p hp) (hframes t ht) hi hj hbits,
      if_neg (by tauto), entryAt, entryAt]
    refine ByteMem.load_congr fun x hl hr ↦ ByteMem.fill_of_notMem ?_
    have hslot := slot_mem (p := t) hj
    have hne' : t ≠ q := fun heq ↦ hq (heq ▸ ht)
    rcases page_disjoint (hframes t ht) hal hne' with h | h <;> omega
  · have hval : entryAt ((ByteMem.fill q PAGE_SIZE 0 mem).store 8 (getPteAt p i)
        (PageTableEntry.setAll q PTEFlags.VALID)) p i = _ :=
      entryAt_store (hframes p hp) (hframes p hp) hi hi hbits
    rw [if_pos ⟨rfl, rfl⟩] at hval
    rw [nextTable, hval, if_pos hvalid, PageTableEntry.addr_setAll hal hlt]
  · have hne : p ≠ q := fun heq ↦ hq (heq ▸ hp)
    rw [entryAt_store (hframes p hp) hal hi hj hbits, if_neg (fun h ↦ hne h.1), entryAt]
    have hslot := slot_mem (p := q) hj
    exact ByteMem.load_eq_zero fun x hl hr ↦ ByteMem.fill_of_mem (by omega)

section grown

variable {lim : ℕ} {role : ℕ → Option Role} {pt : PageTable} {mem mem' : ByteMem} {p i q : ℕ}
variable {rp rq : Role}

omit [FrameAllocator σ]

theorem nextTable_of_empty {j : ℕ} (h : entryAt mem q j = 0) : nextTable mem q j = none := by
  rw [nextTable, h]
  rfl

theorem mappingAt_of_empty {j : ℕ} (h : entryAt mem q j = 0) : mappingAt mem q j = none := by
  rw [mappingAt, h]
  rfl

/-- The new table has the role of its slot. -/
theorem tables_of_grown (hT : Tables lim role pt mem) (hlim : lim ≤ 512) (hp : role p = some rp)
    (hchild : rp.child i = some rq) (hq : q ∉ pt.frames)
    (hg : Grown pt.frames mem mem' p i q) :
    Tables lim (Function.update role q (some rq)) { pt with frames := pt.frames ++ [q] } mem' := by
  have hold : ∀ {t r}, role t = some r → t ≠ q := by
    rintro t r ht rfl
    exact hq (hT.frame ht)
  refine ⟨?_, fun {t r} ht ↦ ?_, fun {t r j r' u} ht hc hj hu ↦ ?_⟩
  · rw [Function.update_of_ne (hold hT.root)]
    exact hT.root
  · by_cases htq : t = q
    · exact List.mem_append_right _ (List.mem_singleton.mpr htq)
    · rw [Function.update_of_ne htq] at ht
      exact List.mem_append_left _ (hT.frame ht)
  · have hj512 : j < 512 := hj.trans_le (r.width_le hlim)
    by_cases htq : t = q
    · rw [htq, nextTable_of_empty (hg.empty j hj512)] at hu
      exact absurd hu (by simp)
    · rw [Function.update_of_ne htq] at ht
      by_cases hslot : t = p ∧ j = i
      · obtain ⟨rfl, rfl⟩ := hslot
        rw [hg.link, Option.some.injEq] at hu
        rw [hp, Option.some.injEq] at ht
        subst ht hu
        rw [hchild] at hc
        rw [Function.update_self, hc]
      · rw [nextTable_congr (hg.same t (hT.frame ht) j hj512 (by tauto))] at hu
        have hrole := hT.next ht hc hj hu
        rw [Function.update_of_ne (hold hrole)]
        exact hrole

/-- A new table translates no page, and no existing path is lost. -/
theorem leafTable_of_grown (hT : Tables lim role pt mem) (hlim : lim ≤ 512) {r : ℕ}
    (hr : r / 512 < lim) (hnone : nextTable mem p i = none)
    (hg : Grown pt.frames mem mem' p i q) :
    leafTable mem' pt.rootPaddr r = leafTable mem pt.rootPaddr r ∨
      leafTable mem pt.rootPaddr r = none ∧
        (leafTable mem' pt.rootPaddr r = none ∨ leafTable mem' pt.rootPaddr r = some q) := by
  have hr512 : r % 512 < 512 := Nat.mod_lt _ (by norm_num)
  rw [leafTable, leafTable]
  by_cases hroot : pt.rootPaddr = p ∧ r / 512 = i
  · rw [hroot.1, hroot.2, hnone, hg.link, Option.bind_some, Option.bind_none,
      nextTable_of_empty (hg.empty _ hr512)]
    exact Or.inl rfl
  · rw [nextTable_congr (hg.same _ (hT.frame hT.root) _ (hr.trans_le hlim) (by tauto))]
    cases hmid : nextTable mem pt.rootPaddr (r / 512) with
    | none => exact Or.inl (by rw [Option.bind_none, Option.bind_none])
    | some mid =>
      have hrole := hT.next hT.root (i := r / 512) rfl hr hmid
      rw [Option.bind_some, Option.bind_some]
      by_cases hslot : mid = p ∧ r % 512 = i
      · rw [hslot.1, hslot.2, hnone, hg.link]
        exact Or.inr ⟨rfl, Or.inr rfl⟩
      · exact Or.inl (nextTable_congr (hg.same _ (hT.frame hrole) _ hr512 (by tauto)))

theorem translate_of_grown (hT : Tables lim role pt mem) (hlim : lim ≤ 512) (hp : role p = some rp)
    (hchild : rp.child i = some rq) (hnone : nextTable mem p i = none)
    (hg : Grown pt.frames mem mem' p i q) {n : ℕ} (hn : n / 512 / 512 < lim) :
    translate mem' pt.rootPaddr n = translate mem pt.rootPaddr n := by
  have hn512 : n % 512 < 512 := Nat.mod_lt _ (by norm_num)
  rcases leafTable_of_grown hT hlim hn hnone hg with hsame | ⟨hold, hnew | hnew⟩
  · rw [translate, translate, hsame]
    cases hl : leafTable mem pt.rootPaddr (n / 512) with
    | none => rw [Option.bind_none, Option.bind_none]
    | some l =>
      have hrole := hT.role_leafTable hn hl
      have hne : l ≠ p := by
        rintro rfl
        rw [hrole, Option.some.injEq] at hp
        rw [← hp] at hchild
        exact absurd hchild (by simp [Role.child])
      rw [Option.bind_some, Option.bind_some]
      exact mappingAt_congr (hg.same l (hT.frame hrole) _ hn512 (Or.inl hne))
  · rw [translate_eq_none_of_leafTable hold, translate_eq_none_of_leafTable hnew]
  · rw [translate_eq_none_of_leafTable hold, translate, hnew, Option.bind_some,
      mappingAt_of_empty (hg.empty _ hn512)]

end grown

/-! ## The methods -/

/-- What creating a table does, as far as the rest of the walk needs it. -/
structure Linked (e : PtEnv) (tr : ℕ → Option (ℕ × PTEFlags)) (tabs : Set ℕ)
    (role : ℕ → Option Role)
    (s s' : PageTable × World σ φ) (p i q : ℕ) (rq : Role) (role' : ℕ → Option Role) : Prop where
  tables : Tables e.lim role' s'.1 s'.2.mem
  inv : PtInv e tr tabs s'
  root_eq : s'.1.rootPaddr = s.1.rootPaddr
  role_eq : role' q = some rq
  link : nextTable s'.2.mem p i = some q
  keep : ∀ t r, role t = some r → role' t = some r ∧
    ∀ j < 512, t ≠ p ∨ j ≠ i → entryAt s'.2.mem t j = entryAt s.2.mem t j

variable {role : ℕ → Option Role} {p i : ℕ} {rp rq : Role}

theorem Linked.exists_of_eq {s' : PageTable × World σ φ} {q q' : ℕ} {role' : ℕ → Option Role}
    (h : Linked e tr tabs role s s' p i q rq role') (hq : q' = q) :
    ∃ role', Linked e tr tabs role s s' p i q' rq role' :=
  ⟨role', hq ▸ h⟩

theorem linked_of_fresh (h : PtInv e tr tabs s) (hT : Tables e.lim role s.1 s.2.mem)
    (hp : role p = some rp) (hchild : rp.child i = some rq) (hi : i < rp.width e.lim)
    (hnone : nextTable s.2.mem p i = none) {q : ℕ} {w : World σ φ} (hq : q ∉ s.2.inUse)
    (hal : PageAligned q) (hlt : q < 2 ^ 56) (huse : w.inUse = insert q s.2.inUse)
    (hmem : w.mem = (ByteMem.fill q PAGE_SIZE 0 s.2.mem).store 8 (getPteAt p i)
      (PageTableEntry.setAll q PTEFlags.VALID)) (hoom : w.oom = s.2.oom) :
    Linked e tr tabs role s ({ s.1 with frames := s.1.frames ++ [q] }, w) p i q rq
      (Function.update role q (some rq)) := by
  have hlim := h.lim_le
  have hi512 : i < 512 := hi.trans_le (rp.width_le hlim)
  have hqf : q ∉ s.1.frames := fun hmem ↦ hq (h.page q hmem).2.2
  have hg : Grown s.1.frames s.2.mem w.mem p i q := by
    rw [hmem]
    exact grown_of_fresh (fun t ht ↦ (h.page t ht).1) (hT.frame hp) hi512 hqf hal hlt
  have hT' := tables_of_grown hT hlim hp hchild hqf hg
  have hold : ∀ {t r}, role t = some r → t ≠ q := by
    rintro t r ht rfl
    exact hqf (hT.frame ht)
  refine ⟨hT', ⟨hlim, ⟨_, hT'⟩, ?_, ?_, ?_, ?_, ?_, ?_⟩, rfl, Function.update_self _ _ _, hg.link,
    fun t r ht ↦ ⟨by rw [Function.update_of_ne (hold ht), ht], hg.same t (hT.frame ht)⟩⟩
  · intro t ht
    dsimp only
    rw [huse]
    rcases List.mem_append.mp ht with ht | ht
    · exact ⟨(h.page t ht).1, (h.page t ht).2.1, Set.mem_insert_of_mem q (h.page t ht).2.2⟩
    · rw [List.mem_singleton.mp ht]
      exact ⟨hal, hlt, Set.mem_insert q _⟩
  · intro n hn
    rw [← h.translate_eq n hn]
    exact translate_of_grown hT hlim hp hchild hnone hg (by omega)
  · intro r hr hrlim
    have hsome := h.tabs r hr hrlim
    rcases leafTable_of_grown hT hlim hrlim hnone hg with hsame | ⟨hnil, -⟩
    · exact (congrArg Option.isSome hsame).trans hsome
    · rw [hnil] at hsome
      exact absurd hsome (by simp)
  · intro j hle hj
    rw [← h.shared j hle hj]
    refine hg.same _ (hT.frame hT.root) j hj ?_
    by_cases hroot : s.1.rootPaddr = p
    · right
      rintro rfl
      rw [← hroot, hT.root, Option.some.injEq] at hp
      rw [← hp, Role.width] at hi
      omega
    · exact Or.inl hroot
  · intro t ht
    obtain ⟨htal, htuse, htnot, hsame⟩ := h.foreign t ht
    have htq : t ≠ q := fun heq ↦ hq (heq ▸ htuse)
    have htp : p ≠ t := fun heq ↦ htnot (heq ▸ hT.frame hp)
    refine ⟨htal, by rw [huse]; exact Set.mem_insert_of_mem q htuse, ?_, fun x hl hr ↦ ?_⟩
    · intro hmem
      rcases List.mem_append.mp hmem with hmem | hmem
      · exact htnot hmem
      · exact htq (List.mem_singleton.mp hmem)
    · have hslot := slot_mem (p := p) hi512
      dsimp only
      rw [hmem, ← hsame x hl hr, ByteMem.store_of_notMem, ByteMem.fill_of_notMem]
      · rcases page_disjoint htal hal htq with h | h <;> omega
      · rcases page_disjoint (h.page p (hT.frame hp)).1 htal htp with h | h <;> omega
  · intro he
    dsimp only
    rw [hoom]
    exact h.oom he

omit [FrameAllocator σ] in
theorem wp_readPte {pte : ℕ} {Q : ℕ → PageTable × World σ φ → Prop}
    {E : Panic → PageTable × World σ φ → Prop} :
    wp (readPte pte) Q E s ↔ Q (s.2.mem.load 8 pte) s := Iff.rfl

omit [FrameAllocator σ] in
theorem wp_writePte {pte bits : ℕ} {Q : Unit → PageTable × World σ φ → Prop}
    {E : Panic → PageTable × World σ φ → Prop} :
    wp (writePte pte bits) Q E s ↔ Q () (s.1, s.2.setMem (s.2.mem.store 8 pte bits)) := Iff.rfl

/-- A failed allocation changes nothing but the ghost flag. -/
theorem set_oom (h : PtInv e tr tabs s) : PtInv e tr tabs (s.1, { s.2 with oom := true }) :=
  { h with foreign := h.foreign, page := h.page, oom := fun _ ↦ rfl }

theorem wp_getAddrCreate (h : PtInv e tr tabs s) (hT : Tables e.lim role s.1 s.2.mem)
    (hp : role p = some rp) (hchild : rp.child i = some rq) (hi : i < rp.width e.lim) :
    wp (PageTable.getAddrCreate (getPteAt p i)) (fun r s' ↦ match r with
      | some q => ∃ role', Linked e tr tabs role s s' p i q rq role'
      | none => nextTable s.2.mem p i = none ∧ PtInv e tr tabs s' ∧ s'.2.oom = true) noPanic s := by
  rw [PageTable.getAddrCreate, wp_bind, wp_readPte]
  split_ifs with hvalid
  · have hlink : nextTable s.2.mem p i = some _ := if_pos hvalid
    rw [wp_pure]
    exact ⟨role, hT, h, rfl, hT.next hp hchild hi hlink, hlink, fun t r ht ↦ ⟨ht, fun _ _ _ ↦ rfl⟩⟩
  · have hnone : nextTable s.2.mem p i = none := if_neg hvalid
    rw [wp_bind, PageTable.allocAndSet, wp_bind, wp_onSnd]
    refine wp_imp wp_frameNew fun r w hr ↦ ?_
    cases r with
    | none =>
      rw [wp_pure, wp_pure]
      subst hr
      exact ⟨hnone, h.set_oom, rfl⟩
    | some q =>
      obtain ⟨hq, hal, hlt, huse, hmem, hoom⟩ := hr
      rw [wp_bind, wp_onSnd, frameZero, wp_modify, wp_bind, wp_writePte, wp_pure, wp_bind,
        wp_modify, wp_bind, wp_readPte, wp_pure]
      have hlink := linked_of_fresh (w := (w.setMem (ByteMem.fill q PAGE_SIZE 0 w.mem)).setMem
        ((ByteMem.fill q PAGE_SIZE 0 w.mem).store 8 (getPteAt p i)
          (PageTableEntry.setAll q PTEFlags.VALID))) h hT hp hchild hi hnone hq hal hlt
        huse (by rw [hmem]; rfl) hoom
      exact hlink.exists_of_eq (addr_of_nextTable hlink.link)

/-- `find_pte_create` returns the leaf entry, and creates the tables on the way. -/
theorem wp_findPteCreate (h : PtInv e tr tabs s) (hv : vpn v / 2 ^ 18 < e.lim) :
    wp (PageTable.findPteCreate v) (fun r s' ↦ match r with
      | some pte => ∃ leaf, leafTable s'.2.mem s'.1.rootPaddr (vpn v / 512) = some leaf ∧
          pte = getPteAt leaf (vpn v % 512) ∧ PtInv e tr (insert (vpn v / 512) tabs) s'
      | none => tr (vpn v) = none ∧ PtInv e tr tabs s' ∧ s'.2.oom = true) noPanic s := by
  obtain ⟨role, hT⟩ := h.tables
  have hidx : pteIdxOfVirtAddr v
      = (vpn v / 512 / 512, vpn v / 512 % 512, vpn v % 512) := by
    rw [pteIdxOfVirtAddr_eq, Prod.mk.injEq, Prod.mk.injEq]
    omega
  have hlim : vpn v / 512 / 512 < e.lim := by omega
  have hlt : vpn v / 512 % 512 < 512 := Nat.mod_lt _ (by norm_num)
  rw [PageTable.findPteCreate, hidx]
  dsimp only
  rw [wp_bind, wp_get, wp_bind]
  refine wp_imp (h.wp_getAddrCreate hT hT.root rfl hlim) fun r s₁ hr ↦ ?_
  cases r with
  | none =>
    obtain ⟨hnone, hinv, hoom⟩ := hr
    refine ⟨?_, hinv, hoom⟩
    rw [← h.translate_eq _ hv, translate, leafTable, hnone, Option.bind_none, Option.bind_none]
  | some mid =>
    obtain ⟨role₁, hmid⟩ := hr
    rw [wp_bind]
    refine wp_imp (hmid.inv.wp_getAddrCreate hmid.tables hmid.role_eq rfl hlt) fun r s₂ hr ↦ ?_
    have hroot : nextTable s₁.2.mem s₁.1.rootPaddr (vpn v / 512 / 512) = some mid := by
      rw [hmid.root_eq]
      exact hmid.link
    cases r with
    | none =>
      obtain ⟨hnone, hinv, hoom⟩ := hr
      refine ⟨?_, hinv, hoom⟩
      rw [← hmid.inv.translate_eq _ hv, translate, leafTable, hroot, Option.bind_some, hnone,
        Option.bind_none]
    | some leaf =>
      obtain ⟨role₂, hleaf⟩ := hr
      -- the second step keeps the root entry, since the root is not the table of a root slot
      have hne : s₁.1.rootPaddr ≠ mid := by
        intro heq
        have := hmid.tables.root
        rw [heq, hmid.role_eq] at this
        exact absurd this (by simp)
      have hkeep := (hleaf.keep _ _ hmid.tables.root).2 (vpn v / 512 / 512)
        (hlim.trans_le h.lim_le) (Or.inl hne)
      have hpath : leafTable s₂.2.mem s₂.1.rootPaddr (vpn v / 512) = some leaf := by
        rw [leafTable, hleaf.root_eq, nextTable_congr hkeep, hroot]
        exact hleaf.link
      refine ⟨leaf, hpath, rfl, { hleaf.inv with tabs := fun r hr hrlim ↦ ?_ }⟩
      rcases Set.mem_insert_iff.mp hr with rfl | hr
      · rw [hpath]
        rfl
      · exact hleaf.inv.tabs r hr hrlim

omit [FrameAllocator σ] in
/-- The entry of a page, once its leaf table is known. -/
theorem mappingAt_of_leafTable {mem : ByteMem} {root n leaf : ℕ}
    (h : leafTable mem root (n / 512) = some leaf) :
    mappingAt mem leaf (n % 512) = translate mem root n := by
  rw [translate, h, Option.bind_some]

theorem isValid_iff (h : PtInv e tr tabs s) {n leaf : ℕ} (hn : n / 2 ^ 18 < e.lim)
    (hleaf : leafTable s.2.mem s.1.rootPaddr (n / 512) = some leaf) :
    PageTableEntry.isValid (entryAt s.2.mem leaf (n % 512)) = (tr n).isSome := by
  rw [← h.translate_eq n hn, ← mappingAt_of_leafTable hleaf, mappingAt]
  split_ifs with hv <;> simp [hv]

/-- `map` adds a mapping, or only the tables when the flags are empty. -/
theorem wp_map (h : PtInv e tr tabs s) (hv : vpn v / 2 ^ 18 < e.lim) {paddr : ℕ} {fl : PTEFlags}
    (hal : PageAligned paddr) (hlt : paddr < 2 ^ 56) :
    wpe (PageTable.map v paddr fl) (fun r s' ↦ match r with
      | .ok () => tr (vpn v) = none ∧
          PtInv e (if fl = 0 then tr else Function.update tr (vpn v) (some (paddr, fl.mapped)))
            (insert (vpn v / 512) tabs) s'
      | .error .pageTable_pageAlreadyMapped => (tr (vpn v)).isSome ∧ PtInv e tr tabs s'
      | .error .pageTable_frameAllocFailed => tr (vpn v) = none ∧ PtInv e tr tabs s' ∧
          s'.2.oom = true
      | .error _ => False) noPanic s := by
  rw [PageTable.map, wpe_bind, wpe_lift]
  refine wp_imp (h.wp_findPteCreate hv) fun r s₁ hr ↦ ?_
  cases r with
  | none => exact hr
  | some pte =>
    obtain ⟨leaf, hleaf, rfl, hinv⟩ := hr
    have hvalid := hinv.isValid_iff hv hleaf
    rw [entryAt] at hvalid
    dsimp only
    rw [wpe_bind, wpe_lift, wp_readPte]
    dsimp only
    rw [hvalid]
    by_cases hsome : (tr (vpn v)).isSome = true
    · rw [if_pos hsome]
      exact ⟨hsome, { hinv with tabs := fun r hr ↦ hinv.tabs r (Set.mem_insert_of_mem _ hr) }⟩
    · have hnone : tr (vpn v) = none := by simpa using hsome
      rw [if_neg hsome]
      -- an entry without flags is not written
      by_cases hfl : fl = 0
      · rw [if_neg (not_not.mpr hfl)]
        refine ⟨hnone, ?_⟩
        rw [if_pos hfl]
        exact hinv
      · rw [if_pos hfl, wpe_lift, wp_writePte]
        have hbits : PageTableEntry.setAll paddr fl.mapped < 2 ^ 64 :=
          PageTableEntry.setAll_lt (hlt.trans (by norm_num))
        have hstore := hinv.store_leaf hv hleaf hbits
        rw [decode_setAll hal hlt] at hstore
        refine ⟨hnone, ?_⟩
        rw [if_neg hfl]
        exact hstore

/-- `set_flags` changes the flags of a mapped page. -/
theorem wp_setFlags (h : PtInv e tr tabs s) (hv : vpn v / 2 ^ 18 < e.lim) {fl : PTEFlags} :
    wpe (PageTable.setFlags v fl) (fun r s' ↦ match r with
      | .ok () => ∃ m, tr (vpn v) = some m ∧
          PtInv e (Function.update tr (vpn v) (some (m.1, fl.mapped))) tabs s'
      | .error .pageTable_pageNotMapped => tr (vpn v) = none ∧ PtInv e tr tabs s'
      | .error .pageTable_frameAllocFailed => tr (vpn v) = none ∧ PtInv e tr tabs s' ∧
          s'.2.oom = true
      | .error _ => False) noPanic s := by
  rw [PageTable.setFlags, wpe_bind, wpe_lift]
  refine wp_imp (h.wp_findPteCreate hv) fun r s₁ hr ↦ ?_
  cases r with
  | none => exact hr
  | some pte =>
    obtain ⟨leaf, hleaf, rfl, hinv'⟩ := hr
    have hinv : PtInv e tr tabs s₁ :=
      { hinv' with tabs := fun r hr ↦ hinv'.tabs r (Set.mem_insert_of_mem _ hr) }
    have hvalid := hinv.isValid_iff hv hleaf
    have hmap := (mappingAt_of_leafTable hleaf).trans (hinv.translate_eq _ hv)
    rw [entryAt] at hvalid
    dsimp only
    rw [wpe_bind, wpe_lift, wp_readPte]
    dsimp only
    rw [hvalid]
    split_ifs with hsome
    · rw [mappingAt, entryAt, if_pos (hvalid.trans hsome)] at hmap
      rw [wpe_lift, wp_writePte]
      have hbits : PageTableEntry.setFlags (s₁.2.mem.load 8 (getPteAt leaf (vpn v % 512)))
          fl.mapped < 2 ^ 64 := PageTableEntry.setFlags_lt (ByteMem.load_lt 8 _ _)
      have hstore := hinv.store_leaf hv hleaf hbits
      rw [decode_setFlags] at hstore
      exact ⟨_, hmap.symm, hstore⟩
    · exact ⟨by simpa using hsome, hinv⟩

omit [FrameAllocator σ] in
/-- `find_pte` returns the leaf entry if its tables exist. -/
theorem wp_findPte :
    wp (PageTable.findPte v) (fun r s' ↦ s' = s ∧
      r = (leafTable s.2.mem s.1.rootPaddr (vpn v / 512)).map fun leaf ↦
        getPteAt leaf (vpn v % 512)) noPanic s := by
  have hidx : pteIdxOfVirtAddr v
      = (vpn v / 512 / 512, vpn v / 512 % 512, vpn v % 512) := by
    rw [pteIdxOfVirtAddr_eq, Prod.mk.injEq, Prod.mk.injEq]
    omega
  rw [PageTable.findPte, hidx]
  dsimp only
  rw [wp_bind, wp_get, wp_bind, wp_readPte, leafTable]
  cases hmid : PageTableEntry.isValid (entryAt s.2.mem s.1.rootPaddr (vpn v / 512 / 512)) with
  | false =>
    rw [entryAt] at hmid
    rw [hmid, nextTable, entryAt, hmid]
    exact ⟨rfl, rfl⟩
  | true =>
    have hnext : nextTable s.2.mem s.1.rootPaddr (vpn v / 512 / 512) = some _ := if_pos hmid
    rw [entryAt] at hmid
    rw [hmid, hnext]
    rw [if_neg (by decide), wp_bind, wp_readPte, Option.bind_some, nextTable]
    cases hleaf : PageTableEntry.isValid (entryAt s.2.mem (PageTableEntry.addr (entryAt s.2.mem
        s.1.rootPaddr (vpn v / 512 / 512))) (vpn v / 512 % 512)) with
    | false =>
      have hleaf' := hleaf
      rw [entryAt, entryAt] at hleaf'
      rw [hleaf']
      exact ⟨rfl, rfl⟩
    | true =>
      have hleaf' := hleaf
      rw [entryAt, entryAt] at hleaf'
      rw [hleaf']
      exact ⟨rfl, rfl⟩

/-- `unmap` removes a mapping. -/
theorem wp_unmap (h : PtInv e tr tabs s) (hv : vpn v / 2 ^ 18 < e.lim) :
    wpe (PageTable.unmap v) (fun r s' ↦ match r with
      | .ok () => (tr (vpn v)).isSome ∧ PtInv e (Function.update tr (vpn v) none) tabs s'
      | .error .pageTable_pageNotMapped => tr (vpn v) = none ∧ s' = s
      | .error .pageTable_virtNotFound => tr (vpn v) = none ∧ s' = s
      | .error _ => False) noPanic s := by
  rw [PageTable.unmap, wpe_bind, wpe_lift]
  refine wp_imp wp_findPte fun r s₁ hr ↦ ?_
  obtain ⟨rfl, rfl⟩ := hr
  cases hl : leafTable s₁.2.mem s₁.1.rootPaddr (vpn v / 512) with
  | none =>
    refine ⟨?_, rfl⟩
    rw [← h.translate_eq _ hv]
    exact translate_eq_none_of_leafTable hl
  | some leaf =>
    have hvalid := h.isValid_iff hv hl
    rw [entryAt] at hvalid
    rw [Option.map_some]
    dsimp only
    rw [wpe_bind, wpe_lift, wp_readPte]
    dsimp only
    rw [hvalid]
    cases hsome : (tr (vpn v)).isSome with
    | false => exact ⟨by simpa using hsome, rfl⟩
    | true =>
      rw [if_neg (by decide), wpe_lift, wp_writePte]
      have hstore := h.store_leaf hv hl (by norm_num : 0 < 2 ^ 64)
      rw [decode_zero] at hstore
      exact ⟨rfl, hstore⟩

end PtInv

end Maturin
