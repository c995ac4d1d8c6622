import Maturin.Memory.Bitmap
import Maturin.Memory.Translate

/-!
# A page table refines a finite map

The specification of a page table is a partial function from page numbers to a frame and flags.
`PtReach` are the states reached from `PageTable::new` by `map`, `unmap` and `set_flags`, with the
specification that the successful calls amount to.
-/

open Exec

namespace Maturin

variable {σ φ : Type} [FrameAllocator σ]

namespace PtInv

/-- An empty page table that leaves the frames `foreign` alone. -/
theorem wpe_new {w : World σ φ} (shared : ℕ → ℕ) {foreign : Set ℕ}
    (hforeign : ∀ p ∈ foreign, PageAligned p ∧ p ∈ w.inUse) :
    wpe PageTable.new (fun r w' ↦ match r with
      | .ok pt => PtInv ⟨512, shared, foreign, w.mem, w.oom⟩ (fun _ ↦ none) ∅ (pt, w') ∧
          pt.rootPaddr ∉ w.inUse
      | .error e => e = .pageTable_frameAllocFailed ∧ w' = { w with oom := true }) noPanic w := by
  rw [PageTable.new, wpe_bind, wpe_lift]
  refine wp_imp wp_frameNew fun r w₁ hr ↦ ?_
  cases r with
  | none => exact ⟨rfl, hr⟩
  | some q =>
    obtain ⟨hq, hal, hlt, huse, hmem, hoom⟩ := hr
    dsimp only
    rw [wpe_bind, wpe_lift, frameZero, wp_modify]
    -- the root is full of zeros, so that no entry is valid
    have hempty : ∀ j < 512, entryAt (ByteMem.fill q PAGE_SIZE 0 w₁.mem) q j = 0 := by
      intro j hj
      have hslot := slot_mem (p := q) hj
      exact ByteMem.load_eq_zero fun x hl hr ↦ ByteMem.fill_of_mem (by omega)
    have hleaf : ∀ r, r / 512 < 512 →
        leafTable (ByteMem.fill q PAGE_SIZE 0 w₁.mem) q r = none := by
      intro r hr
      rw [leafTable, nextTable_of_empty (hempty _ hr), Option.bind_none]
    refine ⟨⟨le_rfl, ⟨fun p ↦ if p = q then some .root else none, if_pos rfl, ?_, ?_⟩, ?_, ?_, ?_,
      ?_, ?_, ?_⟩, hq⟩
    · intro p r hp
      split_ifs at hp with heq
      exact List.mem_singleton.mpr heq
    · intro p r i r' u hp hc hi hu
      split_ifs at hp with heq
      rw [Option.some.injEq] at hp
      subst hp heq
      rw [World.setMem_mem, nextTable_of_empty (hempty i hi)] at hu
      exact absurd hu (by simp)
    · intro p hp
      rw [List.mem_singleton.mp hp]
      refine ⟨hal, hlt, ?_⟩
      rw [World.setMem_inUse, huse]
      exact Set.mem_insert q _
    · intro n hn
      exact translate_eq_none_of_leafTable (hleaf (n / 512) (by dsimp only at hn; omega))
    · intro r hr
      exact absurd hr (Set.notMem_empty r)
    · intro i hle hi
      exact absurd hi (not_lt.mpr hle)
    · intro p hp
      obtain ⟨hpal, hpuse⟩ := hforeign p hp
      -- a foreign frame was in use, and the root was not
      have hne : p ≠ q := fun heq ↦ hq (heq ▸ hpuse)
      refine ⟨hpal, ?_, fun hmem ↦ hne (List.mem_singleton.mp hmem), fun x hl hr ↦ ?_⟩
      · rw [World.setMem_inUse, huse]
        exact Set.mem_insert_of_mem q hpuse
      · rw [World.setMem_mem, ByteMem.fill_of_notMem, hmem]
        rcases page_disjoint hpal hal hne with h | h <;> omega
    · intro h
      rw [World.setMem_oom, hoom]
      exact h

end PtInv

/-! ## Runs -/

/-- A call on a page table. -/
inductive PtCall
  | map (vaddr paddr : ℕ) (flags : PTEFlags)
  | unmap (vaddr : ℕ)
  | setFlags (vaddr : ℕ) (flags : PTEFlags)

namespace PtCall

/-- The page that the call is about. -/
def page : PtCall → ℕ
  | map vaddr _ _ => vpn vaddr
  | unmap vaddr => vpn vaddr
  | setFlags vaddr _ => vpn vaddr

def run : PtCall → ExceptT OSError (EStateM Panic (PageTable × World σ φ)) Unit
  | map vaddr paddr flags => PageTable.map vaddr paddr flags
  | unmap vaddr => PageTable.unmap vaddr
  | setFlags vaddr flags => PageTable.setFlags vaddr flags

/-- The frames that are mapped are page-aligned physical addresses. -/
def WellFormed : PtCall → Prop
  | map _ paddr _ => PageAligned paddr ∧ paddr < 2 ^ 56
  | unmap _ => True
  | setFlags _ _ => True

/-- What a successful call does to the specification. -/
def apply (spec : ℕ → Option (ℕ × PTEFlags)) : PtCall → ℕ → Option (ℕ × PTEFlags)
  | map vaddr paddr flags =>
    if flags = 0 then spec else Function.update spec (vpn vaddr) (some (paddr, flags.mapped))
  | unmap vaddr => Function.update spec (vpn vaddr) none
  | setFlags vaddr flags =>
    Function.update spec (vpn vaddr) ((spec (vpn vaddr)).map fun m ↦ (m.1, flags.mapped))

/-- The results that a call may have: `oom` says whether an allocation has failed. -/
def Allowed (spec : ℕ → Option (ℕ × PTEFlags)) (oom : Bool) : PtCall → Except OSError Unit → Prop
  | map vaddr _ _, .ok () => spec (vpn vaddr) = none
  | map vaddr _ _, .error e => match e with
    | .pageTable_pageAlreadyMapped => (spec (vpn vaddr)).isSome
    | .pageTable_frameAllocFailed => spec (vpn vaddr) = none ∧ oom = true
    | _ => False
  | unmap vaddr, .ok () => (spec (vpn vaddr)).isSome
  | unmap vaddr, .error e => (e = .pageTable_pageNotMapped ∨ e = .pageTable_virtNotFound) ∧
    spec (vpn vaddr) = none
  | setFlags vaddr _, .ok () => (spec (vpn vaddr)).isSome
  | setFlags vaddr _, .error e => match e with
    | .pageTable_pageNotMapped => spec (vpn vaddr) = none
    | .pageTable_frameAllocFailed => spec (vpn vaddr) = none ∧ oom = true
    | _ => False

/-- The specification after a call with the given result. -/
def after (spec : ℕ → Option (ℕ × PTEFlags)) (c : PtCall) : Except OSError Unit →
    ℕ → Option (ℕ × PTEFlags)
  | .ok () => c.apply spec
  | .error _ => spec

/-- A call concerns one page. -/
theorem after_of_ne {spec : ℕ → Option (ℕ × PTEFlags)} {c : PtCall} {r : Except OSError Unit}
    {n : ℕ} (h : n ≠ c.page) : c.after spec r n = spec n := by
  cases r with
  | error e => rfl
  | ok u =>
    cases c with
    | map vaddr paddr flags =>
      rw [after, apply]
      split_ifs
      · rfl
      · exact Function.update_of_ne h _ _
    | unmap vaddr => exact Function.update_of_ne h _ _
    | setFlags vaddr flags => exact Function.update_of_ne h _ _

end PtCall

/-- The states reached from an empty page table, with their specification. -/
inductive PtReach : (ℕ → Option (ℕ × PTEFlags)) → PageTable × World σ φ → Prop
  | new {w w' : World σ φ} {pt : PageTable} (hrun : PageTable.new.run.run w = .ok (.ok pt) w') :
    PtReach (fun _ ↦ none) (pt, w')
  | step {spec : ℕ → Option (ℕ × PTEFlags)} {s s' : PageTable × World σ φ} {c : PtCall}
    {r : Except OSError Unit} (hreach : PtReach spec s) (hc : c.WellFormed)
    (hrun : c.run.run.run s = .ok r s') : PtReach (c.after spec r) s'

/-- The environment of a page table that owns the whole address space. -/
def PtEnv.whole : PtEnv := ⟨512, fun _ ↦ 0, ∅, fun _ ↦ 0, false⟩

variable {spec : ℕ → Option (ℕ × PTEFlags)} {s : PageTable × World σ φ} {tabs : Set ℕ}

/-- One call keeps the invariant, for the specification that its result asks for. -/
theorem wpe_call (h : PtInv PtEnv.whole spec tabs s) {c : PtCall} (hc : c.WellFormed) :
    wpe c.run (fun r s' ↦ c.Allowed spec s'.2.oom r ∧
      ∃ tabs', PtInv PtEnv.whole (c.after spec r) tabs' s') noPanic s := by
  have hpage : ∀ v, vpn v / 2 ^ 18 < PtEnv.whole.lim := by
    intro v
    have := vpn_lt v
    simp only [PtEnv.whole]
    omega
  cases c with
  | map vaddr paddr flags =>
    refine wpe_imp (h.wp_map (hpage vaddr) hc.1 hc.2) fun r s' hr ↦ ?_
    rcases r with e | u
    · cases e
      case pageTable_pageAlreadyMapped => exact ⟨hr.1, tabs, hr.2⟩
      case pageTable_frameAllocFailed => exact ⟨⟨hr.1, hr.2.2⟩, tabs, hr.2.1⟩
      all_goals exact hr.elim
    · exact ⟨hr.1, _, hr.2⟩
  | unmap vaddr =>
    refine wpe_imp (h.wp_unmap (hpage vaddr)) fun r s' hr ↦ ?_
    rcases r with e | u
    · cases e
      case pageTable_pageNotMapped => exact ⟨⟨Or.inl rfl, hr.1⟩, tabs, hr.2 ▸ h⟩
      case pageTable_virtNotFound => exact ⟨⟨Or.inr rfl, hr.1⟩, tabs, hr.2 ▸ h⟩
      all_goals exact hr.elim
    · exact ⟨hr.1, tabs, hr.2⟩
  | setFlags vaddr flags =>
    refine wpe_imp (h.wp_setFlags (hpage vaddr)) fun r s' hr ↦ ?_
    rcases r with e | u
    · cases e
      case pageTable_pageNotMapped => exact ⟨hr.1, tabs, hr.2⟩
      case pageTable_frameAllocFailed => exact ⟨⟨hr.1, hr.2.2⟩, tabs, hr.2.1⟩
      all_goals exact hr.elim
    · obtain ⟨m, hm, hinv⟩ := hr
      refine ⟨Option.isSome_iff_exists.mpr ⟨m, hm⟩, tabs, ?_⟩
      rw [PtCall.after, PtCall.apply, hm]
      exact hinv

theorem ptInv_of_reach (h : PtReach spec s) : ∃ tabs, PtInv PtEnv.whole spec tabs s := by
  induction h with
  | new hrun =>
    have hnew := wp_ok (PtInv.wpe_new (fun _ ↦ 0) fun p hp ↦ absurd hp (Set.notMem_empty p)) hrun
    exact ⟨∅, { hnew.1 with foreign := fun p hp ↦ absurd hp (Set.notMem_empty p), oom := nofun }⟩
  | step _ hc hrun ih =>
    obtain ⟨tabs, hinv⟩ := ih
    exact (wp_ok (wpe_call hinv hc) hrun).2

/-- What `find_pte` finds: the mapping in the leaf entry, if there is one and it is valid. -/
def PageTable.lookup (s : PageTable × World σ φ) (vaddr : ℕ) : Option (ℕ × PTEFlags) :=
  match (PageTable.findPte vaddr).run s with
  | .ok (some pte) t => PtInv.decode (t.2.mem.load 8 pte)
  | _ => none

omit [FrameAllocator σ] in
theorem lookup_eq_translate (s : PageTable × World σ φ) (v : ℕ) :
    PageTable.lookup s v = translate s.2.mem s.1.rootPaddr (vpn v) := by
  obtain ⟨r, t, hrun, rfl, rfl⟩ := exists_of_wp (PtInv.wp_findPte (s := s) (v := v))
  rw [PageTable.lookup, hrun, translate]
  cases leafTable t.2.mem t.1.rootPaddr (vpn v / 512) with
  | none => rfl
  | some leaf => rfl

theorem lookup_of_inv (h : PtInv PtEnv.whole spec tabs s) (v : ℕ) :
    PageTable.lookup s v = spec (vpn v) := by
  have hlim : vpn v / 2 ^ 18 < PtEnv.whole.lim := by
    have := vpn_lt v
    simp only [PtEnv.whole]
    omega
  rw [lookup_eq_translate, h.translate_eq _ hlim]

/-- **A page table refines a finite map.** In every reachable state lookup agrees with the
specification; every call returns a result that the specification allows, changes the translation
of its own page as the specification says, and changes no translation at all when it fails. -/
theorem pageTable_refines (h : PtReach spec s) :
    (∀ v, PageTable.lookup s v = spec (vpn v)) ∧
    ∀ c : PtCall, c.WellFormed → wpe c.run (fun r s' ↦
      c.Allowed spec s'.2.oom r ∧
      (∀ v, PageTable.lookup s' v = c.after spec r (vpn v)) ∧
      (∀ v, vpn v ≠ c.page → PageTable.lookup s' v = PageTable.lookup s v) ∧
      (∀ e, r = .error e → ∀ v, PageTable.lookup s' v = PageTable.lookup s v)) noPanic s := by
  obtain ⟨tabs, hinv⟩ := ptInv_of_reach h
  have hlookup := lookup_of_inv hinv
  refine ⟨hlookup, fun c hc ↦ wpe_imp (wpe_call hinv hc) fun r s' hr ↦ ?_⟩
  obtain ⟨hallowed, tabs', hinv'⟩ := hr
  have hlookup' := lookup_of_inv hinv'
  refine ⟨hallowed, hlookup', fun v hv ↦ ?_, ?_⟩
  · rw [hlookup', hlookup, PtCall.after_of_ne hv]
  · rintro e rfl v
    rw [hlookup', hlookup]
    rfl

/-- An empty page table after boot maps nothing, and its first mapping succeeds or runs out of
frames. -/
theorem pageTable_refines_boot : ∃ s : PageTable × World Bitmap Unit, PtReach (fun _ ↦ none) s ∧
    wpe (PageTable.map 0x1000 0x80001000 PTEFlags.READ) (fun r s' ↦
      (r = .ok () → PageTable.lookup s' 0x1000 = some (0x80001000, PTEFlags.READ.mapped)) ∧
      (∀ e, r = .error e → PageTable.lookup s' 0x1000 = none)) noPanic s := by
  have hnew : PtReach (fun _ ↦ none) (_ : PageTable × World Bitmap Unit) :=
    PtReach.new (w := World.boot) rfl
  refine ⟨_, hnew, ?_⟩
  obtain ⟨hlookup, hcall⟩ := pageTable_refines hnew
  refine wpe_imp (hcall (.map 0x1000 0x80001000 PTEFlags.READ) ⟨by decide, by norm_num⟩)
    fun r s' hr ↦ ⟨?_, fun e he ↦ ?_⟩
  · rintro rfl
    exact hr.2.1 0x1000
  · rw [hr.2.2.2 e he, hlookup]

end Maturin
