import Maturin.Memory.Coherence
import Maturin.Memory.Spaces
import Maturin.Memory.Teardown
import Mathlib.Logic.Relation

/-!
# Fork isolates address spaces

After a fork the parent and the child have address spaces with the same areas and the same bytes,
and no common frame. What either of them does from then on, by calls of the kernel or by stores of
its own, shows nothing to the other. This is the frame rule for separate address spaces, once the
two are known to be separate, for any number of them.
-/

open Exec

namespace Maturin

variable {σ φ F : Type} [FrameAllocator σ] [FileStore F φ]

/-! ## What one address space does -/

/-- All address spaces, and the machine that they share. -/
structure Spaces (σ φ F : Type) where
  space : ℕ → Option (MemorySet F)
  world : World σ φ

/-- Address space `i` is called, with page-aligned user addresses, or its program stores a byte. An
area that is pushed brings its own frames. -/
inductive SpaceAct (kernelRoot i : ℕ) : Spaces σ φ F → Spaces σ φ F → Prop
  | call {S : ℕ → Option (MemorySet F)} {w w' : World σ φ} {ms : MemorySet F} {c : SpaceCall F}
      {r : Except OSError Unit × MemorySet F} (hi : S i = some ms) (hc : c.User ∅ ms w)
      (hpush : ∀ vma, c = .push vma → ∀ p ∈ otherFrames kernelRoot S i, some p ∉ vma.pma.frames)
      (hrun : (c.run ms).run w = .ok r w') :
      SpaceAct kernelRoot i ⟨S, w⟩ ⟨Function.update S i (some r.2), w'⟩
  | store {S : ℕ → Option (MemorySet F)} {w w' : World σ φ} {ms : MemorySet F} {vaddr : ℕ}
      {b : UInt8} (hi : S i = some ms) (hv : vaddr < USER_VIRT_ADDR_LIMIT)
      (hstore : ms.userStore vaddr b w = some w') : SpaceAct kernelRoot i ⟨S, w⟩ ⟨S, w'⟩

variable {kernelRoot i k : ℕ} {s t : Spaces σ φ F} {ms child : MemorySet F} {w w' : World σ φ}

/-- Address spaces without unentered pages are separate. -/
def Spaces.Apart (kernelRoot : ℕ) (s : Spaces σ φ F) : Prop :=
  Separate kernelRoot s.space (fun _ ↦ ∅) s.world

/-- The address spaces other than `i` are the same and show the same. -/
def Spaces.Unseen (i : ℕ) (s t : Spaces σ φ F) : Prop :=
  ∀ j, j ≠ i → t.space j = s.space j ∧ ∀ ms, s.space j = some ms → ∀ vaddr,
    ms.byteAt t.world vaddr = ms.byteAt s.world vaddr

/-- What one address space does keeps all separate, and the others see nothing of it. -/
theorem SpaceAct.apart (h : SpaceAct kernelRoot i s t) (hs : s.Apart kernelRoot) :
    t.Apart kernelRoot ∧ s.Unseen i t := by
  cases h with
  | @call S w w' ms c r hi hc hpush hrun =>
    obtain ⟨shared, g, hok, hD⟩ := hs.inv hi
    have hstep := hok.wp_run_frame hD (hs.elsewhere hi) hc.proper hpush
    obtain ⟨g', hok', heffect, hoom, hkept⟩ := wp_ok hstep hrun
    have hinv : SpaceInv (spaceEnv shared) ∅ r.2 w' :=
      ⟨g', hok', by
        have hfree := SpaceInv.free_effect hok hD hok' heffect
        rwa [hc.unentered_eq] at hfree⟩
    have happart := hs.update ⟨shared, hinv⟩ hkept hoom
    rw [Function.update_eq_self] at happart
    refine ⟨happart, fun j hne ↦ ⟨Function.update_of_ne hne _ _, fun msj hj vaddr ↦ ?_⟩⟩
    exact Separate.byteAt_eq hkept hne hj vaddr
  | @store S w w' ms vaddr b hi hv hstore =>
    obtain ⟨shared, g, hok, hD⟩ := hs.inv hi
    obtain ⟨hok', hoom, hkept⟩ := hok.userStore (hv.trans (by norm_num)) hstore
    have hothers := hkept _ (hs.elsewhere hi)
    have happart := hs.update ⟨shared, _, hok', free_refresh hD⟩ hothers fun ho ↦ hoom.trans ho
    rw [Function.update_eq_self, Function.update_eq_self_iff.mpr hi.symm] at happart
    refine ⟨happart, fun j hne ↦ ⟨rfl, fun msj hj vaddr ↦ ?_⟩⟩
    exact Separate.byteAt_eq hothers hne hj vaddr

/-- Neither do they see anything of all that it does. -/
theorem unseen_of_acts (h : Relation.ReflTransGen (SpaceAct kernelRoot i) s t)
    (hs : s.Apart kernelRoot) : t.Apart kernelRoot ∧ s.Unseen i t := by
  induction h with
  | refl => exact ⟨hs, fun j _ ↦ ⟨rfl, fun _ _ _ ↦ rfl⟩⟩
  | tail _ hact ih =>
    obtain ⟨hmid, hunseen⟩ := ih
    obtain ⟨hlast, hunseen'⟩ := hact.apart hmid
    refine ⟨hlast, fun j hne ↦ ?_⟩
    obtain ⟨hspace, hbytes⟩ := hunseen j hne
    obtain ⟨hspace', hbytes'⟩ := hunseen' j hne
    refine ⟨hspace'.trans hspace, fun ms hj vaddr ↦ ?_⟩
    rw [hbytes' ms (hspace.trans hj), hbytes ms hj]

/-! ## New address spaces -/

omit [FileStore F φ] in
/-- Where there are no address spaces, they are apart. -/
theorem apart_none (hal : PageAligned kernelRoot) (huse : kernelRoot ∈ w.inUse) :
    (⟨fun _ ↦ none, w⟩ : Spaces σ φ F).Apart kernelRoot where
  root := ⟨hal, huse⟩
  inv h := absurd h (by simp)
  apart h := absurd h (by simp)

/-- A new address space is apart from the others. -/
theorem Spaces.Apart.new (hs : s.Apart kernelRoot)
    (hnew : (MemorySet.newMemorySetForTask kernelRoot).run s.world = .ok ms w') :
    (⟨Function.update s.space k (some ms), w'⟩ : Spaces σ φ F).Apart kernelRoot := by
  have hN : ∀ p ∈ otherFrames kernelRoot s.space k, PageAligned p ∧ p ∈ s.world.inUse :=
    fun p hp ↦ hs.of_otherFrames hp
  have hok := wp_ok (wp_newMemorySetForTask (F := F) hN (Or.inl rfl)) hnew
  have henv : userEnv kernelRoot (otherFrames kernelRoot s.space k) s.world =
      (spaceEnv (entryAt s.world.mem kernelRoot)).protect (otherFrames kernelRoot s.space k)
        s.world := by
    rw [PtEnv.protect, spaceEnv, userEnv, Set.empty_union]
  have hoom := hok.oom
  rw [henv] at hok
  obtain ⟨hok', hkept⟩ := hok.keptFrom
  have hinv : ∃ shared, SpaceInv (spaceEnv shared) ∅ ms w' :=
    ⟨_, _, hok', fun n c hc ↦ absurd hc (by simp)⟩
  have happart := hs.update hinv hkept hoom
  rwa [Function.update_eq_self] at happart

/-- Calls one after another. -/
theorem acts_of_runAll (root : ℕ) {calls : List (SpaceCall F)} {S : ℕ → Option (MemorySet F)}
    (hc : ∀ c ∈ calls, (∀ ms (w : World σ φ), c.User ∅ ms w) ∧
      ∀ vma, c ≠ .push vma) (hi : S i = some ms)
    (hrun : (SpaceCall.runAll calls ms).run w = .ok child w') :
    Relation.ReflTransGen (SpaceAct root i) ⟨S, w⟩
      ⟨Function.update S i (some child), w'⟩ := by
  induction calls generalizing S ms w with
  | nil =>
    obtain ⟨rfl, rfl⟩ := EStateM.Result.ok.inj hrun
    rw [Function.update_eq_self_iff.mpr hi.symm]
  | cons c calls ih =>
    obtain ⟨r, u, hfirst, hrest⟩ := exists_of_run_bind hrun
    obtain ⟨huser, hpush⟩ := hc c List.mem_cons_self
    have hact : SpaceAct root i ⟨S, w⟩ ⟨Function.update S i (some r.2), u⟩ :=
      .call hi (huser ms w) (fun vma hvma ↦ absurd hvma (hpush vma)) hfirst
    have htail := ih (fun c hmem ↦ hc c (List.mem_cons_of_mem _ hmem))
      (Function.update_self i (some r.2) S) hrest
    rw [Function.update_idem] at htail
    exact .head hact htail

/-! ## Fork -/

/-- The child has copies of the user areas of the parent, with the same bytes in the same pages, and
no frame of the parent. -/
structure ForkOf (ms : MemorySet F) (w : World σ φ) (child : MemorySet F) (w' : World σ φ) :
    Prop where
  areas : List.Forall₂ AreaCopy (ms.areaMap.iter.filter VmArea.isUser) child.areaMap.iter
  bytes : ∀ vaddr area, ms.areaMap.find vaddr = some area → area.isUser = true →
    child.byteAt w' vaddr = ms.byteAt w vaddr
  disjoint : Disjoint ms.frames child.frames

omit [FrameAllocator σ] [FileStore F φ] in
/-- Copied cells show the same bytes. -/
theorem Cell.Copied.byte_eq {c c' : Cell} (h : c.Copied c') (vaddr : ℕ) :
    (c'.flags, c'.page.map fun pg ↦ pg.data (vaddr % PAGE_SIZE)) =
      (c.flags, c.page.map fun pg ↦ pg.data (vaddr % PAGE_SIZE)) := by
  have hpage := h.page
  rw [h.flags_eq]
  generalize c.page = x, c'.page = y at hpage
  cases hpage with
  | none => rfl
  | some hrel => rw [Option.map_some, Option.map_some, hrel.2 _ (Nat.mod_lt _ (by norm_num))]

theorem SpaceOk.bytes_of_copied {e e' : PtEnv} {g g' : ℕ → Option Cell} (h : SpaceOk e g ms w)
    (h' : SpaceOk e' g' child w') (hcopied : ∀ n, Option.Rel Cell.Copied (userCells g n) (g' n))
    {vaddr : ℕ} {area : VmArea F} (hfind : ms.areaMap.find vaddr = some area)
    (huser : area.isUser = true) : child.byteAt w' vaddr = ms.byteAt w vaddr := by
  rw [h.byteAt_eq, h'.byteAt_eq]
  cases hg : g (vaddr / PAGE_SIZE) with
  | none => exact absurd ((h.find_eq_none hg).symm.trans hfind) (by simp)
  | some c =>
    obtain ⟨a, L, -, hfind', hflags, -, -⟩ := h.exists_find hg
    obtain rfl := Option.some.inj (hfind'.symm.trans hfind)
    have hcell : userCells g (vaddr / PAGE_SIZE) = some c := by
      rw [userCells, hg, Option.filter_some, if_pos]
      rwa [← hflags]
    have hrel := hcopied (vaddr / PAGE_SIZE)
    rw [hcell] at hrel
    generalize g' (vaddr / PAGE_SIZE) = x at hrel
    cases hrel with
    | some hc => rw [Option.map_some, Option.map_some, hc.byte_eq]

/-- **Fork isolates and preserves memory.** Unless a frame is missing, the copy of an address space
has its user areas and their bytes in frames of its own. All address spaces, the parent among them,
show what they showed. Whatever an address space does from then on, the others, be it the parent or
the child, see nothing of it. -/
theorem fork_isolates (hs : s.Apart kernelRoot) (hi : s.space i = some ms) (hk : s.space k = none)
    (hareas : ∀ a ∈ ms.areaMap.iter, a.InUser) :
    wpe (ms.copyAsFork kernelRoot) (fun r w' ↦ w'.oom = false → ∃ child, r = .ok child ∧
      ForkOf ms s.world child w' ∧
      s.Unseen k ⟨Function.update s.space k (some child), w'⟩ ∧
      ∀ m t, Relation.ReflTransGen (SpaceAct kernelRoot m)
        ⟨Function.update s.space k (some child), w'⟩ t →
          Spaces.Unseen m ⟨Function.update s.space k (some child), w'⟩ t)
      (fun _ w' ↦ w'.oom = true) s.world := by
  obtain ⟨shared, g, hok, hD⟩ := hs.inv hi
  have hik : i ≠ k := by
    rintro rfl
    exact absurd (hi.symm.trans hk) (by simp)
  have hms : ms.frames ⊆ otherFrames kernelRoot s.space k := fun p hp ↦ Or.inr ⟨i, ms, hik, hi, hp⟩
  have houtside : ¬ ∃ a ∈ ms.areaMap.iter, ¬ a.InUser := by
    rintro ⟨a, ha, hnot⟩
    exact hnot (hareas a ha)
  have hcopy := hok.wpe_copyAsFork_frame (fun p hp ↦ hs.of_otherFrames hp) (Or.inl rfl) hms
  refine wpe_mono hcopy (fun r w' hr hoom ↦ ?_) fun _ w' hw ↦ hw.resolve_right houtside
  cases r with
  | error err =>
    have htrue := hr.resolve_right houtside
    exact absurd (htrue.symm.trans hoom) (by simp)
  | ok child =>
    obtain ⟨g', hok', hcopied, hforall, hoom', hkept⟩ := hr
    have hfree : ∀ n c, g' n = some c → n ∉ (∅ : Set ℕ) → c.Free := by
      intro n c hc _
      have hrel := hcopied n
      rw [hc] at hrel
      generalize userCells g n = x at hrel
      cases hrel with
      | some hcell => exact hcell.free
    have happart := hs.update ⟨_, g', hok', hfree⟩ hkept hoom'
    rw [Function.update_eq_self] at happart
    refine ⟨child, rfl, ⟨hforall, fun vaddr area hfind huser ↦ ?_, ?_⟩, fun j hne ↦ ⟨?_, ?_⟩,
      fun m t hacts ↦ (unseen_of_acts hacts happart).2⟩
    · exact hok.bytes_of_copied hok' hcopied hfind huser
    · rw [Set.disjoint_left]
      exact fun p hp ↦ (hkept p (hms hp)).2
    · exact Function.update_of_ne hne _ _
    · exact fun msj hj vaddr ↦ Separate.byteAt_eq hkept hne hj vaddr

/-- A process touches a page and forks. -/
theorem fork_isolates_kernel : ∃ (ms child : MemorySet Empty) (w w' : World Bitmap Unit),
    (ms.frameAt 0x1000).isSome ∧ ForkOf ms w child w' := by
  obtain ⟨x, w', hrun, hprop⟩ := exists_of_returns (x := do
      let ms ← SpaceCall.runNew PHYS_MEMORY_OFFSET
        [.pushWithBackend 0x1000 0x2000 bssPage.flags none false, .manuallyAllocPage 0x1000]
      let r ← (ms.copyAsFork PHYS_MEMORY_OFFSET).run
      pure (ms, r))
    (s := World.kernel) (P := fun (x : MemorySet Empty × Except OSError (MemorySet Empty)) w' ↦
      w'.oom = false ∧ (x.1.frameAt 0x1000).isSome ∧
        ∀ a ∈ x.1.areaMap.iter, a.start = 0x1000 ∧ a.end_ = 0x2000)
    (by decide +kernel)
  obtain ⟨ms, w, hcalls, hfork⟩ := exists_of_run_bind hrun
  obtain ⟨r, w₁, hcopy, hpure⟩ := exists_of_run_bind hfork
  obtain ⟨rfl, rfl⟩ := EStateM.Result.ok.inj hpure
  obtain ⟨hoom, hframe, hareas⟩ := of_decide_eq_true hprop
  obtain ⟨ms₀, w₀, hnew, hrest⟩ := exists_of_run_bind hcalls
  -- the calls lead to an address space that is apart
  have hstart : (⟨fun _ ↦ none, World.kernel⟩ : Spaces Bitmap Unit Empty).Apart
      PHYS_MEMORY_OFFSET := apart_none (by decide) World.kernel_inUse
  have hacts := acts_of_runAll (i := 0) PHYS_MEMORY_OFFSET
    (by simp [SpaceCall.User, PageAligned, PAGE_SIZE])
    (Function.update_self (0 : ℕ) (some ms₀) fun _ ↦ none) hrest
  obtain ⟨happart, -⟩ := unseen_of_acts hacts (hstart.new hnew)
  rw [Function.update_idem] at happart
  have hspace : Function.update (fun _ ↦ none) 0 (some ms) (0 : ℕ) = some ms :=
    Function.update_self 0 _ _
  have huser : ∀ a ∈ ms.areaMap.iter, a.InUser := by
    intro a ha
    obtain ⟨hstart, hend⟩ := hareas a ha
    rw [VmArea.InUser, hstart, hend]
    decide
  have hisolates := fork_isolates (i := 0) (k := 1) happart hspace rfl huser
  obtain ⟨child, -, hfork, -⟩ := wp_ok hisolates hcopy hoom
  exact ⟨ms, child, w, w₁, hframe, hfork⟩

end Maturin
