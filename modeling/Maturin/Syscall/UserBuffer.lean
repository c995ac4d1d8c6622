import Maturin.File.Dirent
import Maturin.File.FdManager
import Maturin.Memory.Spaces
import Maturin.Memory.Teardown

/-!
# Buffers of the user that the kernel stores to

`sys_read`, `sys_readv`, `sys_pread` and `sys_getdents64` of `syscall/fs.rs` make sure that pages
of the buffer are mapped and then store to the buffer through the page table of the caller. What
they make sure of differs: `sys_read` looks at all pages from the first to that of the last byte,
whose address may wrap, `sys_pread` at the first page, `sys_getdents64` at the first and the last
one. None of them looks at the flags of the areas.

A slice that is handed out for storing is a `Loan`, which keeps the address space at that time. The
loans of a call are recorded beside the state and have no influence on it.
-/

open Exec

namespace Maturin

variable {σ φ F Γ ψ : Type}

/-! ## The system calls -/

/-- Open files: `read` into a slice of a length returns the number of bytes that were read and the
bytes that were stored, `seek(SeekFrom::Start(pos))` the new position. -/
class ReadFile (Γ ψ : Type) where
  read : Γ → ℕ → ψ → (Option ℕ × List UInt8) × ψ
  seekFromStart : Γ → ℕ → ψ → Option ℕ × ψ
  length_read : ∀ f len s, (read f len s).1.2.length ≤ len

/-- A slice that the kernel may store to, and the address space when it was handed out. -/
structure Loan (σ φ F : Type) where
  start : ℕ
  len : ℕ
  vm : MemorySet F
  world : World σ φ

/-- What the system calls work on. -/
structure ReadTask (σ φ F Γ ψ : Type) where
  vm : MemorySet F
  world : World σ φ
  fdManager : FdManager Γ
  files : ψ
  /-- The slices that were handed out. No function reads them. -/
  loans : List (Loan σ φ F)

namespace ReadTask

/-- Run a method of the address space. -/
def onVm {α : Type} (x : MemorySet F → EStateM Panic (World σ φ) (α × MemorySet F)) :
    EStateM Panic (ReadTask σ φ F Γ ψ) α := fun s ↦
  match (x s.vm).run s.world with
  | .ok (a, vm) world => .ok a { s with vm, world }
  | .error p world => .error p { s with world }

/-- Hand out a slice. -/
def lend (start len : ℕ) : EStateM Panic (ReadTask σ φ F Γ ψ) Unit :=
  modify fun s ↦ { s with loans := s.loans ++ [⟨start, len, s.vm, s.world⟩] }

/-- The kernel stores a byte through the page table; a page fault is fatal. -/
def kernelStore (vaddr : ℕ) (b : UInt8) : EStateM Panic (ReadTask σ φ F Γ ψ) Unit := do
  let s ← get
  match PageTable.lookup (s.vm.pt, s.world) vaddr with
  | some (paddr, flags) =>
    if flags.contains PTEFlags.WRITE then
      let mem := s.world.mem.writeBytes (paddr + vaddr % PAGE_SIZE) [b]
      set { s with world := s.world.setMem mem }
    else
      throw .kernelTrap
  | none => throw .kernelTrap

def storeBytes : ℕ → List UInt8 → EStateM Panic (ReadTask σ φ F Γ ψ) Unit
  | _, [] => pure ()
  | vaddr, b :: rest => do
    kernelStore vaddr b
    storeBytes (wadd vaddr 1) rest

variable [ReadFile Γ ψ]

/-- `file.read(slice)` -/
def readInto (file : Γ) (buf len : ℕ) : EStateM Panic (ReadTask σ φ F Γ ψ) (Option ℕ) := do
  lend buf len
  let s ← get
  let ((readLen, bytes), files) := ReadFile.read file len s.files
  set { s with files }
  storeBytes buf bytes
  pure readLen

variable [FrameAllocator σ] [FileStore F φ]

def sysRead (fd buf len : ℕ) : EStateM Panic (ReadTask σ φ F Γ ψ) (Except ErrorNo ℕ) := do
  match ← onVm fun vm ↦ vm.manuallyAllocUserStr buf len with
  | .error _ => pure (.error .EFAULT)
  | .ok () =>
    let s ← get
    match s.fdManager.slot fd with
    | some file =>
      match ← readInto file buf len with
      | some readLen => pure (.ok readLen)
      | none => pure (.error .EINVAL)
    | none => pure (.error .EINVAL)

/-- The loop of `sys_readv` over the base and the length of the iovecs that it finds. -/
def readvLoop (fd : ℕ) : List (ℕ × ℕ) → ℕ → EStateM Panic (ReadTask σ φ F Γ ψ) (Except ErrorNo ℕ)
  | [], readLen => pure (.ok readLen)
  | (base, len) :: rest, readLen => do
    match ← sysRead fd base len with
    | .ok n => readvLoop fd rest (wadd readLen n)
    | .error _ => pure (.ok readLen)

def sysReadv (fd : ℕ) (iovs : List (ℕ × ℕ)) :
    EStateM Panic (ReadTask σ φ F Γ ψ) (Except ErrorNo ℕ) :=
  readvLoop fd iovs 0

def sysPread (fd buf count offset : ℕ) :
    EStateM Panic (ReadTask σ φ F Γ ψ) (Except ErrorNo ℕ) := do
  match ← onVm fun vm ↦ vm.manuallyAllocPage buf with
  | .error _ => pure (.error .EFAULT)
  | .ok () =>
    let s ← get
    match s.fdManager.slot fd with
    | some file =>
      let (pos, files) := ReadFile.seekFromStart file offset s.files
      set { s with files }
      if pos = some offset then
        match ← readInto file buf count with
        | some readLen => pure (.ok readLen)
        | none => pure (.error .EINVAL)
      else
        pure (.error .EINVAL)
    | none => pure (.error .EINVAL)

end ReadTask

namespace ReadTask

/-- The loop of `sys_getdents64`. -/
def direntsLoop (buf len : ℕ) : List FatDirEntry → ℕ → EStateM Panic (ReadTask σ φ F Γ ψ) ℕ
  | [], offset => pure offset
  | entry :: rest, offset =>
    if offset + entry.entrySize > len then
      pure offset
    else do
      lend (wadd buf offset) entry.entrySize
      storeBytes (wadd buf offset) entry.bytes
      direntsLoop buf len rest (offset + entry.entrySize)

variable [FrameAllocator σ] [FileStore F φ]

/-- `sys_getdents64`: `dOff` is what it finds in the field `d_off` at `buf`, `dir` the directory of
the descriptor, and `dirEntries` what a directory contains. -/
def sysGetdents64 (dOff : ℤ) (dir : Option (List Char))
    (dirEntries : List Char → Option (List FatDirEntry))
    (buf len : ℕ) : EStateM Panic (ReadTask σ φ F Γ ψ) (Except ErrorNo ℕ) :=
  if dOff = -1 then
    pure (.ok 0)
  else
    match dir with
    | none => pure (.error .EINVAL)
    | some dir => do
      match ← onVm fun vm ↦ vm.manuallyAllocPage buf with
      | .error _ => pure (.error .EFAULT)
      | .ok () =>
        match ← onVm fun vm ↦ vm.manuallyAllocPage (wsub (wadd buf len) 1) with
        | .error _ => pure (.error .EFAULT)
        | .ok () =>
          match dirEntries dir with
          | none => pure (.error .EINVAL)
          | some entries =>
            let offset ← direntsLoop buf len entries 0
            pure (.ok offset)

end ReadTask

/-! ## What an address space lets the user do -/

/-- The address lies in an area that the user may write. -/
def MemorySet.UserWritable (ms : MemorySet F) (vaddr : ℕ) : Prop :=
  ∃ area, ms.areaMap.find vaddr = some area ∧
    area.flags.contains (PTEFlags.USER ||| PTEFlags.WRITE) = true

/-- The page table has a valid entry for the address. -/
def MemorySet.Entered (ms : MemorySet F) (w : World σ φ) (vaddr : ℕ) : Prop :=
  (PageTable.lookup (ms.pt, w) vaddr).isSome = true

/-- The user may write each byte of the slice, and each has a valid entry. -/
def Loan.Safe (l : Loan σ φ F) : Prop :=
  ∀ i < l.len, l.vm.UserWritable (wadd l.start i) ∧ l.vm.Entered l.world (wadd l.start i)

/-- The flags of a page, and whether it is entered. -/
def rights (g : ℕ → Option Cell) (n : ℕ) : Option (PTEFlags × Bool) :=
  (g n).map fun c ↦ (c.flags, c.entry.isSome)

/-- The user may write the page, and it is entered. -/
def Storable (r : ℕ → Option (PTEFlags × Bool)) (n : ℕ) : Prop :=
  ∃ flags, r n = some (flags, true) ∧ flags.contains (PTEFlags.USER ||| PTEFlags.WRITE) = true

theorem rights_refresh (mem : ByteMem) (g : ℕ → Option Cell) :
    rights (refresh mem g) = rights g := by
  funext n
  rw [rights, rights, refresh]
  cases g n with
  | none => rfl
  | some c =>
    rw [Option.map_some, Option.map_some, Option.map_some, Cell.entry, Cell.entry]
    cases c.page with
    | none => rfl
    | some pg =>
      rw [Option.map_some, Option.bind_some, Option.bind_some]

variable [FrameAllocator σ] [FileStore F φ] {e : PtEnv} {g : ℕ → Option Cell} {ms : MemorySet F}
variable {w : World σ φ} {x : ℕ}

namespace SpaceOk

theorem userWritable_iff (h : SpaceOk e g ms w) :
    ms.UserWritable x ↔ ∃ c, g (x / PAGE_SIZE) = some c ∧
      c.flags.contains (PTEFlags.USER ||| PTEFlags.WRITE) = true := by
  constructor
  · rintro ⟨area, hfind, hflags⟩
    cases hg : g (x / PAGE_SIZE) with
    | none => exact absurd ((h.find_eq_none hg).symm.trans hfind) (by simp)
    | some c =>
      obtain ⟨a, L, -, hfind', hflags', -⟩ := h.exists_find hg
      obtain rfl := Option.some.inj (hfind.symm.trans hfind')
      exact ⟨c, rfl, hflags' ▸ hflags⟩
  · rintro ⟨c, hg, hflags⟩
    obtain ⟨a, L, -, hfind, hflags', -⟩ := h.exists_find hg
    exact ⟨a.segment, hfind, hflags' ▸ hflags⟩

omit [FileStore F φ] in
theorem entered_iff {shared : ℕ → ℕ} (h : SpaceOk (spaceEnv shared) g ms w)
    (hx : x < 510 * 2 ^ 30) : ms.Entered w x ↔ (entries g (x / PAGE_SIZE)).isSome = true := by
  rw [MemorySet.Entered, h.lookup_eq hx]

omit [FileStore F φ] in
theorem lt_of_isSome {shared : ℕ → ℕ} (h : SpaceOk (spaceEnv shared) g ms w)
    (hg : (g (x / PAGE_SIZE)).isSome) : x < 510 * 2 ^ 30 := by
  obtain ⟨T, hb, -⟩ := h.coherent.backed
  have hbelow := hb.below hg
  simp only [spaceEnv, PAGE_SIZE] at hbelow
  omega

/-- What a slice of the address space allows, in terms of the rights of the pages. -/
theorem storable_iff {shared : ℕ → ℕ} (h : SpaceOk (spaceEnv shared) g ms w) :
    ms.UserWritable x ∧ ms.Entered w x ↔ Storable (rights g) (x / PAGE_SIZE) := by
  rw [h.userWritable_iff]
  constructor
  · rintro ⟨⟨c, hc, hflags⟩, hentered⟩
    rw [h.entered_iff (h.lt_of_isSome (by rw [hc]; rfl)), entries, hc] at hentered
    exact ⟨c.flags, by rw [rights, hc, Option.map_some, show c.entry.isSome = true from hentered],
      hflags⟩
  · rintro ⟨flags, hr, hflags⟩
    rw [rights, Option.map_eq_some_iff] at hr
    obtain ⟨c, hc, heq⟩ := hr
    rw [Prod.mk.injEq] at heq
    refine ⟨⟨c, hc, heq.1 ▸ hflags⟩, ?_⟩
    rw [h.entered_iff (h.lt_of_isSome (by rw [hc]; rfl)), entries, hc]
    exact heq.2

end SpaceOk

/-! ## What is checked -/

/-- The rights after the pages of `I` were entered. -/
def enterPages (I : List ℕ) (r : ℕ → Option (PTEFlags × Bool)) (n : ℕ) : Option (PTEFlags × Bool) :=
  if n ∈ I then (r n).map fun v ↦ (v.1, true) else r n

theorem enter_cons (n : ℕ) (I : List ℕ) (r : ℕ → Option (PTEFlags × Bool)) :
    enterPages (n :: I) r = enterPages I (enterPages [n] r) := by
  funext m
  by_cases hm : m = n
  · subst hm
    by_cases hI : m ∈ I <;> simp [enterPages, hI, Function.comp_def]
  · by_cases hI : m ∈ I <;> simp [enterPages, hm, hI]

theorem map_fst_enter (I : List ℕ) (r : ℕ → Option (PTEFlags × Bool)) (n : ℕ) :
    (enterPages I r n).map Prod.fst = (r n).map Prod.fst := by
  rw [enterPages]
  split_ifs
  · rw [Option.map_map]
    rfl
  · rfl

/-- What the check of the pages `I` guarantees: all pages are in areas, and entered now. -/
def Checked (e : PtEnv) (I : List ℕ) (g : ℕ → Option Cell)
    (r : Except OSError Unit × MemorySet F) (w' : World σ φ) : Prop :=
  match r.1 with
  | .ok () => (∀ n ∈ I, (rights g n).isSome) ∧
    ∃ g', SpaceOk e g' r.2 w' ∧ rights g' = enterPages I (rights g)
  | .error _ => (∃ n ∈ I, rights g n = none) ∨ w'.oom = true

namespace SpaceOk

theorem wp_checkPage (h : SpaceOk e g ms w) (x : ℕ) :
    wp (ms.manuallyAllocPage x) (Checked e [x / PAGE_SIZE] g) noPanic w := by
  refine wp_imp (h.wp_manuallyAllocPage x) fun r w' hr ↦ ?_
  rw [Checked]
  rcases hr with ⟨c, c', hok, hc, hpop, hspace⟩ | ⟨err, herr, -, hwhy⟩
  · rw [hok]
    refine ⟨fun n hn ↦ ?_, _, hspace, funext fun n ↦ ?_⟩
    · rw [List.mem_singleton.mp hn, rights, hc]
      rfl
    · obtain ⟨pg, hpg, hmapped, -⟩ := hpop.page
      rw [enterPages]
      by_cases hn : n = x / PAGE_SIZE
      · subst hn
        rw [if_pos (List.mem_singleton_self _), rights, rights, Function.update_self, hc,
          Option.map_some, Option.map_some, Option.map_some, hpop.flags_eq, Cell.entry,
          Option.mem_def.mp hpg, Option.bind_some, if_pos hmapped, Option.isSome_some]
      · rw [if_neg (by rwa [List.mem_singleton]), rights, rights, Function.update_of_ne hn]
  · rw [herr]
    refine hwhy.imp (fun hnone ↦ ⟨_, List.mem_singleton_self _, ?_⟩) id
    rw [rights, hnone.1]
    rfl

theorem wp_checkPages {I : List ℕ} (h : SpaceOk e g ms w) :
    wp (MemorySet.manuallyAllocPages I ms) (Checked e I g) noPanic w := by
  induction I generalizing g ms w with
  | nil => exact ⟨fun n hn ↦ absurd hn List.not_mem_nil, g, h, rfl⟩
  | cons n I ih =>
    rw [MemorySet.manuallyAllocPages, wp_bind]
    have hpage := h.wp_checkPage (pageIdToAddr n)
    rw [pageIdToAddr, Nat.mul_div_cancel n (by norm_num)] at hpage
    refine wp_imp hpage fun r w₁ hr ↦ ?_
    obtain ⟨res, ms₁⟩ := r
    cases res with
    | error err =>
      refine hr.imp (fun hnone ↦ ?_) id
      obtain ⟨m, hm, hnone⟩ := hnone
      rw [List.mem_singleton] at hm
      exact ⟨m, hm ▸ List.mem_cons_self, hnone⟩
    | ok u =>
      obtain ⟨hsome, g₁, hok, hrights⟩ := hr
      refine wp_imp (ih hok) fun r' w' hr' ↦ ?_
      rw [Checked] at hr' ⊢
      have hfst : ∀ m, (rights g₁ m).map Prod.fst = (rights g m).map Prod.fst := fun m ↦ by
        rw [hrights, map_fst_enter]
      cases hres' : r'.1 with
      | error err =>
        rw [hres'] at hr'
        refine hr'.imp (fun ⟨m, hm, hnone⟩ ↦ ⟨m, List.mem_cons_of_mem n hm, ?_⟩) id
        have hm := hfst m
        rwa [hnone, Option.map_none, eq_comm, Option.map_eq_none_iff] at hm
      | ok u' =>
        rw [hres'] at hr'
        obtain ⟨hsome', g', hok', hrights'⟩ := hr'
        refine ⟨fun m hm ↦ ?_, g', hok', ?_⟩
        · rcases List.mem_cons.mp hm with rfl | hm
          · exact hsome m (List.mem_singleton_self m)
          · have hmap := congrArg Option.isSome (hfst m)
            rw [Option.isSome_map, Option.isSome_map] at hmap
            rw [← hmap]
            exact hsome' m hm
        · rw [hrights', hrights, ← enter_cons]

end SpaceOk

/-! ## What is stored -/

namespace ReadTask

variable {s : ReadTask σ φ F Γ ψ} {shared : ℕ → ℕ} {l : Loan σ φ F}

omit [FrameAllocator σ] [FileStore F φ] in
/-- A loan stays recorded. -/
theorem maintains_storeBytes (vaddr : ℕ) (bytes : List UInt8) :
    Maintains (fun s : ReadTask σ φ F Γ ψ ↦ l ∈ s.loans) (storeBytes vaddr bytes) := by
  induction bytes generalizing vaddr with
  | nil => exact .pure ()
  | cons b rest ih =>
    refine .bind (fun s hs ↦ ?_) fun _ ↦ ih _
    rw [kernelStore, wp_bind, wp_get]
    split
    · split
      · exact hs
      · exact hs
    · exact hs

variable {g : ℕ → Option Cell}

/-- A page table that grants the user a store grants it to the kernel. -/
theorem wp_kernelStore {vaddr : ℕ} {b : UInt8} (h : SpaceOk (spaceEnv shared) g s.vm s.world)
    (hstore : Storable (rights g) (vaddr / PAGE_SIZE)) :
    wp (kernelStore vaddr b) (fun _ s' ↦ s' = { s with world := s'.world } ∧
      ∃ g', SpaceOk (spaceEnv shared) g' s'.vm s'.world ∧ rights g' = rights g) noPanic s := by
  obtain ⟨flags, hr, hflags⟩ := hstore
  rw [rights, Option.map_eq_some_iff] at hr
  obtain ⟨c, hc, heq⟩ := hr
  rw [Prod.mk.injEq] at heq
  have hlt := h.lt_of_isSome (x := vaddr) (by rw [hc]; rfl)
  obtain ⟨m, hm⟩ := Option.isSome_iff_exists.mp heq.2
  have hlookup : PageTable.lookup (s.vm.pt, s.world) vaddr = some m := by
    rw [h.lookup_eq hlt, entries, hc, Option.bind_some, hm]
  have hmflags : m.2 = c.flags.mapped := by
    obtain ⟨pg, -, hif⟩ := Option.bind_eq_some_iff.mp hm
    split_ifs at hif
    rw [← Option.some.inj hif]
  have huser : m.2.contains (PTEFlags.USER ||| PTEFlags.WRITE) = true := by
    rw [hmflags, heq.1]
    exact PTEFlags.contains_mapped hflags
  have hwrite : m.2.contains PTEFlags.WRITE = true :=
    PTEFlags.contains_of_or huser
  have huserStore : s.vm.userStore vaddr b s.world = some (s.world.setMem
      (s.world.mem.writeBytes (m.1 + vaddr % PAGE_SIZE) [b])) := by
    rw [MemorySet.userStore, hlookup]
    exact if_pos huser
  rw [kernelStore, wp_bind, wp_get, hlookup]
  dsimp only
  rw [if_pos hwrite, wp_set]
  exact ⟨rfl, _, (h.userStore hlt huserStore).1, rights_refresh _ _⟩

theorem wp_storeBytes {vaddr : ℕ} {bytes : List UInt8}
    (h : SpaceOk (spaceEnv shared) g s.vm s.world)
    (hstore : ∀ i < bytes.length, Storable (rights g) (wadd vaddr i / PAGE_SIZE))
    (hlt : vaddr < 2 ^ 64) :
    wp (storeBytes vaddr bytes) (fun _ s' ↦ s' = { s with world := s'.world } ∧
      ∃ g', SpaceOk (spaceEnv shared) g' s'.vm s'.world ∧ rights g' = rights g) noPanic s := by
  induction bytes generalizing vaddr g s with
  | nil => exact ⟨rfl, g, h, rfl⟩
  | cons b rest ih =>
    rw [storeBytes, wp_bind]
    have hfirst := hstore 0 (Nat.succ_pos _)
    rw [wadd_of_lt (by omega), Nat.add_zero] at hfirst
    refine wp_imp (wp_kernelStore h hfirst) fun _ s₁ hs₁ ↦ ?_
    obtain ⟨heq, g₁, hok, hrights⟩ := hs₁
    have hrest : ∀ i < rest.length, Storable (rights g₁) (wadd (wadd vaddr 1) i / PAGE_SIZE) := by
      intro i hi
      have hnext := hstore (i + 1) (Nat.succ_lt_succ hi)
      rwa [hrights, wadd_wadd, Nat.add_comm 1 i]
    refine wp_imp (ih hok hrest (wadd_lt _ _)) fun _ s' hs' ↦ ?_
    obtain ⟨heq', g', hok', hrights'⟩ := hs'
    refine ⟨?_, g', hok', hrights'.trans hrights⟩
    rw [heq', heq]

/-- The slice may be stored to. -/
theorem safe_iff {start len : ℕ} (h : SpaceOk (spaceEnv shared) g s.vm s.world) :
    (⟨start, len, s.vm, s.world⟩ : Loan σ φ F).Safe ↔
      ∀ i < len, Storable (rights g) (wadd start i / PAGE_SIZE) :=
  forall₂_congr fun _ _ ↦ h.storable_iff

variable [ReadFile Γ ψ]

/-- Reading into a slice that may be stored to keeps what the address space allows. -/
theorem wp_readInto {file : Γ} {buf len : ℕ} (h : SpaceOk (spaceEnv shared) g s.vm s.world)
    (hstore : ∀ i < len, Storable (rights g) (wadd buf i / PAGE_SIZE)) (hlt : buf < 2 ^ 64) :
    wp (readInto file buf len) (fun _ s' ↦
      s'.loans = s.loans ++ [⟨buf, len, s.vm, s.world⟩] ∧ s'.fdManager = s.fdManager ∧
      ∃ g', SpaceOk (spaceEnv shared) g' s'.vm s'.world ∧ rights g' = rights g) noPanic s := by
  rw [readInto, wp_bind, lend, wp_modify, wp_bind, wp_get]
  dsimp only
  have hlen := ReadFile.length_read file len s.files
  generalize ReadFile.read file len s.files = r at hlen ⊢
  obtain ⟨⟨readLen, bytes⟩, files⟩ := r
  dsimp only at hlen ⊢
  rw [wp_bind, wp_set, wp_bind]
  refine wp_imp (wp_storeBytes (s := { s with
    loans := s.loans ++ [⟨buf, len, s.vm, s.world⟩], files }) h
    (fun i hi ↦ hstore i (hi.trans_le hlen)) hlt) fun _ s' hs' ↦ ?_
  obtain ⟨heq, hspace⟩ := hs'
  rw [wp_pure]
  exact ⟨by rw [heq], by rw [heq], hspace⟩

omit [FrameAllocator σ] [FileStore F φ] in
/-- In any case the slice is recorded. -/
theorem mem_loans_readInto {file : Γ} {buf len : ℕ} :
    wp (readInto file buf len) (fun _ s' ↦ ⟨buf, len, s.vm, s.world⟩ ∈ s'.loans)
      (fun _ s' ↦ ⟨buf, len, s.vm, s.world⟩ ∈ s'.loans) s := by
  rw [readInto, wp_bind, lend, wp_modify, wp_bind, wp_get]
  dsimp only
  generalize ReadFile.read file len s.files = r
  obtain ⟨⟨readLen, bytes⟩, files⟩ := r
  dsimp only
  rw [wp_bind, wp_set, wp_bind]
  refine wp_imp (maintains_storeBytes (l := ⟨buf, len, s.vm, s.world⟩) buf bytes _ ?_)
    fun _ _ hs' ↦ hs'
  exact List.mem_append_right _ (List.mem_singleton_self _)

end ReadTask

end Maturin
