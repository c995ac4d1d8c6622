import Maturin.Loader.Loads
import Maturin.Memory.Overwrite

/-!
# Relocations

A relocation writes a word of eight bytes into the image of the file, at an address of any
alignment, past the page table. The words of `.rela.dyn` come first and then those of `.rela.plt`;
each is written over those before it. A file without `.dynsym` is linked statically, and its
`.rela.dyn` is skipped.
-/

open Exec

namespace Maturin

/-- The segments have no page in common. -/
def ProgramHeader.PagesDisjoint (a b : ProgramHeader) : Prop :=
  (a.virtualAddr + a.memSize - 1) / PAGE_SIZE < b.virtualAddr / PAGE_SIZE ∨
    (b.virtualAddr + b.memSize - 1) / PAGE_SIZE < a.virtualAddr / PAGE_SIZE

instance (a b : ProgramHeader) : Decidable (a.PagesDisjoint b) :=
  inferInstanceAs (Decidable (_ ∨ _))

instance : Std.Symm ProgramHeader.PagesDisjoint := ⟨fun _ _ ↦ Or.symm⟩

/-- Words that are written one after another, each at its address. -/
def relocated (words : List (ℕ × ℕ)) (found : ℕ → Option UInt8) : ℕ → Option UInt8 :=
  words.foldl (fun found word ↦ overwritten word.1 (toNeBytes word.2) found) found

theorem relocated_cons (word : ℕ × ℕ) (words : List (ℕ × ℕ)) (found : ℕ → Option UInt8) :
    relocated (word :: words) found =
      relocated words (overwritten word.1 (toNeBytes word.2) found) := rfl

theorem relocated_append (words more : List (ℕ × ℕ)) (found : ℕ → Option UInt8) :
    relocated (words ++ more) found = relocated more (relocated words found) := List.foldl_append

namespace ElfFile

variable (elf : ElfFile)

/-- The entries of a section with relocations. -/
def relas (name : String) : List Rela :=
  match elf.findSectionByName name with
  | some (.rela64 entries) => entries
  | _ => []

def symbols : List DynSym :=
  match elf.findSectionByName ".dynsym" with
  | some (.dynSymbolTable64 symbols) => symbols
  | _ => []

/-- The value of the symbol of an entry. -/
def symbolAt (entry : Rela) : ℕ := (elf.symbols[entry.symbolTableIndex]?).elim 0 DynSym.value

/-- The words of `.rela.dyn`: base, symbol and addend for `R_RISCV_64`, or base and addend. -/
def dynWords : List (ℕ × ℕ) :=
  (elf.relas ".rela.dyn").map fun entry ↦ (elf.dynBase + entry.offset,
    if entry.type = R_RISCV_64 then wadd (wadd elf.dynBase (elf.symbolAt entry)) entry.addend
    else wadd elf.dynBase entry.addend)

/-- The words of `.rela.plt`: base and symbol. -/
def pltWords : List (ℕ × ℕ) :=
  (elf.relas ".rela.plt").map fun entry ↦
    (elf.dynBase + entry.offset, wadd elf.dynBase (elf.symbolAt entry))

/-- The words that are written: those of `.rela.dyn` if there are symbols, and those of
`.rela.plt`. -/
def words : List (ℕ × ℕ) :=
  (if (elf.findSectionByName ".dynsym").isSome then elf.dynWords else []) ++ elf.pltWords

/-- The address is one of a segment. -/
def InSegment (x : ℕ) : Prop :=
  ∃ ph ∈ elf.loads, ph.virtualAddr ≤ x ∧ x < ph.virtualAddr + ph.memSize

instance (x : ℕ) : Decidable (elf.InSegment x) := inferInstanceAs (Decidable (∃ _ ∈ _, _))

/-- A file without interpreter, with segments of the user's addresses and relocations inside of
them. -/
structure Relocatable : Prop where
  noInterp : ∀ ph ∈ elf.programHeaders, ph.type ≠ .interp
  length_lt : elf.input.length < 2 ^ 64
  inFile : ∀ ph ∈ elf.loads, ph.offset + ph.fileSize ≤ elf.input.length
  fileSize_le : ∀ ph ∈ elf.loads, ph.fileSize ≤ ph.memSize
  user : ∀ ph ∈ elf.loads, ph.virtualAddr + elf.dynBase + ph.memSize ≤ 510 * 2 ^ 30
  types : ∀ entry ∈ elf.relas ".rela.dyn", entry.type = R_RISCV_64 ∨ entry.type = R_RISCV_RELATIVE
  targets : ∀ entry ∈ elf.relas ".rela.dyn" ++ elf.relas ".rela.plt", ∀ i < 8,
    elf.InSegment (entry.offset + i)

/-- What is found when the segments are loaded over what there was. -/
def loadedOver (found : ℕ → Option UInt8) : ℕ → Option UInt8 := fun y ↦
  (elf.imageAt elf.loads y).or (found y)

/-! ## The image -/

variable {elf} {ph q : ProgramHeader} {segs : List ProgramHeader} {x : ℕ}

theorem eq_of_touches (hpages : segs.Pairwise ProgramHeader.PagesDisjoint) (hph : ph ∈ segs)
    (hq : q ∈ segs) (hx : ph.Touches x) (hx' : q.Touches x) : ph = q := by
  by_contra hne
  obtain ⟨hl, hr⟩ := hx
  obtain ⟨hl', hr'⟩ := hx'
  rcases hpages.forall hph hq hne with hlt | hlt <;> omega

/-- Where pages are not shared the order of the segments does not matter. -/
theorem imageAt_reverse (hpages : segs.Pairwise ProgramHeader.PagesDisjoint) (y : ℕ) :
    elf.imageAt segs.reverse y = elf.imageAt segs y := by
  have hfind : ∀ x, segs.reverse.find? (fun ph ↦ ph.Touches x) =
      segs.find? fun ph ↦ ph.Touches x := by
    intro x
    cases hlast : segs.reverse.find? fun ph ↦ ph.Touches x with
    | none =>
      refine (List.find?_eq_none.mpr fun ph hph ↦ ?_).symm
      exact List.find?_eq_none.mp hlast ph (List.mem_reverse.mpr hph)
    | some ph =>
      have hph := List.mem_reverse.mp (List.mem_of_find?_eq_some hlast)
      have hx := List.find?_some hlast
      cases hfirst : segs.find? fun ph ↦ ph.Touches x with
      | none => exact absurd hx (List.find?_eq_none.mp hfirst ph hph)
      | some q =>
        have hq := List.mem_of_find?_eq_some hfirst
        have hx' := List.find?_some hfirst
        rw [eq_of_touches hpages hph hq (of_decide_eq_true hx) (of_decide_eq_true hx')]
  rw [imageAt, imageAt, image, image, hfind]

/-- The bytes of a segment are in the image. -/
theorem isSome_imageAt (hx : elf.InSegment x) :
    (elf.imageAt elf.loads.reverse (elf.dynBase + x)).isSome := by
  obtain ⟨ph, hph, hle, hlt⟩ := hx
  obtain ⟨j, rfl⟩ := Nat.exists_eq_add_of_le hle
  obtain ⟨b, hb⟩ : ∃ b, elf.image elf.loads.reverse (ph.virtualAddr + j) = some b :=
    exists_image (List.mem_reverse.mpr hph) (by omega)
  rw [Nat.add_comm, imageAt_add, hb]
  rfl

/-! ## Writing the words -/

variable {σ φ F : Type} [FrameAllocator σ] [FileStore F φ] {shared : ℕ → ℕ} {vm : MemorySet F}
variable {w : World σ φ} {D : Set ℕ} {e : PtEnv} {g : ℕ → Option Cell} {entries : List Rela}

omit [FrameAllocator σ] [FileStore F φ] in
/-- A symbol that is defined has its value. -/
theorem wp_symbolValue (entry : Rela) :
    wp (symbolValue elf.symbols entry) (fun r w' ↦ w' = w ∧ ∀ v, r = .ok v →
      v = elf.symbolAt entry) anyPanic w := by
  rw [symbolValue, symbolAt]
  cases elf.symbols[entry.symbolTableIndex]? with
  | none => trivial
  | some sym =>
    dsimp only
    split_ifs
    · trivial
    · exact ⟨rfl, fun v hv ↦ by cases hv⟩
    · exact ⟨rfl, fun v hv ↦ (Except.ok.inj hv).symm⟩

omit [FrameAllocator σ] [FileStore F φ] in
/-- What is computed from the value of a symbol. -/
theorem wp_symbolValue_bind (entry : Rela) (k : ℕ → ℕ)
    {f : Except OSError ℕ → EStateM Panic (World σ φ) (Except OSError ℕ)}
    (herror : ∀ err, f (.error err) = pure (.error err)) (hok : ∀ v, f (.ok v) = pure (.ok (k v))) :
    wp (symbolValue elf.symbols entry >>= f) (fun r w' ↦ w' = w ∧ ∀ v, r = .ok v →
      v = k (elf.symbolAt entry)) anyPanic w := by
  rw [wp_bind]
  refine wp_imp (wp_symbolValue entry) fun r w' hr ↦ ?_
  obtain ⟨rfl, hvalue⟩ := hr
  cases r with
  | error err =>
    rw [herror]
    exact ⟨rfl, fun v hv ↦ by cases hv⟩
  | ok v =>
    rw [hok, hvalue v rfl]
    exact ⟨rfl, fun v hv ↦ (Except.ok.inj hv).symm⟩

/-- A loop over relocations writes the words of its entries, one after another. -/
theorem wp_relocate {base : ℕ} {value : Rela → EStateM Panic (World σ φ) (Except OSError ℕ)}
    (word : Rela → ℕ) (h : SpaceOk e g vm w)
    (hvalue : ∀ entry ∈ entries, ∀ w, wp (value entry) (fun r w' ↦ w' = w ∧ ∀ v, r = .ok v →
      v = word entry) anyPanic w)
    (hfile : ∀ entry ∈ entries, base + entry.offset < 2 ^ 64 ∧
      ∀ i < 8, vm.NoFile (base + entry.offset + i)) :
    wp (relocate base value entries vm) (fun r w' ↦ r.1 = .ok () →
      (∃ g', SpaceOk e g' r.2 w') ∧ (∀ x, r.2.NoFile x ↔ vm.NoFile x) ∧
      r.2.readsAt w' =
        relocated (entries.map fun entry ↦ (base + entry.offset, word entry)) (vm.readsAt w))
      anyPanic w := by
  induction entries generalizing vm w g with
  | nil => exact fun _ ↦ ⟨⟨g, h⟩, fun _ ↦ Iff.rfl, rfl⟩
  | cons entry entries ih =>
    obtain ⟨hlt, hnofile⟩ := hfile entry List.mem_cons_self
    rw [relocate, wp_bind]
    refine wp_imp (hvalue entry List.mem_cons_self w) fun r w₁ hr ↦ ?_
    obtain ⟨rfl, hword⟩ := hr
    cases r with
    | error err =>
      intro hok
      cases hok
    | ok v =>
      obtain rfl := hword v rfl
      dsimp only
      -- a word is written, and no file is behind its bytes
      have hwrite := h.wp_write_readsAt (base + entry.offset) (toNeBytes (word entry)) 0
        fun x hl hr ↦ by
          rw [InitStack.length_toNeBytes] at hr
          have := hnofile (x - (base + entry.offset)) (by omega)
          rwa [Nat.add_sub_cancel' hl] at this
      rw [InitStack.length_toNeBytes] at hwrite
      rw [wadd_of_lt hlt, wp_bind]
      refine wp_mono hwrite (fun r w₂ hr ↦ ?_) fun _ _ _ ↦ trivial
      obtain ⟨res, vm₁⟩ := r
      obtain ⟨⟨g₁, hok₁⟩, hfile₁, hread⟩ := hr
      cases res with
      | error err =>
        intro hok
        cases hok
      | ok u =>
        have hfile' : ∀ entry ∈ entries, base + entry.offset < 2 ^ 64 ∧
            ∀ i < 8, vm₁.NoFile (base + entry.offset + i) := by
          intro q hq
          obtain ⟨hlt, hnofile⟩ := hfile q (List.mem_cons_of_mem entry hq)
          exact ⟨hlt, fun i hi ↦ (hfile₁ _).mpr (hnofile i hi)⟩
        refine wp_imp (ih hok₁ (fun q hq ↦ hvalue q (List.mem_cons_of_mem entry hq)) hfile')
          fun r w' hr hok ↦ ?_
        obtain ⟨hspace, hsame, hafter⟩ := hr hok
        refine ⟨hspace, fun x ↦ (hsame x).trans (hfile₁ x), ?_⟩
        rw [hafter, hread rfl, List.map_cons, relocated_cons]

omit [FrameAllocator σ] [FileStore F φ] in
theorem relas_of_find {name : String}
    (hfind : elf.findSectionByName name = some (.rela64 entries)) : elf.relas name = entries := by
  rw [relas, hfind]

omit [FrameAllocator σ] [FileStore F φ] in
theorem symbols_of_find {symbols : List DynSym}
    (hfind : elf.findSectionByName ".dynsym" = some (.dynSymbolTable64 symbols)) :
    elf.symbols = symbols := by
  rw [ElfFile.symbols, hfind]

namespace Relocatable

omit [FrameAllocator σ] [FileStore F φ] in
theorem find_interp (hrel : elf.Relocatable) :
    elf.programHeaders.find? (fun ph ↦ ph.type = .interp) = none :=
  List.find?_eq_none.mpr fun ph hph ↦ by simpa using hrel.noInterp ph hph

omit [FrameAllocator σ] [FileStore F φ] in
/-- Every segment is in the file and has addresses of the user. -/
theorem fits (hrel : elf.Relocatable) : ∀ ph ∈ elf.programHeaders, ph.type = .load →
    ph.offset + ph.fileSize ≤ elf.input.length ∧ ph.fileSize ≤ ph.memSize ∧
      ph.virtualAddr + elf.dynBase + ph.memSize ≤ 510 * 2 ^ 30 := by
  intro ph hph hload
  have hmem : ph ∈ elf.loads := List.mem_filter.mpr ⟨hph, decide_eq_true hload⟩
  exact ⟨hrel.inFile ph hmem, hrel.fileSize_le ph hmem, hrel.user ph hmem⟩

omit [FrameAllocator σ] [FileStore F φ] in
/-- The targets of relocations are addresses of the user without a file behind them. -/
theorem noFile (hrel : elf.Relocatable)
    (hfile : ∀ x, elf.InSegment x → vm.NoFile (elf.dynBase + x)) {entry : Rela}
    (hentry : entry ∈ elf.relas ".rela.dyn" ++ elf.relas ".rela.plt") :
    elf.dynBase + entry.offset < 2 ^ 64 ∧
      ∀ i < 8, vm.NoFile (elf.dynBase + entry.offset + i) := by
  refine ⟨?_, fun i hi ↦ Nat.add_assoc _ _ _ ▸ hfile _ (hrel.targets entry hentry i hi)⟩
  obtain ⟨ph, hph, -, hlt⟩ := hrel.targets entry hentry 0 (by norm_num)
  have := hrel.user ph hph
  omega

/-- The words of `.rela.dyn` are written if there are symbols. -/
theorem wp_relocateDyn (hrel : elf.Relocatable) (h : SpaceOk e g vm w)
    (hfile : ∀ x, elf.InSegment x → vm.NoFile (elf.dynBase + x)) :
    wp (elf.relocateDyn vm) (fun r w' ↦ r.1 = .ok () →
      (∃ g', SpaceOk e g' r.2 w') ∧ (∀ x, r.2.NoFile x ↔ vm.NoFile x) ∧
      r.2.readsAt w' = relocated
        (if (elf.findSectionByName ".dynsym").isSome then elf.dynWords else []) (vm.readsAt w))
      anyPanic w := by
  have hnone : relocated [] (vm.readsAt w) = vm.readsAt w := rfl
  rw [relocateDyn, dynWords]
  split
  next hdyn =>
    rw [relas, hdyn]
    dsimp only
    rw [List.map_nil, ite_self, hnone]
    exact fun _ ↦ ⟨⟨g, h⟩, fun _ ↦ Iff.rfl, rfl⟩
  next entries hdyn =>
    obtain rfl := relas_of_find hdyn
    split
    next hsym =>
      rw [hsym]
      exact fun _ ↦ ⟨⟨g, h⟩, fun _ ↦ Iff.rfl, rfl⟩
    next symbols hsym =>
      obtain rfl := symbols_of_find hsym
      rw [hsym, Option.isSome_some, if_pos rfl]
      refine wp_relocate _ h (fun entry hentry w ↦ ?_) fun entry hentry ↦
        hrel.noFile hfile (List.mem_append_left _ hentry)
      rcases hrel.types entry hentry with htype | htype
      · rw [if_pos (by simp [htype]), if_pos htype]
        exact wp_symbolValue_bind entry (fun v ↦ wadd (wadd elf.dynBase v) entry.addend)
          (fun _ ↦ rfl) fun _ ↦ rfl
      · rw [if_neg (by rw [htype]; decide), if_pos (by simp [htype]), htype, if_neg (by decide)]
        exact ⟨rfl, fun v hv ↦ (Except.ok.inj hv).symm⟩
    next =>
      intro hok
      cases hok
  next =>
    intro hok
    cases hok

/-- The words of `.rela.plt` are written. -/
theorem wp_relocatePlt (hrel : elf.Relocatable) (h : SpaceOk e g vm w)
    (hfile : ∀ x, elf.InSegment x → vm.NoFile (elf.dynBase + x)) :
    wp (elf.relocatePlt vm) (fun r w' ↦ r.1 = .ok () →
      (∃ g', SpaceOk e g' r.2 w') ∧ r.2.readsAt w' = relocated elf.pltWords (vm.readsAt w))
      anyPanic w := by
  rw [relocatePlt, pltWords]
  split
  next hplt =>
    rw [relas, hplt]
    exact fun _ ↦ ⟨⟨g, h⟩, rfl⟩
  next entries hplt =>
    obtain rfl := relas_of_find hplt
    split
    next symbols hsym =>
      obtain rfl := symbols_of_find hsym
      refine wp_imp (wp_relocate (fun entry ↦ wadd elf.dynBase (elf.symbolAt entry)) h
        (fun entry _ w ↦ ?_) fun entry hentry ↦
          hrel.noFile hfile (List.mem_append_right _ hentry)) fun r w' hr hok ↦ ?_
      · split_ifs
        · exact wp_symbolValue_bind entry (wadd elf.dynBase) (fun _ ↦ rfl) fun _ ↦ rfl
        · trivial
      · obtain ⟨hspace, -, hread⟩ := hr hok
        exact ⟨hspace, hread⟩
    next =>
      intro hok
      cases hok
  next =>
    intro hok
    cases hok

/-! ## Loading -/

variable {parseUserApp : String → String → MemorySet F → List String →
  EStateM Panic (World σ φ) (Except OSError (ℕ × ℕ) × MemorySet F)}
variable {args : List String} {data : ByteMem}

/-- Segments, relocations and then the stack. -/
theorem wp_initVm (hrel : elf.Relocatable) (h : SpaceInv (spaceEnv shared) D vm w) :
    wp (elf.initVm parseUserApp vm args data) (fun r w' ↦ r.1.isOk = true →
      ∀ x, ¬(USER_STACK_OFFSET ≤ x ∧ x < USER_STACK_OFFSET + USER_STACK_SIZE) →
        r.2.readsAt w' x = relocated elf.words
          (fun y ↦ (elf.imageAt elf.loads.reverse y).or (vm.readsAt w y)) x) anyPanic w := by
  rw [initVm, hrel.find_interp]
  dsimp only
  rw [wp_bind]
  refine wp_imp (wp_loadAll hrel.length_lt h hrel.fits) fun r w₁ hr ↦ ?_
  obtain ⟨res, vm₁⟩ := r
  cases res with
  | error err =>
    intro hok
    cases hok
  | ok u =>
    obtain ⟨⟨g₁, hspace₁, -⟩, hread₁, hfile₁⟩ := hr rfl
    dsimp only at hspace₁ hread₁ hfile₁ ⊢
    have hseg₁ : ∀ x, elf.InSegment x → vm₁.NoFile (elf.dynBase + x) :=
      fun x hx ↦ hfile₁ _ (isSome_imageAt hx)
    rw [wp_bind]
    refine wp_imp (hrel.wp_relocateDyn hspace₁ hseg₁) fun r w₂ hr ↦ ?_
    obtain ⟨res, vm₂⟩ := r
    cases res with
    | error err =>
      intro hok
      cases hok
    | ok u =>
      obtain ⟨⟨g₂, hspace₂⟩, hfile₂, hread₂⟩ := hr rfl
      dsimp only at hspace₂ hread₂ hfile₂ ⊢
      have hseg₂ : ∀ x, elf.InSegment x → vm₂.NoFile (elf.dynBase + x) :=
        fun x hx ↦ (hfile₂ _).mpr (hseg₁ x hx)
      rw [wp_bind]
      refine wp_imp (hrel.wp_relocatePlt hspace₂ hseg₂) fun r w₃ hr ↦ ?_
      obtain ⟨res, vm₃⟩ := r
      cases res with
      | error err =>
        intro hok
        cases hok
      | ok u =>
        obtain ⟨⟨g₃, hspace₃⟩, hread₃⟩ := hr rfl
        dsimp only at hspace₃ hread₃ ⊢
        -- A relocation may take frames that are not entered, so nothing is said of those.
        have hinv : SpaceInv (spaceEnv shared) Set.univ vm₃ w₃ :=
          ⟨g₃, hspace₃, fun n _ _ hn ↦ absurd (Set.mem_univ n) hn⟩
        refine wp_imp (wp_pushStack hinv args data) fun r w' hr hok x hx ↦ ?_
        rw [hr hok x hx, hread₃, hread₂, ← relocated_append, ← words, funext hread₁]

end Relocatable

/-- **Relocation changes the relocated words.** When the loader returns, a program finds outside of
its stack the segments and over them, in the order of the entries, the words of the relocations. -/
theorem relocated_of_initVm (hrel : elf.Relocatable)
    (hpages : elf.loads.Pairwise ProgramHeader.PagesDisjoint)
    (h : SpaceInv (spaceEnv shared) D vm w)
    (parseUserApp : String → String → MemorySet F → List String →
      EStateM Panic (World σ φ) (Except OSError (ℕ × ℕ) × MemorySet F))
    (args : List String) (data : ByteMem) :
    wp (elf.initVm parseUserApp vm args data) (fun r w' ↦ r.1.isOk = true →
      ∀ x, ¬(USER_STACK_OFFSET ≤ x ∧ x < USER_STACK_OFFSET + USER_STACK_SIZE) →
        r.2.readsAt w' x = relocated elf.words (elf.loadedOver (vm.readsAt w)) x) anyPanic w := by
  have himage : elf.imageAt elf.loads.reverse = elf.imageAt elf.loads :=
    funext fun y ↦ imageAt_reverse hpages y
  refine wp_imp (hrel.wp_initVm h) fun r w' hr hok x hx ↦ ?_
  rw [hr hok x hx, himage]
  rfl

/-! ## A library -/

section bitmap

variable {φ F : Type} [FileStore F φ] {vm vm₁ vm₂ vm₃ : MemorySet F} {w w₁ w₂ w₃ : World Bitmap φ}

/-- When the segments are loaded and the words written, there are frames left and the stack fits
into a page, the loader returns. -/
theorem Relocatable.exists_initVm {writer : InitStack} (hrel : elf.Relocatable)
    (h : SpaceInv (spaceEnv shared) D vm w)
    (parseUserApp : String → String → MemorySet F → List String →
      EStateM Panic (World Bitmap φ) (Except OSError (ℕ × ℕ) × MemorySet F))
    (hload : (elf.loadSegments elf.programHeaders vm).run w = .ok (.ok (), vm₁) w₁)
    (hdyn : (elf.relocateDyn vm₁).run w₁ = .ok (.ok (), vm₂) w₂)
    (hplt : (elf.relocatePlt vm₂).run w₂ = .ok (.ok (), vm₃) w₃)
    (hspare : Spare 0x1400 w₃) (habove : ∀ a ∈ vm₃.areaMap.areas, a.end_ ≤ USER_STACK_OFFSET)
    (hwriter : (elf.initInfo args).serialize (USER_STACK_OFFSET + USER_STACK_SIZE) data
      = .ok writer)
    (hlen : 0 < writer.deref.length ∧ writer.deref.length < PAGE_SIZE) :
    ∃ r w', (elf.initVm parseUserApp vm args data).run w = .ok r w' ∧ r.1.isOk = true := by
  obtain ⟨⟨g₁, hspace₁, -⟩, -, hfile₁⟩ := wp_ok (wp_loadAll hrel.length_lt h hrel.fits) hload rfl
  have hseg₁ : ∀ x, elf.InSegment x → vm₁.NoFile (elf.dynBase + x) :=
    fun x hx ↦ hfile₁ _ (isSome_imageAt hx)
  obtain ⟨⟨g₂, hspace₂⟩, hfile₂, -⟩ := wp_ok (hrel.wp_relocateDyn hspace₁ hseg₁) hdyn rfl
  have hseg₂ : ∀ x, elf.InSegment x → vm₂.NoFile (elf.dynBase + x) :=
    fun x hx ↦ (hfile₂ _).mpr (hseg₁ x hx)
  obtain ⟨⟨g₃, hspace₃⟩, -⟩ := wp_ok (hrel.wp_relocatePlt hspace₂ hseg₂) hplt rfl
  refine exists_of_wp ?_
  rw [initVm, hrel.find_interp]
  dsimp only
  rw [wp_bind]
  refine wp_of_ok hload ?_
  dsimp only
  rw [wp_bind]
  refine wp_of_ok hdyn ?_
  dsimp only
  rw [wp_bind]
  exact wp_of_ok hplt (wp_pushStack_isOk hspace₃ hspare habove hwriter hlen)

end bitmap

/-- A library of two segments, the second of which has a page of zeros behind its data. With symbols
it has a word across the segments, one behind the data and an entry of the procedure linkage table;
without, only the word behind the data. -/
def library (symbols : Bool) : ElfFile where
  input := List.replicate 24 1
  programHeaders := [
    { type := .load, flags := ⟨true, false, true⟩, offset := 0, virtualAddr := 0,
      fileSize := 16, memSize := 0x1000 },
    { type := .load, flags := ⟨false, true, true⟩, offset := 16, virtualAddr := 0x1000,
      fileSize := 8, memSize := 0x1800 }]
  sections :=
    if symbols then [
      (".dynsym", .dynSymbolTable64 [⟨0, 0, true⟩, ⟨1, 0x10, true⟩]),
      (".rela.dyn", .rela64 [⟨0xFFC, R_RISCV_64, 1, 4⟩, ⟨0x2013, R_RISCV_RELATIVE, 0, 8⟩]),
      (".rela.plt", .rela64 [⟨0x1000, 5, 1, 0⟩])]
    else [(".rela.dyn", .rela64 [⟨0x2013, R_RISCV_RELATIVE, 0, 8⟩])]
  entryPoint := 0
  phOffset := 64
  phEntrySize := 56
  phCount := 2

theorem relocatable_library (symbols : Bool) : (library symbols).Relocatable := by
  constructor <;> revert symbols <;> decide +kernel

theorem stackFits_library (symbols : Bool) :
    stackFits (library symbols) ["a"] (fun _ ↦ 0) = true := by
  revert symbols
  decide +kernel

/-- Load a file into a new address space, and relocate it. -/
def relocateNew (elf : ElfFile) :
    EStateM Panic (World Bitmap Unit) (List (Except OSError Unit) × MemorySet Empty) := do
  let vm ← MemorySet.newMemorySetForTask PHYS_MEMORY_OFFSET
  let (loaded, vm) ← elf.loadSegments elf.programHeaders vm
  let (dyn, vm) ← elf.relocateDyn vm
  let (plt, vm) ← elf.relocatePlt vm
  pure ([loaded, dyn, plt], vm)

theorem returns_library (symbols : Bool) : returns (relocateNew (library symbols)) World.kernel
    (fun r w ↦ r.1.all (·.isOk) && decide (w.alloc.taken.length + 0x1400 ≤ 2 ^ 24) && !w.oom &&
      r.2.areaMap.areas.all fun a ↦ a.end_ ≤ USER_STACK_OFFSET) = true := by
  revert symbols
  decide +kernel

/-- The loader returns for both libraries, in a new address space. -/
theorem exists_initVm_library (symbols : Bool) : ∃ shared vm w r w',
    SpaceInv (spaceEnv shared) ∅ vm w ∧
    ((library symbols).initVm noParse vm ["a"] fun _ ↦ 0).run w = .ok r w' ∧
    r.1.isOk = true := by
  obtain ⟨⟨res, vm₃⟩, w₃, hrun, hP⟩ := exists_of_returns (returns_library symbols)
  obtain ⟨vm, w, hnew, hrun⟩ := exists_of_run_bind hrun
  obtain ⟨⟨loaded, vm₁⟩, w₁, hload, hrun⟩ := exists_of_run_bind hrun
  obtain ⟨⟨dyn, vm₂⟩, w₂, hdyn, hrun⟩ := exists_of_run_bind hrun
  obtain ⟨⟨plt, vm₃⟩, w₃, hplt, hrun⟩ := exists_of_run_bind hrun
  cases hrun
  simp only [Bool.and_eq_true, Bool.not_eq_true', decide_eq_true_eq, List.all_eq_true,
    List.forall_mem_cons] at hP
  obtain ⟨⟨⟨⟨hloaded, hdyned, hplted, -⟩, hfree⟩, hoom⟩, habove⟩ := hP
  have hunit : ∀ res : Except OSError Unit, res.isOk = true → res = .ok () := by
    rintro (_ | _) hok
    · cases hok
    · rfl
  obtain rfl := hunit _ hloaded
  obtain rfl := hunit _ hdyned
  obtain rfl := hunit _ hplted
  have hreach : Reach PHYS_MEMORY_OFFSET SpaceCall.Proper ∅ vm w :=
    .new (by decide) World.kernel_inUse hnew
  obtain ⟨shared, hinv⟩ := hreach.inv fun _ hc ↦ hc
  have hstack := stackFits_library symbols
  rw [stackFits] at hstack
  split at hstack
  case h_1 writer hwriter =>
    rw [Bool.and_eq_true, decide_eq_true_eq, decide_eq_true_eq] at hstack
    obtain ⟨r, w', hinit, hr⟩ := (relocatable_library symbols).exists_initVm hinv noParse hload
      hdyn hplt ⟨hfree, hoom⟩ habove hwriter hstack
    exact ⟨shared, vm, w, r, w', hinv, hinit, hr⟩
  case h_2 => exact absurd hstack Bool.false_ne_true

/-- Three words of a library. -/
theorem relocated_library : ∃ vm w r w',
    ((library true).initVm noParse vm ["a"] fun _ ↦ 0).run w = .ok r w' ∧
    ∀ x, ¬(USER_STACK_OFFSET ≤ x ∧ x < USER_STACK_OFFSET + USER_STACK_SIZE) →
      r.2.readsAt w' x =
        relocated [(0x4000FFC, 0x4000014), (0x4002013, 0x4000008), (0x4001000, 0x4000010)]
          ((library true).loadedOver (vm.readsAt w)) x := by
  have hrel := relocatable_library true
  have hpages : (library true).loads.Pairwise ProgramHeader.PagesDisjoint := by decide +kernel
  have hwords : (library true).words =
      [(0x4000FFC, 0x4000014), (0x4002013, 0x4000008), (0x4001000, 0x4000010)] := by decide +kernel
  obtain ⟨shared, vm, w, r, w', hinv, hrun, hr⟩ := exists_initVm_library true
  refine ⟨vm, w, r, w', hrun, ?_⟩
  rw [← hwords]
  exact wp_ok (relocated_of_initVm hrel hpages hinv noParse ["a"] fun _ ↦ 0) hrun hr

/-- Without symbols the word of the only relocation is not written. -/
theorem not_relocated_library : (library false).Relocatable ∧
    (library false).loads.Pairwise ProgramHeader.PagesDisjoint ∧ ∃ shared vm w r w',
    SpaceInv (spaceEnv shared) ∅ vm w ∧
    ((library false).initVm noParse vm ["a"] fun _ ↦ 0).run w = .ok r w' ∧ r.1.isOk = true ∧
    r.2.readsAt w' 0x4002013 ≠ relocated ((library false).dynWords ++ (library false).pltWords)
      ((library false).loadedOver (vm.readsAt w)) 0x4002013 := by
  have hrel := relocatable_library false
  have hdyn : (library false).dynWords ++ (library false).pltWords = [(0x4002013, 0x4000008)] := by
    decide +kernel
  have hwords : (library false).words = [] := by decide +kernel
  have hzero : (library false).imageAt (library false).loads.reverse 0x4002013 = some 0 := by
    decide +kernel
  have hpages : (library false).loads.Pairwise ProgramHeader.PagesDisjoint := by decide +kernel
  have hinit := exists_initVm_library false
  generalize library false = elf at hrel hdyn hwords hzero hpages hinit ⊢
  obtain ⟨shared, vm, w, r, w', hinv, hrun, hr⟩ := hinit
  refine ⟨hrel, hpages, shared, vm, w, r, w', hinv, hrun, hr, ?_⟩
  have hread := wp_ok (hrel.wp_initVm hinv) hrun hr 0x4002013 (by norm_num)
  rw [hwords] at hread
  have hword : overwritten 0x4002013 (toNeBytes 0x4000008) (elf.loadedOver (vm.readsAt w)) 0x4002013
      = some 8 := by
    rw [overwritten, if_pos le_rfl]
    rfl
  rw [hdyn, hread, relocated_cons]
  change (elf.imageAt elf.loads.reverse 0x4002013).or _ ≠
    overwritten 0x4002013 (toNeBytes 0x4000008) (elf.loadedOver (vm.readsAt w)) 0x4002013
  rw [hword, hzero, Option.some_or]
  decide

end ElfFile

end Maturin
