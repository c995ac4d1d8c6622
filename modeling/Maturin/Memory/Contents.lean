import Maturin.Memory.Backed
import Maturin.Memory.Area

/-!
# The contents of a frame vector

`pma.contents z mem` are the bytes of an area, where a page without a frame shows what `z` has
there. Reading and writing through the kernel give a page a frame of zeros, so they fit a `z` that
is zero on the pages they touch. Then the frame vector is a flat memory: a read returns a range of
the contents, a write changes a range, and when the frames run out a part of the range was treated.

`Grown pma₀ w₀ pma w` says what else happens on the way from `pma₀` and `w₀`: frames are added that
were free before, and no frame of anybody else changes.
-/

open Exec

namespace Maturin

variable {σ φ F : Type}

/-- The bytes of an area; a page without a frame shows `z`. -/
def PmAreaLazy.contents (pma : PmAreaLazy F) (z mem : ByteMem) : ByteMem := fun k ↦
  match pma.frames[k / PAGE_SIZE]?.join with
  | some p => mem (p + k % PAGE_SIZE)
  | none => z k

/-- The contents depend on the frames of the vector alone. -/
theorem PmAreaLazy.contents_congr {pma : PmAreaLazy F} {z mem mem' : ByteMem} {k : ℕ}
    (h : ∀ j p : ℕ, pma.frames[j]? = some (some p) → ∀ x < PAGE_SIZE, mem' (p + x) = mem (p + x)) :
    pma.contents z mem' k = pma.contents z mem k := by
  rw [contents, contents]
  cases hp : pma.frames[k / PAGE_SIZE]?.join with
  | none => rfl
  | some p => exact h _ p (Option.join_eq_some_iff.mp hp) _ (Nat.mod_lt _ (by norm_num))

/-- The page shows zeros as long as it has no frame. -/
def ZeroPage (z : ByteMem) (i : ℕ) : Prop := ∀ x < PAGE_SIZE, z (i * PAGE_SIZE + x) = 0

/-- The page of a range. -/
def InPages (off len i : ℕ) : Prop := ∃ k < len, (off + k) / PAGE_SIZE = i

variable [FrameAllocator σ]

/-- The frames of the vector are in use, and no two of its pages share one. -/
structure PmAreaLazy.Owns (pma : PmAreaLazy F) (w : World σ φ) : Prop where
  frame : ∀ {j p : ℕ}, pma.frames[j]? = some (some p) → PageAligned p ∧ p < 2 ^ 56 ∧ p ∈ w.inUse
  inj : ∀ {j k p : ℕ}, pma.frames[j]? = some (some p) → pma.frames[k]? = some (some p) → j = k

/-- The vector got new frames, and nothing else changed but the contents of its own. -/
structure Grown (pma₀ : PmAreaLazy F) (w₀ : World σ φ) (pma : PmAreaLazy F) (w : World σ φ) :
    Prop where
  owns : pma.Owns w
  backend_eq : pma.backend = pma₀.backend
  length_eq : pma.frames.length = pma₀.frames.length
  old : ∀ {j p : ℕ}, pma₀.frames[j]? = some (some p) → pma.frames[j]? = some (some p)
  new : ∀ {j p : ℕ}, pma.frames[j]? = some (some p) →
    pma₀.frames[j]? = some (some p) ∨ p ∉ w₀.inUse
  kept : ∀ p ∈ w₀.inUse, PageAligned p → (∀ j : ℕ, pma₀.frames[j]? ≠ some (some p)) → Kept w₀ w p
  used : w₀.inUse ⊆ w.inUse
  oom : w₀.oom = true → w.oom = true

section grown

variable {pma₀ pma₁ pma : PmAreaLazy F} {w₀ w₁ w w' : World σ φ} {z : ByteMem} {i p : ℕ}

theorem PmAreaLazy.Owns.grown (h : pma.Owns w) : Grown pma w pma w where
  owns := h
  backend_eq := rfl
  length_eq := rfl
  old := id
  new := Or.inl
  kept _ hp _ _ := ⟨hp, fun _ _ _ ↦ rfl⟩
  used := subset_rfl
  oom := id

namespace PmAreaLazy.Owns

/-- What the vector holds after a page got a frame is the new frame or was there before. -/
theorem getElem?_set (h : pma.Owns w) (hi : i < pma.frames.length) (hfresh : p ∉ w.inUse)
    {j q : ℕ} (hj : (pma.frames.set i (some p))[j]? = some (some q)) :
    j = i ∧ q = p ∨ pma.frames[j]? = some (some q) ∧ q ≠ p := by
  by_cases hji : j = i
  · subst hji
    rw [List.getElem?_set_self hi, Option.some.injEq, Option.some.injEq] at hj
    exact Or.inl ⟨rfl, hj.symm⟩
  · rw [List.getElem?_set_ne (Ne.symm hji)] at hj
    exact Or.inr ⟨hj, fun heq ↦ hfresh (heq ▸ (h.frame hj).2.2)⟩

/-- A page gets a frame that was free. -/
theorem set (h : pma.Owns w) (hi : i < pma.frames.length) (hfresh : p ∉ w.inUse)
    (hal : PageAligned p) (hlt : p < 2 ^ 56) (huse : w'.inUse = insert p w.inUse) :
    ({ pma with frames := pma.frames.set i (some p) } : PmAreaLazy F).Owns w' := by
  constructor
  · intro j q hj
    rcases h.getElem?_set hi hfresh hj with ⟨-, rfl⟩ | ⟨hj, -⟩
    · exact ⟨hal, hlt, huse ▸ Set.mem_insert _ _⟩
    · obtain ⟨hal', hlt', huse'⟩ := h.frame hj
      exact ⟨hal', hlt', huse ▸ Set.mem_insert_of_mem _ huse'⟩
  · intro j k q hj hk
    rcases h.getElem?_set hi hfresh hj with ⟨rfl, rfl⟩ | ⟨hj, hne⟩
    · rcases h.getElem?_set hi hfresh hk with ⟨rfl, -⟩ | ⟨-, hne⟩
      · rfl
      · exact absurd rfl hne
    · rcases h.getElem?_set hi hfresh hk with ⟨-, rfl⟩ | ⟨hk, -⟩
      · exact absurd rfl hne
      · exact h.inj hj hk

end PmAreaLazy.Owns

namespace Grown

theorem size_eq (h : Grown pma₀ w₀ pma w) : pma.size = pma₀.size := by
  rw [PmAreaLazy.size, PmAreaLazy.size, h.length_eq]

/-- A page without a frame had none before. -/
theorem none_of_none (h : Grown pma₀ w₀ pma w) (hi : pma.frames[i]? = some none) :
    pma₀.frames[i]? = some none := by
  cases h₀ : pma₀.frames[i]? with
  | none =>
    have hlt := (List.getElem?_eq_some_iff.mp hi).1
    rw [h.length_eq] at hlt
    exact absurd (List.getElem?_eq_none_iff.mp h₀) (not_le.mpr hlt)
  | some frame =>
    cases frame with
    | none => rfl
    | some p =>
      rw [h.old h₀] at hi
      exact absurd hi (by simp)

theorem trans (h : Grown pma₀ w₀ pma₁ w₁) (h' : Grown pma₁ w₁ pma w) : Grown pma₀ w₀ pma w where
  owns := h'.owns
  backend_eq := h'.backend_eq.trans h.backend_eq
  length_eq := h'.length_eq.trans h.length_eq
  old hj := h'.old (h.old hj)
  new hj := by
    rcases h'.new hj with hj | hp
    · exact h.new hj
    · exact Or.inr fun hp₀ ↦ hp (h.used hp₀)
  kept p hp hal hnot := by
    obtain ⟨hp₁, hmem₁⟩ := h.kept p hp hal hnot
    have hnot₁ : ∀ j : ℕ, pma₁.frames[j]? ≠ some (some p) := fun j hj ↦
      (h.new hj).elim (hnot j) fun hfresh ↦ hfresh hp
    obtain ⟨hp', hmem'⟩ := h'.kept p hp₁ hal hnot₁
    exact ⟨hp', fun x hl hr ↦ (hmem' x hl hr).trans (hmem₁ x hl hr)⟩
  used := h.used.trans h'.used
  oom ho := h'.oom (h.oom ho)

/-- A page gets a frame. -/
theorem alloc (h : pma.Owns w) (hi : pma.frames[i]? = some none) (hfresh : p ∉ w.inUse)
    (hal : PageAligned p) (hlt : p < 2 ^ 56) (huse : w'.inUse = insert p w.inUse)
    (hmem : ∀ x, x < p ∨ p + PAGE_SIZE ≤ x → w'.mem x = w.mem x)
    (hoom : w.oom = true → w'.oom = true) :
    Grown pma w { pma with frames := pma.frames.set i (some p) } w' := by
  have hilt : i < pma.frames.length := (List.getElem?_eq_some_iff.mp hi).1
  have hsub : w.inUse ⊆ w'.inUse := huse ▸ Set.subset_insert p _
  refine ⟨h.set hilt hfresh hal hlt huse, rfl, List.length_set .., fun {j q} hj ↦ ?_,
    fun {j q} hj ↦ ?_, fun q hq hqal hnot ↦ ⟨hsub hq, fun x hl hr ↦ hmem x ?_⟩, hsub, hoom⟩
  · dsimp only
    rw [List.getElem?_set_ne (fun hij ↦ ?_)]
    · exact hj
    · rw [← hij, hi] at hj
      exact absurd hj (by simp)
  · rcases h.getElem?_set hilt hfresh hj with ⟨-, rfl⟩ | ⟨hj, -⟩
    · exact Or.inr hfresh
    · exact Or.inl hj
  · have hne : q ≠ p := fun heq ↦ hfresh (heq ▸ hq)
    rcases page_disjoint hqal hal hne with hle | hle <;> omega

/-- The bytes of a frame of the vector change. -/
theorem write (h : pma.Owns w) (hp : pma.frames[i]? = some (some p)) {mem : ByteMem}
    (hmem : ∀ x, x < p ∨ p + PAGE_SIZE ≤ x → mem x = w.mem x) : Grown pma w pma (w.setMem mem) where
  owns := ⟨h.frame, h.inj⟩
  backend_eq := rfl
  length_eq := rfl
  old := id
  new := Or.inl
  kept q hq hal hnot := by
    refine ⟨hq, fun x hl hr ↦ hmem x ?_⟩
    have hne : q ≠ p := fun heq ↦ hnot i (heq ▸ hp)
    rcases page_disjoint hal (h.frame hp).1 hne with hle | hle <;> omega
  used := subset_rfl
  oom := id

end Grown

/-! ## What a step does to the contents -/

namespace PmAreaLazy.Owns

/-- A new frame that holds what the page showed before changes no byte. -/
theorem contents_alloc (h : pma.Owns w) (hi : pma.frames[i]? = some none) (hfresh : p ∉ w.inUse)
    (hal : PageAligned p) (hmem : ∀ x, x < p ∨ p + PAGE_SIZE ≤ x → w'.mem x = w.mem x)
    (hpage : ∀ x < PAGE_SIZE, w'.mem (p + x) = z (i * PAGE_SIZE + x)) :
    ({ pma with frames := pma.frames.set i (some p) } : PmAreaLazy F).contents z w'.mem
      = pma.contents z w.mem := by
  have hilt : i < pma.frames.length := (List.getElem?_eq_some_iff.mp hi).1
  funext k
  rw [contents, contents]
  dsimp only
  have hoff : k % PAGE_SIZE < PAGE_SIZE := Nat.mod_lt _ (by norm_num)
  by_cases hki : k / PAGE_SIZE = i
  · rw [hki, List.getElem?_set_self hilt, hi]
    dsimp only [Option.join_some, Option.join_none]
    rw [hpage _ hoff, ← hki, Nat.div_add_mod']
  · rw [List.getElem?_set_ne (Ne.symm hki)]
    cases hq : pma.frames[k / PAGE_SIZE]?.join with
    | none => rfl
    | some q =>
      obtain ⟨hqal, -, hquse⟩ := h.frame (Option.join_eq_some_iff.mp hq)
      have hne : q ≠ p := fun heq ↦ hfresh (heq ▸ hquse)
      refine hmem _ ?_
      rcases page_disjoint hqal hal hne with hle | hle <;> omega

/-- Bytes are written into one page. -/
theorem contents_write (h : pma.Owns w) {start : ℕ} {piece : List UInt8}
    (hp : pma.frames[start / PAGE_SIZE]? = some (some p))
    (hlen : start % PAGE_SIZE + piece.length ≤ PAGE_SIZE) :
    pma.contents z (w.mem.writeBytes (p + start % PAGE_SIZE) piece)
      = ByteMem.writeBytes start piece (pma.contents z w.mem) := by
  obtain ⟨hal, -, -⟩ := h.frame hp
  funext k
  by_cases hpage : k / PAGE_SIZE = start / PAGE_SIZE
  · have hk : ∀ mem, pma.contents z mem k = mem (p + k % PAGE_SIZE) := by
      intro mem
      rw [contents, hpage, hp]
      rfl
    rw [hk]
    rcases lt_or_ge k start with hlt | hge
    · rw [ByteMem.writeBytes_of_notMem (Or.inl hlt), hk,
        ByteMem.writeBytes_of_notMem (Or.inl (by simp only [PAGE_SIZE] at hpage ⊢; omega))]
    · -- within the page, the distance from `start` is the same in the area and in the frame
      have hdist : p + k % PAGE_SIZE - (p + start % PAGE_SIZE) = k - start := by
        simp only [PAGE_SIZE] at hpage ⊢
        omega
      have hle : p + start % PAGE_SIZE ≤ p + k % PAGE_SIZE := by
        simp only [PAGE_SIZE] at hpage ⊢
        omega
      rw [ByteMem.writeBytes, ByteMem.writeBytes, if_pos hle, if_pos hge, hdist, hk]
  · have hout : k < start ∨ start + piece.length ≤ k := by
      simp only [PAGE_SIZE] at hpage hlen ⊢
      omega
    rw [ByteMem.writeBytes_of_notMem hout, contents, contents]
    cases hq : pma.frames[k / PAGE_SIZE]?.join with
    | none => rfl
    | some q =>
      have hq' := Option.join_eq_some_iff.mp hq
      have hne : q ≠ p := fun heq ↦ hpage (h.inj (heq ▸ hq') hp)
      have hoff : k % PAGE_SIZE < PAGE_SIZE := Nat.mod_lt _ (by norm_num)
      refine ByteMem.writeBytes_of_notMem ?_
      rcases page_disjoint (h.frame hq').1 hal hne with hle | hle <;> omega

omit [FrameAllocator σ] in
/-- The bytes of a piece of a page are those of its frame. -/
theorem readBytes_contents {start n : ℕ} {mem : ByteMem}
    (hp : pma.frames[start / PAGE_SIZE]? = some (some p))
    (hlen : start % PAGE_SIZE + n ≤ PAGE_SIZE) :
    (pma.contents z mem).readBytes start n = mem.readBytes (p + start % PAGE_SIZE) n := by
  refine List.map_congr_left fun i hi ↦ ?_
  rw [List.mem_range] at hi
  have hdiv : (start + i) / PAGE_SIZE = start / PAGE_SIZE := by
    simp only [PAGE_SIZE] at hlen ⊢
    omega
  have hmod : (start + i) % PAGE_SIZE = start % PAGE_SIZE + i := by
    simp only [PAGE_SIZE] at hlen ⊢
    omega
  rw [contents, hdiv, hp, hmod, Nat.add_assoc]
  rfl

end PmAreaLazy.Owns

end grown

/-! ## The loop over the pages of a range -/

section loop

variable {δ : Type} {off len : ℕ} {pma : PmAreaLazy F} {w : World σ φ}

namespace PmAreaLazy

/-- The rule for the loop: `I k d pma w` holds when `k` bytes are treated. The operation gets pieces
of one page each, and a page without a frame gets one first. -/
theorem wp_forEachLoopWith {op : δ → ℕ → ℕ → ℕ → EStateM Panic (World σ φ) δ}
    {I : ℕ → δ → PmAreaLazy F → World σ φ → Prop}
    (hsize : ∀ {k d pma w}, I k d pma w → off + len ≤ pma.size)
    (hop : ∀ {k n d pma p w}, I k d pma w → pma.frames[(off + k) / PAGE_SIZE]? = some (some p) →
      k + n ≤ len → (off + k) % PAGE_SIZE + n ≤ PAGE_SIZE →
      wp (op d k (p + (off + k) % PAGE_SIZE) n) (fun d' w' ↦ I (k + n) d' pma w') noPanic w)
    (hnew : ∀ {k d pma w}, I k d pma w → k < len →
      pma.frames[(off + k) / PAGE_SIZE]? = some none → wp frameNew (fun r w' ↦ match r with
        | some p => I k d { pma with frames := pma.frames.set ((off + k) / PAGE_SIZE) (some p) }
            (w'.setMem (ByteMem.fill p PAGE_SIZE 0 w'.mem))
        | none => w'.oom = true ∧ I k d pma w') noPanic w)
    (rounds : ℕ) {k : ℕ} {d : δ} (h : I k d pma w) (hk : k ≤ len) (hrounds : len - k ≤ rounds) :
    wp (forEachLoopWith op rounds pma d (off + k) (len - k) k) (fun r w' ↦
      r.1 = .ok len ∧ I len r.2.2 r.2.1 w' ∨
      ∃ j ≤ len, r.1 = .error .memory_runOutOfMemory ∧ w'.oom = true ∧ I j r.2.2 r.2.1 w')
      noPanic w := by
  induction rounds generalizing pma k d w with
  | zero =>
    obtain rfl : k = len := by omega
    exact Or.inl ⟨rfl, h⟩
  | succ rounds ih =>
    rw [forEachLoopWith]
    by_cases hpos : len - k > 0
    · rw [if_pos hpos]
      dsimp only
      have hidx : alignDown (off + k) / PAGE_SIZE = (off + k) / PAGE_SIZE :=
        Nat.mul_div_cancel _ (by norm_num)
      have hoff : off + k - alignDown (off + k) = (off + k) % PAGE_SIZE := by
        simp only [alignDown, PAGE_SIZE]
        omega
      rw [hidx, hoff]
      set n := min (PAGE_SIZE - (off + k) % PAGE_SIZE) (len - k) with hn
      have hmod : (off + k) % PAGE_SIZE < PAGE_SIZE := Nat.mod_lt _ (by norm_num)
      -- once the page has a frame, the operation treats the piece and the loop goes on
      have hround : ∀ {pma' : PmAreaLazy F} {w₁ : World σ φ} {p : ℕ}, I k d pma' w₁ →
          pma'.frames[(off + k) / PAGE_SIZE]? = some (some p) →
          wp (op d k (p + (off + k) % PAGE_SIZE) n >>= fun d ↦
              forEachLoopWith op rounds pma' d (off + k + n) (len - k - n) (k + n)) (fun r w' ↦
            r.1 = .ok len ∧ I len r.2.2 r.2.1 w' ∨
            ∃ j ≤ len, r.1 = .error .memory_runOutOfMemory ∧ w'.oom = true ∧ I j r.2.2 r.2.1 w')
            noPanic w₁ := by
        intro pma' w₁ p h₁ hp
        rw [wp_bind]
        refine wp_imp (hop h₁ hp (by omega) (by omega)) fun d' w₂ h₂ ↦ ?_
        rw [Nat.add_assoc, ← Nat.sub_add_eq]
        exact ih h₂ (by omega) (by omega)
      cases hframe : pma.frames[(off + k) / PAGE_SIZE]? with
      | none =>
        have hlen := List.getElem?_eq_none_iff.mp hframe
        have := hsize h
        simp only [size, PAGE_SIZE] at hlen this
        omega
      | some frame =>
        cases frame with
        | some p => exact hround h hframe
        | none =>
          dsimp only
          rw [wp_bind]
          refine wp_imp (hnew h (by omega) hframe) fun r w₁ hr ↦ ?_
          cases r with
          | none => exact Or.inr ⟨k, hk, rfl, hr.1, hr.2⟩
          | some p =>
            dsimp only
            rw [wp_bind, frameZero, Exec.wp_modify]
            exact hround hr (List.getElem?_set_self (List.getElem?_eq_some_iff.mp hframe).1)
    · rw [if_neg hpos]
      obtain rfl : k = len := by omega
      exact Or.inl ⟨rfl, h⟩

/-- Without a value of the operation the loop is the same. -/
theorem forEachLoop_eq (op : ℕ → ℕ → ℕ → EStateM Panic (World σ φ) Unit) (rounds : ℕ)
    (pma : PmAreaLazy F) (start len processed : ℕ) :
    forEachLoop op rounds pma start len processed = (fun r ↦ (r.1, r.2.1)) <$>
      forEachLoopWith (fun _ : Unit ↦ op) rounds pma () start len processed := by
  induction rounds generalizing pma start len processed with
  | zero => rfl
  | succ rounds ih =>
    rw [forEachLoop, forEachLoopWith]
    split_ifs
    · dsimp only
      cases pma.frames[alignDown start / PAGE_SIZE]? with
      | none => rfl
      | some frame =>
        cases frame with
        | some p =>
          dsimp only
          rw [map_bind]
          exact bind_congr fun _ ↦ ih ..
        | none =>
          dsimp only
          rw [map_bind]
          refine bind_congr fun r ↦ ?_
          cases r with
          | none => rfl
          | some p =>
            dsimp only
            rw [map_bind]
            refine bind_congr fun _ ↦ ?_
            rw [map_bind]
            exact bind_congr fun _ ↦ ih ..
    · rfl

/-- The loop over the pages of a range in a frame vector of its own: what the operation does to the
bytes of a piece, it does to the contents. -/
theorem Owns.wp_loop {op : δ → ℕ → ℕ → ℕ → EStateM Panic (World σ φ) δ} {z : ByteMem}
    {C : ℕ → δ → ByteMem → Prop} (h : pma.Owns w) (hsize : off + len ≤ pma.size)
    (hz : ∀ i, InPages off len i → pma.frames[i]? = some none → ZeroPage z i)
    (hop : ∀ {k n d p w'} {pma' : PmAreaLazy F}, Owns pma' w' →
      pma'.frames[(off + k) / PAGE_SIZE]? = some (some p) → k + n ≤ len →
      (off + k) % PAGE_SIZE + n ≤ PAGE_SIZE → C k d (pma'.contents z w'.mem) →
      wp (op d k (p + (off + k) % PAGE_SIZE) n) (fun d' w'' ↦ ∃ mem : ByteMem,
        w'' = w'.setMem mem ∧ (∀ x, x < p ∨ p + PAGE_SIZE ≤ x → mem x = w'.mem x) ∧
          C (k + n) d' (pma'.contents z mem)) noPanic w')
    {d : δ} (hC : C 0 d (pma.contents z w.mem)) :
    wp (forEachLoopWith op len pma d off len 0) (fun r w' ↦
      Grown pma w r.2.1 w' ∧ w'.files = w.files ∧
      (r.1 = .ok len ∧ C len r.2.2 (r.2.1.contents z w'.mem) ∨
        ∃ j ≤ len, r.1 = .error .memory_runOutOfMemory ∧ w'.oom = true ∧
          C j r.2.2 (r.2.1.contents z w'.mem))) noPanic w := by
  have hloop : wp (forEachLoopWith op len pma d (off + 0) (len - 0) 0) _ noPanic w :=
    wp_forEachLoopWith (I := fun k d pma' w' ↦ Grown pma w pma' w' ∧ w'.files = w.files ∧
      C k d (pma'.contents z w'.mem)) (fun hI ↦ by rw [hI.1.size_eq]; exact hsize) ?_ ?_ len
    ⟨h.grown, rfl, hC⟩ (Nat.zero_le _) le_rfl
  · refine wp_imp hloop fun r w' hr ↦ ?_
    rcases hr with ⟨hok, hgrown, hfiles, hC'⟩ | ⟨j, hj, herr, hoom, hgrown, hfiles, hC'⟩
    · exact ⟨hgrown, hfiles, Or.inl ⟨hok, hC'⟩⟩
    · exact ⟨hgrown, hfiles, Or.inr ⟨j, hj, herr, hoom, hC'⟩⟩
  · rintro k n d pma' p w' ⟨hgrown, hfiles, hC'⟩ hp hle hpage
    refine wp_imp (hop hgrown.owns hp hle hpage hC') fun d' w'' hw ↦ ?_
    obtain ⟨mem, rfl, hmem, hC''⟩ := hw
    exact ⟨hgrown.trans (Grown.write hgrown.owns hp hmem), hfiles, hC''⟩
  · rintro k d pma' w' ⟨hgrown, hfiles, hC'⟩ hk hnone
    refine wp_mono (wp_and wp_frameNew wp_frameNew_files) (fun r w₁ hr ↦ ?_) fun _ _ hp ↦ hp.1
    cases r with
    | none =>
      obtain ⟨rfl, -⟩ := hr
      exact ⟨rfl, hgrown.trans ⟨⟨hgrown.owns.frame, hgrown.owns.inj⟩, rfl, rfl, id, Or.inl,
        fun q hq _ _ ↦ ⟨hq, fun _ _ _ ↦ rfl⟩, subset_rfl, fun _ ↦ rfl⟩, hfiles, hC'⟩
    | some p =>
      obtain ⟨⟨hfresh, hal, hlt, huse, hmem, hoom⟩, hfiles₁⟩ := hr
      have hzero := hz _ ⟨k, hk, rfl⟩ (hgrown.none_of_none hnone)
      have hout : ∀ x, x < p ∨ p + PAGE_SIZE ≤ x →
          (w₁.setMem (ByteMem.fill p PAGE_SIZE 0 w₁.mem)).mem x = w'.mem x := fun x hx ↦ by
        rw [World.setMem_mem, ByteMem.fill_of_notMem hx, hmem]
      refine ⟨hgrown.trans (Grown.alloc hgrown.owns hnone hfresh hal hlt huse hout fun ho ↦ ?_),
        hfiles₁.trans hfiles, ?_⟩
      · rwa [World.setMem_oom, hoom]
      · rw [hgrown.owns.contents_alloc hnone hfresh hal hout fun x hx ↦ ?_]
        · exact hC'
        · rw [hzero x hx]
          exact ByteMem.fill_of_mem ⟨by omega, by omega⟩

/-! ## Reading and writing -/

/-- Behind the end nothing is read or written. -/
theorem read_outOfRange {dst : List UInt8}
    (h : off ≥ pma.size ∨ wadd off dst.length > pma.size) :
    pma.read (σ := σ) (φ := φ) off dst = pure (.error .pmArea_outOfRange, pma, dst) := if_pos h

theorem write_outOfRange {src : List UInt8}
    (h : off ≥ pma.size ∨ wadd off src.length > pma.size) :
    pma.write (σ := σ) (φ := φ) off src = pure (.error .pmArea_outOfRange, pma) := if_pos h

/-- **A write changes a range of the contents**, or a part of it if the frames run out. -/
theorem Owns.wp_write {src : List UInt8} {z : ByteMem} (h : pma.Owns w) (hoff : off < pma.size)
    (hsize : off + src.length ≤ pma.size) (hlt : off + src.length < 2 ^ 64)
    (hz : ∀ i, InPages off src.length i → pma.frames[i]? = some none → ZeroPage z i) :
    wp (pma.write off src) (fun r w' ↦ Grown pma w r.2 w' ∧ w'.files = w.files ∧
      (r.1 = .ok src.length ∧
          r.2.contents z w'.mem = ByteMem.writeBytes off src (pma.contents z w.mem) ∨
        ∃ j ≤ src.length, r.1 = .error .memory_runOutOfMemory ∧ w'.oom = true ∧
          r.2.contents z w'.mem
            = ByteMem.writeBytes off (src.take j) (pma.contents z w.mem))) noPanic w := by
  rw [write, forEachFrame, wadd_of_lt hlt, if_neg (by omega), forEachLoop_eq, wp_map]
  refine wp_imp (h.wp_loop hsize hz (C := fun k _ m ↦
    m = ByteMem.writeBytes off (src.take k) (pma.contents z w.mem)) ?_ ?_) fun r w' hr ↦ ?_
  · intro k n d p w' pma' hown hp hle hpage hC
    have hpiece : ((src.drop k).take n).length = n := by
      rw [List.length_take, List.length_drop]
      omega
    refine ⟨_, rfl, fun x hx ↦ ByteMem.writeBytes_of_notMem (by omega), ?_⟩
    rw [hown.contents_write hp (by omega), hC, ByteMem.writeBytes_take_add (by omega)]
  · rw [List.take_zero, ByteMem.writeBytes_nil]
  · obtain ⟨hgrown, hfiles, ⟨hok, hC⟩ | ⟨j, hj, herr, hoom, hC⟩⟩ := hr
    · rw [List.take_length] at hC
      exact ⟨hgrown, hfiles, Or.inl ⟨hok, hC⟩⟩
    · exact ⟨hgrown, hfiles, Or.inr ⟨j, hj, herr, hoom, hC⟩⟩

/-- **A read returns a range of the contents**, unless the frames run out, and changes none. -/
theorem Owns.wp_read {dst : List UInt8} {z : ByteMem} (h : pma.Owns w) (hoff : off < pma.size)
    (hsize : off + dst.length ≤ pma.size) (hlt : off + dst.length < 2 ^ 64)
    (hz : ∀ i, InPages off dst.length i → pma.frames[i]? = some none → ZeroPage z i) :
    wp (pma.read off dst) (fun r w' ↦ Grown pma w r.2.1 w' ∧ w'.files = w.files ∧
      r.2.1.contents z w'.mem = pma.contents z w.mem ∧ r.2.2.length = dst.length ∧
      (r.1 = .ok dst.length ∧ r.2.2 = (pma.contents z w.mem).readBytes off dst.length ∨
        r.1 = .error .memory_runOutOfMemory ∧ w'.oom = true)) noPanic w := by
  rw [read, wadd_of_lt hlt, if_neg (by omega)]
  refine wp_imp (h.wp_loop hsize hz (C := fun k d m ↦ m = pma.contents z w.mem ∧
    d = (pma.contents z w.mem).readBytes off k ++ dst.drop k) ?_ ?_) fun r w' hr ↦ ?_
  · rintro k n d p w' pma' hown hp hle hpage ⟨hm, rfl⟩
    have hread : w'.mem.readBytes (p + (off + k) % PAGE_SIZE) n
        = (pma.contents z w.mem).readBytes (off + k) n := by
      rw [← hm, Owns.readBytes_contents hp hpage]
    rw [wp_bind, wp_get, hread]
    have hlen : ((pma.contents z w.mem).readBytes off k ++ dst.drop k).length = dst.length := by
      rw [List.length_append, ByteMem.length_readBytes, List.length_drop]
      omega
    rw [wp_copyIntoSlice (by omega) (by omega) (by rw [ByteMem.length_readBytes]; omega)]
    refine ⟨w'.mem, rfl, fun _ _ ↦ rfl, hm, ?_⟩
    rw [List.take_left' ByteMem.length_readBytes, ByteMem.readBytes_add]
    congr 1
    rw [List.drop_append, List.drop_eq_nil_of_le (by rw [ByteMem.length_readBytes]; omega),
      List.nil_append, ByteMem.length_readBytes, List.drop_drop]
    congr 1
    omega
  · exact ⟨rfl, rfl⟩
  · obtain ⟨hgrown, hfiles, ⟨hok, hm, hd⟩ | ⟨j, hj, herr, hoom, hm, hd⟩⟩ := hr
    · rw [List.drop_length, List.append_nil] at hd
      exact ⟨hgrown, hfiles, hm, by rw [hd, ByteMem.length_readBytes], Or.inl ⟨hok, hd⟩⟩
    · refine ⟨hgrown, hfiles, hm, ?_, Or.inr ⟨herr, hoom⟩⟩
      rw [hd, List.length_append, ByteMem.length_readBytes, List.length_drop]
      omega

end PmAreaLazy

end loop

end Maturin
