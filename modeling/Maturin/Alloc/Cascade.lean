import Maturin.Alloc.BitAlloc
import Mathlib.Data.Nat.Bitwise
import Mathlib.Order.Interval.Set.Basic
import Mathlib.Tactic.Common

/-!
# The bitmaps of `bitmap-allocator`

`BitAlloc16` is a word of 16 bits. `BitAllocCascade16` is a tree with 16 subtrees and a word that
tells which of them have a free bit. Both meet the documentation of the trait, so a tree of any
height does: `BitAlloc256` for the descriptors of a process and `BitAlloc16M` for the frames.
-/

namespace Maturin

/-! ## Words of 16 bits -/

namespace BitField

/-- `set_bit` -/
def setBit (b : BitVec 16) (i : ℕ) (v : Bool) : BitVec 16 :=
  if v then b ||| BitVec.twoPow 16 i else b &&& ~~~BitVec.twoPow 16 i

/-- The bits of `[l, r)`. -/
def mask (l r : ℕ) : BitVec 16 := BitVec.ofNat 16 ((2 ^ (r - l) - 1) <<< l)

/-- `set_bits` with a value that is all ones or zero. -/
def setBits (b : BitVec 16) (l r : ℕ) (v : Bool) : BitVec 16 :=
  if v then b ||| mask l r else b &&& ~~~mask l r

/-- `trailing_zeros` -/
def trailingZeros (b : BitVec 16) : ℕ := ((List.range 16).find? b.getLsbD).getD 16

theorem getLsbD_setBit {b : BitVec 16} {i k : ℕ} {v : Bool} (hi : i < 16) :
    (setBit b i v).getLsbD k = if k = i then v else b.getLsbD k := by
  cases v with
  | true =>
    rw [setBit, if_pos rfl, BitVec.getLsbD_or, BitVec.getLsbD_twoPow]
    split_ifs with h
    · simp [h, hi]
    · simp [Ne.symm h]
  | false =>
    rw [setBit, if_neg (by simp), BitVec.getLsbD_and, BitVec.getLsbD_not, BitVec.getLsbD_twoPow]
    split_ifs with h
    · simp [h]
    · rcases lt_or_ge k 16 with hk | hk
      · simp [hk, Ne.symm h]
      · simp [BitVec.getLsbD_of_ge b k hk]

theorem getLsbD_mask {l r k : ℕ} (hr : r ≤ 16) :
    (mask l r).getLsbD k = decide (l ≤ k ∧ k < r) := by
  rw [mask, BitVec.getLsbD_ofNat, Nat.testBit_shiftLeft, Nat.testBit_two_pow_sub_one,
    Bool.eq_iff_iff]
  simp only [Bool.and_eq_true, decide_eq_true_eq]
  omega

theorem getLsbD_setBits {b : BitVec 16} {l r k : ℕ} {v : Bool} (hr : r ≤ 16) :
    (setBits b l r v).getLsbD k = if l ≤ k ∧ k < r then v else b.getLsbD k := by
  cases v with
  | true =>
    rw [setBits, if_pos rfl, BitVec.getLsbD_or, getLsbD_mask hr]
    split_ifs with h
    · simp [h]
    · simp [h]
  | false =>
    rw [setBits, if_neg (by simp), BitVec.getLsbD_and, BitVec.getLsbD_not, getLsbD_mask hr]
    split_ifs with h
    · simp [h]
    · rcases lt_or_ge k 16 with hk | hk
      · simp [hk, h]
      · simp [BitVec.getLsbD_of_ge b k hk]

theorem getLsbD_lt {b : BitVec 16} {k : ℕ} (h : b.getLsbD k = true) : k < 16 := by
  by_contra hk
  rw [BitVec.getLsbD_of_ge b k (by omega)] at h
  exact absurd h (by simp)

theorem trailingZeros_lt {b : BitVec 16} (h : trailingZeros b < 16) :
    b.getLsbD (trailingZeros b) = true := by
  rw [trailingZeros] at h ⊢
  cases hf : (List.range 16).find? b.getLsbD with
  | none =>
    rw [hf] at h
    exact absurd h (by simp)
  | some i => simpa using List.find?_some hf

theorem trailingZeros_ge {b : BitVec 16} (h : ¬ trailingZeros b < 16) (k : ℕ) :
    b.getLsbD k = false := by
  rw [trailingZeros] at h
  cases hf : (List.range 16).find? b.getLsbD with
  | none =>
    rw [List.find?_eq_none] at hf
    rcases lt_or_ge k 16 with hk | hk
    · simpa using hf k (List.mem_range.mpr hk)
    · exact BitVec.getLsbD_of_ge b k hk
  | some i =>
    rw [hf] at h
    exact absurd (List.mem_range.mp (List.mem_of_find?_eq_some hf)) (by simpa using h)

theorem eq_zero_iff {b : BitVec 16} : b = 0 ↔ ∀ k, b.getLsbD k = false := by
  constructor
  · rintro rfl k
    exact BitVec.getLsbD_zero
  · intro h
    exact BitVec.eq_of_getLsbD_eq fun k _ ↦ by rw [h k, BitVec.ofNat_eq_ofNat, BitVec.getLsbD_zero]

end BitField

open BitField

/-! ## Leaves -/

/-- `BitAlloc16`: a bit is set when it is free. -/
structure BitAlloc16 where
  bits : BitVec 16
  deriving DecidableEq

namespace BitAlloc16

def alloc (b : BitAlloc16) : Option (ℕ × BitAlloc16) :=
  let i := trailingZeros b.bits
  if i < 16 then some (i, ⟨setBit b.bits i false⟩) else none

def next (key : ℕ) (b : BitAlloc16) : Option ℕ :=
  (List.range' key (16 - key)).find? b.bits.getLsbD

/-- `insert` and `remove`: give the bits of the range one value. -/
def setRange (v : Bool) (l r : ℕ) (b : BitAlloc16) : Option BitAlloc16 :=
  if l < r ∧ r ≤ 16 then some ⟨setBits b.bits l r v⟩ else none

def allocContiguous (size alignLog2 : ℕ) (b : BitAlloc16) : Option (ℕ × BitAlloc16) := do
  let base ← BitAlloc.findContiguous (next · b) (b.bits == 0) 16 size alignLog2
  let b' ← setRange false base (base + size) b
  pure (base, b')

def dealloc (key : ℕ) (b : BitAlloc16) : Option BitAlloc16 :=
  if key < 16 ∧ b.bits.getLsbD key = false then some ⟨setBit b.bits key true⟩ else none

instance : BitAlloc BitAlloc16 where
  CAP := 16
  DEFAULT := ⟨0⟩
  alloc := alloc
  allocContiguous := allocContiguous
  next := next
  dealloc := dealloc
  insert := setRange true
  remove := setRange false
  isEmpty b := b.bits == 0
  test k b := b.bits.getLsbD k

/-- The set bits are the free ones. -/
def Free (b : BitAlloc16) (S : Set ℕ) : Prop := ∀ k, k ∈ S ↔ b.bits.getLsbD k = true

variable {b b' : BitAlloc16} {S : Set ℕ} {k m n a l r : ℕ}

theorem Free.lt (h : Free b S) (hk : k ∈ S) : k < 16 := getLsbD_lt ((h k).mp hk)

theorem Free.eq_zero_iff (h : Free b S) : b.bits = 0 ↔ S = ∅ := by
  rw [BitField.eq_zero_iff, Set.eq_empty_iff_forall_notMem]
  refine forall_congr' fun k ↦ ?_
  rw [h k, Bool.not_eq_true]

theorem Free.setBit_false (h : Free b S) (hk : k < 16) :
    Free ⟨setBit b.bits k false⟩ (S \ {k}) := by
  intro m
  rw [getLsbD_setBit hk, Set.mem_sdiff, Set.mem_singleton_iff, h m]
  split_ifs with hm
  · simp [hm]
  · simp [hm]

theorem Free.setBit_true (h : Free b S) (hk : k < 16) :
    Free ⟨setBit b.bits k true⟩ (insert k S) := by
  intro m
  rw [getLsbD_setBit hk, Set.mem_insert_iff, h m]
  split_ifs with hm
  · simp [hm]
  · simp [hm]

theorem Free.alloc_none (h : Free b S) (ha : alloc b = none) : S = ∅ := by
  rw [alloc] at ha
  split at ha
  · exact absurd ha (by simp)
  · rename_i hlt
    rw [← h.eq_zero_iff, BitField.eq_zero_iff]
    exact trailingZeros_ge hlt

theorem Free.alloc_some (h : Free b S) (ha : alloc b = some (k, b')) :
    k ∈ S ∧ Free b' (S \ {k}) := by
  rw [alloc] at ha
  split at ha
  · rename_i hlt
    rw [Option.some.injEq, Prod.mk.injEq] at ha
    obtain ⟨rfl, rfl⟩ := ha
    exact ⟨(h _).mpr (trailingZeros_lt hlt), h.setBit_false hlt⟩
  · exact absurd ha (by simp)

theorem Free.next_some (h : Free b S) (hn : next k b = some m) : m ∈ S ∧ k ≤ m := by
  have hmem := List.mem_of_find?_eq_some hn
  rw [List.mem_range'_1] at hmem
  exact ⟨(h m).mpr (List.find?_some hn), hmem.1⟩

theorem Free.insert_some (h : Free b S) (hlt : l < r) (hr : r ≤ 16) :
    ∃ b', setRange true l r b = some b' ∧ Free b' (S ∪ Set.Ico l r) := by
  refine ⟨_, if_pos ⟨hlt, hr⟩, fun m ↦ ?_⟩
  rw [getLsbD_setBits hr, Set.mem_union, Set.mem_Ico, h m]
  split_ifs with hm
  · simp [hm]
  · simp [hm]

theorem Free.remove_some (h : Free b S) (hlt : l < r) (hr : r ≤ 16) :
    ∃ b', setRange false l r b = some b' ∧ Free b' (S \ Set.Ico l r) := by
  refine ⟨_, if_pos ⟨hlt, hr⟩, fun m ↦ ?_⟩
  rw [getLsbD_setBits hr, Set.mem_sdiff, Set.mem_Ico, h m]
  split_ifs with hm
  · simp [hm]
  · simp [hm]

theorem Free.allocContiguous_some (h : Free b S)
    (ha : allocContiguous n a b = some (k, b')) (hn : 0 < n) :
    Set.Ico k (k + n) ⊆ S ∧ Free b' (S \ Set.Ico k (k + n)) := by
  simp only [allocContiguous, Option.bind_eq_bind, Option.bind_eq_some_iff, Option.pure_def,
    Option.some.injEq, Prod.mk.injEq] at ha
  obtain ⟨base, hbase, c, hc, rfl, rfl⟩ := ha
  have hsub := BitAlloc.findContiguous_free (fun _ _ hm ↦ (h.next_some hm).1) hbase
  have hlast := h.lt (hsub (show base + n - 1 ∈ Set.Ico base (base + n) by
    rw [Set.mem_Ico]
    omega))
  obtain ⟨c', hc', hfree⟩ := h.remove_some (l := base) (r := base + n) (by omega) (by omega)
  rw [hc, Option.some.injEq] at hc'
  rw [hc']
  exact ⟨hsub, hfree⟩

theorem Free.dealloc_taken (h : Free b S) (hlt : k < 16) (hk : k ∉ S) :
    ∃ b', dealloc k b = some b' ∧ Free b' (insert k S) := by
  rw [h k, Bool.not_eq_true] at hk
  exact ⟨_, if_pos ⟨hlt, hk⟩, h.setBit_true hlt⟩

/-- The free bits determine the word. -/
theorem Free.unique (h : Free b S) (h' : Free b' S) : b = b' := by
  have hbits : b.bits = b'.bits := BitVec.eq_of_getLsbD_eq fun k _ ↦
    Bool.eq_iff_iff.mpr ((h k).symm.trans (h' k))
  cases b
  cases b'
  rw [BitAlloc16.mk.injEq]
  exact hbits

instance : LawfulBitAlloc BitAlloc16 where
  Free := Free
  cap_pos := by decide
  free_lt h hk := h.lt hk
  free_default := fun k ↦ by simp [BitAlloc.DEFAULT]
  alloc_none h ha := h.alloc_none ha
  alloc_some h ha := h.alloc_some ha
  allocContiguous_some h ha hn := h.allocContiguous_some ha hn
  next_some h hn := h.next_some hn
  dealloc_free h hk := if_neg fun hb ↦ absurd hb.2 (by simp [(h _).mp hk])
  dealloc_taken h hlt hk := h.dealloc_taken hlt hk
  insert_of_lt hlt := if_neg fun hr ↦ absurd hr.2 (not_le.mpr hlt)
  insert_some h hlt hr := h.insert_some hlt hr
  remove_of_lt hlt := if_neg fun hr ↦ absurd hr.2 (not_le.mpr hlt)
  remove_some h hlt hr := h.remove_some hlt hr
  isEmpty_iff h := beq_iff_eq.trans h.eq_zero_iff
  test_iff h _ := (h _).symm

end BitAlloc16

/-! ## Trees -/

/-- `BitAllocCascade16`: a bit of the word is set when the subtree has a free bit. -/
structure BitAllocCascade16 (T : Type) where
  bitset : BitVec 16
  sub : Vector T 16

/-- A bitmap of 256 bits. -/
abbrev BitAlloc256 := BitAllocCascade16 BitAlloc16

/-- A bitmap of 16M bits. -/
abbrev BitAlloc16M :=
  BitAllocCascade16 (BitAllocCascade16 (BitAllocCascade16 (BitAllocCascade16 BitAlloc256)))

namespace BitAllocCascade16

variable {T : Type} [BitAlloc T]

open BitAlloc (CAP)

/-- Replace a subtree and record whether it has a free bit. -/
def setSub (c : BitAllocCascade16 T) (i : ℕ) (h : i < 16) (s : T) : BitAllocCascade16 T where
  bitset := setBit c.bitset i !BitAlloc.isEmpty s
  sub := c.sub.set i s

/-- The `unwrap` of the subtree's answer does not fail, since its bit says that it is not empty. -/
def alloc (c : BitAllocCascade16 T) : Option (ℕ × BitAllocCascade16 T) :=
  let i := trailingZeros c.bitset
  if h : i < 16 then do
    let (res, s) ← BitAlloc.alloc c.sub[i]
    pure (res + i * CAP T, c.setSub i h s)
  else none

def next (key : ℕ) (c : BitAllocCascade16 T) : Option ℕ :=
  let idx := key / CAP T
  (List.range' idx (16 - idx)).findSome? fun i ↦
    if h : i < 16 then
      if c.bitset.getLsbD i then
        let key := if i = idx then key - CAP T * idx else 0
        (BitAlloc.next key c.sub[i]).map (· + CAP T * i)
      else none
    else none

/-- One round of `for_range`. -/
def forSub (l r : ℕ) (f : ℕ → ℕ → T → Option T) (c : BitAllocCascade16 T) (i : ℕ) :
    Option (BitAllocCascade16 T) :=
  if h : i < 16 then do
    let begin_ := if l / CAP T = i then l % CAP T else 0
    let end_ := if r / CAP T = i then r % CAP T else CAP T
    let s ← f begin_ end_ c.sub[i]
    pure (c.setSub i h s)
  else none

/-- `for_range`: apply `f` to the part of the range that lies in each subtree. -/
def forRange (l r : ℕ) (f : ℕ → ℕ → T → Option T) (c : BitAllocCascade16 T) :
    Option (BitAllocCascade16 T) :=
  if l ≤ r ∧ r ≤ 16 * CAP T then
    (List.range' (l / CAP T) ((r - 1) / CAP T + 1 - l / CAP T)).foldlM (forSub l r f) c
  else none

def insert (l r : ℕ) (c : BitAllocCascade16 T) : Option (BitAllocCascade16 T) :=
  forRange l r BitAlloc.insert c

def remove (l r : ℕ) (c : BitAllocCascade16 T) : Option (BitAllocCascade16 T) :=
  forRange l r BitAlloc.remove c

def allocContiguous (size alignLog2 : ℕ) (c : BitAllocCascade16 T) :
    Option (ℕ × BitAllocCascade16 T) := do
  let base ← BitAlloc.findContiguous (next · c) (c.bitset == 0) (16 * CAP T) size alignLog2
  let c' ← remove base (base + size) c
  pure (base, c')

def dealloc (key : ℕ) (c : BitAllocCascade16 T) : Option (BitAllocCascade16 T) :=
  let i := key / CAP T
  if h : i < 16 then do
    let s ← BitAlloc.dealloc (key % CAP T) c.sub[i]
    pure { bitset := setBit c.bitset i true, sub := c.sub.set i s }
  else none

def test (key : ℕ) (c : BitAllocCascade16 T) : Bool :=
  if h : key / CAP T < 16 then BitAlloc.test (key % CAP T) c.sub[key / CAP T] else false

instance : BitAlloc (BitAllocCascade16 T) where
  CAP := 16 * CAP T
  DEFAULT := ⟨0, Vector.replicate 16 BitAlloc.DEFAULT⟩
  alloc := alloc
  allocContiguous := allocContiguous
  next := next
  dealloc := dealloc
  insert := insert
  remove := remove
  isEmpty c := c.bitset == 0
  test := test

/-! ### Subtrees hold the slices of the free bits -/

/-- The members of a set that are bits of the `i`-th subtree, numbered from its first bit. -/
def slice (C : ℕ) (S : Set ℕ) (i : ℕ) : Set ℕ := {j | j < C ∧ i * C + j ∈ S}

variable [LawfulBitAlloc T]

open LawfulBitAlloc (cap_pos)

structure Free (c : BitAllocCascade16 T) (S : Set ℕ) : Prop where
  lt : ∀ k ∈ S, k < 16 * CAP T
  sub : ∀ i (h : i < 16), LawfulBitAlloc.Free c.sub[i] (slice (CAP T) S i)
  bit : ∀ i < 16, (c.bitset.getLsbD i = true ↔ (slice (CAP T) S i).Nonempty)

variable {c c' : BitAllocCascade16 T} {S S' : Set ℕ} {i j k m n a l r : ℕ}

omit [LawfulBitAlloc T] in
theorem mem_slice_div_mod {C : ℕ} (hC : 0 < C) : k % C ∈ slice C S (k / C) ↔ k ∈ S := by
  rw [slice, Set.mem_ofPred_eq, Nat.div_add_mod']
  exact and_iff_right (Nat.mod_lt k hC)

/-- A new subtree that holds its slice of the new set. -/
theorem Free.setSub (h : Free c S) (hi : i < 16) {s : T}
    (hs : LawfulBitAlloc.Free s (slice (CAP T) S' i)) (hlt : ∀ k ∈ S', k < 16 * CAP T)
    (hother : ∀ j, j ≠ i → slice (CAP T) S' j = slice (CAP T) S j) {bitset : BitVec 16}
    (hbit : bitset = setBit c.bitset i !BitAlloc.isEmpty s) :
    Free ⟨bitset, c.sub.set i s⟩ S' := by
  refine ⟨hlt, fun j hj ↦ ?_, fun j hj ↦ ?_⟩
  · dsimp only
    rw [Vector.getElem_set]
    split_ifs with heq
    · rwa [← heq]
    · rw [hother j (Ne.symm heq)]
      exact h.sub j hj
  · dsimp only
    rw [hbit, getLsbD_setBit hi]
    split_ifs with heq
    · rw [heq, Bool.not_eq_true', ← Bool.not_eq_true, LawfulBitAlloc.isEmpty_iff hs,
        Set.nonempty_iff_ne_empty, ne_eq]
    · rw [hother j heq]
      exact h.bit j hj

theorem Free.eq_zero_iff (h : Free c S) : c.bitset = 0 ↔ S = ∅ := by
  rw [BitField.eq_zero_iff, Set.eq_empty_iff_forall_notMem]
  constructor
  · intro hz k hk
    have hlt : k / CAP T < 16 := (Nat.div_lt_iff_lt_mul (cap_pos (B := T))).mpr (h.lt k hk)
    have hbit := (h.bit _ hlt).mpr ⟨_, (mem_slice_div_mod (cap_pos (B := T))).mpr hk⟩
    rw [hz] at hbit
    exact absurd hbit (by simp)
  · intro hS i
    by_contra hbit
    rw [Bool.not_eq_false] at hbit
    obtain ⟨j, hj⟩ := (h.bit i (getLsbD_lt hbit)).mp hbit
    exact hS _ hj.2

omit [BitAlloc T] [LawfulBitAlloc T] in
theorem mul_add_inj {C : ℕ} (hj : j < C) (hm : m < C) (h : i * C + j = k * C + m) :
    i = k ∧ j = m := by
  have hdiv := congrArg (· / C) h
  have hmod := congrArg (· % C) h
  simp only [Nat.mul_add_mod', Nat.mod_eq_of_lt hj, Nat.mod_eq_of_lt hm] at hmod
  have hC : 0 < C := by omega
  simp only [Nat.add_comm (_ * C), Nat.add_mul_div_right _ _ hC, Nat.div_eq_of_lt hj,
    Nat.div_eq_of_lt hm, Nat.zero_add] at hdiv
  exact ⟨hdiv, hmod⟩

omit [BitAlloc T] [LawfulBitAlloc T] in
theorem slice_sdiff_singleton {C : ℕ} (hj : j < C) :
    slice C (S \ {i * C + j}) k = if k = i then slice C S i \ {j} else slice C S k := by
  ext m
  split_ifs with hk
  · subst hk
    simp only [slice, Set.mem_sdiff, Set.mem_ofPred_eq, Set.mem_singleton_iff, and_assoc]
    refine and_congr_right fun hm ↦ and_congr_right fun _ ↦ not_congr ?_
    exact ⟨fun heq ↦ (mul_add_inj hm hj heq).2, fun heq ↦ by rw [heq]⟩
  · simp only [slice, Set.mem_sdiff, Set.mem_ofPred_eq, Set.mem_singleton_iff]
    refine and_congr_right fun hm ↦ and_iff_left fun heq ↦ hk (mul_add_inj hm hj heq).1

omit [BitAlloc T] [LawfulBitAlloc T] in
theorem slice_insert {C : ℕ} (hj : j < C) :
    slice C (Insert.insert (i * C + j) S) k
      = if k = i then Insert.insert j (slice C S i) else slice C S k := by
  ext m
  split_ifs with hk
  · subst hk
    simp only [slice, Set.mem_insert_iff, Set.mem_ofPred_eq]
    constructor
    · rintro ⟨hm, heq | hmem⟩
      · exact Or.inl (mul_add_inj hm hj heq).2
      · exact Or.inr ⟨hm, hmem⟩
    · rintro (rfl | ⟨hm, hmem⟩)
      · exact ⟨hj, Or.inl rfl⟩
      · exact ⟨hm, Or.inr hmem⟩
  · simp only [slice, Set.mem_insert_iff, Set.mem_ofPred_eq]
    exact and_congr_right fun hm ↦ or_iff_right fun heq ↦ hk (mul_add_inj hm hj heq).1

/-! ### The operations -/

theorem Free.alloc_none (h : Free c S) (ha : alloc c = none) : S = ∅ := by
  rw [alloc] at ha
  split at ha
  · rename_i hi
    rw [Option.bind_eq_bind, Option.bind_eq_none_iff] at ha
    obtain ⟨j, hj⟩ := (h.bit _ hi).mp (trailingZeros_lt hi)
    cases hs : BitAlloc.alloc c.sub[trailingZeros c.bitset] with
    | none =>
      rw [LawfulBitAlloc.alloc_none (h.sub _ hi) hs] at hj
      exact hj.elim
    | some r => exact absurd (ha r hs) (by simp)
  · rename_i hi
    rw [← h.eq_zero_iff, BitField.eq_zero_iff]
    exact trailingZeros_ge hi

theorem Free.alloc_some (h : Free c S) (ha : alloc c = some (k, c')) :
    k ∈ S ∧ Free c' (S \ {k}) := by
  rw [alloc] at ha
  split at ha
  · rename_i hi
    simp only [Option.bind_eq_bind, Option.bind_eq_some_iff, Option.pure_def, Option.some.injEq,
      Prod.mk.injEq] at ha
    obtain ⟨⟨j, s⟩, hs, rfl, rfl⟩ := ha
    obtain ⟨hj, hfree⟩ := LawfulBitAlloc.alloc_some (h.sub _ hi) hs
    dsimp only
    rw [Nat.add_comm]
    refine ⟨hj.2, h.setSub hi ?_ (fun m hm ↦ h.lt m hm.1) (fun m hm ↦ ?_) rfl⟩
    · rwa [slice_sdiff_singleton hj.1, if_pos rfl]
    · rw [slice_sdiff_singleton hj.1, if_neg hm]
  · exact absurd ha (by simp)

theorem Free.next_some (h : Free c S) (hn : next k c = some m) : m ∈ S ∧ k ≤ m := by
  rw [next] at hn
  obtain ⟨i, hi, hn⟩ := List.exists_of_findSome?_eq_some hn
  rw [List.mem_range'_1] at hi
  split at hn
  · rename_i hlt
    split at hn
    · obtain ⟨j, hj, rfl⟩ := Option.map_eq_some_iff.mp hn
      obtain ⟨hmem, hle⟩ := LawfulBitAlloc.next_some (h.sub i hlt) hj
      rw [Nat.mul_comm, Nat.add_comm]
      refine ⟨hmem.2, ?_⟩
      have hdiv := Nat.div_add_mod' k (CAP T)
      have hmod := Nat.mod_lt k (cap_pos (B := T))
      split at hle
      · rename_i heq
        rw [heq]
        rw [Nat.mul_comm] at hle
        omega
      · have := Nat.mul_le_mul_right (CAP T) (show k / CAP T + 1 ≤ i by omega)
        rw [Nat.add_mul, Nat.one_mul] at this
        omega
    · exact absurd hn (by simp)
  · exact absurd hn (by simp)

theorem Free.dealloc_free (h : Free c S) (hk : k ∈ S) : dealloc k c = none := by
  have hlt : k / CAP T < 16 := (Nat.div_lt_iff_lt_mul (cap_pos (B := T))).mpr (h.lt k hk)
  rw [dealloc, dif_pos hlt,
    LawfulBitAlloc.dealloc_free (h.sub _ hlt) ((mem_slice_div_mod (cap_pos (B := T))).mpr hk)]
  rfl

theorem Free.dealloc_taken (h : Free c S) (hlt : k < 16 * CAP T) (hk : k ∉ S) :
    ∃ c', dealloc k c = some c' ∧ Free c' (Insert.insert k S) := by
  have hi : k / CAP T < 16 := (Nat.div_lt_iff_lt_mul (cap_pos (B := T))).mpr hlt
  have hmod := Nat.mod_lt k (cap_pos (B := T))
  obtain ⟨s, hs, hfree⟩ := LawfulBitAlloc.dealloc_taken (h.sub _ hi) hmod
    (fun hmem ↦ hk ((mem_slice_div_mod (cap_pos (B := T))).mp hmem))
  have hslice : ∀ m, slice (CAP T) (Insert.insert k S) m = if m = k / CAP T then
      Insert.insert (k % CAP T) (slice (CAP T) S (k / CAP T)) else slice (CAP T) S m := by
    intro m
    rw [← slice_insert hmod, Nat.div_add_mod']
  have hne : BitAlloc.isEmpty s = false := by
    rw [← Bool.not_eq_true, LawfulBitAlloc.isEmpty_iff hfree]
    exact (Set.insert_nonempty _ _).ne_empty
  refine ⟨⟨setBit c.bitset (k / CAP T) true, c.sub.set (k / CAP T) s hi⟩, ?_,
    h.setSub hi (s := s) ?_ ?_ (fun m hm ↦ ?_) ?_⟩
  · rw [dealloc, dif_pos hi, hs]
    rfl
  · rwa [hslice, if_pos rfl]
  · rintro m (rfl | hm)
    · exact hlt
    · exact h.lt m hm
  · rw [hslice, if_neg hm]
  · rw [hne, Bool.not_false]

theorem Free.test_iff (h : Free c S) (hlt : k < 16 * CAP T) : test k c = true ↔ k ∈ S := by
  have hi : k / CAP T < 16 := (Nat.div_lt_iff_lt_mul (cap_pos (B := T))).mpr hlt
  rw [test, dif_pos hi, LawfulBitAlloc.test_iff (h.sub _ hi) (Nat.mod_lt k (cap_pos (B := T))),
    mem_slice_div_mod (cap_pos (B := T))]

/-! ### Ranges

`insert` and `remove` change the membership of a bit by a connective `φ` that depends on whether
the bit lies in the range and does nothing outside it. -/

/-- The part of `[l, r)` in the `i`-th subtree. -/
theorem mem_Ico_slice {C : ℕ} (hl : l / C ≤ i) (hr : i ≤ (r - 1) / C) (hj : j < C) :
    i * C + j ∈ Set.Ico l r ↔
      j ∈ Set.Ico (if l / C = i then l % C else 0) (if r / C = i then r % C else C) := by
  have hC : 0 < C := by omega
  have hldiv := Nat.div_add_mod' l C
  have hrdiv := Nat.div_add_mod' r C
  have hbelow : l / C ≠ i → l < i * C := fun hne ↦
    (Nat.div_lt_iff_lt_mul hC).mp (lt_of_le_of_ne hl hne)
  have habove : r / C ≠ i → i * C + C ≤ r := by
    intro hne
    have hle : i ≤ r / C := hr.trans (Nat.div_le_div_right (Nat.sub_le r 1))
    have := (Nat.le_div_iff_mul_le hC).mp (Nat.lt_of_le_of_ne hle (Ne.symm hne))
    rwa [Nat.succ_mul] at this
  rw [Set.mem_Ico, Set.mem_Ico]
  refine and_congr ?_ ?_
  · split_ifs with heq
    · rw [heq] at hldiv
      omega
    · have := hbelow heq
      omega
  · split_ifs with heq
    · rw [heq] at hrdiv
      omega
    · have := habove heq
      omega

/-- The part is not empty and lies within the subtree. -/
theorem slice_bounds {C : ℕ} (hC : 0 < C) (hlt : l < r) (hl : l / C ≤ i) (hr : i ≤ (r - 1) / C) :
    (if l / C = i then l % C else 0) < (if r / C = i then r % C else C) ∧
      (if r / C = i then r % C else C) ≤ C := by
  have hldiv := Nat.div_add_mod' l C
  have hrdiv := Nat.div_add_mod' r C
  have hlmod := Nat.mod_lt l hC
  have hrmod := Nat.mod_lt r hC
  have hlast : i * C ≤ r - 1 := (Nat.le_div_iff_mul_le hC).mp hr
  split_ifs with hli hri
  · rw [hli] at hldiv
    rw [hri] at hrdiv
    omega
  · omega
  · rename_i hri
    rw [hri] at hrdiv
    omega
  · omega

section forRange

/-- The set after combining it with another one. -/
def comb (φ : Prop → Prop → Prop) (S R : Set ℕ) : Set ℕ := {k | φ (k ∈ S) (k ∈ R)}

variable {φ : Prop → Prop → Prop} {f : ℕ → ℕ → T → Option T}

/-- The set after treating the subtrees before the `i`-th. -/
def combBelow (φ : Prop → Prop → Prop) (C l r : ℕ) (S : Set ℕ) (i : ℕ) : Set ℕ :=
  comb φ S (Set.Ico l r ∩ {k | k / C < i})

omit [BitAlloc T] [LawfulBitAlloc T] in
theorem mul_add_div {C : ℕ} (hj : j < C) : (i * C + j) / C = i := by
  rw [Nat.add_comm, Nat.add_mul_div_right _ _ (by omega), Nat.div_eq_of_lt hj, Nat.zero_add]

omit [BitAlloc T] [LawfulBitAlloc T] in
theorem slice_combBelow (hφ : ∀ p, φ p False ↔ p) {C : ℕ} (hk : i ≤ k) :
    slice C (combBelow φ C l r S i) k = slice C S k := by
  ext j
  simp only [slice, combBelow, comb, Set.mem_ofPred_eq, Set.mem_inter_iff]
  refine and_congr_right fun hj ↦ ?_
  rw [mul_add_div hj]
  simp only [show ¬ k < i by omega, and_false, hφ]

omit [BitAlloc T] [LawfulBitAlloc T] in
theorem slice_combBelow_succ (hφ : ∀ p, φ p False ↔ p) {C : ℕ} (hl : l / C ≤ i)
    (hr : i ≤ (r - 1) / C) (hC : (if r / C = i then r % C else C) ≤ C) :
    slice C (combBelow φ C l r S (i + 1)) i = comb φ (slice C S i)
      (Set.Ico (if l / C = i then l % C else 0) (if r / C = i then r % C else C)) := by
  ext j
  simp only [combBelow, comb, slice, Set.mem_ofPred_eq]
  rcases lt_or_ge j C with hj | hj
  · rw [← mem_Ico_slice hl hr hj, Set.mem_inter_iff, Set.mem_ofPred_eq, mul_add_div hj,
      and_iff_left (Nat.lt_succ_self i), and_iff_right hj, and_iff_right hj]
  · have hout : ¬ j ∈ Set.Ico (if l / C = i then l % C else 0)
        (if r / C = i then r % C else C) := fun hmem ↦ absurd hmem.2 (by omega)
    simp only [show ¬ j < C by omega, false_and, hout, hφ]

omit [BitAlloc T] [LawfulBitAlloc T] in
theorem slice_combBelow_succ_of_ne {C : ℕ} (hk : k ≠ i) :
    slice C (combBelow φ C l r S (i + 1)) k = slice C (combBelow φ C l r S i) k := by
  ext j
  simp only [slice, combBelow, comb, Set.mem_ofPred_eq, Set.mem_inter_iff]
  refine and_congr_right fun hj ↦ ?_
  rw [mul_add_div hj, show k < i + 1 ↔ k < i by omega]

/-- One round treats one subtree. -/
theorem Free.forSub (hφ : ∀ p, φ p False ↔ p)
    (hf : ∀ {s : T} {S l r}, LawfulBitAlloc.Free s S → l < r → r ≤ CAP T →
      ∃ s', f l r s = some s' ∧ LawfulBitAlloc.Free s' (comb φ S (Set.Ico l r)))
    (hlt : l < r) (hr : r ≤ 16 * CAP T) (hli : l / CAP T ≤ i) (hir : i ≤ (r - 1) / CAP T)
    (hS : ∀ k ∈ S, k < 16 * CAP T) (h : Free c (combBelow φ (CAP T) l r S i)) :
    ∃ c', forSub l r f c i = some c' ∧ Free c' (combBelow φ (CAP T) l r S (i + 1)) := by
  have hi : i < 16 :=
    hir.trans_lt ((Nat.div_lt_iff_lt_mul (cap_pos (B := T))).mpr (by omega))
  obtain ⟨hne, hle⟩ := slice_bounds (cap_pos (B := T)) hlt hli hir
  have hsub := h.sub i hi
  rw [slice_combBelow hφ le_rfl] at hsub
  obtain ⟨s, hs, hfree⟩ := hf hsub hne hle
  refine ⟨_, ?_, h.setSub hi (s := s) ?_ (fun k hk ↦ ?_) (fun k hk ↦ ?_) rfl⟩
  · rw [BitAllocCascade16.forSub, dif_pos hi]
    simp only [hs, Option.bind_eq_bind, Option.bind_some, Option.pure_def]
    rfl
  · rwa [slice_combBelow_succ hφ hli hir hle]
  · by_cases hin : k ∈ Set.Ico l r
    · exact hin.2.trans_le hr
    · simp only [combBelow, comb, Set.mem_ofPred_eq, Set.mem_inter_iff, hin, false_and, hφ] at hk
      exact hS k hk
  · exact slice_combBelow_succ_of_ne hk

/-- `for_range` combines the free bits with the range. -/
theorem Free.forRange (hφ : ∀ p, φ p False ↔ p)
    (hf : ∀ {s : T} {S l r}, LawfulBitAlloc.Free s S → l < r → r ≤ CAP T →
      ∃ s', f l r s = some s' ∧ LawfulBitAlloc.Free s' (comb φ S (Set.Ico l r)))
    (h : Free c S) (hlt : l < r) (hr : r ≤ 16 * CAP T) :
    ∃ c', forRange l r f c = some c' ∧ Free c' (comb φ S (Set.Ico l r)) := by
  -- the children before `a` are done, those from `a` on are as they were
  have hloop : ∀ n a c, a + n = (r - 1) / CAP T + 1 → l / CAP T ≤ a →
      Free c (combBelow φ (CAP T) l r S a) →
      ∃ c', (List.range' a n).foldlM (BitAllocCascade16.forSub l r f) c = some c' ∧
        Free c' (combBelow φ (CAP T) l r S (a + n)) := by
    intro n
    induction n with
    | zero => exact fun a c _ _ hc ↦ ⟨c, rfl, hc⟩
    | succ n ih =>
      intro a c hn ha hc
      obtain ⟨c₁, hc₁, hfree⟩ := hc.forSub hφ hf hlt hr ha (by omega) h.lt
      obtain ⟨c₂, hc₂, hfree₂⟩ := ih (a + 1) c₁ (by omega) (by omega) hfree
      refine ⟨c₂, ?_, by rwa [show a + (n + 1) = a + 1 + n by omega]⟩
      rw [List.range'_succ, List.foldlM_cons, hc₁]
      exact hc₂
  have hle : l / CAP T ≤ (r - 1) / CAP T := Nat.div_le_div_right (by omega)
  -- before the first child nothing is changed, after the last one the whole range
  have hstart : combBelow φ (CAP T) l r S (l / CAP T) = S := by
    ext k
    simp only [combBelow, comb, Set.mem_ofPred_eq, Set.mem_inter_iff]
    have hout : ¬ (k ∈ Set.Ico l r ∧ k / CAP T < l / CAP T) := fun hk ↦
      absurd (Nat.div_le_div_right hk.1.1) (not_le.mpr hk.2)
    simp only [hout, hφ]
  have hend : combBelow φ (CAP T) l r S ((r - 1) / CAP T + 1) = comb φ S (Set.Ico l r) := by
    ext k
    simp only [combBelow, comb, Set.mem_ofPred_eq, Set.mem_inter_iff]
    rw [and_iff_left_of_imp fun hk ↦ Nat.lt_succ_of_le (Nat.div_le_div_right (by
      rw [Set.mem_Ico] at hk
      omega))]
  obtain ⟨c', hc', hfree⟩ := hloop ((r - 1) / CAP T + 1 - l / CAP T) (l / CAP T) c (by omega)
    le_rfl (by rwa [hstart])
  rw [Nat.add_sub_cancel' (by omega), hend] at hfree
  exact ⟨c', by rw [BitAllocCascade16.forRange, if_pos ⟨hlt.le, hr⟩, hc'], hfree⟩

end forRange

theorem Free.insert_some (h : Free c S) (hlt : l < r) (hr : r ≤ 16 * CAP T) :
    ∃ c', insert l r c = some c' ∧ Free c' (S ∪ Set.Ico l r) :=
  h.forRange (φ := Or) (fun p ↦ iff_of_eq (or_false p)) LawfulBitAlloc.insert_some hlt hr

theorem Free.remove_some (h : Free c S) (hlt : l < r) (hr : r ≤ 16 * CAP T) :
    ∃ c', remove l r c = some c' ∧ Free c' (S \ Set.Ico l r) :=
  h.forRange (φ := fun p q ↦ p ∧ ¬ q) (fun _ ↦ and_iff_left not_false)
    LawfulBitAlloc.remove_some hlt hr

theorem Free.allocContiguous_some (h : Free c S)
    (ha : allocContiguous n a c = some (k, c')) (hn : 0 < n) :
    Set.Ico k (k + n) ⊆ S ∧ Free c' (S \ Set.Ico k (k + n)) := by
  simp only [allocContiguous, Option.bind_eq_bind, Option.bind_eq_some_iff, Option.pure_def,
    Option.some.injEq, Prod.mk.injEq] at ha
  obtain ⟨base, hbase, d, hd, rfl, rfl⟩ := ha
  have hsub := BitAlloc.findContiguous_free (fun _ _ hm ↦ (h.next_some hm).1) hbase
  have hlast := h.lt _ (hsub (show base + n - 1 ∈ Set.Ico base (base + n) by
    rw [Set.mem_Ico]
    omega))
  obtain ⟨d', hd', hfree⟩ := h.remove_some (l := base) (r := base + n) (by omega) (by omega)
  rw [hd, Option.some.injEq] at hd'
  rw [hd']
  exact ⟨hsub, hfree⟩

theorem free_default : Free (BitAlloc.DEFAULT : BitAllocCascade16 T) ∅ := by
  have hslice : ∀ i, slice (CAP T) ∅ i = ∅ := fun i ↦
    Set.eq_empty_iff_forall_notMem.mpr fun _ hj ↦ hj.2
  refine ⟨fun _ hk ↦ hk.elim, fun i hi ↦ ?_, fun i hi ↦ ?_⟩
  · rw [hslice]
    simpa [BitAlloc.DEFAULT] using LawfulBitAlloc.free_default (B := T)
  · simp [hslice, BitAlloc.DEFAULT]

/-- If the free bits determine the subtrees, they determine the tree. -/
theorem Free.unique (hT : ∀ {s s' : T} {R}, LawfulBitAlloc.Free s R → LawfulBitAlloc.Free s' R →
    s = s') (h : Free c S) (h' : Free c' S) : c = c' := by
  have hbitset : c.bitset = c'.bitset := BitVec.eq_of_getLsbD_eq fun i hi ↦
    Bool.eq_iff_iff.mpr ((h.bit i hi).trans (h'.bit i hi).symm)
  have hsub : c.sub = c'.sub := Vector.ext fun i hi ↦ hT (h.sub i hi) (h'.sub i hi)
  cases c
  cases c'
  rw [BitAllocCascade16.mk.injEq]
  exact ⟨hbitset, hsub⟩

instance : LawfulBitAlloc (BitAllocCascade16 T) where
  Free := Free
  cap_pos := Nat.mul_pos (by decide) cap_pos
  free_lt h hk := h.lt _ hk
  free_default := free_default
  alloc_none h ha := h.alloc_none ha
  alloc_some h ha := h.alloc_some ha
  allocContiguous_some h ha hn := h.allocContiguous_some ha hn
  next_some h hn := h.next_some hn
  dealloc_free h hk := h.dealloc_free hk
  dealloc_taken h hlt hk := h.dealloc_taken hlt hk
  insert_of_lt hlt := if_neg fun hr ↦ absurd hr.2 (not_le.mpr hlt)
  insert_some h hlt hr := h.insert_some hlt hr
  remove_of_lt hlt := if_neg fun hr ↦ absurd hr.2 (not_le.mpr hlt)
  remove_some h hlt hr := h.remove_some hlt hr
  isEmpty_iff h := beq_iff_eq.trans h.eq_zero_iff
  test_iff h hlt := h.test_iff hlt

end BitAllocCascade16

end Maturin
