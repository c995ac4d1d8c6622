import Maturin.Lib.BitTable
import Maturin.Poll.Bitset
import Maturin.Signal.Signal

/-!
# Long bitsets

`LongBitset` of `modules/bitset` keeps bits in a vector of words, and `ShadowBitset` keeps them in
the words of memory behind an address. Both take the word of `pos` to be number `pos >> 8`, so from
64 on a position shares its bit with another. The vector has `(len + 63) & 63` words, which is none
for one bit; and without bits `clear` of a `ShadowBitset` runs through all of memory.
-/

namespace Maturin

variable {len pos p q n i : ℕ}

/-- The word that `check` and `set` take for the one of `pos`, and the bit in it. -/
def placeOf (pos : ℕ) : ℕ × ℕ := (pos >>> 8, pos &&& 0x3f)

theorem placeOf_eq (pos : ℕ) : placeOf pos = (pos / 256, pos % 64) := by
  rw [placeOf, ShadowBitset.and_0x3f, Nat.shiftRight_eq_div_pow]

theorem placeOf_snd_lt (pos : ℕ) : (placeOf pos).2 < 64 := by
  rw [placeOf_eq]
  exact Nat.mod_lt pos (by norm_num)

/-- The positions below `len` have different places up to a length of 64. -/
theorem injOn_placeOf_iff : Set.InjOn placeOf (Set.Iio len) ↔ len ≤ 64 := by
  constructor
  · intro h
    by_contra hgt
    rw [Nat.not_le] at hgt
    exact absurd (h (Set.mem_Iio.mpr ((Nat.zero_lt_succ 63).trans hgt)) (Set.mem_Iio.mpr hgt)
      (show placeOf 0 = placeOf 64 by decide)) (by norm_num)
  · intro h p hp q hq heq
    rw [placeOf_eq, placeOf_eq, Prod.mk.injEq] at heq
    rw [Set.mem_Iio] at hp hq
    omega

/-! ## In a vector -/

/-- `LongBitset` -/
structure LongBitset where
  bits : List Bitset
  len : ℕ

namespace LongBitset

def new (len : ℕ) : LongBitset := ⟨List.replicate (wadd len 0x3f &&& 0x3f) 0, len⟩

/-- `add`; `none` is an index out of bounds. -/
def add (self : LongBitset) (pos : ℕ) : Option LongBitset :=
  if pos < self.len then
    self.bits[pos >>> 8]?.map fun word ↦
      { self with bits := self.bits.set (pos >>> 8) (word.addBit (pos &&& 0x3f)) }
  else some self

/-- `check`; `none` is an index out of bounds. -/
def check (self : LongBitset) (pos : ℕ) : Option Bool :=
  self.bits[pos >>> 8]?.map (·.containBit (pos &&& 0x3f))

/-- Bitsets of the given length keep a set of positions below it, which is empty at first. -/
structure ImplementsSet (len : ℕ) : Prop where
  keeps : KeepsSet len (fun b : LongBitset ↦ b.len = len ∧ b.bits.length = (new len).bits.length)
    (fun pos b ↦ b.check pos) (fun pos b ↦ b.add pos)
  check_new : ∀ pos < len, (new len).check pos = some false

theorem check_eq (b : LongBitset) (pos : ℕ) : b.check pos = BitTable.test (placeOf pos) b.bits := by
  rw [check, BitTable.test, placeOf]
  simp only [Bitset.containBit, ShadowBitset.and_0x3f, Nat.mod_mod]

theorem add_eq {b : LongBitset} (hpos : pos < b.len) :
    b.add pos = (BitTable.put (placeOf pos) b.bits).map fun bits ↦ { b with bits } := by
  rw [add, if_pos hpos, BitTable.put, placeOf, Option.map_map]
  simp only [Bitset.addBit, ShadowBitset.and_0x3f, Nat.mod_mod, Function.comp_def]

theorem length_bits_new (len : ℕ) : (new len).bits.length = (len + 63) % 64 := by
  rw [new, List.length_replicate, wadd, ShadowBitset.and_0x3f]
  omega

/-- The bits of a bitset are a table of bits. -/
theorem keepsSet_iff : KeepsSet len
      (fun b : LongBitset ↦ b.len = len ∧ b.bits.length = n)
      (fun pos b ↦ b.check pos) (fun pos b ↦ b.add pos) ↔
    KeepsSet len (fun t : List Bitset ↦ t.length = n) (fun p ↦ BitTable.test (placeOf p))
      (fun p ↦ BitTable.put (placeOf p)) := by
  constructor
  · intro h
    constructor
    · intro t ht p hp
      obtain ⟨b, hb⟩ := h.exists_check ⟨t, len⟩ ⟨rfl, ht⟩ p hp
      exact ⟨b, check_eq ⟨t, len⟩ p ▸ hb⟩
    · intro t ht p hp
      obtain ⟨b', hadd, ⟨-, hlen'⟩, hself, hother⟩ := h.exists_set ⟨t, len⟩ ⟨rfl, ht⟩ p hp
      rw [add_eq hp] at hadd
      obtain ⟨t', hput, rfl⟩ := Option.map_eq_some_iff.mp hadd
      simp only [check_eq] at hself hother
      exact ⟨t', hput, hlen', hself, hother⟩
  · intro h
    constructor
    · rintro b ⟨-, hb⟩ p hp
      obtain ⟨v, hv⟩ := h.exists_check b.bits hb p hp
      exact ⟨v, (check_eq b p).trans hv⟩
    · rintro b ⟨hlen, hb⟩ p hp
      obtain ⟨t', hput, ht', hself, hother⟩ := h.exists_set b.bits hb p hp
      refine ⟨{ b with bits := t' }, ?_, ⟨hlen, ht'⟩, ?_, fun q hq hne ↦ ?_⟩
      · rw [add_eq (hlen ▸ hp), hput, Option.map_some]
      · exact (check_eq _ p).trans hself
      · rw [check_eq, check_eq]
        exact hother q hq hne

/-- When a bitset implements a set: there are no bits, or more than one and at most a word. -/
theorem implementsSet_iff : ImplementsSet len ↔ len = 0 ∨ 2 ≤ len ∧ len ≤ 64 := by
  have hkeeps : KeepsSet len
      (fun b : LongBitset ↦ b.len = len ∧ b.bits.length = (new len).bits.length)
      (fun pos b ↦ b.check pos) (fun pos b ↦ b.add pos) ↔
        (∀ p < len, p / 256 < (len + 63) % 64) ∧ len ≤ 64 := by
    rw [length_bits_new, keepsSet_iff,
      BitTable.keepsSet_iff fun p _ ↦ placeOf_snd_lt p, injOn_placeOf_iff]
    simp only [placeOf_eq]
  constructor
  · intro h
    obtain ⟨hplace, hle⟩ := hkeeps.mp h.keeps
    rcases Nat.eq_zero_or_pos len with hzero | hpos
    · exact Or.inl hzero
    · -- a set of one place has no word for it
      have hfirst := hplace 0 hpos
      exact Or.inr ⟨by omega, hle⟩
  · intro h
    have hplace : ∀ p < len, p / 256 < (len + 63) % 64 := fun p hp ↦ by omega
    refine ⟨hkeeps.mpr ⟨hplace, by omega⟩, fun pos hpos ↦ ?_⟩
    rw [check_eq, new]
    apply BitTable.test_replicate_zero
    rw [placeOf_eq, wadd, ShadowBitset.and_0x3f]
    have hlt := hplace pos hpos
    dsimp only
    omega

/-- After some positions were added to a new bitset, exactly these are found. -/
theorem ImplementsSet.check_addAll (h : ImplementsSet len) {ps : List ℕ} (hps : ∀ p ∈ ps, p < len) :
    ∃ b, ps.foldlM (fun b p ↦ b.add p) (new len) = some b ∧
      ∀ q < len, b.check q = some (decide (q ∈ ps)) := by
  obtain ⟨b, hrun, -, hcheck⟩ := h.keeps.foldlM ⟨rfl, rfl⟩ hps
  refine ⟨b, hrun, fun q hq ↦ ?_⟩
  rw [hcheck q hq, h.check_new q hq]
  by_cases hmem : q ∈ ps
  · rw [if_pos hmem, decide_eq_true hmem]
  · rw [if_neg hmem, decide_eq_false hmem]

end LongBitset

/-! ## In memory -/

namespace ShadowBitset

variable {self : ShadowBitset} {mem : ByteMem} {words words' : List (BitVec 64)}

/-- `set` on the words behind the address, of which there are no others; `none` is an access outside
of them. -/
def setIn (self : ShadowBitset) (pos : ℕ) (words : List (BitVec 64)) :
    Option (List (BitVec 64)) :=
  if pos < self.len then
    words[pos >>> 8]?.map fun word ↦ words.set (pos >>> 8) (word ||| 1#64 <<< (pos &&& 0x3f))
  else some words

/-- `check` on these words -/
def checkIn (pos : ℕ) (words : List (BitVec 64)) : Option Bool :=
  words[pos >>> 8]?.map fun word ↦ word &&& (1#64 <<< (pos &&& 0x3f)) != 0

/-- `clear` on these words -/
def clearIn (self : ShadowBitset) (words : List (BitVec 64)) : Option (List (BitVec 64)) :=
  (List.range (wsub self.len 1 / 64 + 1)).foldlM
    (fun words i ↦ if i < words.length then some (words.set i 0) else none) words

/-- The words of memory that hold the bits keep a set of positions, and `clear` makes it empty. All
this is without an access to other words. -/
structure ImplementsSet (bitset : ShadowBitset) : Prop where
  keeps : KeepsSet bitset.len (fun words : List (BitVec 64) ↦ words.length = bitset.words) checkIn
    bitset.setIn
  clear : ∀ words : List (BitVec 64), words.length = bitset.words →
    ∃ words', bitset.clearIn words = some words' ∧ words'.length = bitset.words ∧
      ∀ pos < bitset.len, checkIn pos words' = some false

/-! ### Bits of the words -/

theorem checkIn_eq (pos : ℕ) : checkIn pos words = BitTable.test (placeOf pos) words := by
  rw [checkIn, BitTable.test, placeOf]
  congr 1
  funext word
  have hlt : pos &&& 0x3f < 64 := placeOf_snd_lt pos
  have hne : BitVec.twoPow 64 (pos &&& 0x3f) ≠ 0#64 := by
    intro hzero
    have hbit := congrArg (fun v ↦ v.getLsbD (pos &&& 0x3f)) hzero
    simp [hlt] at hbit
  rw [← BitVec.twoPow_eq, BitVec.and_twoPow]
  cases word.getLsbD (pos &&& 0x3f) <;> simp [hne]

theorem setIn_eq (hpos : pos < self.len) :
    self.setIn pos words = BitTable.put (placeOf pos) words := by
  rw [setIn, if_pos hpos, BitTable.put, placeOf]
  rfl

/-- The first words are cleared, as far as they are there. -/
theorem clearLoop_of_le (h : n ≤ words.length) : (List.range n).foldlM
    (fun words i ↦ if i < words.length then some (words.set i 0) else none) words =
      some (List.replicate n (0 : BitVec 64) ++ words.drop n) := by
  induction n with
  | zero => rfl
  | succ n ih =>
    rw [List.range_succ, List.foldlM_append, ih (by omega)]
    have hlen : n < (List.replicate n (0 : BitVec 64) ++ words.drop n).length := by
      rw [List.length_append, List.length_replicate, List.length_drop]
      omega
    have hdrop : words.drop n = words[n] :: words.drop (n + 1) := List.drop_eq_getElem_cons h
    simp only [List.foldlM_cons, List.foldlM_nil, Option.bind_eq_bind, Option.bind_some,
      if_pos hlen]
    rw [List.set_append_right _ _ (by simp), List.length_replicate, Nat.sub_self, hdrop,
      List.set_cons_zero, List.replicate_succ', List.append_assoc]
    rfl

theorem clearIn_of_pos (hpos : 0 < self.len) (hlen : self.len < 2 ^ 64)
    (hwords : words.length = self.words) :
    self.clearIn words = some (List.replicate self.words 0) := by
  have hcount : wsub self.len 1 / 64 + 1 = self.words := by
    rw [wsub_of_le hpos hlen, ShadowBitset.words]
    omega
  rw [clearIn, hcount, clearLoop_of_le hwords.ge, List.drop_of_length_le hwords.le, List.append_nil]

/-- One word at least is cleared. -/
theorem clearIn_nil : self.clearIn [] = none := by
  rw [clearIn, List.range_succ_eq_map, List.foldlM_cons]
  rfl

/-- When the words implement a set: there are bits, and at most a word of them. -/
theorem implementsSet_iff (hlen : self.len < 2 ^ 64) :
    self.ImplementsSet ↔ 1 ≤ self.len ∧ self.len ≤ 64 := by
  have hkeeps : KeepsSet self.len (fun words : List (BitVec 64) ↦ words.length = self.words)
      checkIn self.setIn ↔ (∀ p < self.len, p / 256 < self.words) ∧ self.len ≤ 64 := by
    have htable := BitTable.keepsSet_iff (f := placeOf) (n := self.len) (k := self.words)
      fun p _ ↦ placeOf_snd_lt p
    rw [injOn_placeOf_iff] at htable
    simp only [placeOf_eq] at htable
    rw [← htable]
    constructor
    · exact fun h ↦ h.of_eq (fun _ p _ ↦ (placeOf_eq p ▸ checkIn_eq p).symm)
        fun _ p hp ↦ (placeOf_eq p ▸ setIn_eq hp).symm
    · exact fun h ↦ h.of_eq (fun _ p _ ↦ placeOf_eq p ▸ checkIn_eq p)
        fun _ p hp ↦ placeOf_eq p ▸ setIn_eq hp
  constructor
  · intro h
    refine ⟨?_, (hkeeps.mp h.keeps).2⟩
    by_contra hzero
    have hnone : self.words = 0 := by
      rw [words]
      omega
    obtain ⟨words', hclear, -⟩ := h.clear [] hnone.symm
    rw [clearIn_nil] at hclear
    cases hclear
  · rintro ⟨hpos, hle⟩
    have hplace : ∀ p < self.len, p / 256 < self.words := fun p hp ↦ by
      rw [words]
      omega
    refine ⟨hkeeps.mpr ⟨hplace, hle⟩, fun words hwords ↦ ?_⟩
    refine ⟨_, clearIn_of_pos hpos hlen hwords, List.length_replicate, fun pos hlt ↦ ?_⟩
    rw [checkIn_eq]
    apply BitTable.test_replicate_zero
    rw [placeOf_eq]
    exact hplace pos hlt

/-! ### The words of a memory -/

/-- The words from an address on. -/
def wordsAt (mem : ByteMem) (addr n : ℕ) : List (BitVec 64) :=
  (List.range n).map fun i ↦ BitVec.ofNat 64 (mem.load 8 (addr + 8 * i))

theorem getElem?_wordsAt {addr : ℕ} : (wordsAt mem addr n)[i]? =
    if i < n then some (BitVec.ofNat 64 (mem.load 8 (addr + 8 * i))) else none := by
  rw [wordsAt, List.getElem?_map]
  split_ifs with h
  · rw [List.getElem?_range h, Option.map_some]
  · rw [List.getElem?_eq_none (by rw [List.length_range]; omega), Option.map_none]

theorem length_wordsAt {addr : ℕ} : (wordsAt mem addr n).length = n := by
  rw [wordsAt, List.length_map, List.length_range]

theorem wordsAt_store {addr v : ℕ} (hi : i < n) (hv : v < 256 ^ 8) :
    wordsAt (mem.store 8 (addr + 8 * i) v) addr n =
      (wordsAt mem addr n).set i (BitVec.ofNat 64 v) := by
  apply List.ext_getElem?
  intro j
  rcases eq_or_ne i j with rfl | hne
  · rw [List.getElem?_set_self (by rwa [length_wordsAt]), getElem?_wordsAt, if_pos hi,
      ByteMem.load_store hv]
  · rw [List.getElem?_set_ne hne, getElem?_wordsAt, getElem?_wordsAt,
      ByteMem.load_store_of_disjoint (by omega)]

theorem ofNat_one_shiftLeft (k : ℕ) : BitVec.ofNat 64 (1 <<< k) = 1#64 <<< k := by
  apply BitVec.eq_of_toNat_eq
  rw [BitVec.toNat_ofNat, BitVec.toNat_shiftLeft]
  rfl

/-- The operations on memory do to the words what the operations on words do, and nothing to the
rest of memory, unless they leave the words. -/
theorem check_of_checkIn {b : Bool} (h : checkIn pos (wordsAt mem self.addr n) = some b) :
    self.check pos mem = b := by
  obtain ⟨word, hword, rfl⟩ := Option.map_eq_some_iff.mp h
  rw [getElem?_wordsAt, Option.ite_none_right_eq_some, Option.some.injEq] at hword
  rw [← hword.2, check, wordAddr, ← ofNat_one_shiftLeft, ← BitVec.ofNat_and]
  -- the bits that are left fit into a word
  have hlt : mem.load 8 (self.addr + 8 * pos >>> 8) &&& 1 <<< (pos &&& 0x3f) < 2 ^ 64 :=
    Nat.and_le_left.trans_lt (ByteMem.load_lt 8 mem _)
  rw [Bool.eq_iff_iff, bne_iff_ne, bne_iff_ne, Ne, Ne, not_iff_not, ← BitVec.toNat_inj,
    BitVec.toNat_ofNat, Nat.mod_eq_of_lt hlt]
  rfl

theorem set_of_setIn (h : self.setIn pos (wordsAt mem self.addr n) = some words') :
    wordsAt (self.set pos mem) self.addr n = words' ∧
      ∀ x, x < self.addr ∨ self.addr + 8 * n ≤ x → self.set pos mem x = mem x := by
  rw [setIn] at h
  rw [set, wordAddr]
  split_ifs at h ⊢
  · obtain ⟨word, hword, rfl⟩ := Option.map_eq_some_iff.mp h
    rw [getElem?_wordsAt, Option.ite_none_right_eq_some, Option.some.injEq] at hword
    have hbit : 1 <<< (pos &&& 0x3f) < 2 ^ 64 := by
      rw [Nat.one_shiftLeft]
      exact Nat.pow_lt_pow_right (by norm_num) (placeOf_snd_lt pos)
    refine ⟨?_, fun x hx ↦ ByteMem.store_of_notMem (by omega)⟩
    rw [wordsAt_store hword.1 (Nat.or_lt_two_pow (n := 64) (ByteMem.load_lt 8 mem _) hbit),
      BitVec.ofNat_or, hword.2, ofNat_one_shiftLeft]
  · exact ⟨Option.some.inj h, fun _ _ ↦ rfl⟩

theorem clear_of_clearIn (h : self.clearIn (wordsAt mem self.addr n) = some words') :
    wordsAt (self.clear mem) self.addr n = words' ∧
      ∀ x, x < self.addr ∨ self.addr + 8 * n ≤ x → self.clear mem x = mem x := by
  rw [clearIn] at h
  rw [clear]
  generalize wsub self.len 1 / 64 + 1 = m at h ⊢
  induction m generalizing words' with
  | zero => exact ⟨Option.some.inj h, fun _ _ ↦ rfl⟩
  | succ m ih =>
    rw [List.range_succ, List.foldlM_append, Option.bind_eq_bind, Option.bind_eq_some_iff] at h
    obtain ⟨words₁, hrun, hlast⟩ := h
    obtain ⟨hwords, hframe⟩ := ih hrun
    simp only [List.foldlM_cons, List.foldlM_nil, ← hwords, length_wordsAt] at hlast
    rw [List.range_succ, List.foldl_append, List.foldl_cons, List.foldl_nil]
    split_ifs at hlast with hm
    · refine ⟨(wordsAt_store hm (by norm_num)).trans (Option.some.inj hlast), fun x hx ↦ ?_⟩
      rw [ByteMem.store_of_notMem (by omega), hframe x hx]
    · cases hlast

/-- Memory behaves as its words do: what was set is found, and `clear` leaves nothing. -/
theorem ImplementsSet.memory (h : self.ImplementsSet) (mem : ByteMem) :
    (∀ p < self.len, self.check p (self.set p mem) = true ∧
      ∀ q < self.len, q ≠ p → self.check q (self.set p mem) = self.check q mem) ∧
    (∀ p < self.len, self.check p (self.clear mem) = false) ∧
    ∀ x, x < self.addr ∨ self.addr + 8 * self.words ≤ x →
      self.clear mem x = mem x ∧ ∀ p < self.len, self.set p mem x = mem x := by
  have hwords : (wordsAt mem self.addr self.words).length = self.words := length_wordsAt
  obtain ⟨cleared, hclear, hlength, hnone⟩ := h.clear _ hwords
  obtain ⟨hcleared, hframe⟩ := clear_of_clearIn hclear
  -- what the words become, the memory becomes
  have hset : ∀ p < self.len, ∃ words', self.setIn p (wordsAt mem self.addr self.words) =
      some words' ∧ checkIn p words' = some true ∧ ∀ q < self.len, q ≠ p →
        checkIn q words' = checkIn q (wordsAt mem self.addr self.words) := fun p hp ↦ by
    obtain ⟨words', hrun, -, hself, hother⟩ := h.keeps.exists_set _ hwords p hp
    exact ⟨words', hrun, hself, hother⟩
  refine ⟨fun p hp ↦ ?_, fun p hp ↦ ?_, fun x hx ↦ ⟨hframe x hx, fun p hp ↦ ?_⟩⟩
  · obtain ⟨words', hrun, hself, hother⟩ := hset p hp
    obtain ⟨rfl, -⟩ := set_of_setIn hrun
    refine ⟨check_of_checkIn hself, fun q hq hne ↦ ?_⟩
    obtain ⟨b, hb⟩ := h.keeps.exists_check _ hwords q hq
    rw [check_of_checkIn hb]
    exact check_of_checkIn ((hother q hq hne).trans hb)
  · exact check_of_checkIn (hcleared ▸ hnone p hp)
  · obtain ⟨words', hrun, -⟩ := hset p hp
    exact (set_of_setIn hrun).2 x hx

end ShadowBitset

/-! ## Which lengths are right -/

/-- **Which bitsets implement a set.** In memory these are the ones of at most a word, but for the
empty one; in a vector the one of a single bit fails instead of it. -/
theorem bitsets_implement_iff (addr : ℕ) (hlen : len < 2 ^ 64) :
    ((ShadowBitset.fromAddr addr len).ImplementsSet ↔ 1 ≤ len ∧ len ≤ 64) ∧
      (LongBitset.ImplementsSet len ↔ len = 0 ∨ 2 ≤ len ∧ len ≤ 64) :=
  ⟨ShadowBitset.implementsSet_iff hlen, LongBitset.implementsSet_iff⟩

/-- Three bits are fine. -/
theorem bitsets_implement_three : (ShadowBitset.fromAddr 0x1000 3).ImplementsSet ∧
    LongBitset.ImplementsSet 3 := by
  have hlen : 3 < 2 ^ 64 := by norm_num
  obtain ⟨hshadow, hlong⟩ := bitsets_implement_iff 0x1000 hlen
  exact ⟨hshadow.mpr (by norm_num), hlong.mpr (by norm_num)⟩

/-- Of 65 bits the first is the last too, a vector for one bit has no word, and `clear` of no bits
clears a word. -/
theorem bitsets_fail :
    (((ShadowBitset.fromAddr 0x1000 65).setIn 0 [0, 0]).bind (ShadowBitset.checkIn 64) =
        some true ∧ ShadowBitset.checkIn 64 [0, 0] = some false ∧
        ¬ (ShadowBitset.fromAddr 0x1000 65).ImplementsSet) ∧
      ((LongBitset.new 1).add 0 = none ∧ ¬ LongBitset.ImplementsSet 1) ∧
      (ShadowBitset.fromAddr 0x1000 0).clearIn [] = none ∧
        ¬ (ShadowBitset.fromAddr 0x1000 0).ImplementsSet := by
  refine ⟨⟨by decide, by decide, fun h ↦ ?_⟩, ⟨by decide, fun h ↦ ?_⟩,
    ShadowBitset.clearIn_nil, fun h ↦ ?_⟩
  · exact absurd ((ShadowBitset.implementsSet_iff (by decide)).mp h).2 (by decide)
  · obtain ⟨b, hb⟩ := h.keeps.exists_check (LongBitset.new 1) ⟨rfl, rfl⟩ 0 one_pos
    rw [show (LongBitset.new 1).check 0 = none from rfl] at hb
    cases hb
  · exact absurd ((ShadowBitset.implementsSet_iff (by decide)).mp h).1 (by decide)

end Maturin
