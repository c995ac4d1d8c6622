import Maturin.Base.Addr
import Maturin.Lib.Bytes
import Mathlib.Data.Nat.Bitwise

/-!
# Bits in user memory

`ShadowBitset` of `modules/bitset` is an array of bits in the memory of the user, in words of 64
bits. `set` and `check` take the word of bit `pos` to be number `pos >> 8`, though `clear` and the
user know that it is number `pos / 64`; below 256 they meet the first word only. User addresses are
far below `2 ^ 64`, so that address arithmetic does not wrap.
-/

namespace Maturin

/-- The bit of the array at `addr`, as the user laid it out. -/
def userBit (mem : ByteMem) (addr pos : ℕ) : Bool :=
  (mem.load 8 (addr + 8 * (pos / 64))).testBit (pos % 64)

/-- `ShadowBitset` -/
structure ShadowBitset where
  addr : ℕ
  len : ℕ

namespace ShadowBitset

/-- `from_addr` -/
def fromAddr (addr len : ℕ) : ShadowBitset := ⟨addr, len⟩

/-- `is_valid` -/
def isValid (self : ShadowBitset) : Bool := self.addr != 0

/-- The address of the word that `set` and `check` take for the one of `pos`. -/
def wordAddr (self : ShadowBitset) (pos : ℕ) : ℕ := self.addr + 8 * (pos >>> 8)

def set (self : ShadowBitset) (pos : ℕ) (mem : ByteMem) : ByteMem :=
  if pos < self.len then
    mem.store 8 (self.wordAddr pos) (mem.load 8 (self.wordAddr pos) ||| 1 <<< (pos &&& 0x3f))
  else mem

def check (self : ShadowBitset) (pos : ℕ) (mem : ByteMem) : Bool :=
  (mem.load 8 (self.wordAddr pos)) &&& (1 <<< (pos &&& 0x3f)) != 0

/-- `clear`, where the number of the last word wraps if there is none. -/
def clear (self : ShadowBitset) (mem : ByteMem) : ByteMem :=
  (List.range (wsub self.len 1 / 64 + 1)).foldl
    (fun mem i ↦ mem.store 8 (self.addr + 8 * i) 0) mem

variable {self : ShadowBitset} {mem : ByteMem} {pos b x n : ℕ}

/-! ## One bit -/

theorem wordAddr_of_lt (hpos : pos < 256) : self.wordAddr pos = self.addr := by
  rw [wordAddr, Nat.shiftRight_eq_div_pow, Nat.div_eq_of_lt (by norm_num; exact hpos),
    Nat.mul_zero, Nat.add_zero]

theorem and_0x3f (pos : ℕ) : pos &&& 0x3f = pos % 64 := Nat.and_two_pow_sub_one_eq_mod pos 6

theorem check_of_lt (hpos : pos < 256) :
    self.check pos mem = (mem.load 8 self.addr).testBit (pos % 64) := by
  rw [check, wordAddr_of_lt hpos, and_0x3f, Nat.one_shiftLeft, Bool.eq_iff_iff, bne_iff_ne,
    Nat.and_two_pow]
  cases (mem.load 8 self.addr).testBit (pos % 64) <;> simp

theorem testBit_one_shiftLeft (k b : ℕ) : (1 <<< k).testBit b = decide (k = b) := by
  rw [Nat.one_shiftLeft, Nat.testBit_two_pow]

/-- Setting a bit sets that bit of the first word. -/
theorem testBit_set (hlen : pos < self.len) (hpos : pos < 256) :
    ((self.set pos mem).load 8 self.addr).testBit b =
      ((mem.load 8 self.addr).testBit b || decide (pos % 64 = b)) := by
  have hlt : mem.load 8 self.addr ||| 1 <<< (pos % 64) < 256 ^ 8 := by
    have hone : 1 <<< (pos % 64) < 2 ^ 64 := by
      rw [Nat.one_shiftLeft]
      exact Nat.pow_lt_pow_right (by norm_num) (Nat.mod_lt pos (by norm_num))
    exact Nat.or_lt_two_pow (n := 64) (ByteMem.load_lt 8 mem self.addr) hone
  rw [set, if_pos hlen, wordAddr_of_lt hpos, and_0x3f, ByteMem.load_store hlt, Nat.testBit_or,
    testBit_one_shiftLeft]

/-- Setting a bit leaves all but the first word alone. -/
theorem set_of_notMem (hpos : pos < 256) (hx : x < self.addr ∨ self.addr + 8 ≤ x) :
    self.set pos mem x = mem x := by
  rw [set]
  split_ifs
  · rw [wordAddr_of_lt hpos]
    exact ByteMem.store_of_notMem hx
  · rfl

/-! ## The bits that the user sees -/

theorem userBit_congr {addr : ℕ} {mem' : ByteMem} (hb : b < 64 * n)
    (h : ∀ x, addr ≤ x → x < addr + 8 * n → mem x = mem' x) :
    userBit mem addr b = userBit mem' addr b := by
  have hword : b / 64 < n := Nat.div_lt_of_lt_mul hb
  rw [userBit, userBit, ByteMem.load_congr fun x hl hr ↦ h x (by omega) (by omega)]

/-- `check` looks at the bit of the first word. -/
theorem check_eq_userBit (hpos : pos < 256) :
    self.check pos mem = userBit mem self.addr (pos % 64) := by
  have hmod : pos % 64 < 64 := Nat.mod_lt pos (by norm_num)
  rw [check_of_lt hpos, userBit, Nat.div_eq_of_lt hmod, Nat.mod_mod, Nat.mul_zero, Nat.add_zero]

/-- `set` sets the bit of the first word. -/
theorem userBit_set (hlen : pos < self.len) (hpos : pos < 256) :
    userBit (self.set pos mem) self.addr b =
      (userBit mem self.addr b || decide (b = pos % 64)) := by
  rw [userBit, userBit]
  have hmod : pos % 64 < 64 := Nat.mod_lt pos (by norm_num)
  rcases Nat.lt_or_ge b 64 with hb | hb
  · rw [Nat.div_eq_of_lt hb, Nat.mod_eq_of_lt hb, Nat.mul_zero, Nat.add_zero,
      testBit_set hlen hpos, decide_eq_decide.mpr eq_comm]
  · rw [ByteMem.load_congr fun x hl _ ↦ set_of_notMem hpos (by omega),
      decide_eq_false (by omega), Bool.or_false]

/-! ## The whole array -/

/-- Words of zeros from `addr` on. -/
theorem zeros_of_notMem {addr : ℕ} (hx : x < addr ∨ addr + 8 * n ≤ x) :
    (List.range n).foldl (fun mem i ↦ ByteMem.store 8 (addr + 8 * i) 0 mem) mem x = mem x := by
  induction n with
  | zero => rfl
  | succ n ih =>
    rw [List.range_succ, List.foldl_append, List.foldl_cons, List.foldl_nil,
      ByteMem.store_of_notMem (by omega), ih (by omega)]

theorem zeros_of_mem {addr : ℕ} (hx : addr ≤ x ∧ x < addr + 8 * n) :
    (List.range n).foldl (fun mem i ↦ ByteMem.store 8 (addr + 8 * i) 0 mem) mem x = 0 := by
  induction n with
  | zero => omega
  | succ n ih =>
    rw [List.range_succ, List.foldl_append, List.foldl_cons, List.foldl_nil]
    rcases Nat.lt_or_ge x (addr + 8 * n) with hlt | hge
    · rw [ByteMem.store_of_notMem (Or.inl hlt), ih ⟨hx.1, hlt⟩]
    · exact ByteMem.store_zero_of_mem ⟨hge, by omega⟩

theorem load_zeros {addr i : ℕ} (hi : i < n) :
    ByteMem.load 8 ((List.range n).foldl (fun mem i ↦ ByteMem.store 8 (addr + 8 * i) 0 mem) mem)
      (addr + 8 * i) = 0 := by
  apply ByteMem.load_eq_zero
  exact fun x hl hr ↦ zeros_of_mem ⟨by omega, by omega⟩

/-- The words that hold bits of the array. -/
def words (self : ShadowBitset) : ℕ := (self.len + 63) / 64

theorem clear_eq (h0 : 0 < self.len) (hlen : self.len < 2 ^ 64) :
    self.clear mem = (List.range self.words).foldl
      (fun mem i ↦ mem.store 8 (self.addr + 8 * i) 0) mem := by
  have hwords : wsub self.len 1 / 64 + 1 = self.words := by
    rw [wsub_of_le h0 hlen, words]
    omega
  rw [clear, hwords]

theorem userBit_clear (h0 : 0 < self.len) (hlen : self.len < 2 ^ 64) (hb : b < 64 * self.words) :
    userBit (self.clear mem) self.addr b = false := by
  rw [userBit, clear_eq h0 hlen, load_zeros (Nat.div_lt_of_lt_mul hb), Nat.zero_testBit]

theorem clear_of_mem (h0 : 0 < self.len) (hlen : self.len < 2 ^ 64)
    (hx : self.addr ≤ x ∧ x < self.addr + 8 * self.words) : self.clear mem x = 0 := by
  rw [clear_eq h0 hlen, zeros_of_mem hx]

theorem clear_of_notMem (h0 : 0 < self.len) (hlen : self.len < 2 ^ 64)
    (hx : x < self.addr ∨ self.addr + 8 * self.words ≤ x) : self.clear mem x = mem x := by
  rw [clear_eq h0 hlen, zeros_of_notMem hx]

end ShadowBitset

end Maturin
