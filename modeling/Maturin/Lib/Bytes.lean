import Mathlib.Algebra.Order.Group.Nat
import Mathlib.Data.List.Basic
import Mathlib.Tactic.Common
import Mathlib.Tactic.Ring

/-!
# Byte-addressed memory

A memory gives every address a byte. Words are little-endian: `load n m a` is the number whose
base-256 digits are the `n` bytes from `a` on, and `store n a v m` puts the digits of `v` there.
Everything a proof needs of a write is that it leaves the other addresses alone and that what was
stored is loaded again.
-/

/-- A memory of bytes. -/
abbrev ByteMem : Type := ℕ → UInt8

namespace ByteMem

variable {m m' : ByteMem} {a x n v : ℕ}

/-- The `n`-byte word at `a`. -/
def load : ℕ → ByteMem → ℕ → ℕ
  | 0, _, _ => 0
  | n + 1, m, a => (m a).toNat + 256 * load n m (a + 1)

/-- Store the low `n` bytes of `v` at `a`. -/
def store : ℕ → ℕ → ℕ → ByteMem → ByteMem
  | 0, _, _, m => m
  | n + 1, a, v, m => store n (a + 1) (v / 256) fun x ↦ if x = a then UInt8.ofNat v else m x

/-- Give every address of `[a, a + n)` the byte `b`. -/
def fill (a n : ℕ) (b : UInt8) (m : ByteMem) : ByteMem :=
  fun x ↦ if a ≤ x ∧ x < a + n then b else m x

/-- The bytes of `[a, a + n)`. -/
def readBytes (m : ByteMem) (a n : ℕ) : List UInt8 := (List.range n).map fun i ↦ m (a + i)

/-- Write a list of bytes from `a` on. -/
def writeBytes (a : ℕ) (bs : List UInt8) (m : ByteMem) : ByteMem :=
  fun x ↦ if a ≤ x then (bs[x - a]?).getD (m x) else m x

/-! ## Words -/

theorem load_congr (h : ∀ x, a ≤ x → x < a + n → m x = m' x) : load n m a = load n m' a := by
  induction n generalizing a with
  | zero => rfl
  | succ n ih =>
    rw [load, load, h a le_rfl (by omega), ih fun x hl hr ↦ h x (by omega) (by omega)]

theorem load_lt (n : ℕ) (m : ByteMem) (a : ℕ) : load n m a < 256 ^ n := by
  induction n generalizing a with
  | zero => exact Nat.one_pos
  | succ n ih =>
    have hbyte := (m a).toNat_lt
    have := ih (a + 1)
    rw [load, pow_succ]
    omega

theorem store_of_notMem (h : x < a ∨ a + n ≤ x) : store n a v m x = m x := by
  induction n generalizing a v m with
  | zero => rfl
  | succ n ih =>
    rw [store, ih (by omega), if_neg (by omega)]

/-- What is stored does not depend on what was there. -/
theorem store_congr (h : a ≤ x ∧ x < a + n) : store n a v m x = store n a v m' x := by
  induction n generalizing a v m m' with
  | zero => omega
  | succ n ih =>
    rw [store, store]
    rcases eq_or_ne x a with rfl | hne
    · rw [store_of_notMem (by omega), store_of_notMem (by omega), if_pos rfl, if_pos rfl]
    · exact ih (by omega)

/-- A store further on. -/
theorem store_add (d : ℕ) :
    store n (a + d) v m (x + d) = store n a v (fun x ↦ m (x + d)) x := by
  induction n generalizing a v m with
  | zero => rfl
  | succ n ih =>
    rw [store, store, Nat.add_right_comm, ih]
    congr 1
    funext y
    exact if_congr (Nat.add_right_cancel_iff) rfl rfl

theorem store_zero_of_mem (h : a ≤ x ∧ x < a + n) : store n a 0 m x = 0 := by
  induction n generalizing a m with
  | zero => omega
  | succ n ih =>
    rw [store]
    rcases eq_or_ne x a with rfl | hne
    · rw [store_of_notMem (by omega), if_pos rfl]
      rfl
    · exact ih (by omega)

theorem load_store (hv : v < 256 ^ n) : load n (store n a v m) a = v := by
  induction n generalizing a v m with
  | zero =>
    rw [pow_zero] at hv
    rw [load]
    omega
  | succ n ih =>
    have hhead : store (n + 1) a v m a = UInt8.ofNat v := by
      rw [store, store_of_notMem (by omega), if_pos rfl]
    have htail : load n (store (n + 1) a v m) (a + 1) = v / 256 :=
      ih (by rw [pow_succ] at hv; omega)
    rw [load, hhead, htail, UInt8.toNat_ofNat']
    omega

/-- A store does not change a word that it does not meet. -/
theorem load_store_of_disjoint {k b : ℕ} (h : b + k ≤ a ∨ a + n ≤ b) :
    load k (store n a v m) b = load k m b :=
  load_congr fun x hl hr ↦ store_of_notMem (by omega)

/-! ## Blocks -/

theorem fill_of_mem {b : UInt8} (h : a ≤ x ∧ x < a + n) : fill a n b m x = b := if_pos h

theorem fill_of_notMem {b : UInt8} (h : x < a ∨ a + n ≤ x) : fill a n b m x = m x :=
  if_neg (by omega)

/-- A word of zeros is zero. -/
theorem load_eq_zero (h : ∀ x, a ≤ x → x < a + n → m x = 0) : load n m a = 0 := by
  induction n generalizing a with
  | zero => rfl
  | succ n ih =>
    rw [load, h a le_rfl (by omega), ih fun x hl hr ↦ h x (by omega) (by omega)]
    rfl

@[simp] theorem length_readBytes : (readBytes m a n).length = n := by
  rw [readBytes, List.length_map, List.length_range]

theorem readBytes_add (k : ℕ) :
    readBytes m a (n + k) = readBytes m a n ++ readBytes m (a + n) k := by
  rw [readBytes, readBytes, readBytes, List.range_add, List.map_append, List.map_map]
  congr 1
  exact List.map_congr_left fun i _ ↦ by rw [Function.comp_apply, Nat.add_assoc]

theorem readBytes_congr (h : ∀ x, a ≤ x → x < a + n → m x = m' x) :
    readBytes m a n = readBytes m' a n :=
  List.map_congr_left fun i hi ↦ h (a + i) (by omega) (by rw [List.mem_range] at hi; omega)

theorem readBytes_eq_iff {b : ℕ} :
    m.readBytes a n = m'.readBytes b n ↔ ∀ i < n, m (a + i) = m' (b + i) := by
  rw [readBytes, readBytes, List.map_inj_left]
  exact forall_congr' fun i ↦ imp_congr_left List.mem_range

theorem replicate_eq_readBytes_iff :
    List.replicate n 0 = m.readBytes a n ↔ ∀ i < n, m (a + i) = 0 := by
  have hrep : List.replicate n 0 = readBytes (fun _ ↦ 0) 0 n := by
    rw [readBytes, List.map_const', List.length_range]
  rw [hrep, readBytes_eq_iff]
  exact forall_congr' fun i ↦ imp_congr_right fun _ ↦ eq_comm

theorem writeBytes_of_notMem {bs : List UInt8} (h : x < a ∨ a + bs.length ≤ x) :
    writeBytes a bs m x = m x := by
  rw [writeBytes]
  split_ifs with hx
  · rw [List.getElem?_eq_none (by omega), Option.getD_none]
  · rfl

theorem writeBytes_of_mem {bs : List UInt8} {i : ℕ} (h : i < bs.length) :
    writeBytes a bs m (a + i) = bs[i] := by
  rw [writeBytes, if_pos (by omega), Nat.add_sub_cancel_left, List.getElem?_eq_getElem h,
    Option.getD_some]

/-- What a write leaves at an address depends on the byte there alone. -/
theorem writeBytes_congr {bs : List UInt8} (h : m x = m' x) :
    writeBytes a bs m x = writeBytes a bs m' x := by
  rw [writeBytes, writeBytes, h]

/-- Two writes of which the second goes on where the first ends. -/
theorem writeBytes_append {bs cs : List UInt8} :
    writeBytes a (bs ++ cs) m = writeBytes (a + bs.length) cs (writeBytes a bs m) := by
  funext x
  rcases lt_or_ge x (a + bs.length) with hlt | hge
  · rw [writeBytes_of_notMem (Or.inl hlt), writeBytes, writeBytes]
    split_ifs with hx
    · rw [List.getElem?_append_left (by omega)]
    · rfl
  · rw [writeBytes, writeBytes, if_pos (by omega), if_pos hge,
      List.getElem?_append_right (by omega), writeBytes_of_notMem (Or.inr hge), Nat.sub_add_eq]

/-- Going on with a write. -/
theorem writeBytes_take_add {bs : List UInt8} {k : ℕ} (h : k ≤ bs.length) (j : ℕ) :
    writeBytes (a + k) ((bs.drop k).take j) (writeBytes a (bs.take k) m)
      = writeBytes a (bs.take (k + j)) m := by
  rw [List.take_add, writeBytes_append, List.length_take_of_le h]

@[simp] theorem writeBytes_nil : writeBytes a [] m = m := by
  funext x
  rw [writeBytes, List.getElem?_nil, Option.getD_none, ite_self]

/-- What was written is read again. -/
theorem readBytes_writeBytes {bs : List UInt8} :
    readBytes (writeBytes a bs m) a bs.length = bs := by
  apply List.ext_getElem length_readBytes
  intro i _ hi
  simp only [readBytes, List.getElem_map, List.getElem_range]
  exact writeBytes_of_mem hi

/-- Copying a block gives the target the bytes of the source. -/
theorem writeBytes_readBytes {b i : ℕ} (h : i < n) :
    writeBytes a (readBytes m b n) m' (a + i) = m (b + i) := by
  rw [writeBytes_of_mem (by rwa [length_readBytes])]
  simp [readBytes]

end ByteMem
