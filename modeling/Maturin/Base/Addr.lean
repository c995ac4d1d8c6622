import Mathlib.Tactic.Ring
import Mathlib.Tactic.NormNum
import Mathlib.Data.Nat.Bitwise

/-!
# Addresses

A `usize`, and so a `VirtAddr` or a `PhysAddr`, is a natural number below `2 ^ 64`. The kernel is
built in release mode, so `+` and `-` on `usize` wrap, which `wadd` and `wsub` model. The other
functions are those of `memory/addr.rs`.
-/

namespace Maturin

/-- `+` on `usize` in release mode. -/
def wadd (a b : ℕ) : ℕ := (a + b) % 2 ^ 64

/-- `-` on `usize` in release mode. -/
def wsub (a b : ℕ) : ℕ := (a + 2 ^ 64 - b) % 2 ^ 64

/-- The size of a page. -/
abbrev PAGE_SIZE : ℕ := 0x1000

/-- User addresses do not go past this. -/
abbrev USER_VIRT_ADDR_LIMIT : ℕ := 0xFFFFFFFF

abbrev USER_STACK_SIZE : ℕ := 0x20_0000

abbrev USER_STACK_OFFSET : ℕ := 0x4000_0000 - USER_STACK_SIZE

/-- `addr & !(PAGE_SIZE - 1)` -/
def alignDown (addr : ℕ) : ℕ := addr / PAGE_SIZE * PAGE_SIZE

/-- `(addr + PAGE_SIZE - 1) & !(PAGE_SIZE - 1)`, where the sum wraps. -/
def alignUp (addr : ℕ) : ℕ := alignDown (wadd addr (PAGE_SIZE - 1))

/-- `align_up(size) / PAGE_SIZE` -/
def pageCount (size : ℕ) : ℕ := alignUp size / PAGE_SIZE

/-- `addr & (PAGE_SIZE - 1)` -/
def pageOffset (addr : ℕ) : ℕ := addr % PAGE_SIZE

def addrToPageId (addr : ℕ) : ℕ := addr / PAGE_SIZE

def pageIdToAddr (pageId : ℕ) : ℕ := pageId * PAGE_SIZE

/-- Do an address and the address behind an object of the given size differ in their pages? -/
def crossPage (size addr : ℕ) : Bool := addr ^^^ wadd addr size ≥ PAGE_SIZE

/-- The indices into the three levels of an Sv39 table, bits 38 to 30, 29 to 21 and 20 to 12. -/
def pteIdxOfVirtAddr (vaddr : ℕ) : ℕ × ℕ × ℕ :=
  ((vaddr >>> 30) &&& 0x1ff, (vaddr >>> 21) &&& 0x1ff, (vaddr >>> 12) &&& 0x1ff)

/-! ## Page alignment -/

/-- The address is the first of a page. -/
def PageAligned (addr : ℕ) : Prop := addr % PAGE_SIZE = 0

instance (addr : ℕ) : Decidable (PageAligned addr) := inferInstanceAs (Decidable (_ = _))

theorem alignDown_le (addr : ℕ) : alignDown addr ≤ addr := Nat.div_mul_le_self _ _

@[simp] theorem pageAligned_alignDown (addr : ℕ) : PageAligned (alignDown addr) :=
  Nat.mul_mod_left _ _

theorem alignDown_of_pageAligned {addr : ℕ} (h : PageAligned addr) : alignDown addr = addr :=
  Nat.div_mul_cancel (Nat.dvd_of_mod_eq_zero h)

theorem wadd_of_lt {a b : ℕ} (h : a + b < 2 ^ 64) : wadd a b = a + b := Nat.mod_eq_of_lt h

theorem wsub_of_le {a b : ℕ} (h : b ≤ a) (ha : a < 2 ^ 64) : wsub a b = a - b := by
  rw [wsub]
  omega

theorem wadd_lt (a b : ℕ) : wadd a b < 2 ^ 64 := Nat.mod_lt _ (by norm_num)

theorem wadd_wadd (a b c : ℕ) : wadd (wadd a b) c = wadd a (b + c) := by
  rw [wadd, wadd, wadd, Nat.mod_add_mod, Nat.add_assoc]

theorem wsub_lt (a b : ℕ) : wsub a b < 2 ^ 64 := by
  rw [wsub]
  exact Nat.mod_lt _ (by norm_num)

theorem alignUp_of_pageAligned {addr : ℕ} (h : PageAligned addr) (hlt : addr < 2 ^ 64) :
    alignUp addr = addr := by
  simp only [PageAligned, PAGE_SIZE] at h
  simp only [alignUp, wadd, alignDown, PAGE_SIZE]
  omega

theorem pageAligned_alignUp (addr : ℕ) : PageAligned (alignUp addr) := pageAligned_alignDown _

/-! ## The three indices of an address -/

/-- The number of the virtual page of an address among the `2 ^ 27` pages of Sv39. -/
def vpn (vaddr : ℕ) : ℕ := vaddr / PAGE_SIZE % 2 ^ 27

/-- The indices are the three base-512 digits of the page number. -/
theorem pteIdxOfVirtAddr_eq (vaddr : ℕ) :
    pteIdxOfVirtAddr vaddr
      = (vpn vaddr / 2 ^ 18, vpn vaddr / 2 ^ 9 % 2 ^ 9, vpn vaddr % 2 ^ 9) := by
  rw [pteIdxOfVirtAddr, show (0x1ff : ℕ) = 2 ^ 9 - 1 from rfl, Nat.and_two_pow_sub_one_eq_mod,
    Nat.and_two_pow_sub_one_eq_mod, Nat.and_two_pow_sub_one_eq_mod, Nat.shiftRight_eq_div_pow,
    Nat.shiftRight_eq_div_pow, Nat.shiftRight_eq_div_pow, vpn, Prod.mk.injEq, Prod.mk.injEq]
  simp only [PAGE_SIZE]
  omega

theorem vpn_lt (vaddr : ℕ) : vpn vaddr < 2 ^ 27 := Nat.mod_lt _ (by norm_num)

/-- Two addresses select the same entries exactly when they lie in the same virtual page. -/
theorem pteIdxOfVirtAddr_eq_iff {v w : ℕ} :
    pteIdxOfVirtAddr v = pteIdxOfVirtAddr w ↔ vpn v = vpn w := by
  rw [pteIdxOfVirtAddr_eq, pteIdxOfVirtAddr_eq, Prod.mk.injEq, Prod.mk.injEq]
  omega

end Maturin
