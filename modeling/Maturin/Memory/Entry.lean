import Maturin.Base.Addr

/-!
# Page table entries

A `PageTableEntry` of `memory/page_table.rs` is a 64-bit word: the flags in bits 7 to 0 and the
physical page number in bits 53 to 10.
-/

namespace Maturin

/-- The flag bits of an entry. -/
abbrev PTEFlags := BitVec 8

namespace PTEFlags

def VALID : PTEFlags := 1
def READ : PTEFlags := 2
def WRITE : PTEFlags := 4
def EXECUTE : PTEFlags := 8
def USER : PTEFlags := 16
def GLOBAL : PTEFlags := 32
def ACCESS : PTEFlags := 64
def DIRTY : PTEFlags := 128

/-- Are all of the flags `other` set? -/
def contains (self other : PTEFlags) : Bool := self &&& other == other

/-- The flags with which the kernel maps a page: the hardware need not set `A` and `D`. -/
def mapped (flags : PTEFlags) : PTEFlags := flags ||| VALID ||| ACCESS ||| DIRTY

theorem contains_iff {self other : PTEFlags} :
    self.contains other = true ↔ ∀ i < 8, other.getLsbD i = true → self.getLsbD i = true := by
  rw [contains, beq_iff_eq, BitVec.eq_of_getLsbD_eq_iff]
  refine forall₂_congr fun i _ ↦ ?_
  rw [BitVec.getLsbD_and]
  cases self.getLsbD i <;> cases other.getLsbD i <;> simp

theorem contains_mapped {self other : PTEFlags} (h : self.contains other = true) :
    self.mapped.contains other = true := by
  rw [contains_iff] at h ⊢
  intro i hi hother
  rw [mapped, BitVec.getLsbD_or, BitVec.getLsbD_or, BitVec.getLsbD_or, h i hi hother, Bool.true_or,
    Bool.true_or, Bool.true_or]

theorem contains_of_or {self a b : PTEFlags} (h : self.contains (a ||| b) = true) :
    self.contains b = true := by
  rw [contains_iff] at h ⊢
  intro i hi hb
  exact h i hi (by rw [BitVec.getLsbD_or, hb, Bool.or_true])

theorem mapped_valid (flags : PTEFlags) : mapped flags &&& VALID ≠ 0 := by
  revert flags
  decide +kernel

end PTEFlags

namespace PageTableEntry

/-- `(self.bits >> 10 & ((1 << 44) - 1)) << 12` -/
def addr (bits : ℕ) : ℕ := (bits >>> 10 &&& (2 ^ 44 - 1)) <<< 12

def flags (bits : ℕ) : PTEFlags := BitVec.ofNat 8 bits

def isValid (bits : ℕ) : Bool := flags bits &&& PTEFlags.VALID != 0

/-- `(self.bits & !0xff) | flags` -/
def setFlags (bits : ℕ) (flags : PTEFlags) : ℕ :=
  (bits / 2 ^ 8 * 2 ^ 8) ||| flags.toNat

/-- `((paddr >> 12) << 10) | flags` -/
def setAll (paddr : ℕ) (flags : PTEFlags) : ℕ :=
  ((paddr >>> 12) <<< 10) ||| flags.toNat

/-! ## What is set can be read -/

variable {bits : ℕ} {paddr : ℕ} {fl : PTEFlags}

theorem addr_eq (bits : ℕ) : addr bits = bits / 2 ^ 10 % 2 ^ 44 * 2 ^ 12 := by
  rw [addr, Nat.and_two_pow_sub_one_eq_mod, Nat.shiftLeft_eq, Nat.shiftRight_eq_div_pow]

theorem setFlags_eq (bits : ℕ) (fl : PTEFlags) :
    setFlags bits fl = bits / 2 ^ 8 * 2 ^ 8 + fl.toNat := by
  rw [setFlags, ← Nat.shiftLeft_eq, Nat.shiftLeft_add_eq_or_of_lt fl.isLt]

theorem setAll_eq (paddr : ℕ) (fl : PTEFlags) :
    setAll paddr fl = paddr / 2 ^ 12 * 2 ^ 10 + fl.toNat := by
  have hlt : fl.toNat < 2 ^ 10 := fl.isLt.trans (by norm_num)
  rw [setAll, ← Nat.shiftLeft_add_eq_or_of_lt hlt, Nat.shiftRight_eq_div_pow, Nat.shiftLeft_eq]

theorem flags_eq_of_mod {n : ℕ} (h : n % 2 ^ 8 = fl.toNat) : flags n = fl := by
  rw [flags, ← BitVec.toNat_inj, BitVec.toNat_ofNat, h]

@[simp] theorem flags_setFlags : flags (setFlags bits fl) = fl := by
  have := fl.isLt
  refine flags_eq_of_mod ?_
  rw [setFlags_eq]
  omega

@[simp] theorem addr_setFlags : addr (setFlags bits fl) = addr bits := by
  have := fl.isLt
  rw [addr_eq, addr_eq, setFlags_eq]
  omega

theorem setFlags_lt (h : bits < 2 ^ 64) : setFlags bits fl < 2 ^ 64 := by
  have := fl.isLt
  rw [setFlags_eq]
  omega

@[simp] theorem flags_setAll : flags (setAll paddr fl) = fl := by
  have := fl.isLt
  refine flags_eq_of_mod ?_
  rw [setAll_eq]
  omega

theorem addr_setAll (h : PageAligned paddr) (hlt : paddr < 2 ^ 56) :
    addr (setAll paddr fl) = paddr := by
  have := fl.isLt
  simp only [PageAligned, PAGE_SIZE] at h
  rw [addr_eq, setAll_eq]
  omega

theorem setAll_lt (h : paddr < 2 ^ 64) : setAll paddr fl < 2 ^ 64 := by
  have := fl.isLt
  rw [setAll_eq]
  omega

@[simp] theorem isValid_zero : isValid 0 = false := by decide

end PageTableEntry

end Maturin
