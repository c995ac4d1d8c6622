import Maturin.Lib.Bytes
import Mathlib.Data.Fintype.Basic
import Mathlib.Logic.Function.Basic

/-!
# Assembly for RV64

The instructions of RV64 that save and restore the registers of a machine, and the text of an
assembly file: blocks of instructions, each under its label, of which one falls through into the
next one. A run goes from a label on until the text is left, and says which instructions it has
executed, each with the machine that it found.

A run is analysed in pieces. Instructions that do not branch are executed one after another, and a
list of stores or of loads with one base register moves registers to the slots of a frame or back.
-/

namespace Riscv

abbrev Word : Type := BitVec 64

abbrev Reg : Type := Fin 32

/-- The numeral of a register rests on one instance in all modules. -/
instance neZero_reg : NeZero 32 := ⟨by decide⟩

abbrev ra : Reg := 1
abbrev sp : Reg := 2
abbrev tp : Reg := 4
abbrev t0 : Reg := 5
abbrev t1 : Reg := 6
abbrev t2 : Reg := 7
abbrev a0 : Reg := 10
abbrev a1 : Reg := 11

/-- The control and status registers of a trap. -/
inductive Csr
  | sstatus
  | sscratch
  | sepc
  deriving DecidableEq

/-- The registers and the memory. -/
structure Machine where
  x : Reg → Word
  f : Reg → Word
  csr : Csr → Word
  mem : ByteMem

namespace Machine

/-- A general register, of which `x0` is zero. -/
def get (m : Machine) (r : Reg) : Word := if r = 0 then 0 else m.x r

def set (r : Reg) (v : Word) (m : Machine) : Machine :=
  if r = 0 then m else { m with x := Function.update m.x r v }

def setF (r : Reg) (v : Word) (m : Machine) : Machine := { m with f := Function.update m.f r v }

def setCsr (c : Csr) (v : Word) (m : Machine) : Machine :=
  { m with csr := Function.update m.csr c v }

/-- The address that lies `off` bytes from where a register points to. -/
def addr (m : Machine) (b : Reg) (off : ℤ) : ℕ := (m.get b + BitVec.ofInt 64 off).toNat

def load (a : ℕ) (m : Machine) : Word := BitVec.ofNat 64 (m.mem.load 8 a)

def store (a : ℕ) (v : Word) (m : Machine) : Machine := { m with mem := m.mem.store 8 a v.toNat }

end Machine

/-- The instructions, with labels for the targets. -/
inductive Instr (L : Type)
  | ld (rd : Reg) (off : ℤ) (b : Reg)
  | sd (rs : Reg) (off : ℤ) (b : Reg)
  | fld (rd : Reg) (off : ℤ) (b : Reg)
  | fsd (rs : Reg) (off : ℤ) (b : Reg)
  | addi (rd rs : Reg) (imm : ℤ)
  | andi (rd rs : Reg) (imm : ℤ)
  | mv (rd rs : Reg)
  | csrr (rd : Reg) (c : Csr)
  | csrw (c : Csr) (rs : Reg)
  | csrrw (rd : Reg) (c : Csr) (rs : Reg)
  | bgtz (rs : Reg) (l : L)
  | beqz (rs : Reg) (l : L)
  | bnez (rs : Reg) (l : L)
  | j (l : L)
  | call (l : L)
  | ret
  | sret
  deriving DecidableEq

/-- A way out of the instructions that follow one another. -/
inductive Exit (L : Type)
  | jump (l : L)
  | call (l : L)
  | ret
  | sret
  | off
  deriving DecidableEq

variable {L : Type}

namespace Instr

/-- What an instruction does to the registers and the memory. -/
def exec (m : Machine) : Instr L → Machine
  | ld rd off b => m.set rd (m.load (m.addr b off))
  | sd rs off b => m.store (m.addr b off) (m.get rs)
  | fld rd off b => m.setF rd (m.load (m.addr b off))
  | fsd rs off b => m.store (m.addr b off) (m.f rs)
  | addi rd rs imm => m.set rd (m.get rs + BitVec.ofInt 64 imm)
  | andi rd rs imm => m.set rd (m.get rs &&& BitVec.ofInt 64 imm)
  | mv rd rs => m.set rd (m.get rs)
  | csrr rd c => m.set rd (m.csr c)
  | csrw c rs => m.setCsr c (m.get rs)
  | csrrw rd c rs => (m.setCsr c (m.get rs)).set rd (m.csr c)
  | _ => m

/-- Where an instruction leads if not to the next one. -/
def exit? (m : Machine) : Instr L → Option (Exit L)
  | bgtz rs l => if 0 < (m.get rs).toInt then some (.jump l) else none
  | beqz rs l => if m.get rs = 0 then some (.jump l) else none
  | bnez rs l => if m.get rs ≠ 0 then some (.jump l) else none
  | j l => some (.jump l)
  | call l => some (.call l)
  | ret => some .ret
  | sret => some .sret
  | _ => none

/-- The instruction leads to the next one. -/
def isPlain : Instr L → Bool
  | bgtz _ _ | beqz _ _ | bnez _ _ | j _ | call _ | ret | sret => false
  | _ => true

/-- The base register and the offset of a store. -/
def storesAt : Instr L → Option (Reg × ℤ)
  | sd _ off b | fsd _ off b => some (b, off)
  | _ => none

/-- The general register that an instruction writes. -/
def writes : Instr L → Option Reg
  | ld rd _ _ | addi rd _ _ | andi rd _ _ | mv rd _ | csrr rd _ | csrrw rd _ _ => some rd
  | _ => none

theorem exit?_of_isPlain {m : Machine} {i : Instr L} (h : i.isPlain = true) :
    i.exit? m = none := by
  cases i <;> first | rfl | cases h

end Instr

/-- What was executed: the instructions, each with the machine that it found. -/
abbrev Log (L : Type) : Type := List (Instr L × Machine)

/-- Execute instructions one after another until one of them leads elsewhere. -/
def runBlock : List (Instr L) → Machine → Log L × Exit L × Machine
  | [], m => ([], .off, m)
  | i :: rest, m =>
    match i.exit? m with
    | some e => ([(i, m)], e, m)
    | none => ((i, m) :: (runBlock rest (i.exec m)).1, (runBlock rest (i.exec m)).2)

/-- Blocks under their labels, in the order of the file. -/
abbrev Text (L : Type) : Type := List (L × List (Instr L))

/-- The instructions from a label on. -/
def Text.codeFrom [DecidableEq L] (text : Text L) (l : L) : List (Instr L) :=
  ((text.dropWhile fun b ↦ b.1 ≠ l).map Prod.snd).flatten

/-- Execute a text from a label on, with at most `n` jumps, until it is left. -/
def run [DecidableEq L] (text : Text L) : ℕ → L → Machine → Option (Log L × Exit L × Machine)
  | 0, _, _ => none
  | n + 1, l, m =>
    match runBlock (text.codeFrom l) m with
    | (log, .jump l', m') => (run text n l' m').map fun r ↦ (log ++ r.1, r.2)
    | r => some r

/-- The addresses of the doublewords that were stored. -/
def Log.stored (log : Log L) : List ℕ :=
  log.filterMap fun p ↦ p.1.storesAt.map fun q ↦ p.2.addr q.1 q.2

/-- Execute instructions that do not branch. -/
def execAll (m : Machine) (block : List (Instr L)) : Machine :=
  block.foldl (fun m i ↦ i.exec m) m

/-- The log of instructions that do not branch. -/
def steps : List (Instr L) → Machine → Log L
  | [], _ => []
  | i :: block, m => (i, m) :: steps block (i.exec m)

/-- Store registers to slots of a frame, each of a doubleword. -/
def saves (b : Reg) (l : List (Reg × ℕ)) : List (Instr L) := l.map fun p ↦ .sd p.1 (8 * p.2) b

/-- Load registers from the slots. -/
def loads (b : Reg) (l : List (Reg × ℕ)) : List (Instr L) := l.map fun p ↦ .ld p.1 (8 * p.2) b

/-! ## Where a value comes from -/

/-- A place that holds a value; the memory is one of them. -/
inductive Loc
  | x (r : Reg)
  | f (r : Reg)
  | csr (c : Csr)
  | mem
  deriving DecidableEq

/-- The places with derived values after an instruction, by those before. -/
def Instr.derive (d : Loc → Bool) : Instr L → Loc → Bool
  | ld rd _ b => Function.update d (.x rd) (d (.x b) || d .mem)
  | fld rd _ b => Function.update d (.f rd) (d (.x b) || d .mem)
  | sd rs _ b => Function.update d .mem (d .mem || d (.x b) || d (.x rs))
  | fsd rs _ b => Function.update d .mem (d .mem || d (.x b) || d (.f rs))
  | addi rd rs _ | andi rd rs _ | mv rd rs => Function.update d (.x rd) (d (.x rs))
  | csrr rd c => Function.update d (.x rd) (d (.csr c))
  | csrw c rs => Function.update d (.csr c) (d (.x rs))
  | csrrw rd c rs => Function.update (Function.update d (.csr c) (d (.x rs))) (.x rd) (d (.csr c))
  | _ => d

/-- The places whose values derive from what `src` held at first. -/
def derived (src : Loc) (l : List (Instr L)) : Loc → Bool :=
  l.foldl Instr.derive fun loc ↦ loc = src

/-- No store goes to an address that derives from what `src` held at first. -/
def NoStoreBy (src : Loc) (l : List (Instr L)) : Prop :=
  ∀ n < l.length, ∀ q ∈ l[n]?.bind Instr.storesAt, derived src (l.take n) (.x q.1) = false

instance (src : Loc) (l : List (Instr L)) : Decidable (NoStoreBy src l) :=
  inferInstanceAs (Decidable (∀ n < l.length, ∀ q ∈ l[n]?.bind Instr.storesAt, _))

/-! ## Registers and memory -/

namespace Machine

variable {m : Machine} {r r' : Reg} {v : Word} {c c' : Csr} {a a' : ℕ}

theorem get_of_ne (h : r ≠ 0) : m.get r = m.x r := if_neg h

theorem get_set_self (h : r ≠ 0) : (m.set r v).get r = v := by
  rw [set, if_neg h, get, if_neg h]
  exact Function.update_self ..

theorem get_set_of_ne (h : r' ≠ r) : (m.set r v).get r' = m.get r' := by
  rw [set]
  split_ifs with hr
  · rfl
  · simp only [get, Function.update_of_ne h]

@[simp] theorem set_f : (m.set r v).f = m.f := by
  rw [set]
  split_ifs <;> rfl

@[simp] theorem set_csr : (m.set r v).csr = m.csr := by
  rw [set]
  split_ifs <;> rfl

@[simp] theorem set_mem : (m.set r v).mem = m.mem := by
  rw [set]
  split_ifs <;> rfl

@[simp] theorem load_set : (m.set r v).load a = m.load a := by
  rw [load, load, set_mem]

@[simp] theorem get_setF : (m.setF r v).get r' = m.get r' := rfl

@[simp] theorem setF_f : (m.setF r v).f = Function.update m.f r v := rfl

@[simp] theorem setF_csr : (m.setF r v).csr = m.csr := rfl

@[simp] theorem setF_mem : (m.setF r v).mem = m.mem := rfl

@[simp] theorem load_setF : (m.setF r v).load a = m.load a := rfl

@[simp] theorem get_setCsr : (m.setCsr c v).get r = m.get r := rfl

@[simp] theorem setCsr_f : (m.setCsr c v).f = m.f := rfl

@[simp] theorem setCsr_csr : (m.setCsr c v).csr = Function.update m.csr c v := rfl

@[simp] theorem setCsr_mem : (m.setCsr c v).mem = m.mem := rfl

@[simp] theorem load_setCsr : (m.setCsr c v).load a = m.load a := rfl

@[simp] theorem get_store : (m.store a v).get r = m.get r := rfl

@[simp] theorem store_f : (m.store a v).f = m.f := rfl

@[simp] theorem store_csr : (m.store a v).csr = m.csr := rfl

theorem store_mem_of_notMem {b : ℕ} (h : b < a ∨ a + 8 ≤ b) : (m.store a v).mem b = m.mem b :=
  ByteMem.store_of_notMem h

theorem load_store_self : (m.store a v).load a = v := by
  have hv : v.toNat < 256 ^ 8 := v.isLt
  rw [load, store, ByteMem.load_store hv, BitVec.ofNat_toNat, BitVec.setWidth_eq]

theorem load_store_of_disjoint (h : a' + 8 ≤ a ∨ a + 8 ≤ a') :
    (m.store a v).load a' = m.load a' := by
  rw [load, store, ByteMem.load_store_of_disjoint h, load]

theorem load_congr {m' : Machine} (h : ∀ b, a ≤ b → b < a + 8 → m.mem b = m'.mem b) :
    m.load a = m'.load a := by
  rw [load, load, ByteMem.load_congr h]

/-- An offset within the memory. -/
theorem addr_eq {off : ℕ} (h : (m.get r).toNat + off < 2 ^ 64) :
    m.addr r off = (m.get r).toNat + off := by
  rw [addr, BitVec.ofInt_natCast, BitVec.toNat_add, BitVec.toNat_ofNat, Nat.add_mod_mod,
    Nat.mod_eq_of_lt h]

end Machine

/-! ## Blocks of memory -/

/-- Two blocks of memory that do not overlap. -/
def BlocksApart (a n b k : ℕ) : Prop := a + n ≤ b ∨ b + k ≤ a

instance (a n b k : ℕ) : Decidable (BlocksApart a n b k) := inferInstanceAs (Decidable (_ ∨ _))

theorem BlocksApart.symm {a n b k : ℕ} (h : BlocksApart a n b k) : BlocksApart b k a n := Or.symm h

/-- The memory is the same outside a block. -/
def Within (a n : ℕ) (m m' : Machine) : Prop := ∀ x, x < a ∨ a + n ≤ x → m'.mem x = m.mem x

theorem Within.load {a n b : ℕ} {m m' : Machine} (h : Within a n m m')
    (hapart : BlocksApart b 8 a n) : m'.load b = m.load b :=
  Machine.load_congr fun x hl hr ↦ h x (by rw [BlocksApart] at hapart; omega)

/-! ## Instructions that do not branch -/

section

variable {block rest : List (Instr L)} {m : Machine} {i : Instr L} {b r : Reg}

@[simp] theorem execAll_nil : execAll m ([] : List (Instr L)) = m := rfl

@[simp] theorem execAll_cons : execAll m (i :: block) = execAll (i.exec m) block := rfl

theorem execAll_append : execAll m (block ++ rest) = execAll (execAll m block) rest :=
  List.foldl_append

theorem map_fst_steps : (steps block m).map Prod.fst = block := by
  induction block generalizing m with
  | nil => rfl
  | cons i block ih => rw [steps, List.map_cons, ih]

theorem runBlock_of_exit {e : Exit L} (h : i.exit? m = some e) :
    runBlock (i :: rest) m = ([(i, m)], e, m) := by
  rw [runBlock, h]

theorem runBlock_of_none (h : i.exit? m = none) :
    runBlock (i :: rest) m =
      ((i, m) :: (runBlock rest (i.exec m)).1, (runBlock rest (i.exec m)).2) := by
  rw [runBlock, h]

/-- **The instructions before a branch are executed one after another.** -/
theorem runBlock_append (h : ∀ i ∈ block, i.isPlain = true) :
    runBlock (block ++ rest) m = (steps block m ++ (runBlock rest (execAll m block)).1,
      (runBlock rest (execAll m block)).2) := by
  induction block generalizing m with
  | nil => rfl
  | cons i block ih =>
    have hi : i.exit? m = none := Instr.exit?_of_isPlain (h i (List.mem_cons_self ..))
    rw [List.cons_append, runBlock, hi, ih fun j hj ↦ h j (List.mem_cons_of_mem _ hj)]
    rfl

theorem Instr.get_exec (h : i.writes ≠ some r) : (i.exec m).get r = m.get r := by
  cases i <;> first
    | rfl
    | exact Machine.get_set_of_ne fun heq ↦ h (congrArg some heq.symm)

/-- A register that no instruction writes. -/
theorem get_execAll (h : ∀ i ∈ block, i.writes ≠ some r) : (execAll m block).get r = m.get r := by
  induction block generalizing m with
  | nil => rfl
  | cons i block ih =>
    rw [execAll_cons, ih fun j hj ↦ h j (List.mem_cons_of_mem _ hj),
      Instr.get_exec (h i (List.mem_cons_self ..))]

/-- It stays the same all along. -/
theorem get_of_mem_steps (h : ∀ i ∈ block, i.writes ≠ some r) :
    ∀ p ∈ steps block m, p.2.get r = m.get r := by
  induction block generalizing m with
  | nil => simp [steps]
  | cons i block ih =>
    intro p hp
    rw [steps, List.mem_cons] at hp
    obtain rfl | hp := hp
    · rfl
    · rw [ih (fun j hj ↦ h j (List.mem_cons_of_mem _ hj)) p hp,
        Instr.get_exec (h i (List.mem_cons_self ..))]

end

/-! ## Branches -/

section

variable {m m' m'' : Machine} {r : Reg} {l l' : L} {rest : List (Instr L)}

theorem exit?_bgtz (h : 0 < (m.get r).toInt) : (Instr.bgtz r l).exit? m = some (.jump l) :=
  if_pos h

theorem exit?_bgtz_of_not (h : ¬0 < (m.get r).toInt) : (Instr.bgtz r l).exit? m = none := if_neg h

theorem exit?_beqz (h : m.get r = 0) : (Instr.beqz r l).exit? m = some (.jump l) := if_pos h

theorem runBlock_beqz_of_ne (h : m.get r ≠ 0) : runBlock (.beqz r l :: rest) m =
    ((.beqz r l, m) :: (runBlock rest m).1, (runBlock rest m).2) :=
  runBlock_of_none (if_neg h)

theorem runBlock_bnez_of_eq (h : m.get r = 0) : runBlock (.bnez r l :: rest) m =
    ((.bnez r l, m) :: (runBlock rest m).1, (runBlock rest m).2) :=
  runBlock_of_none (if_neg (not_not.mpr h))

variable [DecidableEq L] {text : Text L} {n : ℕ} {log log' : Log L} {e : Exit L}

theorem run_of_jump (h : runBlock (text.codeFrom l) m = (log, .jump l', m'))
    (h' : run text n l' m' = some (log', e, m'')) :
    run text (n + 1) l m = some (log ++ log', e, m'') := by
  rw [run, h]
  dsimp only
  rw [h', Option.map_some]

theorem run_of_exit (h : runBlock (text.codeFrom l) m = (log, e, m')) (he : ∀ l, e ≠ .jump l) :
    run text (n + 1) l m = some (log, e, m') := by
  rw [run, h]
  cases e with
  | jump l => exact absurd rfl (he l)
  | _ => rfl

end

/-! ## Frames -/

/-- A register points to `n` doublewords from `base` on. -/
structure Machine.HasFrame (m : Machine) (b : Reg) (base n : ℕ) : Prop where
  toNat_get : (m.get b).toNat = base
  fits : base + 8 * n ≤ 2 ^ 64

section

variable {l : List (Reg × ℕ)} {m m' : Machine} {b r : Reg} {a k n base : ℕ}

theorem Machine.HasFrame.congr (h : m.HasFrame b base n) (hb : m'.get b = m.get b) :
    m'.HasFrame b base n :=
  ⟨(congrArg BitVec.toNat hb).trans h.toNat_get, h.fits⟩

/-- A slot of a frame, by its offset. -/
theorem Machine.HasFrame.addr_of_eq (h : m.HasFrame b base n) {off : ℤ} (k : ℕ) (hk : k < n)
    (hoff : off = 8 * k) : m.addr b off = base + 8 * k := by
  have hfits := h.fits
  rw [← h.toNat_get] at hfits ⊢
  have haddr := Machine.addr_eq (m := m) (by omega : (m.get b).toNat + 8 * k < 2 ^ 64)
  rwa [Nat.cast_mul, Nat.cast_ofNat, ← hoff] at haddr

theorem Machine.HasFrame.addr_slot (h : m.HasFrame b base n) (hk : k < n) :
    m.addr b (8 * k) = base + 8 * k := h.addr_of_eq k hk rfl

theorem execAll_saves_cons (p : Reg × ℕ) :
    execAll m (saves b (p :: l) : List (Instr L)) =
      execAll (m.store (m.addr b (8 * p.2)) (m.get p.1)) (saves b l : List (Instr L)) := rfl

theorem execAll_loads_cons (p : Reg × ℕ) :
    execAll m (loads b (p :: l) : List (Instr L)) =
      execAll (m.set p.1 (m.load (m.addr b (8 * p.2)))) (loads b l : List (Instr L)) := rfl

@[simp] theorem get_execAll_saves : (execAll m (saves b l : List (Instr L))).get r = m.get r := by
  induction l generalizing m with
  | nil => rfl
  | cons p l ih => rw [execAll_saves_cons, ih, Machine.get_store]

@[simp] theorem execAll_saves_f : (execAll m (saves b l : List (Instr L))).f = m.f := by
  induction l generalizing m with
  | nil => rfl
  | cons p l ih => rw [execAll_saves_cons, ih, Machine.store_f]

@[simp] theorem execAll_saves_csr : (execAll m (saves b l : List (Instr L))).csr = m.csr := by
  induction l generalizing m with
  | nil => rfl
  | cons p l ih => rw [execAll_saves_cons, ih, Machine.store_csr]

/-- Outside its frame the memory stays the same. -/
theorem execAll_saves_mem (hm : m.HasFrame b base n) (hl : ∀ p ∈ l, p.2 < n)
    (ha : a < base ∨ base + 8 * n ≤ a) :
    (execAll m (saves b l : List (Instr L))).mem a = m.mem a := by
  induction l generalizing m with
  | nil => rfl
  | cons p l ih =>
    have hp := hl p (List.mem_cons_self ..)
    rw [execAll_saves_cons, hm.addr_slot hp,
      ih (hm.congr Machine.get_store) fun q hq ↦ hl q (List.mem_cons_of_mem _ hq)]
    exact Machine.store_mem_of_notMem (by omega)

theorem load_execAll_saves_of_notMem (hm : m.HasFrame b base n) (hl : ∀ p ∈ l, p.2 < n)
    (hk : k ∉ l.map Prod.snd) :
    (execAll m (saves b l : List (Instr L))).load (base + 8 * k) = m.load (base + 8 * k) := by
  induction l generalizing m with
  | nil => rfl
  | cons p l ih =>
    rw [List.map_cons, List.mem_cons, not_or] at hk
    have hp := hl p (List.mem_cons_self ..)
    rw [execAll_saves_cons, hm.addr_slot hp,
      ih (hm.congr Machine.get_store) (fun q hq ↦ hl q (List.mem_cons_of_mem _ hq)) hk.2]
    exact Machine.load_store_of_disjoint (by omega)

/-- **A register is found in its slot.** -/
theorem load_execAll_saves (hm : m.HasFrame b base n) (hl : ∀ p ∈ l, p.2 < n)
    (hnodup : (l.map Prod.snd).Nodup) (h : (r, k) ∈ l) :
    (execAll m (saves b l : List (Instr L))).load (base + 8 * k) = m.get r := by
  induction l generalizing m with
  | nil => cases h
  | cons p l ih =>
    have hl' : ∀ q ∈ l, q.2 < n := fun q hq ↦ hl q (List.mem_cons_of_mem _ hq)
    rw [List.map_cons, List.nodup_cons] at hnodup
    rw [execAll_saves_cons, hm.addr_slot (hl p (List.mem_cons_self ..))]
    obtain rfl | h := List.mem_cons.mp h
    · rw [load_execAll_saves_of_notMem (hm.congr Machine.get_store) hl' hnodup.1,
        Machine.load_store_self]
    · rw [ih (hm.congr Machine.get_store) hl' hnodup.2 h, Machine.get_store]

@[simp] theorem execAll_loads_f : (execAll m (loads b l : List (Instr L))).f = m.f := by
  induction l generalizing m with
  | nil => rfl
  | cons p l ih => rw [execAll_loads_cons, ih, Machine.set_f]

@[simp] theorem execAll_loads_csr : (execAll m (loads b l : List (Instr L))).csr = m.csr := by
  induction l generalizing m with
  | nil => rfl
  | cons p l ih => rw [execAll_loads_cons, ih, Machine.set_csr]

@[simp] theorem execAll_loads_mem : (execAll m (loads b l : List (Instr L))).mem = m.mem := by
  induction l generalizing m with
  | nil => rfl
  | cons p l ih => rw [execAll_loads_cons, ih, Machine.set_mem]

theorem get_execAll_loads_of_notMem (hr : r ∉ l.map Prod.fst) :
    (execAll m (loads b l : List (Instr L))).get r = m.get r := by
  induction l generalizing m with
  | nil => rfl
  | cons p l ih =>
    rw [List.map_cons, List.mem_cons, not_or] at hr
    rw [execAll_loads_cons, ih hr.2, Machine.get_set_of_ne hr.1]

/-- **A register gets what is in its slot.** -/
theorem get_execAll_loads (hm : m.HasFrame b base n) (hl : ∀ p ∈ l, p.2 < n)
    (hnodup : (l.map Prod.fst).Nodup) (hb : b ∉ l.map Prod.fst) (h : (r, k) ∈ l) (hr : r ≠ 0) :
    (execAll m (loads b l : List (Instr L))).get r = m.load (base + 8 * k) := by
  induction l generalizing m with
  | nil => cases h
  | cons p l ih =>
    rw [List.map_cons, List.nodup_cons] at hnodup
    rw [List.map_cons, List.mem_cons, not_or] at hb
    rw [execAll_loads_cons, hm.addr_slot (hl p (List.mem_cons_self ..))]
    obtain rfl | h := List.mem_cons.mp h
    · rw [get_execAll_loads_of_notMem hnodup.1, Machine.get_set_self hr]
    · rw [ih (hm.congr (Machine.get_set_of_ne hb.1)) (fun q hq ↦ hl q (List.mem_cons_of_mem _ hq))
        hnodup.2 hb.2 h, Machine.load_set]

end

end Riscv
