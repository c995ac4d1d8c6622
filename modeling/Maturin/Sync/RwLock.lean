import Maturin.Sync.Interrupt
import Mathlib.Data.Fintype.Basic
import Mathlib.Data.List.Count

/-!
# The readers-writer lock

`RwLock` of the crate `lock`. One word counts the readers from its third bit on; the two bits below
say that there is a guard that may be upgraded, and that there is a writer. A reader is counted
before it has looked whether it may come in, and takes itself back if it may not.

## What may happen

A `push_off` is of no concern to the other CPUs, so that a call is one event up to its first access
to the word; `access` is what comes after it. The functions `read`, `write`, `upgradeable_read` and
`upgrade` are those that try, once more each time. What an event asks for where it may not happen is
not done.
-/

namespace Maturin.KernelSync

variable {κ ι α : Type}

/-- What a guard allows. -/
inductive RwKind
  | read
  | upgradable
  | write
  deriving DecidableEq

/-- `RwLockReadGuard`, `RwLockUpgradableGuard` and `RwLockWriteGuard`. -/
structure RwGuard (ι : Type) where
  lock : ι
  kind : RwKind
  deriving DecidableEq

/-- `RwLock`. -/
structure RwLock (α : Type) where
  lock : ℕ
  data : α

/-- `RwLock::new`. -/
def RwLock.new (data : α) : RwLock α := ⟨0, data⟩

/-! ## The word -/

/-- `READER`, `UPGRADED`, `WRITER`. -/
abbrev READER : ℕ := 1 <<< 2
abbrev UPGRADED : ℕ := 1 <<< 1
abbrev WRITER : ℕ := 1

/-- `fetch_add` and `fetch_sub` wrap. -/
def wordAdd (word k : ℕ) : ℕ := (word + k) % 2 ^ 64
def wordSub (word k : ℕ) : ℕ := (word + (2 ^ 64 - k)) % 2 ^ 64

/-- Is there a writer, or a guard that may be upgraded? -/
def taken (word : ℕ) : Bool := word &&& (WRITER ||| UPGRADED) ≠ 0

/-- The word after the `drop` of a guard. -/
def RwKind.released (word : ℕ) : RwKind → ℕ
  | .read => wordSub word READER
  | .upgradable => wordSub word UPGRADED
  | .write => word &&& (2 ^ 64 - 1 - (WRITER ||| UPGRADED))

/-- What a `drop` asserts of the word in a debug build. -/
def RwKind.Asserted (word : ℕ) : RwKind → Prop
  | .read => 0 < word &&& (2 ^ 64 - 1 - (WRITER ||| UPGRADED))
  | .upgradable => word &&& (WRITER ||| UPGRADED) = UPGRADED
  | .write => word &&& WRITER = WRITER

/-- A number of readers, and the two bits. -/
def packed (readers upgraded writers : ℕ) : ℕ := 4 * readers + 2 * upgraded + writers

variable {r u w : ℕ}

theorem and_packed (hu : u ≤ 1) (hw : w ≤ 1) : packed r u w &&& 3 = 2 * u + w := by
  have hmod : packed r u w &&& 3 = packed r u w % 4 := Nat.and_two_pow_sub_one_eq_mod _ 2
  rw [hmod, packed]
  omega

theorem taken_packed (hu : u ≤ 1) (hw : w ≤ 1) : taken (packed r u w) = decide (u + w ≠ 0) := by
  have hand : packed r u w &&& (WRITER ||| UPGRADED) = 2 * u + w := and_packed hu hw
  rw [taken, hand]
  exact decide_eq_decide.mpr (by omega)

theorem or_packed (hu : u ≤ 1) (hw : w ≤ 1) : packed r u w ||| UPGRADED = packed r 1 w := by
  have hdiv : (packed r u w ||| 2) / 2 ^ 2 = r := by
    rw [Nat.or_div_two_pow, show 2 / 2 ^ 2 = 0 from rfl, Nat.or_zero, packed]
    omega
  have hmod : (packed r u w ||| 2) % 2 ^ 2 = 2 + w := by
    rw [Nat.or_mod_two_pow, show packed r u w % 2 ^ 2 = 2 * u + w by rw [packed]; omega]
    obtain rfl | rfl := Nat.le_one_iff_eq_zero_or_eq_one.mp hu <;>
      obtain rfl | rfl := Nat.le_one_iff_eq_zero_or_eq_one.mp hw <;> rfl
  have hall := Nat.div_add_mod (packed r u w ||| 2) (2 ^ 2)
  rw [hdiv, hmod] at hall
  rw [show UPGRADED = 2 from rfl, ← hall, packed]
  omega

theorem clear_packed (hlt : packed r u w < 2 ^ 64) (hu : u ≤ 1) (hw : w ≤ 1) :
    packed r u w &&& (2 ^ 64 - 1 - (WRITER ||| UPGRADED)) = packed r 0 0 := by
  have hmask : 2 ^ 64 - 1 - (WRITER ||| UPGRADED) = 2 ^ 64 - 4 := rfl
  have hdiv : (packed r u w &&& (2 ^ 64 - 4)) / 2 ^ 2 = r := by
    rw [Nat.and_div_two_pow, show (2 ^ 64 - 4) / 2 ^ 2 = 2 ^ 62 - 1 from rfl,
      Nat.and_two_pow_sub_one_eq_mod]
    rw [packed] at hlt ⊢
    omega
  have hmod : (packed r u w &&& (2 ^ 64 - 4)) % 2 ^ 2 = 0 := by
    rw [Nat.and_mod_two_pow, show (2 ^ 64 - 4) % 2 ^ 2 = 0 from rfl, Nat.and_zero]
  have hall := Nat.div_add_mod (packed r u w &&& (2 ^ 64 - 4)) (2 ^ 2)
  rw [hdiv, hmod] at hall
  rw [hmask, ← hall, packed]
  omega

theorem wordAdd_packed (hlt : packed (r + 1) u w < 2 ^ 64) :
    wordAdd (packed r u w) READER = packed (r + 1) u w := by
  have hadd : packed r u w + READER = packed (r + 1) u w := by
    simp only [packed, READER]
    omega
  rw [wordAdd, hadd, Nat.mod_eq_of_lt hlt]

theorem wordSub_packed (hlt : packed (r + 1) u w < 2 ^ 64) :
    wordSub (packed (r + 1) u w) READER = packed r u w := by
  rw [wordSub, show READER = 4 from rfl]
  rw [packed] at hlt ⊢
  rw [packed]
  omega

theorem wordSub_upgraded (hlt : packed r 1 w < 2 ^ 64) :
    wordSub (packed r 1 w) UPGRADED = packed r 0 w := by
  rw [wordSub, show UPGRADED = 2 from rfl]
  rw [packed] at hlt ⊢
  rw [packed]
  omega

theorem packed_eq_zero : packed r u w = 0 ↔ r = 0 ∧ u = 0 ∧ w = 0 := by
  rw [packed]
  omega

/-! ## What the word holds -/

/-- What the word of a lock says after at most `n` events: there are so many guards of each kind,
and so many readers that go back or that are to have a guard. The bit for an upgrade may stay behind
a failed `try_upgradeable_read` until the writer is gone. -/
structure Holds (word reads ghosts ups writes n : ℕ) : Prop where
  word_eq : ∃ u ≤ 1, word = packed (reads + ghosts) u writes ∧ (writes = 0 → u = ups)
  one_le : writes + ups ≤ 1
  alone : writes = 1 → reads = 0
  readers_le : reads + ghosts ≤ n

namespace Holds

variable {word reads ghosts ups writes n : ℕ}

theorem lt_packed (h : Holds word reads ghosts ups writes n) (hn : n + 1 < 2 ^ 62) (hu : u ≤ 1) :
    packed (reads + ghosts + 1) u writes < 2 ^ 64 := by
  have hle := h.readers_le
  have hone := h.one_le
  rw [packed]
  omega

theorem mono (h : Holds word reads ghosts ups writes n) :
    Holds word reads ghosts ups writes (n + 1) :=
  { h with readers_le := h.readers_le.trans n.le_succ }

theorem taken_eq (h : Holds word reads ghosts ups writes n) :
    taken word = decide (ups + writes ≠ 0) := by
  obtain ⟨u, hu, rfl, hups⟩ := h.word_eq
  have hone := h.one_le
  rw [taken_packed hu (by omega)]
  exact decide_eq_decide.mpr (by omega)

/-- A reader comes in. -/
theorem read (h : Holds word reads ghosts ups writes n) (hn : n + 1 < 2 ^ 62)
    (hfree : taken word = false) :
    Holds (wordAdd word READER) (reads + 1) ghosts ups writes (n + 1) := by
  have hnone := of_decide_eq_false (h.taken_eq.symm.trans hfree)
  have hle := h.readers_le
  obtain ⟨u, hu, rfl, hups⟩ := h.word_eq
  refine ⟨⟨u, hu, ?_, hups⟩, h.one_le, by omega, by omega⟩
  rw [wordAdd_packed (h.lt_packed hn hu), Nat.add_right_comm]

/-- A reader is counted that does not come in, or not yet. -/
theorem count (h : Holds word reads ghosts ups writes n) (hn : n + 1 < 2 ^ 62) :
    Holds (wordAdd word READER) reads (ghosts + 1) ups writes (n + 1) := by
  have hle := h.readers_le
  obtain ⟨u, hu, rfl, hups⟩ := h.word_eq
  refine ⟨⟨u, hu, ?_, hups⟩, h.one_le, h.alone, by omega⟩
  rw [wordAdd_packed (h.lt_packed hn hu), Nat.add_assoc]

/-- A reader goes back. -/
theorem undo (h : Holds word reads (ghosts + 1) ups writes n) (hn : n + 1 < 2 ^ 62) :
    Holds (wordSub word READER) reads ghosts ups writes (n + 1) := by
  have hle := h.readers_le
  have hone := h.one_le
  obtain ⟨u, hu, rfl, hups⟩ := h.word_eq
  have hlt : packed (reads + ghosts + 1) u writes < 2 ^ 64 := by
    rw [packed]
    omega
  exact ⟨⟨u, hu, wordSub_packed hlt, hups⟩, hone, h.alone, by omega⟩

theorem dropRead (h : Holds word (reads + 1) ghosts ups writes n) (hn : n + 1 < 2 ^ 62) :
    Holds (RwKind.released word .read) reads ghosts ups writes (n + 1) := by
  have hle := h.readers_le
  have hone := h.one_le
  have halone := h.alone
  obtain ⟨u, hu, rfl, hups⟩ := h.word_eq
  refine ⟨⟨u, hu, ?_, hups⟩, hone, by omega, by omega⟩
  rw [RwKind.released, Nat.add_right_comm]
  refine wordSub_packed ?_
  rw [packed]
  omega

/-- While there is no writer, a reader that is counted may come in. -/
theorem settle (h : Holds word reads (ghosts + 1) ups 0 n) :
    Holds word (reads + 1) ghosts ups 0 n := by
  have hle := h.readers_le
  obtain ⟨u, hu, rfl, hups⟩ := h.word_eq
  exact ⟨⟨u, hu, by rw [Nat.add_right_comm, Nat.add_assoc], hups⟩, h.one_le, nofun, by omega⟩

theorem write (h : Holds 0 reads ghosts ups writes n) :
    Holds WRITER reads ghosts ups (writes + 1) (n + 1) := by
  obtain ⟨u, hu, hzero, hups⟩ := h.word_eq
  obtain ⟨hreaders, rfl, rfl⟩ := packed_eq_zero.mp hzero.symm
  refine ⟨⟨0, Nat.zero_le 1, ?_, nofun⟩, by omega, by omega, by omega⟩
  rw [hreaders]
  rfl

theorem dropWrite (h : Holds word reads ghosts ups (writes + 1) n) (hn : n + 1 < 2 ^ 62) :
    Holds (RwKind.released word .write) reads ghosts ups writes (n + 1) := by
  have hle := h.readers_le
  have hone := h.one_le
  obtain ⟨u, hu, rfl, -⟩ := h.word_eq
  obtain ⟨rfl, rfl⟩ : writes = 0 ∧ ups = 0 := by omega
  refine ⟨⟨0, Nat.zero_le 1, ?_, fun _ ↦ rfl⟩, Nat.zero_le 1, nofun, by omega⟩
  refine clear_packed ?_ hu (Nat.le_refl 1)
  rw [packed]
  omega

/-- A guard that may be upgraded is given, or the bit is set in vain. -/
theorem upgradeable (h : Holds word reads ghosts ups writes n) (hfree : taken word = false) :
    Holds (word ||| UPGRADED) reads ghosts (ups + 1) writes (n + 1) := by
  have hnone := of_decide_eq_false (h.taken_eq.symm.trans hfree)
  have hle := h.readers_le
  obtain ⟨u, hu, rfl, hups⟩ := h.word_eq
  refine ⟨⟨1, Nat.le_refl 1, or_packed hu (by omega), by omega⟩, by omega, h.alone, by omega⟩

theorem setUpgraded (h : Holds word reads ghosts ups writes n) (htaken : taken word = true) :
    Holds (word ||| UPGRADED) reads ghosts ups writes (n + 1) := by
  have hsome := of_decide_eq_true (h.taken_eq.symm.trans htaken)
  have hle := h.readers_le
  have hone := h.one_le
  obtain ⟨u, hu, rfl, hups⟩ := h.word_eq
  exact ⟨⟨1, Nat.le_refl 1, or_packed hu (by omega), by omega⟩, hone, h.alone, by omega⟩

theorem dropUpgradable (h : Holds word reads ghosts (ups + 1) writes n) (hn : n + 1 < 2 ^ 62) :
    Holds (RwKind.released word .upgradable) reads ghosts ups writes (n + 1) := by
  have hle := h.readers_le
  have hone := h.one_le
  obtain ⟨u, hu, rfl, hups⟩ := h.word_eq
  obtain ⟨rfl, rfl⟩ : writes = 0 ∧ ups = 0 := by omega
  obtain rfl := hups rfl
  refine ⟨⟨0, Nat.zero_le 1, ?_, fun _ ↦ rfl⟩, Nat.zero_le 1, nofun, by omega⟩
  refine wordSub_upgraded ?_
  rw [packed]
  omega

theorem upgrade (h : Holds UPGRADED reads ghosts (ups + 1) writes n) :
    Holds WRITER reads ghosts ups (writes + 1) (n + 1) := by
  have hone := h.one_le
  obtain ⟨u, hu, hword, hups⟩ := h.word_eq
  rw [show UPGRADED = 2 from rfl, packed] at hword
  refine ⟨⟨0, Nat.zero_le 1, ?_, nofun⟩, by omega, by omega, by omega⟩
  rw [show WRITER = 1 from rfl, packed]
  omega

/-- The word that `downgrade_to_upgradeable` stores is right while no reader goes back. -/
theorem downgrade (h : Holds word reads 0 ups (writes + 1) n) :
    Holds UPGRADED reads 0 (ups + 1) writes (n + 1) := by
  have hone := h.one_le
  have halone := h.alone
  obtain ⟨rfl, rfl⟩ : writes = 0 ∧ ups = 0 := by omega
  obtain rfl := halone rfl
  exact ⟨⟨1, Nat.le_refl 1, rfl, fun _ ↦ rfl⟩, Nat.le_refl 1, nofun, Nat.zero_le _⟩

/-- When nobody is at the lock, its word is zero. -/
theorem eq_zero (h : Holds word 0 0 0 0 n) : word = 0 := by
  obtain ⟨u, -, rfl, hups⟩ := h.word_eq
  obtain rfl := hups rfl
  rfl

/-- The assertions of the `drop`s -/
theorem asserted_read (h : Holds word reads ghosts ups writes n) (hn : n < 2 ^ 62)
    (hpos : 0 < reads) : RwKind.Asserted word .read := by
  have hle := h.readers_le
  have hone := h.one_le
  obtain ⟨u, hu, rfl, -⟩ := h.word_eq
  have hlt : packed (reads + ghosts) u writes < 2 ^ 64 := by
    rw [packed]
    omega
  rw [RwKind.Asserted, clear_packed hlt hu (by omega), packed]
  omega

theorem asserted_upgradable (h : Holds word reads ghosts ups writes n) (hpos : 0 < ups) :
    RwKind.Asserted word .upgradable := by
  have hone := h.one_le
  obtain ⟨u, hu, rfl, hups⟩ := h.word_eq
  obtain ⟨rfl, rfl⟩ : writes = 0 ∧ ups = 1 := by omega
  obtain rfl := hups rfl
  exact and_packed hu (Nat.zero_le 1)

theorem asserted_write (h : Holds word reads ghosts ups writes n) (hpos : 0 < writes) :
    RwKind.Asserted word .write := by
  have hone := h.one_le
  obtain ⟨u, -, rfl, -⟩ := h.word_eq
  have hmod : packed (reads + ghosts) u writes &&& 1 = packed (reads + ghosts) u writes % 2 :=
    Nat.and_two_pow_sub_one_eq_mod _ 1
  rw [RwKind.Asserted, show WRITER = 1 from rfl, hmod, packed]
  omega

end Holds

/-! ## The system -/

/-- Where a CPU is: in none of the functions, or before an access. -/
inductive RwPc (ι : Type)
  | out
  /-- `try_read` that found the lock taken, before `fetch_sub` -/
  | undo (l : ι)
  /-- `downgrade`, before the word is changed in the `drop` of the guard -/
  | release (g : RwGuard ι)
  /-- before a `pop_off` -/
  | leaving
  deriving DecidableEq

/-- A CPU: its interrupts, the guards that it has, and where it is. -/
structure RwCore (ι : Type) where
  hart : Hart
  guards : List (RwGuard ι)
  pc : RwPc ι

/-- The locks and the CPUs. -/
structure RwSys (κ ι α : Type) where
  rwlock : ι → RwLock α
  core : κ → RwCore ι

inductive RwEvent (κ ι α : Type)
  | tryRead (c : κ) (l : ι)
  /-- `weak` makes a `compare_exchange_weak` fail as it may at any time -/
  | tryWrite (c : κ) (l : ι) (strong weak : Bool)
  | tryUpgradeableRead (c : κ) (l : ι)
  | tryUpgrade (c : κ) (l : ι) (strong weak : Bool)
  | downgrade (c : κ) (g : RwGuard ι)
  | downgradeToUpgradeable (c : κ) (l : ι)
  /-- a change through `deref_mut` -/
  | update (c : κ) (l : ι) (f : α → α)
  | drop (c : κ) (g : RwGuard ι)
  | setSie (c : κ) (sie : Bool)
  | access (c : κ)

/-- The CPU of an event. -/
def RwEvent.cpu : RwEvent κ ι α → κ
  | .tryRead c _ | .tryWrite c _ _ _ | .tryUpgradeableRead c _ | .tryUpgrade c _ _ _
  | .downgrade c _ | .downgradeToUpgradeable c _ | .update c _ _ | .drop c _ | .setSie c _
  | .access c => c

namespace RwSys

/-- Fresh locks and CPUs -/
def new (data : ι → α) (sie : κ → Bool) : RwSys κ ι α where
  rwlock l := .new (data l)
  core c := ⟨.fresh (sie c), [], .out⟩

variable [DecidableEq κ] [DecidableEq ι]

def setCore (s : RwSys κ ι α) (c : κ) (core : RwCore ι) : RwSys κ ι α :=
  { s with core := Function.update s.core c core }

def setWord (s : RwSys κ ι α) (l : ι) (word : ℕ) : RwSys κ ι α :=
  { s with rwlock := Function.update s.rwlock l { s.rwlock l with lock := word } }

/-- The word of a lock -/
def word (s : RwSys κ ι α) (l : ι) : ℕ := (s.rwlock l).lock

/-- The next access of a CPU; `none` is a panic. -/
def access (s : RwSys κ ι α) (c : κ) : Option (RwSys κ ι α) :=
  let core := s.core c
  match core.pc with
  | .out => some s
  | .undo l =>
    some ((s.setWord l (wordSub (s.word l) READER)).setCore c { core with pc := .leaving })
  | .release g =>
    some ((s.setWord g.lock (g.kind.released (s.word g.lock))).setCore c
      { core with guards := ⟨g.lock, .read⟩ :: core.guards.erase g, pc := .leaving })
  | .leaving => core.hart.popOff.map fun hart ↦ s.setCore c { core with hart, pc := .out }

/-- An event; `none` is a panic. -/
def step (s : RwSys κ ι α) : RwEvent κ ι α → Option (RwSys κ ι α)
  | .tryRead c l =>
    let core := s.core c
    some (if core.pc = .out then
      (s.setWord l (wordAdd (s.word l) READER)).setCore c
        (if taken (s.word l) then { core with hart := core.hart.pushOff, pc := .undo l }
        else { core with hart := core.hart.pushOff, guards := ⟨l, .read⟩ :: core.guards })
    else s)
  | .tryWrite c l strong weak =>
    let core := s.core c
    some (if core.pc = .out then
      if s.word l = 0 ∧ (strong = true ∨ weak = false) then
        (s.setWord l WRITER).setCore c
          { core with hart := core.hart.pushOff, guards := ⟨l, .write⟩ :: core.guards }
      else s.setCore c { core with hart := core.hart.pushOff, pc := .leaving }
    else s)
  | .tryUpgradeableRead c l =>
    let core := s.core c
    some (if core.pc = .out then
      (s.setWord l (s.word l ||| UPGRADED)).setCore c
        (if taken (s.word l) then { core with hart := core.hart.pushOff, pc := .leaving }
        else { core with hart := core.hart.pushOff, guards := ⟨l, .upgradable⟩ :: core.guards })
    else s)
  | .tryUpgrade c l strong weak =>
    let core := s.core c
    some (if core.pc = .out ∧ ⟨l, .upgradable⟩ ∈ core.guards ∧ s.word l = UPGRADED ∧
        (strong = true ∨ weak = false) then
      (s.setWord l WRITER).setCore c
        { core with guards := ⟨l, .write⟩ :: core.guards.erase ⟨l, .upgradable⟩ }
    else s)
  | .downgrade c g =>
    let core := s.core c
    some (if core.pc = .out ∧ g ∈ core.guards ∧ g.kind ≠ .read then
      (s.setWord g.lock (wordAdd (s.word g.lock) READER)).setCore c { core with pc := .release g }
    else s)
  | .downgradeToUpgradeable c l =>
    let core := s.core c
    some (if core.pc = .out ∧ ⟨l, .write⟩ ∈ core.guards then
      (s.setWord l UPGRADED).setCore c
        { core with guards := ⟨l, .upgradable⟩ :: core.guards.erase ⟨l, .write⟩ }
    else s)
  | .update c l f =>
    some (if (s.core c).pc = .out ∧ ⟨l, .write⟩ ∈ (s.core c).guards then
      let lock := s.rwlock l
      { s with rwlock := Function.update s.rwlock l { lock with data := f lock.data } }
    else s)
  | .drop c g =>
    let core := s.core c
    some (if core.pc = .out ∧ g ∈ core.guards then
      (s.setWord g.lock (g.kind.released (s.word g.lock))).setCore c
        { core with guards := core.guards.erase g, pc := .leaving }
    else s)
  | .setSie c sie =>
    let core := s.core c
    some (if core.pc = .out ∧ core.guards = [] then
      s.setCore c { core with hart := { core.hart with sie } }
    else s)
  | .access c => s.access c

/-- The state after events, if none of them panics. -/
def run (s : RwSys κ ι α) (events : List (RwEvent κ ι α)) : Option (RwSys κ ι α) :=
  events.foldlM step s

end RwSys

end Maturin.KernelSync
