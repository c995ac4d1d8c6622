import Maturin.Base.Time
import Maturin.File.FdManager
import Maturin.Poll.Bitset
import Mathlib.Algebra.BigOperators.Group.Finset.Basic
import Mathlib.Algebra.Order.BigOperators.Group.Finset
import Mathlib.Data.Fintype.Basic

/-!
# Waiting for descriptors

`sys_pselect6` of `modules/select` reads three arrays of bits, one for each condition, clears them,
and scans the files of the requested descriptors until one is ready; for every ready one it sets the
bit again and counts. The files answer anew in each scan.

The descriptors of an array are those whose bit is set in its first word, since `ShadowBitset` looks
at no other. Below 64 this is right.
-/

open Exec

namespace Maturin

/-- What a descriptor is waited for, one array each. -/
inductive PollFor
  | read
  | write
  | except
  deriving DecidableEq

instance : Fintype PollFor where
  elems := {.read, .write, .except}
  complete k := by cases k <;> decide

/-- What the files answer in a scan, and the clock after it, when the task runs again. -/
structure Scan (Γ : Type) where
  ready : PollFor → ℕ → Γ → Bool
  now : ℕ

variable {Γ : Type}

/-- `get_file` for a requested descriptor -/
def openFd (getFile : ℕ → Option Γ) (fd : ℕ) : EStateM ErrorNo ByteMem (ℕ × Γ) :=
  match getFile fd with
  | some file => pure (fd, file)
  | none => throw .EBADF

/-- `init_fd_sets`. `isUser` says of a range whether `manually_alloc_range` accepts it. -/
def initFdSets (getFile : ℕ → Option Γ) (isUser : ℕ → ℕ → Bool) (addr len : ℕ) :
    EStateM ErrorNo ByteMem (List (ℕ × Γ) × ShadowBitset) := do
  let shadowBitset := ShadowBitset.fromAddr addr len
  if addr = 0 then pure ([], shadowBitset)
  else if !isUser addr (addr + ((len + 63) &&& 63)) then throw .EFAULT
  else
    let mem ← get
    let fds ← ((List.range len).filter (shadowBitset.check · mem)).mapM (openFd getFile)
    modify shadowBitset.clear
    pure (fds, shadowBitset)

/-- The scan of one array, which adds the ready descriptors to the count. -/
def scanSet (fds : List (ℕ × Γ)) (bitset : ShadowBitset) (ready : ℕ → Γ → Bool) (set : ℕ) :
    EStateM ErrorNo ByteMem ℕ :=
  if bitset.isValid then
    fds.foldlM (fun set p ↦
      if ready p.1 p.2 then do
        modify (bitset.set p.1)
        pure (set + 1)
      else pure set) set
  else pure set

/-- The loop of `sys_pselect6`, with the number of the scan that ended it; `none` if no scan does
within the fuel. -/
def pselectLoop (r w e : List (ℕ × Γ) × ShadowBitset) (expireTime : ℕ) (scans : ℕ → Scan Γ) :
    ℕ → ℕ → EStateM ErrorNo ByteMem (Option (ℕ × ℕ))
  | 0, _ => pure none
  | fuel + 1, i => do
    let ready := (scans i).ready
    let set ← scanSet r.1 r.2 (ready .read) 0
    let set ← scanSet w.1 w.2 (ready .write) set
    let set ← scanSet e.1 e.2 (ready .except) set
    if 0 < set then pure (some (set, i))
    else if expireTime < (scans i).now then pure (some (0, i))
    else pselectLoop r w e expireTime scans fuel (i + 1)

/-- `sys_pselect6`, called when the clock shows `now`. -/
def sysPselect6 (getFile : ℕ → Option Γ) (isUser : ℕ → ℕ → Bool) (nfds : ℕ)
    (addr : PollFor → ℕ) (timeout now : ℕ) (scans : ℕ → Scan Γ) (fuel : ℕ) :
    EStateM ErrorNo ByteMem (Option (ℕ × ℕ)) := do
  if FD_LIMIT_HARD ≤ nfds then throw .EINVAL
  else
    let r ← initFdSets getFile isUser (addr .read) nfds
    let w ← initFdSets getFile isUser (addr .write) nfds
    let e ← initFdSets getFile isUser (addr .except) nfds
    if timeout = 0 then pselectLoop r w e (2 ^ 64 - 1) scans fuel 0
    else if !isUser timeout (timeout + 15) then throw .EFAULT
    else
      let mem ← get
      let spec : TimeSpec := ⟨mem.load 8 timeout, mem.load 8 (timeout + 8)⟩
      pselectLoop r w e (wadd now spec.getTicks) scans fuel 0

/-! ## Reading the arrays -/

variable {getFile : ℕ → Option Γ} {isUser : ℕ → ℕ → Bool} {mem : ByteMem} {l : List ℕ}
  {fds : List (ℕ × Γ)} {bitset : ShadowBitset}

theorem wp_mapM_openFd :
    wp (l.mapM (openFd getFile)) (fun fds mem' ↦ mem' = mem ∧ fds.map Prod.fst = l ∧
      ∀ p ∈ fds, getFile p.1 = some p.2) anyPanic mem := by
  induction l with
  | nil => exact ⟨rfl, rfl, fun p hp ↦ absurd hp List.not_mem_nil⟩
  | cons fd l ih =>
    rw [List.mapM_cons, wp_bind, openFd]
    cases hfile : getFile fd with
    | none => trivial
    | some file =>
      dsimp only
      rw [wp_pure, wp_bind]
      refine wp_imp ih fun fds mem' hfds ↦ ?_
      obtain ⟨rfl, hmap, hall⟩ := hfds
      rw [wp_pure]
      refine ⟨rfl, by rw [List.map_cons, hmap], fun p hp ↦ ?_⟩
      rcases List.mem_cons.mp hp with rfl | hp
      · exact hfile
      · exact hall p hp

/-- What `init_fd_sets` makes of the array at `addr`: the descriptors whose bit in the first word is
set, with their files. -/
structure Requests (getFile : ℕ → Option Γ) (mem : ByteMem) (addr len : ℕ)
    (r : List (ℕ × Γ) × ShadowBitset) : Prop where
  bitset_eq : r.2 = .fromAddr addr len
  fds_eq : r.1.map Prod.fst =
    if addr = 0 then [] else (List.range len).filter fun fd ↦ userBit mem addr (fd % 64)
  getFile_eq : ∀ p ∈ r.1, getFile p.1 = some p.2

theorem wp_initFdSets {addr len : ℕ} (hlen : len < FD_LIMIT_HARD) :
    wp (initFdSets getFile isUser addr len) (fun r mem' ↦ Requests getFile mem addr len r ∧
      mem' = if addr = 0 then mem else
        (ShadowBitset.fromAddr addr len).clear mem) anyPanic mem := by
  rw [initFdSets]
  by_cases haddr : addr = 0
  · rw [if_pos haddr, if_pos haddr, wp_pure]
    exact ⟨⟨rfl, by rw [if_pos haddr]; rfl, fun p hp ↦ absurd hp List.not_mem_nil⟩, rfl⟩
  · rw [if_neg haddr, if_neg haddr]
    split_ifs
    · trivial
    · rw [wp_bind, wp_get, wp_bind]
      refine wp_imp wp_mapM_openFd fun fds mem' hfds ↦ ?_
      obtain ⟨rfl, hmap, hall⟩ := hfds
      rw [wp_bind, wp_modify, wp_pure]
      refine ⟨⟨rfl, ?_, hall⟩, rfl⟩
      rw [hmap, if_neg haddr]
      refine List.filter_congr fun fd hfd ↦ ?_
      rw [List.mem_range] at hfd
      exact ShadowBitset.check_eq_userBit (hfd.trans hlen)

/-! ## A scan -/

/-- The requested descriptors that are ready. -/
def readyFds (ready : ℕ → Γ → Bool) (r : List (ℕ × Γ) × ShadowBitset) : List ℕ :=
  if r.2.isValid then (r.1.filter fun p ↦ ready p.1 p.2).map Prod.fst else []

/-- The memory with the bits of the descriptors set. -/
def ShadowBitset.setAll (bitset : ShadowBitset) (fds : List ℕ) (mem : ByteMem) : ByteMem :=
  fds.foldl (fun mem fd ↦ bitset.set fd mem) mem

theorem wp_scanSet {ready : ℕ → Γ → Bool} {set : ℕ} {r : List (ℕ × Γ) × ShadowBitset} :
    wp (scanSet r.1 r.2 ready set) (fun set' mem' ↦ set' = set + (readyFds ready r).length ∧
      mem' = r.2.setAll (readyFds ready r) mem) noPanic mem := by
  obtain ⟨fds, bitset⟩ := r
  rw [scanSet, readyFds]
  dsimp only
  by_cases hvalid : bitset.isValid = true
  · rw [if_pos hvalid, if_pos hvalid]
    induction fds generalizing set mem with
    | nil => exact ⟨rfl, rfl⟩
    | cons p fds ih =>
      rw [List.foldlM_cons, wp_bind]
      by_cases hready : ready p.1 p.2 = true
      · rw [if_pos hready, wp_bind, wp_modify, wp_pure, List.filter_cons, if_pos hready]
        refine wp_imp ih fun set' mem' h ↦ ?_
        obtain ⟨rfl, rfl⟩ := h
        refine ⟨?_, rfl⟩
        rw [List.map_cons, List.length_cons, Nat.add_assoc, Nat.add_comm 1]
      · rw [if_neg hready, wp_pure, List.filter_cons, if_neg hready]
        exact ih
  · rw [if_neg hvalid, if_neg hvalid]
    exact ⟨rfl, rfl⟩

/-- The three arrays with what was requested in them. -/
abbrev Sets (Γ : Type) : Type := PollFor → List (ℕ × Γ) × ShadowBitset

/-- The number of ready descriptors that a scan finds. -/
def found (sets : Sets Γ) (scan : Scan Γ) : ℕ := ∑ k, (readyFds (scan.ready k) (sets k)).length

/-- The memory after a scan. -/
def setFound (sets : Sets Γ) (scan : Scan Γ) (mem : ByteMem) : ByteMem :=
  [PollFor.read, .write, .except].foldl
    (fun mem k ↦ (sets k).2.setAll (readyFds (scan.ready k) (sets k)) mem) mem

variable {sets : Sets Γ} {scans : ℕ → Scan Γ} {scan : Scan Γ}

theorem found_eq : found sets scan = (readyFds (scan.ready .read) (sets .read)).length +
    (readyFds (scan.ready .write) (sets .write)).length +
    (readyFds (scan.ready .except) (sets .except)).length := by
  rw [found, Nat.add_assoc]
  rfl

/-- A scan that finds nothing leaves the memory alone. -/
theorem setFound_of_found_eq_zero (h : found sets scan = 0) : setFound sets scan mem = mem := by
  have hnil : ∀ k, readyFds (scan.ready k) (sets k) = [] := fun k ↦
    List.length_eq_zero_iff.mp (Finset.sum_eq_zero_iff.mp h k (Finset.mem_univ k))
  rw [setFound, List.foldl_cons, List.foldl_cons, List.foldl_cons, hnil, hnil, hnil]
  rfl

/-- The loop ends with a count after the first scan that finds something. -/
theorem wp_pselectLoop {expireTime fuel i : ℕ} :
    wp (pselectLoop (sets .read) (sets .write) (sets .except) expireTime scans fuel i)
      (fun r mem' ↦ ∀ n j, r = some (n, j) → 0 < n →
        n = found sets (scans j) ∧ mem' = setFound sets (scans j) mem) noPanic mem := by
  induction fuel generalizing i with
  | zero => exact fun n j h ↦ absurd h (by simp)
  | succ fuel ih =>
    rw [pselectLoop, wp_bind]
    refine wp_imp wp_scanSet fun set₁ mem₁ h₁ ↦ ?_
    rw [wp_bind]
    refine wp_imp wp_scanSet fun set₂ mem₂ h₂ ↦ ?_
    rw [wp_bind]
    refine wp_imp wp_scanSet fun set₃ mem₃ h₃ ↦ ?_
    have hset : set₃ = found sets (scans i) := by
      rw [found_eq, h₃.1, h₂.1, h₁.1, Nat.zero_add]
    have hmem : mem₃ = setFound sets (scans i) mem := by
      rw [h₃.2, h₂.2, h₁.2]
      rfl
    split_ifs with hpos hexpired
    · intro n j h _
      obtain ⟨rfl, rfl⟩ := Prod.mk.inj (Option.some.inj h)
      exact ⟨hset, hmem⟩
    · intro n j h hn
      obtain ⟨rfl, rfl⟩ := Prod.mk.inj (Option.some.inj h)
      exact absurd hn (lt_irrefl 0)
    · -- nothing was found, so nothing was written either
      have hzero : found sets (scans i) = 0 := by
        rw [← hset]
        exact Nat.eq_zero_of_not_pos hpos
      rw [setFound_of_found_eq_zero hzero] at hmem
      rw [hmem]
      exact ih

/-! ## Three arrays in one memory -/

/-- The address belongs to the words of the array that hold `nfds` bits. -/
def InArray (addr : PollFor → ℕ) (nfds : ℕ) (k : PollFor) (x : ℕ) : Prop :=
  addr k ≠ 0 ∧ addr k ≤ x ∧ x < addr k + 8 * ((nfds + 63) / 64)

/-- The arrays do not meet. -/
def Apart (addr : PollFor → ℕ) (nfds : ℕ) : Prop :=
  ∀ k k' x, InArray addr nfds k x → InArray addr nfds k' x → k = k'

variable {addr : PollFor → ℕ} {nfds n : ℕ} {k : PollFor} {mem' : ByteMem}
  {op : PollFor → ByteMem → ByteMem} {ks : List PollFor}

/-- Each operation works on its own array. -/
def OnArrays (addr : PollFor → ℕ) (nfds : ℕ) (op : PollFor → ByteMem → ByteMem) : Prop :=
  ∀ k mem x, ¬ InArray addr nfds k x → op k mem x = mem x

theorem OnArrays.foldl (hop : OnArrays addr nfds op) {x : ℕ}
    (hx : ∀ k ∈ ks, ¬ InArray addr nfds k x) : ks.foldl (fun mem k ↦ op k mem) mem x = mem x := by
  induction ks generalizing mem with
  | nil => rfl
  | cons k ks ih =>
    rw [List.foldl_cons, ih fun k' hk' ↦ hx k' (List.mem_cons_of_mem k hk'),
      hop k mem x (hx k List.mem_cons_self)]

/-- Operations on other arrays leave the bits of one alone. -/
theorem OnArrays.userBit_foldl (hop : OnArrays addr nfds op) (hapart : Apart addr nfds)
    (hk : k ∉ ks)
    (haddr : addr k ≠ 0) {b : ℕ} (hb : b < 64 * ((nfds + 63) / 64)) :
    userBit (ks.foldl (fun mem k ↦ op k mem) mem) (addr k) b = userBit mem (addr k) b := by
  refine ShadowBitset.userBit_congr hb fun x hl hr ↦ hop.foldl fun k' hk' hin ↦ hk ?_
  rw [hapart k k' x ⟨haddr, hl, hr⟩ hin]
  exact hk'

/-- The operations on the other arrays stand before and after the one on an array. -/
theorem exists_split (k : PollFor) : ∃ before after, k ∉ before ∧ k ∉ after ∧
    [PollFor.read, .write, .except] = before ++ k :: after := by
  cases k with
  | read => exact ⟨[], [.write, .except], by decide, by decide, rfl⟩
  | write => exact ⟨[.read], [.except], by decide, by decide, rfl⟩
  | except => exact ⟨[.read, .write], [], by decide, by decide, rfl⟩

/-- `clear` of an array that is there. -/
def clearArray (addr : PollFor → ℕ) (nfds : ℕ) (k : PollFor) (mem : ByteMem) : ByteMem :=
  if addr k = 0 then mem else (ShadowBitset.fromAddr (addr k) nfds).clear mem

theorem local_clearArray (h0 : 0 < nfds) (hnfds : nfds < FD_LIMIT_HARD) :
    OnArrays addr nfds (clearArray addr nfds) := by
  intro k mem x hx
  rw [clearArray]
  split_ifs with haddr
  · rfl
  · have hout : x < addr k ∨ addr k + 8 * ((nfds + 63) / 64) ≤ x := by
      by_contra hin
      rw [not_or, Nat.not_lt, Nat.not_le] at hin
      exact hx ⟨haddr, hin.1, hin.2⟩
    exact ShadowBitset.clear_of_notMem h0 (hnfds.trans (by norm_num)) hout

/-- What is requested depends on the bits of the array alone. -/
theorem Requests.congr {a : ℕ} {r : List (ℕ × Γ) × ShadowBitset}
    (h : Requests getFile mem a nfds r)
    (heq : a ≠ 0 → 0 < nfds → ∀ b < 64, userBit mem a b = userBit mem' a b) :
    Requests getFile mem' a nfds r where
  bitset_eq := h.bitset_eq
  getFile_eq := h.getFile_eq
  fds_eq := by
    rw [h.fds_eq]
    split_ifs with ha
    · rfl
    · refine List.filter_congr fun fd hfd ↦ ?_
      have h0 : 0 < nfds := Nat.zero_lt_of_lt (List.mem_range.mp hfd)
      exact heq ha h0 (fd % 64) (Nat.mod_lt fd (by norm_num))

section Requested

variable (hreq : ∀ k, Requests getFile mem (addr k) nfds (sets k))

include hreq

/-- The descriptor is open, and its file is ready. -/
theorem mem_readyFds {fd : ℕ} : fd ∈ readyFds (scan.ready k) (sets k) ↔
    addr k ≠ 0 ∧ fd < nfds ∧ userBit mem (addr k) (fd % 64) = true ∧
      ∃ file, getFile fd = some file ∧ scan.ready k fd file = true := by
  have hfds := (hreq k).fds_eq
  rw [readyFds, (hreq k).bitset_eq]
  by_cases haddr : addr k = 0
  · rw [ShadowBitset.fromAddr, ShadowBitset.isValid, haddr]
    simp
  · have hvalid : (ShadowBitset.fromAddr (addr k) nfds).isValid = true := bne_iff_ne.mpr haddr
    rw [if_pos hvalid]
    rw [if_neg haddr] at hfds
    have hmem : fd ∈ (sets k).1.map Prod.fst ↔
        fd < nfds ∧ userBit mem (addr k) (fd % 64) = true := by
      rw [hfds, List.mem_filter, List.mem_range]
    constructor
    · intro h
      obtain ⟨p, hp, rfl⟩ := List.mem_map.mp h
      obtain ⟨hp, hready⟩ := List.mem_filter.mp hp
      obtain ⟨hlt, hbit⟩ := hmem.mp (List.mem_map_of_mem hp)
      exact ⟨haddr, hlt, hbit, p.2, (hreq k).getFile_eq p hp, hready⟩
    · rintro ⟨-, hlt, hbit, file, hfile, hready⟩
      obtain ⟨p, hp, rfl⟩ := List.mem_map.mp (hmem.mpr ⟨hlt, hbit⟩)
      obtain rfl : p.2 = file := Option.some.inj (((hreq k).getFile_eq p hp).symm.trans hfile)
      exact List.mem_map_of_mem (List.mem_filter.mpr ⟨hp, hready⟩)

theorem nodup_readyFds : (readyFds (scan.ready k) (sets k)).Nodup := by
  have hnodup : ((sets k).1.map Prod.fst).Nodup := by
    rw [(hreq k).fds_eq]
    split_ifs
    · exact List.nodup_nil
    · exact List.nodup_range.filter _
  rw [readyFds]
  split_ifs
  · exact hnodup.sublist (List.filter_sublist.map _)
  · exact List.nodup_nil

/-- Setting the bits of an array works on its first word. -/
theorem local_setAll (hnfds : nfds < FD_LIMIT_HARD) :
    OnArrays addr nfds fun k mem ↦ (sets k).2.setAll (readyFds (scan.ready k) (sets k)) mem := by
  intro k mem' x hx
  have hall : ∀ fd ∈ readyFds (scan.ready k) (sets k), addr k ≠ 0 ∧ fd < nfds := fun fd hfd ↦
    ⟨((mem_readyFds hreq).mp hfd).1, ((mem_readyFds hreq).mp hfd).2.1⟩
  dsimp only
  rw [(hreq k).bitset_eq]
  generalize readyFds (scan.ready k) (sets k) = fds at hall ⊢
  induction fds generalizing mem' with
  | nil => rfl
  | cons fd fds ih =>
    obtain ⟨haddr, hfd⟩ := hall fd List.mem_cons_self
    have hout : x < addr k ∨ addr k + 8 ≤ x := by
      by_contra hin
      rw [not_or, Nat.not_lt, Nat.not_le] at hin
      exact hx ⟨haddr, hin.1, by omega⟩
    rw [ShadowBitset.setAll, List.foldl_cons]
    exact (ih _ fun fd' hfd' ↦ hall fd' (List.mem_cons_of_mem fd hfd')).trans
      (ShadowBitset.set_of_notMem (hfd.trans hnfds) hout)

end Requested

/-- Setting bits one after the other. -/
theorem ShadowBitset.userBit_setAll (bitset : ShadowBitset) {l : List ℕ} {b : ℕ}
    (hlen : ∀ fd ∈ l, fd < bitset.len)
    (hlt : ∀ fd ∈ l, fd < FD_LIMIT_HARD) :
    userBit (bitset.setAll l mem) bitset.addr b = true ↔
      userBit mem bitset.addr b = true ∨ ∃ fd ∈ l, fd % 64 = b := by
  induction l generalizing mem with
  | nil => simp [setAll]
  | cons fd l ih =>
    rw [setAll, List.foldl_cons, ← setAll,
      ih (fun fd' h ↦ hlen fd' (List.mem_cons_of_mem fd h))
        (fun fd' h ↦ hlt fd' (List.mem_cons_of_mem fd h)),
      userBit_set (hlen fd List.mem_cons_self) (hlt fd List.mem_cons_self), Bool.or_eq_true,
      decide_eq_true_eq, List.exists_mem_cons_iff, or_assoc, eq_comm (a := b)]

/-- The bits after the arrays were cleared and a scan found something. -/
theorem userBit_setFound (hnfds : nfds < FD_LIMIT_HARD) (hapart : Apart addr nfds)
    (hreq : ∀ k, Requests getFile mem (addr k) nfds (sets k)) {mem₀ : ByteMem}
    (hclear : ∀ k, addr k ≠ 0 → ∀ b < 64 * ((nfds + 63) / 64), userBit mem₀ (addr k) b = false)
    (haddr : addr k ≠ 0) {b : ℕ} (hb : b < 64 * ((nfds + 63) / 64)) :
    userBit (setFound sets scan mem₀) (addr k) b = true ↔
      ∃ fd ∈ readyFds (scan.ready k) (sets k), fd % 64 = b := by
  have hlocal : OnArrays addr nfds fun k mem ↦
      (sets k).2.setAll (readyFds (scan.ready k) (sets k)) mem := local_setAll hreq hnfds
  obtain ⟨before, after, hbefore, hafter, hsplit⟩ := exists_split k
  have hlt : ∀ fd ∈ readyFds (scan.ready k) (sets k), fd < nfds := fun fd hfd ↦
    ((mem_readyFds hreq).mp hfd).2.1
  rw [setFound, hsplit, List.foldl_append, List.foldl_cons,
    hlocal.userBit_foldl hapart hafter haddr hb, (hreq k).bitset_eq]
  refine (ShadowBitset.userBit_setAll (.fromAddr (addr k) nfds) hlt
    fun fd hfd ↦ (hlt fd hfd).trans hnfds).trans ?_
  refine (or_iff_right ?_)
  rw [Bool.not_eq_true]
  exact (hlocal.userBit_foldl hapart hbefore haddr hb).trans (hclear k haddr b hb)

/-! ## The system call -/

/-- The memory with all arrays cleared. -/
def cleared (addr : PollFor → ℕ) (nfds : ℕ) (mem : ByteMem) : ByteMem :=
  [PollFor.read, .write, .except].foldl (fun mem k ↦ clearArray addr nfds k mem) mem

theorem userBit_cleared (h0 : 0 < nfds) (hnfds : nfds < FD_LIMIT_HARD) (hapart : Apart addr nfds)
    (haddr : addr k ≠ 0) {b : ℕ} (hb : b < 64 * ((nfds + 63) / 64)) :
    userBit (cleared addr nfds mem) (addr k) b = false := by
  have hlocal : OnArrays addr nfds (clearArray addr nfds) := local_clearArray h0 hnfds
  obtain ⟨before, after, -, hafter, hsplit⟩ := exists_split k
  rw [cleared, hsplit, List.foldl_append, List.foldl_cons,
    hlocal.userBit_foldl hapart hafter haddr hb, clearArray, if_neg haddr]
  have hclear : userBit ((ShadowBitset.fromAddr (addr k) nfds).clear
      (before.foldl (fun mem k ↦ clearArray addr nfds k mem) mem)) (addr k) b = false :=
    ShadowBitset.userBit_clear h0 (hnfds.trans (by norm_num)) hb
  exact hclear

/-- When a call gives up; the timeout is read after the arrays have been cleared. -/
def selectDeadline (timeout now : ℕ) (mem : ByteMem) : ℕ :=
  if timeout = 0 then 2 ^ 64 - 1
  else wadd now (TimeSpec.getTicks ⟨mem.load 8 timeout, mem.load 8 (timeout + 8)⟩)

/-- A system call reads the arrays and clears them, and what comes then is the loop. -/
theorem wp_sysPselect6_of_loop {timeout now fuel : ℕ} {Q : Option (ℕ × ℕ) → ByteMem → Prop}
    (hloop : ∀ sets : Sets Γ, nfds < FD_LIMIT_HARD →
      (Apart addr nfds → ∀ k, Requests getFile mem (addr k) nfds (sets k)) →
      wp (pselectLoop (sets .read) (sets .write) (sets .except)
        (selectDeadline timeout now (cleared addr nfds mem)) scans fuel 0) Q anyPanic
        (cleared addr nfds mem)) :
    wp (sysPselect6 getFile isUser nfds addr timeout now scans fuel) Q anyPanic mem := by
  rw [sysPselect6]
  by_cases hlimit : FD_LIMIT_HARD ≤ nfds
  · rw [if_pos hlimit]
    trivial
  have hnfds : nfds < FD_LIMIT_HARD := Nat.lt_of_not_le hlimit
  rw [if_neg hlimit, wp_bind]
  refine wp_imp (wp_initFdSets hnfds) fun r mem₁ hr ↦ ?_
  rw [wp_bind]
  refine wp_imp (wp_initFdSets hnfds) fun w mem₂ hw ↦ ?_
  rw [wp_bind]
  refine wp_imp (wp_initFdSets hnfds) fun e mem₃ he ↦ ?_
  let sets : Sets Γ := fun k ↦ match k with
    | .read => r
    | .write => w
    | .except => e
  have hmem₁ : mem₁ = [PollFor.read].foldl (fun mem k ↦ clearArray addr nfds k mem) mem := hr.2
  have hmem₂ : mem₂ = [PollFor.read, .write].foldl (fun mem k ↦ clearArray addr nfds k mem)
      mem := by
    rw [hw.2, hmem₁]
    rfl
  have hmem₃ : mem₃ = cleared addr nfds mem := by
    rw [he.2, hmem₂]
    rfl
  have hreq : Apart addr nfds → ∀ k, Requests getFile mem (addr k) nfds (sets k) := by
    intro hapart k
    -- the arrays that were cleared before do not meet the one that is read
    have hbefore : ∀ (ks : List PollFor) (k : PollFor), k ∉ ks → addr k ≠ 0 → 0 < nfds →
        ∀ b < 64, userBit (ks.foldl (fun mem k ↦ clearArray addr nfds k mem) mem) (addr k) b =
          userBit mem (addr k) b := fun ks k hk haddr h0 b hb ↦
      (local_clearArray h0 hnfds).userBit_foldl hapart hk haddr (by omega)
    cases k with
    | read => exact hr.1
    | write => exact hw.1.congr (hmem₁ ▸ hbefore [.read] .write (by decide))
    | except => exact he.1.congr (hmem₂ ▸ hbefore [.read, .write] .except (by decide))
  have hend := hloop sets hnfds hreq
  rw [selectDeadline] at hend
  rw [hmem₃]
  split_ifs with hzero huser
  · rwa [if_pos hzero] at hend
  · trivial
  · rw [wp_bind, wp_get]
    rwa [if_neg hzero] at hend

/-- A system call that returns a count reads the arrays, clears them, and ends with a scan. -/
theorem wp_sysPselect6 {timeout now fuel : ℕ} (hapart : Apart addr nfds) :
    wp (sysPselect6 getFile isUser nfds addr timeout now scans fuel) (fun r mem' ↦
      nfds < FD_LIMIT_HARD ∧ ∀ n i, r = some (n, i) → 0 < n → 0 < nfds ∧
        ∃ sets : Sets Γ, (∀ k, Requests getFile mem (addr k) nfds (sets k)) ∧
          n = found sets (scans i) ∧ mem' = setFound sets (scans i) (cleared addr nfds mem))
      anyPanic mem := by
  refine wp_sysPselect6_of_loop fun sets hnfds hrequests ↦ ?_
  have hreq := hrequests hapart
  refine wp_mono wp_pselectLoop (fun res mem' h ↦ ⟨hnfds, fun n i hres hn ↦ ?_⟩) fun _ _ _ ↦ trivial
  obtain ⟨hcount, hmem'⟩ := h n i hres hn
  refine ⟨?_, sets, hreq, hcount, hmem'⟩
  obtain ⟨k, -, hk⟩ := Finset.sum_pos_iff.mp (hcount ▸ hn)
  obtain ⟨fd, hfd⟩ := List.exists_mem_of_length_pos hk
  exact Nat.zero_lt_of_lt ((mem_readyFds hreq).mp hfd).2.1

/-- The file of the descriptor is ready for the condition of the array. -/
def IsReady (getFile : ℕ → Option Γ) (scan : Scan Γ) (k : PollFor) (fd : ℕ) : Prop :=
  ∃ file, getFile fd = some file ∧ scan.ready k fd file = true

/-- The system call reports exactly the requested descriptors that are ready, with their number, and
writes nothing else. -/
structure Reports (getFile : ℕ → Option Γ) (addr : PollFor → ℕ) (nfds : ℕ) (scan : Scan Γ)
    (mem : ByteMem) (n : ℕ) (mem' : ByteMem) : Prop where
  bits : ∀ k, addr k ≠ 0 → ∀ fd < nfds, (userBit mem' (addr k) fd = true ↔
    userBit mem (addr k) fd = true ∧ IsReady getFile scan k fd)
  count : n = ∑ k, if addr k = 0 then 0 else
    ((Finset.range nfds).filter fun fd ↦ userBit mem' (addr k) fd = true).card
  frame : ∀ x, (∀ k, ¬ InArray addr nfds k x) → mem' x = mem x

/-- No descriptor from 64 on that is ready is requested, or taken for requested because of its bit
in the first word. -/
def FirstWordOnly (getFile : ℕ → Option Γ) (addr : PollFor → ℕ) (nfds : ℕ) (scan : Scan Γ)
    (mem : ByteMem) : Prop :=
  ∀ k, addr k ≠ 0 → ∀ fd, 64 ≤ fd → fd < nfds → IsReady getFile scan k fd →
    userBit mem (addr k) fd = false ∧ userBit mem (addr k) (fd % 64) = false

section Counting

variable (hreq : ∀ k, Requests getFile mem (addr k) nfds (sets k))
  (hbits : ∀ k, addr k ≠ 0 → ∀ fd < nfds, (userBit mem' (addr k) fd = true ↔
    ∃ g ∈ readyFds (scan.ready k) (sets k), g % 64 = fd))

include hreq hbits

/-- The bits of an array that are set in the end. -/
theorem filter_userBit (haddr : addr k ≠ 0) :
    ((Finset.range nfds).filter fun fd ↦ userBit mem' (addr k) fd = true) =
      (readyFds (scan.ready k) (sets k)).toFinset.image (· % 64) := by
  ext fd
  rw [Finset.mem_filter, Finset.mem_range, Finset.mem_image]
  constructor
  · rintro ⟨hlt, hbit⟩
    obtain ⟨g, hg, hmod⟩ := (hbits k haddr fd hlt).mp hbit
    exact ⟨g, List.mem_toFinset.mpr hg, hmod⟩
  · rintro ⟨g, hg, rfl⟩
    rw [List.mem_toFinset] at hg
    have hlt : g % 64 < nfds := (Nat.mod_le g 64).trans_lt ((mem_readyFds hreq).mp hg).2.1
    exact ⟨hlt, (hbits k haddr _ hlt).mpr ⟨g, hg, rfl⟩⟩

/-- Two ready descriptors of an array that share a bit are counted twice. -/
theorem count_iff : (found sets scan = ∑ k, if addr k = 0 then 0 else
      ((Finset.range nfds).filter fun fd ↦ userBit mem' (addr k) fd = true).card) ↔
    ∀ k, Set.InjOn (· % 64) ((readyFds (scan.ready k) (sets k)).toFinset : Set ℕ) := by
  have hfound : found sets scan = ∑ k, (readyFds (scan.ready k) (sets k)).toFinset.card :=
    Finset.sum_congr rfl fun k _ ↦ (List.toFinset_card_of_nodup (nodup_readyFds hreq)).symm
  have hset : (∑ k, if addr k = 0 then 0 else
      ((Finset.range nfds).filter fun fd ↦ userBit mem' (addr k) fd = true).card) =
        ∑ k, ((readyFds (scan.ready k) (sets k)).toFinset.image (· % 64)).card := by
    refine Finset.sum_congr rfl fun k _ ↦ ?_
    split_ifs with haddr
    · have hnil : readyFds (scan.ready k) (sets k) = [] :=
        List.eq_nil_iff_forall_not_mem.mpr fun fd hfd ↦ ((mem_readyFds hreq).mp hfd).1 haddr
      rw [hnil]
      rfl
    · rw [filter_userBit hreq hbits haddr]
  rw [hfound, hset, eq_comm, Finset.sum_eq_sum_iff_of_le fun k _ ↦ Finset.card_image_le]
  exact ⟨fun h k ↦ Finset.card_image_iff.mp (h k (Finset.mem_univ k)),
    fun h k _ ↦ Finset.card_image_iff.mpr (h k)⟩

theorem firstWordOnly_of_reports (h : Reports getFile addr nfds scan mem (found sets scan) mem') :
    FirstWordOnly getFile addr nfds scan mem := by
  have hinj := (count_iff hreq hbits).mp h.count
  intro k haddr fd h64 hlt hready
  rw [← Bool.not_eq_true, ← Bool.not_eq_true]
  constructor
  · intro hbit
    obtain ⟨g, -, hmod⟩ := (hbits k haddr fd hlt).mp ((h.bits k haddr fd hlt).mpr ⟨hbit, hready⟩)
    omega
  · intro hbit
    have hmem : fd ∈ readyFds (scan.ready k) (sets k) :=
      (mem_readyFds hreq).mpr ⟨haddr, hlt, hbit, hready⟩
    have hlt' : fd % 64 < nfds := (Nat.mod_le fd 64).trans_lt hlt
    -- The bit is set for `fd`, so that the descriptor whose bit it is must be ready too.
    obtain ⟨-, hready'⟩ := (h.bits k haddr _ hlt').mp ((hbits k haddr _ hlt').mpr ⟨fd, hmem, rfl⟩)
    have hmem' : fd % 64 ∈ readyFds (scan.ready k) (sets k) :=
      (mem_readyFds hreq).mpr ⟨haddr, hlt', by rwa [Nat.mod_mod], hready'⟩
    have heq := hinj k (List.mem_toFinset.mpr hmem) (List.mem_toFinset.mpr hmem')
      (Nat.mod_mod fd 64).symm
    omega

theorem reports_of_firstWordOnly (h : FirstWordOnly getFile addr nfds scan mem)
    (hframe : ∀ x, (∀ k, ¬ InArray addr nfds k x) → mem' x = mem x) :
    Reports getFile addr nfds scan mem (found sets scan) mem' := by
  -- a descriptor that is found has its bit in the first word, and is there itself
  have hlow : ∀ k, ∀ g ∈ readyFds (scan.ready k) (sets k), g < 64 := by
    intro k g hg
    obtain ⟨haddr, hlt, hbit, hready⟩ := (mem_readyFds hreq).mp hg
    by_contra hge
    rw [(h k haddr g (Nat.le_of_not_lt hge) hlt hready).2] at hbit
    exact Bool.false_ne_true hbit
  refine ⟨fun k haddr fd hlt ↦ ?_, (count_iff hreq hbits).mpr fun k g hg g' hg' hmod ↦ ?_, hframe⟩
  · rw [hbits k haddr fd hlt]
    constructor
    · rintro ⟨g, hg, rfl⟩
      obtain ⟨-, -, hbit, hready⟩ := (mem_readyFds hreq).mp hg
      refine ⟨hbit, ?_⟩
      rw [Nat.mod_eq_of_lt (hlow k g hg)]
      exact hready
    · rintro ⟨hbit, hready⟩
      have hfd : fd < 64 := by
        by_contra hge
        rw [(h k haddr fd (Nat.le_of_not_lt hge) hlt hready).1] at hbit
        exact Bool.false_ne_true hbit
      have hmod : fd % 64 = fd := Nat.mod_eq_of_lt hfd
      exact ⟨fd, (mem_readyFds hreq).mpr ⟨haddr, hlt, by rwa [hmod], hready⟩, hmod⟩
  · have hg₆₄ := hlow k g (List.mem_toFinset.mp hg)
    have hg₆₄' := hlow k g' (List.mem_toFinset.mp hg')
    dsimp only at hmod
    rwa [Nat.mod_eq_of_lt hg₆₄, Nat.mod_eq_of_lt hg₆₄'] at hmod

end Counting

/-- **Which runs report the ready requested descriptors.** For arrays that do not meet, a count that
`sys_pselect6` returns is right, with the bits and the rest of the memory, if and only if no ready
descriptor from 64 on is requested or taken for requested. -/
theorem pselect_reports_iff {timeout now fuel i : ℕ} (hapart : Apart addr nfds)
    (hrun : (sysPselect6 getFile isUser nfds addr timeout now scans fuel).run mem =
      .ok (some (n, i)) mem') (hn : 0 < n) :
    Reports getFile addr nfds (scans i) mem n mem' ↔
      FirstWordOnly getFile addr nfds (scans i) mem := by
  obtain ⟨hnfds, hall⟩ := wp_ok (wp_sysPselect6 hapart) hrun
  obtain ⟨h0, sets, hreq, rfl, rfl⟩ := hall n i rfl hn
  have hbits : ∀ k, addr k ≠ 0 → ∀ fd < nfds,
      (userBit (setFound sets (scans i) (cleared addr nfds mem)) (addr k) fd = true ↔
        ∃ g ∈ readyFds ((scans i).ready k) (sets k), g % 64 = fd) := fun k haddr fd hfd ↦
    userBit_setFound hnfds hapart hreq
      (fun k haddr b hb ↦ userBit_cleared h0 hnfds hapart haddr hb) haddr (by omega)
  have hlocal : OnArrays addr nfds fun k mem ↦
      (sets k).2.setAll (readyFds ((scans i).ready k) (sets k)) mem := local_setAll hreq hnfds
  have hframe : ∀ x, (∀ k, ¬ InArray addr nfds k x) →
      setFound sets (scans i) (cleared addr nfds mem) x = mem x := fun x hx ↦
    (hlocal.foldl fun k _ ↦ hx k).trans ((local_clearArray h0 hnfds).foldl fun k _ ↦ hx k)
  exact ⟨firstWordOnly_of_reports hreq hbits, fun h ↦ reports_of_firstWordOnly hreq hbits h hframe⟩

/-! ## One array -/

/-- Only the descriptors to read from are waited for. -/
def readOnly : PollFor → ℕ
  | .read => 0x1000
  | .write | .except => 0

/-- Descriptor 3 is requested. -/
def requestThree : ByteMem := fun x ↦ if x = 0x1000 then 8 else 0

/-- The files 3 and 67 are open, and `readyFd` is ready to read. -/
def threeOrMore (readyFd : ℕ) : (ℕ → Option Unit) × (ℕ → Scan Unit) :=
  (fun fd ↦ if fd = 3 ∨ fd = 67 then some () else none,
    fun _ ↦ ⟨fun k fd _ ↦ k = .read ∧ fd = readyFd, 0⟩)

theorem apart_readOnly (nfds : ℕ) : Apart readOnly nfds := by
  have hread : ∀ k x, InArray readOnly nfds k x → k = .read := by
    intro k x h
    cases k with
    | read => rfl
    | write => exact absurd rfl h.1
    | except => exact absurd rfl h.1
  intro k k' x h h'
  rw [hread k x h, hread k' x h']

/-- The file that was asked for is ready. -/
theorem pselect_reports_three : ∃ mem' : ByteMem,
    Reports (threeOrMore 3).1 readOnly 8 ((threeOrMore 3).2 0) requestThree 1 mem' := by
  obtain ⟨r, mem', hrun, hr⟩ := exists_of_returns (show returns (sysPselect6 (threeOrMore 3).1
    (fun _ _ ↦ true) 8 readOnly 0 0 (threeOrMore 3).2 1) requestThree (fun r _ ↦ r == some (1, 0))
      = true by decide +kernel)
  rw [beq_iff_eq] at hr
  rw [hr] at hrun
  refine ⟨mem', (pselect_reports_iff (apart_readOnly 8) hrun one_pos).mpr ?_⟩
  intro k _ fd h64 hlt
  omega

/-- Descriptor 3 is asked for and not ready. The bit of 67 is not set, but it is looked for in the
first word, where the bit of 3 is; 67 is ready, and 3 is reported. -/
theorem pselect_reports_other :
    returns (sysPselect6 (threeOrMore 67).1 (fun _ _ ↦ true) 68 readOnly 0 0 (threeOrMore 67).2 1)
      requestThree (fun r mem' ↦ r == some (1, 0) && userBit mem' 0x1000 3) = true ∧
    userBit requestThree 0x1000 67 = false ∧
    ∀ mem', userBit mem' 0x1000 3 = true →
      ¬ Reports (threeOrMore 67).1 readOnly 68 ((threeOrMore 67).2 0) requestThree 1 mem' := by
  refine ⟨by decide +kernel, by decide +kernel, fun mem' hbit h ↦ ?_⟩
  obtain ⟨-, file, -, hready⟩ := (h.bits .read (by decide) 3 (by decide)).mp hbit
  rw [threeOrMore] at hready
  simp at hready

end Maturin
