import Maturin.Poll.Select

/-!
# A `pselect` that fails

`init_fd_sets` checks an array and clears it, one array after the other, and `sys_pselect6` looks at
the timeout last. So the arrays before the first check that fails are cleared already when the error
is returned.
-/

open Exec

namespace Maturin

variable {Γ : Type} {getFile : ℕ → Option Γ} {isUser : ℕ → ℕ → Bool} {addr : PollFor → ℕ}
  {nfds timeout now fuel n x : ℕ} {scans : ℕ → Scan Γ} {mem : ByteMem} {l : List ℕ} {k : PollFor}
  {ks : List PollFor}

/-! ## The checks -/

/-- The checks of `init_fd_sets`: there is no array, or its range is the user's and the descriptors
in it are open. -/
def initPasses (getFile : ℕ → Option Γ) (isUser : ℕ → ℕ → Bool) (addr len : ℕ) (mem : ByteMem) :
    Bool :=
  addr == 0 || isUser addr (addr + ((len + 63) &&& 63)) &&
    ((List.range len).filter ((ShadowBitset.fromAddr addr len).check · mem)).all
      fun fd ↦ (getFile fd).isSome

/-- The check of the timeout -/
def timeoutPasses (isUser : ℕ → ℕ → Bool) (timeout : ℕ) : Bool :=
  timeout == 0 || isUser timeout (timeout + 15)

/-- The arrays before the first check that fails, if one does: of some arrays, and the timeout after
them. -/
def beforeFailure (getFile : ℕ → Option Γ) (isUser : ℕ → ℕ → Bool) (nfds : ℕ) (addr : PollFor → ℕ)
    (timeout : ℕ) : List PollFor → ByteMem → Option (List PollFor)
  | [], _ => if timeoutPasses isUser timeout then none else some []
  | k :: ks, mem =>
    if initPasses getFile isUser (addr k) nfds mem then
      (beforeFailure getFile isUser nfds addr timeout ks (clearArray addr nfds k mem)).map (k :: ·)
    else some []

/-- No byte of the array is set. -/
def Blank (addr : PollFor → ℕ) (nfds : ℕ) (mem : ByteMem) (k : PollFor) : Prop :=
  ∀ x, InArray addr nfds k x → mem x = 0

/-- If the call returns an error, the arrays are as they were. -/
def KeepsArrays (getFile : ℕ → Option Γ) (isUser : ℕ → ℕ → Bool) (nfds : ℕ) (addr : PollFor → ℕ)
    (timeout now : ℕ) (scans : ℕ → Scan Γ) (fuel : ℕ) (mem : ByteMem) : Prop :=
  ∀ e mem', (sysPselect6 getFile isUser nfds addr timeout now scans fuel).run mem = .error e mem' →
    ∀ k x, InArray addr nfds k x → mem' x = mem x

theorem wp_mapM_openFd_iff : wp (l.mapM (openFd getFile))
    (fun _ mem' ↦ mem' = mem ∧ l.all (fun fd ↦ (getFile fd).isSome) = true)
    (fun _ mem' ↦ mem' = mem ∧ l.all (fun fd ↦ (getFile fd).isSome) = false) mem := by
  induction l with
  | nil => exact ⟨rfl, rfl⟩
  | cons fd l ih =>
    rw [List.mapM_cons, wp_bind, openFd, List.all_cons]
    cases hfile : getFile fd with
    | none => exact ⟨rfl, rfl⟩
    | some file =>
      dsimp only
      rw [wp_pure, wp_bind]
      refine wp_mono ih (fun fds mem' h ↦ h) fun e mem' h ↦ h

/-- An array is cleared if it passes, and left alone else. -/
theorem wp_initFdSets_iff : wp (initFdSets getFile isUser (addr k) nfds)
    (fun _ mem' ↦ mem' = clearArray addr nfds k mem ∧
      initPasses getFile isUser (addr k) nfds mem = true)
    (fun _ mem' ↦ mem' = mem ∧ initPasses getFile isUser (addr k) nfds mem = false) mem := by
  rw [initFdSets, initPasses, clearArray]
  by_cases haddr : addr k = 0
  · rw [if_pos haddr, if_pos haddr, wp_pure, haddr]
    exact ⟨rfl, rfl⟩
  · rw [if_neg haddr, if_neg haddr, beq_false_of_ne haddr, Bool.false_or]
    cases isUser (addr k) (addr k + ((nfds + 63) &&& 63)) with
    | false => exact ⟨rfl, rfl⟩
    | true =>
      rw [if_neg (by simp), wp_bind, wp_get, wp_bind, Bool.true_and]
      refine wp_mono wp_mapM_openFd_iff (fun fds mem' h ↦ ?_) fun e mem' h ↦ h
      obtain ⟨rfl, hall⟩ := h
      rw [wp_bind, wp_modify, wp_pure]
      exact ⟨rfl, hall⟩

theorem wp_pselectLoop_noPanic {r w e : List (ℕ × Γ) × ShadowBitset} {expireTime i : ℕ} :
    wp (pselectLoop r w e expireTime scans fuel i) (fun _ _ ↦ True) noPanic mem := by
  obtain ⟨sets, rfl, rfl, rfl⟩ :
      ∃ sets : Sets Γ, sets .read = r ∧ sets .write = w ∧ sets .except = e :=
    ⟨fun k ↦ k.rec r w e, rfl, rfl, rfl⟩
  exact wp_imp wp_pselectLoop fun _ _ _ ↦ trivial

/-- The check of an array comes first, and what follows works on memory with the array cleared. -/
theorem wp_initFdSets_bind {α : Type} {f : List (ℕ × Γ) × ShadowBitset → EStateM ErrorNo ByteMem α}
    (h : ∀ r, wp (f r)
      (fun _ _ ↦
        beforeFailure getFile isUser nfds addr timeout ks (clearArray addr nfds k mem) = none)
      (fun _ mem' ↦ ∃ ks', beforeFailure getFile isUser nfds addr timeout ks
          (clearArray addr nfds k mem) = some ks' ∧
        mem' = ks'.foldl (fun mem k ↦ clearArray addr nfds k mem) (clearArray addr nfds k mem))
      (clearArray addr nfds k mem)) :
    wp (initFdSets getFile isUser (addr k) nfds >>= f)
      (fun _ _ ↦ beforeFailure getFile isUser nfds addr timeout (k :: ks) mem = none)
      (fun _ mem' ↦ ∃ ks', beforeFailure getFile isUser nfds addr timeout (k :: ks) mem = some ks' ∧
        mem' = ks'.foldl (fun mem k ↦ clearArray addr nfds k mem) mem) mem := by
  rw [wp_bind, beforeFailure]
  refine wp_mono wp_initFdSets_iff (fun r mem₁ hr ↦ ?_) fun e mem' he ↦ ?_
  · obtain ⟨rfl, hpass⟩ := hr
    rw [if_pos hpass]
    refine wp_mono (h r) (fun _ _ hnone ↦ by rw [hnone]; rfl) fun e mem' he ↦ ?_
    obtain ⟨ks', hks', rfl⟩ := he
    exact ⟨k :: ks', by rw [hks']; rfl, rfl⟩
  · obtain ⟨rfl, hfail⟩ := he
    rw [if_neg (by simp [hfail])]
    exact ⟨[], rfl, rfl⟩

/-! ## The system call -/

/-- What is cleared when the call returns an error. -/
theorem wp_sysPselect6_iff (hnfds : nfds < FD_LIMIT_HARD) :
    wp (sysPselect6 getFile isUser nfds addr timeout now scans fuel)
      (fun _ _ ↦ beforeFailure getFile isUser nfds addr timeout [.read, .write, .except] mem = none)
      (fun _ mem' ↦ ∃ ks,
        beforeFailure getFile isUser nfds addr timeout [.read, .write, .except] mem = some ks ∧
          mem' = ks.foldl (fun mem k ↦ clearArray addr nfds k mem) mem) mem := by
  rw [sysPselect6, if_neg (Nat.not_le.mpr hnfds)]
  refine wp_initFdSets_bind fun r ↦ wp_initFdSets_bind fun w ↦ wp_initFdSets_bind fun e ↦ ?_
  -- once the timeout is read, nothing fails any more
  have hpass : ∀ expireTime mem, timeoutPasses isUser timeout = true →
      wp (pselectLoop r w e expireTime scans fuel 0)
        (fun _ _ ↦ beforeFailure getFile isUser nfds addr timeout [] mem = none)
        (fun _ mem' ↦ ∃ ks, beforeFailure getFile isUser nfds addr timeout [] mem = some ks ∧
          mem' = ks.foldl (fun mem k ↦ clearArray addr nfds k mem) mem) mem :=
    fun expireTime mem h ↦ wp_mono wp_pselectLoop_noPanic
      (fun _ _ _ ↦ if_pos h) fun _ _ hnever ↦ hnever.elim
  by_cases hzero : timeout = 0
  · rw [if_pos hzero]
    exact hpass _ _ (by rw [timeoutPasses, hzero]; rfl)
  · rw [if_neg hzero]
    cases huser : isUser timeout (timeout + 15) with
    | false =>
      have hfail : timeoutPasses isUser timeout = false := by
        rw [timeoutPasses, huser, beq_false_of_ne hzero]
        rfl
      exact ⟨[], if_neg (by simp [hfail]), rfl⟩
    | true =>
      rw [if_neg (by simp), wp_bind, wp_get]
      exact hpass _ _ (by rw [timeoutPasses, huser, Bool.or_true])

/-- An array with a byte has bits. -/
theorem pos_of_inArray (h : InArray addr nfds k x) : 0 < nfds := by
  obtain ⟨-, hle, hlt⟩ := h
  omega

/-- Clearing arrays makes their bytes zero. -/
theorem foldl_clearArray_of_mem (h0 : 0 < nfds) (hnfds : nfds < FD_LIMIT_HARD)
    (hx : ∃ k ∈ ks, InArray addr nfds k x) :
    ks.foldl (fun mem k ↦ clearArray addr nfds k mem) mem x = 0 := by
  induction ks generalizing mem with
  | nil =>
    obtain ⟨k, hk, -⟩ := hx
    exact absurd hk List.not_mem_nil
  | cons k ks ih =>
    obtain ⟨k', hk', hin⟩ := hx
    rw [List.foldl_cons]
    by_cases hlater : ∃ j ∈ ks, InArray addr nfds j x
    · exact ih hlater
    · have hfirst : k' = k := by
        rcases List.mem_cons.mp hk' with heq | hmem
        · exact heq
        · exact absurd ⟨k', hmem, hin⟩ hlater
      rw [(local_clearArray h0 hnfds).foldl fun j hj hin ↦ hlater ⟨j, hj, hin⟩, ← hfirst,
        clearArray, if_neg hin.1]
      exact ShadowBitset.clear_of_mem h0 (hnfds.trans (by norm_num)) hin.2

/-- **Which errors leave the arrays alone.** If `pselect` returns an error, the arrays are as they
were, if and only if the number of descriptors is refused, no check fails, or nothing is set in the
arrays before the first one that does. -/
theorem keepsArrays_iff : KeepsArrays getFile isUser nfds addr timeout now scans fuel mem ↔
    FD_LIMIT_HARD ≤ nfds ∨ ∀ ks,
      beforeFailure getFile isUser nfds addr timeout [.read, .write, .except] mem = some ks →
        ∀ k ∈ ks, Blank addr nfds mem k := by
  rcases Nat.lt_or_ge nfds FD_LIMIT_HARD with hnfds | hge
  · rw [or_iff_right (Nat.not_le.mpr hnfds)]
    have hwp : wp (sysPselect6 getFile isUser nfds addr timeout now scans fuel) _ _ mem :=
      wp_sysPselect6_iff hnfds
    rw [KeepsArrays]
    rw [wp] at hwp
    cases hrun : (sysPselect6 getFile isUser nfds addr timeout now scans fuel).run mem with
    | ok r mem' =>
      rw [hrun] at hwp
      rw [show beforeFailure getFile isUser nfds addr timeout [.read, .write, .except] mem = none
        from hwp]
      exact iff_of_true (fun e mem' h ↦ by cases h) fun ks h ↦ by cases h
    | error e mem' =>
      rw [hrun] at hwp
      obtain ⟨ks, hks, rfl⟩ := hwp
      rw [hks]
      constructor
      · intro h ks' hks' k hk x hin
        cases hks'
        -- an array that is cleared keeps its bytes only if they were zero
        rw [← h e _ rfl k x hin]
        exact foldl_clearArray_of_mem (pos_of_inArray hin) hnfds ⟨k, hk, hin⟩
      · intro h e' mem' hrun' k x hin
        cases hrun'
        -- a byte of an array may be in one that is cleared
        by_cases hcleared : ∃ j ∈ ks, InArray addr nfds j x
        · obtain ⟨j, hj, hin'⟩ := hcleared
          rw [foldl_clearArray_of_mem (pos_of_inArray hin) hnfds ⟨j, hj, hin'⟩]
          exact (h ks rfl j hj x hin').symm
        · exact (local_clearArray (pos_of_inArray hin) hnfds).foldl
            fun j hj hin' ↦ hcleared ⟨j, hj, hin'⟩
  · refine iff_of_true (fun e mem' hrun ↦ ?_) (Or.inl hge)
    rw [sysPselect6, if_pos hge] at hrun
    cases hrun
    exact fun _ _ _ ↦ rfl

/-! ## A bad descriptor in the second array -/

def readAndWrite : PollFor → ℕ
  | .read => 0x1000
  | .write => 0x2000
  | .except => 0

/-- Descriptor 3 is requested to read from, and 5 to write to. -/
def requestThreeAndFive : ByteMem := fun x ↦ if x = 0x1000 then 8 else if x = 0x2000 then 32 else 0

/-- Descriptor 5 is not open, and the request for 3 is gone. -/
theorem not_keepsArrays : ¬ KeepsArrays (threeOrMore 3).1 (fun _ _ ↦ true) 8 readAndWrite 0 0
    (threeOrMore 3).2 1 requestThreeAndFive := by
  intro h
  obtain ⟨e, mem', hrun, hcleared⟩ := exists_of_panics (show panics (sysPselect6 (threeOrMore 3).1
    (fun _ _ ↦ true) 8 readAndWrite 0 0 (threeOrMore 3).2 1) requestThreeAndFive
      (fun e mem' ↦ e == .EBADF && mem' 0x1000 == 0) = true by decide +kernel)
  rw [Bool.and_eq_true, beq_iff_eq, beq_iff_eq] at hcleared
  have hkept := h e mem' hrun .read 0x1000 ⟨by decide, le_rfl, by decide⟩
  rw [hcleared.2] at hkept
  exact absurd hkept (by decide)

end Maturin
