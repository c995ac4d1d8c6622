import Maturin.Lib.Throughout
import Maturin.Syscall.Cloexec

/-!
# The flags of descriptors, over runs

The flag of a file and the flags that its descriptors are meant to have, in runs of processes that
open, duplicate and close descriptors, change their flags, fork and `exec`. Each call keeps the
files and at most closes descriptors, or puts a file with a flag under a descriptor. In the second
case the flag of the file is to be that of the descriptor, and the one that its other descriptors
have.
-/

open Exec Function Bitflags

namespace Maturin

/-! ## What a call does to the flags -/

namespace FlagCall

/-- What a call does to the flags: it keeps the descriptors that it does not close, or it puts a
file with a flag under a descriptor. -/
inductive Outcome (shared : ℕ → ℕ → Prop) (own : ℕ → Bool) (s : FileTask) (c : FlagCall) :
    Except ErrorNo ℕ → FileTask → Prop
  | kept {r m'} (hslot : ∀ fd id, m'.slot fd = some id → s.2.slot fd = some id)
      (hown : c.own r own = own) (hspares : c.Spares shared s) : Outcome shared own s c r (s.1, m')
  | put {r m' fd id file flag} (hslot : m'.slot = update s.2.slot fd (some id))
      (hown : c.own r own = update own fd flag)
      (hiff : c.Spares shared s ↔
        file.closes = flag ∧ (shared fd id → file.closes = (s.1 id).closes)) :
      Outcome shared own s c r (update s.1 id file, m')

variable {shared : ℕ → ℕ → Prop} {own : ℕ → Bool} {s : FileTask}

theorem Outcome.same {c : FlagCall} {r : Except ErrorNo ℕ} (hown : c.own r own = own)
    (hspares : c.Spares shared s) : Outcome shared own s c r s :=
  .kept (fun _ _ h ↦ h) hown hspares

/-- A file that keeps its flags is put under a descriptor. -/
theorem Outcome.share {c : FlagCall} {r : Except ErrorNo ℕ} {m' : FdManager ℕ} {fd id : ℕ}
    (flag : Bool) (hslot : m'.slot = update s.2.slot fd (some id))
    (hown : c.own r own = update own fd flag)
    (hiff : c.Spares shared s ↔ (s.1 id).closes = flag) : Outcome shared own s c r (s.1, m') := by
  have h : Outcome shared own s c r (update s.1 id (s.1 id), m') :=
    .put hslot hown (hiff.trans (and_iff_left fun _ ↦ rfl).symm)
  rwa [update_eq_self] at h

theorem wp_open (hfits : s.2.Fits) (openFile : Except ErrorNo ℕ) (cloexec : Bool) :
    wp (run (.open_ openFile cloexec)) (fun r s' ↦ s'.2.Fits ∧
      Outcome shared own s (.open_ openFile cloexec) r s') anyPanic s := by
  rw [run, wp_onSnd]
  refine wp_mono (FdManager.wp_sysOpen_slot hfits openFile) (fun r m' hr ↦ ?_) fun _ _ hp ↦ hp.elim
  obtain ⟨hfits', hr⟩ := hr
  refine ⟨hfits', ?_⟩
  cases r with
  | ok newFd =>
    obtain ⟨id, rfl, hroom, hslot⟩ := hr
    exact .share _ hslot rfl ⟨fun h ↦ h id rfl hroom, fun h id' hid' _ ↦ Except.ok.inj hid' ▸ h⟩
  | error e =>
    refine .kept (fun fd id h ↦ hr.1 ▸ h) rfl fun id hid hroom ↦ ?_
    exact hr.2.elim (fun hnone ↦ absurd hnone hroom) fun hnone ↦ absurd hid (hnone id)

/-- `F_DUPFD` and `dup` -/
theorem wp_copyFdAnywhere (hfits : s.2.Fits) {fd id : ℕ} (hid : s.2.slot fd = some id)
    {c : FlagCall} {k : Except OSError ℕ → EStateM Panic FileTask (Except ErrorNo ℕ)}
    (hok : ∀ newFd, k (.ok newFd) = pure (.ok newFd))
    (herror : ∀ e, k (.error e) = pure (.error .EMFILE))
    (hown : ∀ newFd, c.own (.ok newFd) own = update own newFd false)
    (hfail : c.own (.error .EMFILE) own = own)
    (hspares : c.Spares shared s ↔
      (FdAllocator.alloc s.2.fdAllocator ≠ none → (s.1 id).closes = false)) :
    wp (onSnd (FdManager.copyFdAnywhere fd) >>= k) (fun r s' ↦ s'.2.Fits ∧
      Outcome shared own s c r s') anyPanic s := by
  rw [wp_bind, wp_onSnd]
  refine wp_mono (FdManager.wp_copyFdAnywhere_slot hfits hid) (fun r m' hr ↦ ?_)
    fun _ _ hp ↦ hp.elim
  obtain ⟨hfits', hr⟩ := hr
  cases r with
  | ok newFd =>
    obtain ⟨⟨b, hb⟩, hslot⟩ := hr
    rw [hok]
    refine ⟨hfits', .share _ hslot (hown newFd) (hspares.trans ?_)⟩
    rw [hb]
    exact ⟨fun h ↦ h (by simp), fun h _ ↦ h⟩
  | error e =>
    obtain ⟨hnone, rfl⟩ := hr
    rw [herror]
    exact ⟨hfits, .same hfail (hspares.mpr fun h ↦ absurd hnone h)⟩

theorem wp_dup (hfits : s.2.Fits) (fd : ℕ) :
    wp (run (.dup fd)) (fun r s' ↦ s'.2.Fits ∧ Outcome shared own s (.dup fd) r s') anyPanic s := by
  rw [run, sysDup]
  cases hid : s.2.slot fd with
  | none =>
    rw [wp_bind, wp_onSnd, FdManager.copyFdAnywhere, wp_bind, FdManager.getFile, wp_bind, wp_get,
      hid]
    exact ⟨hfits, .same rfl fun id hid' ↦ absurd (hid.symm.trans hid') (by simp)⟩
  | some id =>
    refine wp_copyFdAnywhere hfits hid (fun _ ↦ rfl) (fun _ ↦ rfl) (fun _ ↦ rfl) rfl ?_
    exact ⟨fun h ↦ h id hid, fun h id' hid' ↦ Option.some.inj (hid.symm.trans hid') ▸ h⟩

theorem wp_dup3 (hfits : s.2.Fits)
    (hagree : ∀ fd id, s.2.slot fd = some id → (s.1 id).closes = own fd) (oldFd newFd : ℕ) :
    wp (run (.dup3 oldFd newFd)) (fun r s' ↦ s'.2.Fits ∧
      Outcome shared own s (.dup3 oldFd newFd) r s') anyPanic s := by
  rw [run, sysDup3, wp_bind, wp_onSnd]
  refine wp_imp (FdManager.wp_copyFdTo_slot hfits oldFd newFd) fun r m' hr ↦ ?_
  obtain ⟨hfits', hr⟩ := hr
  cases r with
  | false =>
    refine ⟨hfits', .kept (fun fd id h ↦ hr.2 ▸ h) rfl fun id hid ↦ ?_⟩
    exact absurd (hr.1.symm.trans hid) (by simp)
  | true =>
    obtain ⟨id, hid, hslot⟩ := hr
    refine ⟨hfits', ?_⟩
    by_cases hsame : oldFd = newFd
    · -- the descriptor is copied to itself
      subst hsame
      refine .share (own oldFd) hslot ?_ (iff_of_true ?_ (hagree _ _ hid))
      · change (if oldFd = oldFd then own else _) = _
        rw [if_pos rfl, update_eq_self]
      · exact fun _ _ hne ↦ absurd rfl hne
    · refine .share false hslot (if_neg hsame)
        ⟨fun h ↦ h id hid hsame, fun h id' hid' _ ↦ ?_⟩
      rwa [← Option.some.inj (hid.symm.trans hid')]

theorem wp_close (hfits : s.2.Fits) (fd : ℕ) :
    wp (run (.close fd)) (fun r s' ↦ s'.2.Fits ∧ Outcome shared own s (.close fd) r s')
      anyPanic s := by
  rw [run, sysClose, wp_bind, wp_onSnd]
  refine wp_imp (FdManager.wp_removeFile_slot hfits fd) fun r m' hr ↦ ?_
  obtain ⟨hfits', hr⟩ := hr
  cases r with
  | ok file =>
    refine ⟨hfits', .kept (fun k id hk ↦ ?_) rfl trivial⟩
    dsimp only at hr
    rw [hr, update_apply] at hk
    split_ifs at hk
    exact hk
  | error e => exact ⟨hfits', .kept (fun k id hk ↦ hr ▸ hk) rfl trivial⟩

theorem wp_exec (hfits : s.2.Fits) :
    wp (run .exec) (fun r s' ↦ s'.2.Fits ∧ Outcome shared own s .exec r s') anyPanic s := by
  rw [run, execFiles, wp_bind, wp_get, wp_bind, wp_onSnd]
  refine wp_mono (FdManager.wp_closeCloexecFiles_slot hfits _) (fun r m' hr ↦ ?_)
    fun _ _ hp ↦ hp.elim
  obtain ⟨hfits', hslot⟩ := hr
  refine ⟨hfits', .kept (fun fd id hk ↦ ?_) rfl trivial⟩
  rw [hslot] at hk
  exact Option.eq_some_of_filter_eq_some hk

/-- A method that changes the flags of the file of a descriptor. -/
theorem wp_onFile {fd id : ℕ} (flag : Bool) {c : FlagCall} {f : StatusFile → Bool × StatusFile}
    {k : Bool → EStateM Panic FileTask (Except ErrorNo ℕ)} (hfits : s.2.Fits)
    (hid : s.2.slot fd = some id) (hok : k true = pure (.ok 0))
    (herror : k false = pure (.error .EINVAL)) (hown : c.own (.ok 0) own = update own fd flag)
    (hfail : c.own (.error .EINVAL) own = own)
    (htrue : (f (s.1 id)).1 = true → (c.Spares shared s ↔
      (f (s.1 id)).2.closes = flag ∧ (shared fd id → (f (s.1 id)).2.closes = (s.1 id).closes)))
    (hfalse : (f (s.1 id)).1 = false → (f (s.1 id)).2 = s.1 id ∧ c.Spares shared s) :
    wp (onFile id f >>= k) (fun r s' ↦ s'.2.Fits ∧ Outcome shared own s c r s') anyPanic s := by
  rw [wp_bind, onFile, wp_modifyGet]
  cases hf : (f (s.1 id)).1 with
  | true =>
    rw [hok]
    refine ⟨hfits, .put ?_ hown (htrue hf)⟩
    rw [← hid, update_eq_self]
  | false =>
    obtain ⟨hsame, hspares⟩ := hfalse hf
    rw [herror, hsame, update_eq_self]
    exact ⟨hfits, .same hfail hspares⟩

theorem own_error (c : FlagCall) (e : ErrorNo) : c.own (.error e) own = own := rfl

section fcntl64

variable {fd id : ℕ} {cmd arg : BitVec 64}

/-- What a call of `fcntl` asks of the file of its descriptor, and of no other. -/
theorem spares_fcntl64 {P : ℕ → Prop} (hid : s.2.slot fd = some id) :
    (∀ id', s.2.slot fd = some id' → P id') ↔ P id :=
  ⟨fun h ↦ h id hid, fun h _ hid' ↦ Option.some.inj (hid.symm.trans hid') ▸ h⟩

theorem spares_setfd (hid : s.2.slot fd = some id)
    (hcmd : Fcntl64Cmd.tryFrom cmd = some .F_SETFD) :
    Spares shared s (.fcntl64 fd cmd arg) ↔ match (s.1 id).kind with
      | .fat => shared fd id → (s.1 id).closes = arg.getLsbD 0
      | .silent => arg.getLsbD 0 = false
      | .socket | .plain => True := by
  rw [Spares, hcmd]
  exact spares_fcntl64 hid

theorem wp_setfd (hfits : s.2.Fits) (hid : s.2.slot fd = some id)
    (hcmd : Fcntl64Cmd.tryFrom cmd = some .F_SETFD) :
    wp (onFile id (·.setCloseOnExec (arg.getLsbD 0)) >>= fun ok ↦
        if ok then pure (.ok 0) else pure (.error .EINVAL))
      (fun r s' ↦ s'.2.Fits ∧ Outcome shared own s (.fcntl64 fd cmd arg) r s') anyPanic s := by
  refine wp_onFile (arg.getLsbD 0) hfits hid rfl rfl ?_ (own_error _ _) (fun htrue ↦ ?_)
    fun hfalse ↦ ?_
  · simp only [FlagCall.own, hcmd]
  · rw [spares_setfd hid hcmd]
    cases hkind : (s.1 id).kind with
    | fat =>
      rw [(StatusFile.setCloseOnExec_fat _ hkind).2, and_iff_right rfl]
      exact forall_congr' fun _ ↦ eq_comm
    | silent =>
      rw [StatusFile.setCloseOnExec_silent _ hkind, StatusFile.closes_silent hkind]
      exact ⟨fun h ↦ ⟨h.symm, fun _ ↦ rfl⟩, fun h ↦ h.1.symm⟩
    | socket =>
      rw [StatusFile.setCloseOnExec_other _ (.inl hkind)] at htrue
      cases htrue
    | plain =>
      rw [StatusFile.setCloseOnExec_other _ (.inr hkind)] at htrue
      cases htrue
  · rw [spares_setfd hid hcmd]
    cases hkind : (s.1 id).kind with
    | fat =>
      rw [(StatusFile.setCloseOnExec_fat _ hkind).1] at hfalse
      cases hfalse
    | silent =>
      rw [StatusFile.setCloseOnExec_silent _ hkind] at hfalse
      cases hfalse
    | socket => exact ⟨by rw [StatusFile.setCloseOnExec_other _ (.inl hkind)], trivial⟩
    | plain => exact ⟨by rw [StatusFile.setCloseOnExec_other _ (.inr hkind)], trivial⟩

theorem spares_setfl (hid : s.2.slot fd = some id)
    (hcmd : Fcntl64Cmd.tryFrom cmd = some .F_SETFL) {flags : Bitflags OpenFlags.all}
    (hflags : fromBits OpenFlags.all (arg.setWidth 32) = some flags) :
    Spares shared s (.fcntl64 fd cmd arg) ↔ match (s.1 id).kind with
      | .fat | .socket => OpenFlags.contains flags.bits OpenFlags.CLOEXEC = (s.1 id).closes
      | .silent | .plain => True := by
  rw [Spares, hcmd]
  refine (spares_fcntl64 hid).trans ?_
  rw [hflags]
  cases (s.1 id).kind with
  | fat => exact ⟨fun h ↦ h flags rfl, fun h _ heq ↦ Option.some.inj heq ▸ h⟩
  | socket => exact ⟨fun h ↦ h flags rfl, fun h _ heq ↦ Option.some.inj heq ▸ h⟩
  | silent => exact Iff.rfl
  | plain => exact Iff.rfl

theorem wp_setfl (hfits : s.2.Fits) (hid : s.2.slot fd = some id)
    (hagree : (s.1 id).closes = own fd) (hcmd : Fcntl64Cmd.tryFrom cmd = some .F_SETFL)
    {flags : Bitflags OpenFlags.all}
    (hflags : fromBits OpenFlags.all (arg.setWidth 32) = some flags) :
    wp (onFile id (·.setStatus flags.bits) >>= fun ok ↦
        if ok then pure (.ok 0) else pure (.error .EINVAL))
      (fun r s' ↦ s'.2.Fits ∧ Outcome shared own s (.fcntl64 fd cmd arg) r s') anyPanic s := by
  -- the flag is that of the file, whoever shares it
  have hkeeps : (s.1 id).kind = .fat ∨ (s.1 id).kind = .socket →
      (OpenFlags.contains flags.bits OpenFlags.CLOEXEC = (s.1 id).closes ↔
        ((s.1 id).setStatus flags.bits).2.closes = own fd ∧
          (shared fd id → ((s.1 id).setStatus flags.bits).2.closes = (s.1 id).closes)) := by
    intro hkind
    rw [(StatusFile.setStatus_keeps _ hkind).2, ← hagree]
    exact ⟨fun h ↦ ⟨h, fun _ ↦ h⟩, fun h ↦ h.1⟩
  refine wp_onFile (own fd) hfits hid rfl rfl ?_ (own_error _ _) (fun htrue ↦ ?_)
    fun hfalse ↦ ?_
  · simp only [FlagCall.own, hcmd, update_eq_self]
  · rw [spares_setfl hid hcmd hflags]
    cases hkind : (s.1 id).kind with
    | fat => exact hkeeps (.inl hkind)
    | socket => exact hkeeps (.inr hkind)
    | silent =>
      rw [StatusFile.setStatus_other _ (.inl hkind)] at htrue
      cases htrue
    | plain =>
      rw [StatusFile.setStatus_other _ (.inr hkind)] at htrue
      cases htrue
  · rw [spares_setfl hid hcmd hflags]
    cases hkind : (s.1 id).kind with
    | fat =>
      rw [(StatusFile.setStatus_keeps _ (.inl hkind)).1] at hfalse
      cases hfalse
    | socket =>
      rw [(StatusFile.setStatus_keeps _ (.inr hkind)).1] at hfalse
      cases hfalse
    | silent => exact ⟨by rw [StatusFile.setStatus_other _ (.inl hkind)], trivial⟩
    | plain => exact ⟨by rw [StatusFile.setStatus_other _ (.inr hkind)], trivial⟩

theorem spares_dupfdCloexec (hid : s.2.slot fd = some id)
    (hcmd : Fcntl64Cmd.tryFrom cmd = some .F_DUPFD_CLOEXEC) :
    Spares shared s (.fcntl64 fd cmd arg) ↔ ∀ newFd b,
      FdAllocator.alloc s.2.fdAllocator = some (newFd, b) →
        match (s.1 id).kind with
        | .fat => arg.getLsbD 0 = true ∧ (shared newFd id → (s.1 id).closes = true)
        | .silent => False
        | .socket | .plain => True := by
  rw [Spares, hcmd]
  exact spares_fcntl64 hid

/-- The new descriptor is the one that the bitmap hands out. -/
theorem spares_dupfdCloexec_of_alloc (hid : s.2.slot fd = some id)
    (hcmd : Fcntl64Cmd.tryFrom cmd = some .F_DUPFD_CLOEXEC) {newFd : ℕ} {b : FdAllocator}
    (hb : FdAllocator.alloc s.2.fdAllocator = some (newFd, b)) :
    Spares shared s (.fcntl64 fd cmd arg) ↔ match (s.1 id).kind with
      | .fat => arg.getLsbD 0 = true ∧ (shared newFd id → (s.1 id).closes = true)
      | .silent => False
      | .socket | .plain => True := by
  refine (spares_dupfdCloexec hid hcmd).trans ⟨fun h ↦ h newFd b hb, fun h k' b' hk' ↦ ?_⟩
  obtain ⟨rfl, rfl⟩ := Prod.mk.inj (Option.some.inj (hb.symm.trans hk'))
  exact h

theorem wp_dupfdCloexec (hfits : s.2.Fits) (hid : s.2.slot fd = some id)
    (hcmd : Fcntl64Cmd.tryFrom cmd = some .F_DUPFD_CLOEXEC)
    {k : Except OSError ℕ → EStateM Panic FileTask (Except ErrorNo ℕ)}
    (hok : ∀ newFd, k (.ok newFd) = (do
      if ← onFile id (·.setCloseOnExec (arg.getLsbD 0)) then pure (.ok newFd)
      else
        match ← onSnd (FdManager.removeFile newFd) with
        | .ok _ => pure (.error .EMFILE)
        | .error e => throw (.unwrap .sysFcntl64 e)))
    (herror : ∀ e, k (.error e) = pure (.error .EMFILE)) :
    wp (onSnd (FdManager.copyFdAnywhere fd) >>= k)
      (fun r s' ↦ s'.2.Fits ∧ Outcome shared own s (.fcntl64 fd cmd arg) r s') anyPanic s := by
  rw [wp_bind, wp_onSnd]
  refine wp_mono (FdManager.wp_copyFdAnywhere_slot hfits hid) (fun r m₁ hr ↦ ?_)
    fun _ _ hp ↦ hp.elim
  obtain ⟨hfits₁, hr⟩ := hr
  cases r with
  | error e =>
    obtain ⟨hnone, rfl⟩ := hr
    rw [herror]
    refine ⟨hfits, .same rfl ((spares_dupfdCloexec hid hcmd).mpr fun newFd b hsome ↦ ?_)⟩
    exact absurd (hnone.symm.trans hsome) (by simp)
  | ok newFd =>
    obtain ⟨⟨b, hb⟩, hslot⟩ := hr
    have hown : (fcntl64 fd cmd arg).own (.ok newFd) own = update own newFd true := by
      simp only [FlagCall.own, hcmd]
    -- the file keeps no flag, and the new descriptor is closed again
    have hremoved : (s.1 id).kind = .socket ∨ (s.1 id).kind = .plain →
        wp (k (.ok newFd)) (fun r s' ↦ s'.2.Fits ∧
          Outcome shared own s (.fcntl64 fd cmd arg) r s') anyPanic (s.1, m₁) := by
      intro hkind
      rw [hok, wp_bind, onFile, wp_modifyGet, StatusFile.setCloseOnExec_other _ hkind,
        update_eq_self]
      refine (wp_bind _ _).mpr ((wp_onSnd _).mpr ?_)
      refine wp_imp (FdManager.wp_removeFile_slot hfits₁ newFd) fun r m₂ hr ↦ ?_
      obtain ⟨hfits₂, hr⟩ := hr
      cases r with
      | error e => trivial
      | ok file =>
        refine ⟨hfits₂, .kept (fun fd' id' hid' ↦ ?_) rfl
          ((spares_dupfdCloexec_of_alloc hid hcmd hb).mpr ?_)⟩
        · dsimp only at hr
          rw [hr, hslot, update_idem, update_apply] at hid'
          split_ifs at hid'
          exact hid'
        · rcases hkind with hkind | hkind <;> rw [hkind] <;> trivial
    cases hkind : (s.1 id).kind with
    | fat =>
      obtain ⟨htrue, hcloses⟩ := StatusFile.setCloseOnExec_fat (arg.getLsbD 0) hkind
      rw [hok, wp_bind, onFile, wp_modifyGet, htrue]
      refine ⟨hfits₁, .put hslot hown ?_⟩
      rw [spares_dupfdCloexec_of_alloc hid hcmd hb, hkind, hcloses]
      refine and_congr_right fun hbit ↦ ?_
      rw [hbit]
      exact forall_congr' fun _ ↦ eq_comm
    | silent =>
      rw [hok, wp_bind, onFile, wp_modifyGet, StatusFile.setCloseOnExec_silent _ hkind,
        update_eq_self]
      refine ⟨hfits₁, .share true hslot hown ?_⟩
      rw [spares_dupfdCloexec_of_alloc hid hcmd hb, hkind, StatusFile.closes_silent hkind]
      exact iff_of_false not_false Bool.false_ne_true
    | socket => exact hremoved (.inl hkind)
    | plain => exact hremoved (.inr hkind)

theorem wp_fcntl64 (hfits : s.2.Fits)
    (hagree : ∀ fd id, s.2.slot fd = some id → (s.1 id).closes = own fd) (fd : ℕ)
    (cmd arg : BitVec 64) :
    wp (run (.fcntl64 fd cmd arg)) (fun r s' ↦ s'.2.Fits ∧
      Outcome shared own s (.fcntl64 fd cmd arg) r s') anyPanic s := by
  rw [run, sysFcntl64, wp_bind, wp_onSnd, FdManager.getFile, wp_bind, wp_get]
  cases hid : s.2.slot fd with
  | none => exact ⟨hfits, .same rfl fun id hid' ↦ absurd (hid.symm.trans hid') (by simp)⟩
  | some id =>
    -- the calls that only read, or fail
    have hsame : ∀ {r : Except ErrorNo ℕ}, (fcntl64 fd cmd arg).own r own = own →
        Spares shared s (.fcntl64 fd cmd arg) →
        s.2.Fits ∧ Outcome shared own s (.fcntl64 fd cmd arg) r s :=
      fun hown hspares ↦ ⟨hfits, .same hown hspares⟩
    dsimp only
    rw [wp_pure]
    dsimp only
    cases hcmd : Fcntl64Cmd.tryFrom cmd with
    | none => exact hsame rfl (by rw [Spares, hcmd]; exact fun _ _ ↦ trivial)
    | some option =>
      cases option with
      | F_DUPFD =>
        refine wp_copyFdAnywhere hfits hid (fun _ ↦ rfl) (fun _ ↦ rfl) (fun _ ↦ ?_) rfl ?_
        · simp only [FlagCall.own, hcmd]
        · rw [Spares, hcmd]
          exact spares_fcntl64 hid
      | F_GETFD =>
        refine hsame ?_ (by rw [Spares, hcmd]; exact fun _ _ ↦ trivial)
        simp only [FlagCall.own, hcmd]
      | F_SETFD => exact wp_setfd hfits hid hcmd
      | F_GETFL =>
        refine hsame ?_ (by rw [Spares, hcmd]; exact fun _ _ ↦ trivial)
        simp only [FlagCall.own, hcmd]
      | F_SETFL =>
        cases hflags : fromBits OpenFlags.all (arg.setWidth 32) with
        | none =>
          refine hsame rfl ?_
          rw [Spares, hcmd]
          intro id' _
          dsimp only
          rw [hflags]
          cases (s.1 id').kind <;> first | trivial | exact fun _ heq ↦ by cases heq
        | some flags => exact wp_setfl hfits hid (hagree fd id hid) hcmd hflags
      | F_DUPFD_CLOEXEC => exact wp_dupfdCloexec hfits hid hcmd (fun _ ↦ rfl) fun _ ↦ rfl

end fcntl64

/-- What a call that returns does to the flags. -/
theorem wp_run (hfits : s.2.Fits)
    (hagree : ∀ fd id, s.2.slot fd = some id → (s.1 id).closes = own fd) (c : FlagCall) :
    wp c.run (fun r s' ↦ s'.2.Fits ∧ Outcome shared own s c r s') anyPanic s := by
  cases c with
  | open_ openFile cloexec => exact wp_open hfits openFile cloexec
  | fcntl64 fd cmd arg => exact wp_fcntl64 hfits hagree fd cmd arg
  | dup fd => exact wp_dup hfits fd
  | dup3 oldFd newFd => exact wp_dup3 hfits hagree oldFd newFd
  | close fd => exact wp_close hfits fd
  | exec => exact wp_exec hfits

end FlagCall

/-! ## Runs -/

/-- The files by number, the descriptor tables of the processes, and the flag that each descriptor
is meant to have. A file that is not open has the flags with which it will be opened. -/
structure Procs (δ : Type) where
  files : ℕ → StatusFile
  tables : δ → FdManager ℕ
  own : δ → ℕ → Bool

namespace Procs

variable {δ : Type}

inductive Event (δ : Type)
  | call (t : δ) (c : FlagCall)
  | fork (t child : δ)

/-- What `exec` closes. -/
def closed (s : Procs δ) (t : δ) : Set ℕ :=
  {fd | (s.tables t).slot fd ≠ none ∧
    wp execFiles (fun _ s' ↦ s'.2.slot fd = none) noPanic (s.files, s.tables t)}

/-- What `exec` is meant to close. -/
def flagged (s : Procs δ) (t : δ) : Set ℕ := {fd | (s.tables t).slot fd ≠ none ∧ s.own t fd = true}

/-- Each descriptor has its own flag: `exec` closes those whose flag is set. -/
def OwnFlags (s : Procs δ) : Prop := ∀ t, s.closed t = s.flagged t

/-- A descriptor other than `fd` of `t` has the file. -/
def Shared (s : Procs δ) (t : δ) (fd id : ℕ) : Prop :=
  ∃ t' fd', (t', fd') ≠ (t, fd) ∧ (s.tables t').slot fd' = some id

def Spares (s : Procs δ) : Event δ → Prop
  | .call t c => c.Spares (s.Shared t) (s.files, s.tables t)
  | .fork _ _ => True

/-- The flags of the files are those of their descriptors. -/
def Agree (s : Procs δ) : Prop :=
  ∀ t fd id, (s.tables t).slot fd = some id → (s.files id).closes = s.own t fd

theorem ownFlags_iff {s : Procs δ} : s.OwnFlags ↔ s.Agree := by
  have hclosed : ∀ {t fd id}, (s.tables t).slot fd = some id →
      (fd ∈ s.closed t ↔ (s.files id).closes = true) := by
    intro t fd id hid
    refine (and_iff_right (by rw [hid]; simp)).trans ?_
    rw [execFiles, wp_bind, wp_get, wp_bind, wp_onSnd, FdManager.closeCloexecFiles, wp_modify]
    change FdManager.slot _ fd = none ↔ _
    rw [FdManager.slot_map_filter, hid, Option.filter_some]
    cases (s.files id).closes <;> simp
  have hflagged : ∀ {t fd id}, (s.tables t).slot fd = some id →
      (fd ∈ s.flagged t ↔ s.own t fd = true) := fun hid ↦
    and_iff_right (by rw [hid]; simp)
  constructor
  · intro h t fd id hid
    rw [Bool.eq_iff_iff, ← hclosed hid, ← hflagged hid, h t]
  · intro h t
    ext fd
    cases hid : (s.tables t).slot fd with
    | none => exact iff_of_false (fun hfd ↦ hfd.1 hid) fun hfd ↦ hfd.1 hid
    | some id => rw [hclosed hid, hflagged hid, h t fd id hid]

variable [DecidableEq δ]

/-- A run of a call, or a fork; `none` is a panic. -/
def step (s : Procs δ) : Event δ → Option (Procs δ)
  | .call t c =>
    match c.run.run (s.files, s.tables t) with
    | .ok r (files, m) => some
        { files, tables := update s.tables t m, own := update s.own t (c.own r (s.own t)) }
    | .error _ _ => none
  | .fork t child => (s.tables t).copyAll.map fun m ↦
    { s with tables := update s.tables child m, own := update s.own child (s.own t) }

def next (s : Procs δ) (e : Event δ) : Procs δ := (s.step e).getD s

/-- A value of one descriptor of one process changes. -/
theorem update_update_apply {β : Type} (f : δ → ℕ → β) (t : δ) (fd : ℕ) (b : β) (t' : δ) (fd' : ℕ) :
    update f t (update (f t) fd b) t' fd' = if (t', fd') = (t, fd) then b else f t' fd' := by
  by_cases ht : t' = t
  · subst ht
    rw [update_self, update_apply]
    simp only [Prod.mk.injEq, true_and]
  · rw [update_of_ne ht, if_neg fun heq ↦ ht (Prod.mk.inj heq).1]

/-- A file is put under a descriptor with a flag of its own. -/
theorem agree_put_iff {s : Procs δ} (hagree : s.Agree) {t : δ} {m' : FdManager ℕ} {fd id : ℕ}
    (hslot : m'.slot = update (s.tables t).slot fd (some id)) (file : StatusFile) (flag : Bool) :
    Agree ⟨update s.files id file, update s.tables t m',
        update s.own t (update (s.own t) fd flag)⟩ ↔
      file.closes = flag ∧ (s.Shared t fd id → file.closes = (s.files id).closes) := by
  -- only the descriptor `fd` of `t` stands for another file
  have hput : ∀ t' fd', (update s.tables t m' t').slot fd' =
      if (t', fd') = (t, fd) then some id else (s.tables t').slot fd' := by
    intro t' fd'
    have hslots : (update s.tables t m' t').slot =
        update (fun t ↦ (s.tables t).slot) t m'.slot t' :=
      (apply_update (fun _ ↦ FdManager.slot) s.tables t m' t')
    rw [hslots, hslot]
    exact update_update_apply (fun t ↦ (s.tables t).slot) t fd (some id) t' fd'
  constructor
  · intro h
    have hall : ∀ t' fd', (update s.tables t m' t').slot fd' = some id →
        file.closes = update s.own t (update (s.own t) fd flag) t' fd' := by
      intro t' fd' hid'
      refine Eq.trans ?_ (h t' fd' id hid')
      exact (congrArg StatusFile.closes (update_self ..)).symm
    refine ⟨?_, ?_⟩
    · have hfd := hall t fd (by rw [hput, if_pos rfl])
      rwa [update_update_apply, if_pos rfl] at hfd
    · rintro ⟨t', fd', hne, hid'⟩
      have hfd' := hall t' fd' (by rw [hput, if_neg hne, hid'])
      rw [hfd', update_update_apply, if_neg hne, hagree t' fd' id hid']
  · rintro ⟨hflag, hshared⟩ t' fd' id' hid'
    change (update s.tables t m' t').slot fd' = some id' at hid'
    change (update s.files id file id').closes = update s.own t (update (s.own t) fd flag) t' fd'
    rw [hput] at hid'
    rw [update_update_apply]
    split_ifs at hid' ⊢ with heq
    · obtain rfl := Option.some.inj hid'
      rw [update_self, hflag]
    · rw [← hagree t' fd' id' hid']
      by_cases hid : id' = id
      · subst hid
        rw [update_self, hshared ⟨t', fd', heq, hid'⟩]
      · rw [update_of_ne hid]

/-- The processes but one keep their descriptors, and this one has no new files. -/
theorem agree_kept {s : Procs δ} (hagree : s.Agree) {t : δ} {m' : FdManager ℕ} {own : ℕ → Bool}
    (h : ∀ fd id, m'.slot fd = some id → (s.files id).closes = own fd) :
    Agree ⟨s.files, update s.tables t m', update s.own t own⟩ := by
  intro t' fd' id' hid'
  dsimp only at hid' ⊢
  by_cases ht : t' = t
  · subst ht
    rw [update_self] at hid' ⊢
    exact h fd' id' hid'
  · rw [update_of_ne ht] at hid' ⊢
    exact hagree t' fd' id' hid'

/-- After an event the descriptors have their own flags if and only if the event spares them. -/
theorem agree_next_iff {s : Procs δ} (hfits : ∀ t, (s.tables t).Fits) (hagree : s.Agree)
    {e : Event δ} (hvalid : (s.step e).isSome) :
    ((s.next e).Agree ↔ s.Spares e) ∧ ∀ t, ((s.next e).tables t).Fits := by
  obtain ⟨s', hs'⟩ := Option.isSome_iff_exists.mp hvalid
  rw [next, hs', Option.getD_some]
  -- only the table of the caller changes
  have htables : ∀ {t : δ} {m' : FdManager ℕ}, m'.Fits → ∀ t', (update s.tables t m' t').Fits := by
    intro t m' hm' t'
    by_cases ht : t' = t
    · subst ht
      rwa [update_self]
    · rw [update_of_ne ht]
      exact hfits t'
  cases e with
  | call t c =>
    have hrun : wp c.run (fun r s' ↦ s'.2.Fits ∧ c.Outcome (s.Shared t) (s.own t) _ r s')
        anyPanic _ :=
      FlagCall.wp_run (s := (s.files, s.tables t)) (hfits t) (hagree t) c
    rw [step] at hs'
    cases hr : c.run.run (s.files, s.tables t) with
    | error e _ =>
      rw [hr] at hs'
      cases hs'
    | ok r s₁ =>
      rw [hr] at hs'
      obtain rfl := Option.some.inj hs'
      obtain ⟨hfits', hout⟩ := wp_ok hrun hr
      refine ⟨?_, htables hfits'⟩
      cases hout with
      | kept hslot hown hspares =>
        refine iff_of_true ?_ hspares
        rw [hown]
        exact agree_kept hagree fun fd id hid ↦ hagree t fd id (hslot fd id hid)
      | @put m' fd id file flag hslot hown hiff =>
        rw [hown]
        exact (agree_put_iff hagree hslot file flag).trans hiff.symm
  | fork t child =>
    obtain ⟨m', hcopy, rfl⟩ := Option.map_eq_some_iff.mp hs'
    refine ⟨iff_of_true ?_ trivial, htables (FdManager.fits_copyAll hcopy)⟩
    refine agree_kept hagree fun fd id hid ↦ ?_
    rw [FdManager.copyAll_slot (hfits t) hcopy] at hid
    exact hagree t fd id hid

end Procs

/-- In a run that does not panic, `exec` closes in every state the descriptors whose own flag is
set, in every process, if and only if every call leaves the flag of a file as the descriptors that
share it have it. -/
theorem ownFlags_iff_spares {δ : Type} [DecidableEq δ] {s : Procs δ} {events : List (Procs.Event δ)}
    (hreach : ∀ t, FdManager.Reach (fun _ _ ↦ True) (s.tables t)) (hs : s.OwnFlags)
    (hvalid : Throughout Procs.next (fun s e ↦ (s.step e).isSome) s events) :
    Throughout Procs.next (fun s e ↦ (s.next e).OwnFlags) s events ↔
      Throughout Procs.next Procs.Spares s events := by
  have hfits : ∀ t, (s.tables t).Fits := fun t ↦ (hreach t).fits
  refine Throughout.iff (I := fun s ↦ (∀ t, (s.tables t).Fits) ∧ s.Agree) hvalid
    ⟨hfits, Procs.ownFlags_iff.mp hs⟩ ?_ ?_
  · intro s e hI hsome
    exact Procs.ownFlags_iff.trans (Procs.agree_next_iff hI.1 hI.2 hsome).1
  · intro s e hI hsome hspares
    obtain ⟨hiff, hfits⟩ := Procs.agree_next_iff hI.1 hI.2 hsome
    exact ⟨hfits, hiff.mpr hspares⟩

/-- Processes with the standard files in their table. The file with number 3 is not open. -/
def Procs.start (table : FdManager ℕ) : Procs ℕ where
  files id := if id < 3 then ⟨.silent, 0⟩ else ⟨.fat, OpenFlags.RDWR⟩
  tables _ := table
  own _ _ := false

theorem Procs.ownFlags_start (table : FdManager ℕ) : (Procs.start table).OwnFlags := by
  refine Procs.ownFlags_iff.mpr fun t fd id _ ↦ ?_
  change StatusFile.closes (if id < 3 then ⟨.silent, 0⟩ else ⟨.fat, OpenFlags.RDWR⟩) = false
  split_ifs <;> decide

/-- A table with the standard files. -/
def FdManager.standard : FdManager ℕ := (FdManager.new 0 1 2 0).get (by decide +kernel)

theorem Procs.reach_start (t : ℕ) :
    FdManager.Reach (fun _ _ ↦ True) ((Procs.start FdManager.standard).tables t) := by
  have hstart : ∀ {m : FdManager ℕ}, FdManager.new 0 1 2 0 = some m →
      FdManager.Reach (fun _ _ ↦ True) ((Procs.start m).tables t) := fun h ↦ .new h
  exact hstart (Option.some_get _).symm

/-- A process opens a file, sets its flag, and has a child. -/
theorem ownFlags_iff_spares_fork :
    Throughout Procs.next (fun s e ↦ (s.next e).OwnFlags) (Procs.start .standard)
        [.call 0 (.open_ (.ok 3) false), .call 0 (.fcntl64 3 2 1), .fork 0 1, .call 1 .exec] ↔
      Throughout Procs.next Procs.Spares (Procs.start .standard)
        [.call 0 (.open_ (.ok 3) false), .call 0 (.fcntl64 3 2 1), .fork 0 1, .call 1 .exec] :=
  ownFlags_iff_spares Procs.reach_start (Procs.ownFlags_start _) (by decide +kernel)

/-- A process sets the flag of one of two descriptors of a file, and `exec` closes the other one. -/
theorem not_ownFlags : ∃ (s : Procs ℕ) (events : List (Procs.Event ℕ)),
    (∀ t, FdManager.Reach (fun _ _ ↦ True) (s.tables t)) ∧ s.OwnFlags ∧
      Throughout Procs.next (fun s e ↦ (s.step e).isSome) s events ∧
      ¬Throughout Procs.next (fun s e ↦ (s.next e).OwnFlags) s events := by
  refine ⟨.start .standard,
    [.call 0 (.open_ (.ok 3) false), .call 0 (.dup 3), .call 0 (.fcntl64 3 2 1)],
    Procs.reach_start, Procs.ownFlags_start _, by decide +kernel, ?_⟩
  rintro ⟨-, -, h, -⟩
  exact absurd (Procs.ownFlags_iff.mp h 0 4 3 (by decide +kernel)) (by decide +kernel)

end Maturin
