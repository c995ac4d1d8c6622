import Maturin.Lib.FlatMem
import Maturin.Memory.Contents
import Maturin.Memory.FillFrame

/-!
# Which path touches a page first

A page without a frame gets one in two places: `get_frame` fills it from the file behind the area,
the loop under `read` and `write` fills it with zeros. A run of calls keeps to the contents of the
file and its own writes as long as each call that adds a frame fills it with what the page shows.
When `read` or `write` is the first to touch a page where the file has other bytes than zeros, those
bytes are lost.
-/

open Exec

namespace Maturin

variable {σ : Type}

/-- What a page without a frame shows: the bytes of the file, as far as it can be read. -/
def PmAreaLazy.source (pma : PmAreaLazy FatFile) (files : FsFile) : ByteMem :=
  match pma.backend with
  | some backend =>
    if backend.policy.reads && backend.file.readable then
      fun k ↦ files.contents (backend.offset + k)
    else fun _ ↦ 0
  | none => fun _ ↦ 0

theorem PmAreaLazy.source_congr {pma pma' : PmAreaLazy FatFile} {files files' : FsFile}
    (hback : pma'.backend = pma.backend) (hfiles : files'.contents = files.contents) :
    pma'.source files' = pma.source files := by
  rw [source, source, hback, hfiles]

/-! ## The calls -/

/-- A call of an area that gives pages frames. -/
inductive PmaCall
  | getFrame (idx : ℕ)
  | read (offset : ℕ) (dst : List UInt8)
  | write (offset : ℕ) (src : List UInt8)

namespace PmaCall

/-- The call stays inside the area. -/
def InRange : PmaCall → PmAreaLazy FatFile → Prop
  | getFrame idx, pma => idx < pma.frames.length
  | read offset buf, pma | write offset buf, pma =>
    offset < pma.size ∧ offset + buf.length ≤ pma.size

/-- The frames that the call adds are filled with what the pages show. -/
def Fills : PmaCall → PmAreaLazy FatFile → FsFile → Prop
  | getFrame idx, pma, files => pma.frames[idx]? = some none → ∀ backend ∈ pma.backend,
      (backend.policy.reads && backend.file.readable) = true → backend.Fillable files idx
  | read offset buf, pma, files | write offset buf, pma, files =>
    ∀ i, InPages offset buf.length i → pma.frames[i]? = some none → ZeroPage (pma.source files) i

/-- The access that a call with the given result was. A write that fails may have written a part of
its range. -/
inductive Explains : PmaCall → Option (List UInt8) → MemEvent → Prop
  | getFrame {idx bytes} : Explains (getFrame idx) (some bytes) (.read (idx * PAGE_SIZE) bytes)
  | getFrameFailed {idx} : Explains (getFrame idx) none (.read (idx * PAGE_SIZE) [])
  | read {offset dst bytes} : bytes.length = dst.length →
      Explains (read offset dst) (some bytes) (.read offset bytes)
  | readFailed {offset dst} : Explains (read offset dst) none (.read offset [])
  | write {offset src} : Explains (write offset src) (some []) (.write offset src)
  | writeFailed {offset src j} : Explains (write offset src) none (.write offset (src.take j))

variable [FrameAllocator σ]

/-- The call, with the bytes that are found in the frame, or that it read. -/
def exec (pma : PmAreaLazy FatFile) :
    PmaCall → EStateM Panic (World σ FsFile) (Option (List UInt8) × PmAreaLazy FatFile)
  | getFrame idx => do
    let (r, pma) ← pma.getFrame idx true
    match r with
    | .ok (some frame) =>
      let w ← get
      pure (some (w.mem.readBytes frame PAGE_SIZE), pma)
    | .ok none | .error _ => pure (none, pma)
  | read offset dst => do
    let (r, pma, dst) ← pma.read offset dst
    pure (r.toOption.map fun _ ↦ dst, pma)
  | write offset src => do
    let (r, pma) ← pma.write offset src
    pure (r.toOption.map fun _ ↦ [], pma)

end PmaCall

/-- A run of calls, each of which meets a condition in the state before it. -/
inductive PmaRun [FrameAllocator σ]
    (C : PmaCall → PmAreaLazy FatFile → World σ FsFile → Prop) :
    PmAreaLazy FatFile → World σ FsFile → List (PmaCall × Option (List UInt8)) →
      PmAreaLazy FatFile → World σ FsFile → Prop
  | nil (pma w) : PmaRun C pma w [] pma w
  | cons {pma w c r pma₁ w₁ log pma' w'} : C c pma w → (c.exec pma).run w = .ok (r, pma₁) w₁ →
      PmaRun C pma₁ w₁ log pma' w' → PmaRun C pma w ((c, r) :: log) pma' w'

/-- What the calls found depends on the file and their writes alone: each byte was written last, or
was there at the start. -/
def Faithful (pma : PmAreaLazy FatFile) (w : World σ FsFile)
    (log : List (PmaCall × Option (List UInt8))) : Prop :=
  ∃ events, List.Forall₂ (fun x e ↦ x.1.Explains x.2 e) log events ∧
    ReadsLast (pma.contents (pma.source w.files) w.mem) events

/-! ## One call -/

section step

variable [FrameAllocator σ] {pma : PmAreaLazy FatFile} {w : World σ FsFile} {idx : ℕ}

omit [FrameAllocator σ] in
/-- The frame of a page holds what the page showed before. -/
theorem wp_fillFrame_source {p : ℕ} (hfills : ∀ backend ∈ pma.backend,
      (backend.policy.reads && backend.file.readable) = true → backend.Fillable w.files idx) :
    wp (pma.fillFrame idx p) (fun _ w' ↦ w'.files.contents = w.files.contents ∧
      ∀ x < PAGE_SIZE, w'.mem (p + x) = pma.source w.files (idx * PAGE_SIZE + x)) noPanic w := by
  cases hback : pma.backend with
  | none =>
    rw [PmAreaLazy.fillFrame, hback]
    refine ⟨rfl, fun x hx ↦ ?_⟩
    rw [PmAreaLazy.source, hback]
    exact ByteMem.fill_of_mem ⟨by omega, by omega⟩
  | some backend =>
    refine wp_imp (wp_fillFrame_fat hback) fun _ w' hw ↦ ⟨hw.1, fun x hx ↦ ?_⟩
    have hpage := hw.2
    rw [PmAreaLazy.source, hback]
    dsimp only
    by_cases hread : (backend.policy.reads && backend.file.readable) = true
    · rw [BackEndFile.fillable_iff.mp (hfills backend hback hread) _ ByteMem.length_readBytes,
        filePage, ByteMem.readBytes_eq_iff] at hpage
      rw [if_pos hread, hpage x hx, Nat.add_assoc]
    · rw [BackEndFile.filled, if_neg hread] at hpage
      rw [if_neg hread, ByteMem.replicate_eq_readBytes_iff.mp hpage.symm x hx]

/-- A frame that is filled with what the page shows changes no byte. -/
theorem PmAreaLazy.Owns.wp_getFrame (h : pma.Owns w) (hidx : idx < pma.frames.length)
    (hfills : (PmaCall.getFrame idx).Fills pma w.files) :
    wp (pma.getFrame idx true) (fun r w' ↦ Grown pma w r.2 w' ∧
      w'.files.contents = w.files.contents ∧
      r.2.contents (pma.source w.files) w'.mem = pma.contents (pma.source w.files) w.mem ∧
      ((∃ p, r.1 = .ok (some p) ∧ r.2.frames[idx]? = some (some p)) ∨
        r.1 = .error .memory_runOutOfMemory)) noPanic w := by
  cases hframe : pma.frames[idx]? with
  | none => exact absurd (List.getElem?_eq_none_iff.mp hframe) (not_le.mpr hidx)
  | some frame =>
    cases frame with
    | some p =>
      rw [wp_getFrame_some hframe]
      exact ⟨h.grown, rfl, rfl, Or.inl ⟨p, rfl, hframe⟩⟩
    | none =>
      rw [getFrame, hframe]
      dsimp only
      rw [if_pos rfl, wp_bind]
      refine wp_mono (wp_and wp_frameNew wp_frameNew_files) (fun r w₁ hr ↦ ?_) fun _ _ hp ↦ hp.1
      cases r with
      | none =>
        obtain ⟨rfl, -⟩ := hr
        refine ⟨⟨⟨h.frame, h.inj⟩, rfl, rfl, id, Or.inl, fun q hq _ _ ↦ ⟨hq, fun _ _ _ ↦ rfl⟩,
          subset_rfl, fun _ ↦ rfl⟩, rfl, rfl, Or.inr rfl⟩
      | some p =>
        obtain ⟨⟨hfresh, hal, hlt, huse, hmem, hoom⟩, hfiles⟩ := hr
        dsimp only
        rw [wp_bind]
        -- the frame is filled with what the page showed without it
        have hfill := wp_fillFrame_source (w := w₁) (p := p) fun backend hb hread ↦
          hfiles.symm ▸ hfills hframe backend hb hread
        rw [hfiles] at hfill
        refine wp_mono (wp_and wp_fillFrame hfill) (fun _ w₂ hw ↦ ?_) fun _ _ hp ↦ hp.1
        obtain ⟨⟨huse₂, hoom₂, hmem₂⟩, hcontents, hpage⟩ := hw
        have hout : ∀ x, x < p ∨ p + PAGE_SIZE ≤ x → w₂.mem x = w.mem x := fun x hx ↦
          (hmem₂ x hx).trans (by rw [hmem])
        refine ⟨Grown.alloc h hframe hfresh hal hlt (huse₂.trans huse) hout fun ho ↦ ?_, hcontents,
          h.contents_alloc hframe hfresh hal hout hpage,
          Or.inl ⟨p, rfl, List.getElem?_set_self hidx⟩⟩
        rwa [hoom₂, hoom]

/-- One call is one access to the contents. -/
theorem PmAreaLazy.Owns.wp_exec (h : pma.Owns w) (hlt : pma.size < 2 ^ 64) {c : PmaCall}
    (hrange : c.InRange pma) (hfills : c.Fills pma w.files) :
    wp (c.exec pma) (fun r w' ↦ Grown pma w r.2 w' ∧ w'.files.contents = w.files.contents ∧
      ∃ e, c.Explains r.1 e ∧ e.Agrees (pma.contents (pma.source w.files) w.mem) ∧
        r.2.contents (pma.source w.files) w'.mem
          = e.apply (pma.contents (pma.source w.files) w.mem)) noPanic w := by
  cases c with
  | getFrame idx =>
    rw [PmaCall.exec, wp_bind]
    refine wp_imp (h.wp_getFrame hrange hfills) fun r w' hr ↦ ?_
    rcases r with ⟨res, pma'⟩
    obtain ⟨hgrown, hfiles, hcontents, ⟨p, rfl, hp⟩ | rfl⟩ := hr
    · refine ⟨hgrown, hfiles, _, .getFrame, ?_, hcontents⟩
      have hdiv : idx * PAGE_SIZE / PAGE_SIZE = idx := Nat.mul_div_cancel _ (by norm_num)
      rw [← hdiv] at hp
      rw [MemEvent.Agrees, ByteMem.length_readBytes, ← hcontents,
        PmAreaLazy.Owns.readBytes_contents hp (by rw [Nat.mul_mod_left]; omega), Nat.mul_mod_left,
        Nat.add_zero]
    · exact ⟨hgrown, hfiles, _, .getFrameFailed, rfl, hcontents⟩
  | read offset dst =>
    rw [PmaCall.exec, wp_bind]
    refine wp_imp (h.wp_read hrange.1 hrange.2 (hrange.2.trans_lt hlt) hfills) fun r w' hr ↦ ?_
    rcases r with ⟨res, pma', dst'⟩
    obtain ⟨hgrown, hfiles, hcontents, hlen, ⟨rfl, rfl⟩ | ⟨rfl, -⟩⟩ := hr
    · refine ⟨hgrown, congrArg _ hfiles, _, .read hlen, ?_, hcontents⟩
      rw [MemEvent.Agrees, ByteMem.length_readBytes]
    · exact ⟨hgrown, congrArg _ hfiles, _, .readFailed, rfl, hcontents⟩
  | write offset src =>
    rw [PmaCall.exec, wp_bind]
    refine wp_imp (h.wp_write hrange.1 hrange.2 (hrange.2.trans_lt hlt) hfills) fun r w' hr ↦ ?_
    rcases r with ⟨res, pma'⟩
    obtain ⟨hgrown, hfiles, ⟨rfl, hcontents⟩ | ⟨j, -, rfl, -, hcontents⟩⟩ := hr
    · exact ⟨hgrown, congrArg _ hfiles, _, .write, trivial, hcontents⟩
    · exact ⟨hgrown, congrArg _ hfiles, _, .writeFailed, trivial, hcontents⟩

end step

/-! ## Runs -/

section runs

variable [FrameAllocator σ] {pma pma' : PmAreaLazy FatFile} {w w' : World σ FsFile}
variable {log : List (PmaCall × Option (List UInt8))}

/-- A run that fills pages with what they show is a run of the contents. -/
theorem PmaRun.exists_flatRun
    (hrun : PmaRun (fun c pma w ↦ c.InRange pma ∧ c.Fills pma w.files) pma w log pma' w')
    (h : pma.Owns w) (hlt : pma.size < 2 ^ 64) :
    ∃ events, List.Forall₂ (fun x e ↦ x.1.Explains x.2 e) log events ∧
      FlatRun (pma.contents (pma.source w.files) w.mem) events
        (pma'.contents (pma.source w.files) w'.mem) := by
  induction hrun with
  | nil pma w => exact ⟨[], .nil, .nil _⟩
  | @cons pma w c r pma₁ w₁ log pma' w' hc hexec _ ih =>
    obtain ⟨hgrown, hfiles, e, hexplains, hagrees, hcontents⟩ :=
      wp_ok (h.wp_exec hlt hc.1 hc.2) hexec
    obtain ⟨events, hall, hflat⟩ := ih hgrown.owns (by rw [hgrown.size_eq]; exact hlt)
    rw [PmAreaLazy.source_congr hgrown.backend_eq hfiles, hcontents] at hflat
    exact ⟨e :: events, .cons hexplains hall, .cons hagrees hflat⟩

/-- **Runs that fill pages with what they show do not depend on the order of the first touches.** -/
theorem PmaRun.faithful
    (hrun : PmaRun (fun c pma w ↦ c.InRange pma ∧ c.Fills pma w.files) pma w log pma' w')
    (h : pma.Owns w) (hlt : pma.size < 2 ^ 64) : Faithful pma w log := by
  obtain ⟨events, hall, hflat⟩ := hrun.exists_flatRun h hlt
  exact ⟨events, hall, hflat.readsLast⟩

end runs

theorem PmAreaLazy.owns_firstPage (w : World Bitmap FsFile) : PmAreaLazy.firstPage.Owns w := by
  have hnone : ∀ {j p : ℕ}, PmAreaLazy.firstPage.frames[j]? ≠ some (some p) := by
    intro j p hj
    cases j <;> simp [PmAreaLazy.firstPage] at hj
  exact ⟨fun hj ↦ absurd hj hnone, fun hj ↦ absurd hj hnone⟩

/-- A page fault in a file of one page, and then a read. -/
theorem faithful_whole : ∃ bytes, Faithful .firstPage (.ofLength PAGE_SIZE (by decide))
    [(.getFrame 0, bytes), (.read 0 [5], some [97])] := by
  obtain ⟨⟨bytes, pma₁⟩, w₁, hrun₁, hr₁⟩ := exists_of_returns
    (x := (PmaCall.getFrame 0).exec .firstPage) (s := World.ofLength PAGE_SIZE (by decide))
    (P := fun r w ↦ r.2.size == PAGE_SIZE && r.2.frames.all (·.isSome) &&
      returns ((PmaCall.read 0 [5]).exec r.2) w fun r _ ↦ r.1 == some [97])
    (by decide +kernel)
  simp only [Bool.and_eq_true, beq_iff_eq, List.all_eq_true] at hr₁
  obtain ⟨⟨hsize, hall⟩, hread⟩ := hr₁
  obtain ⟨⟨r, pma'⟩, w', hrun, hr⟩ := exists_of_returns hread
  obtain rfl : r = some [97] := by simpa using hr
  refine ⟨bytes, PmaRun.faithful (.cons ⟨Nat.one_pos, fun _ backend hback _ ↦ ?_⟩ hrun₁
    (.cons ⟨⟨?_, ?_⟩, fun i _ hi ↦ ?_⟩ hrun (.nil _ _))) (PmAreaLazy.owns_firstPage _) (by decide)⟩
  · obtain rfl := Option.some.inj hback
    rw [BackEndFile.Fillable, if_pos (by decide), if_pos (by decide)]
    exact (Nat.zero_add _).trans_le (List.length_replicate.ge)
  · rw [hsize]
    norm_num
  · rw [hsize]
    norm_num
  · exact absurd (hall _ (List.mem_of_getElem? hi)) (by decide)

/-- A byte that no call wrote is read as zero when `read` is the first to touch its page, and as the
byte of the file when `get_frame` was. -/
theorem not_faithful_short :
    (∃ pma' w', PmaRun (fun c pma _ ↦ c.InRange pma) .firstPage (.ofLength 3 (by decide))
      [(.read 0 [5], some [0])] pma' w') ∧
    (∃ bytes pma' w', PmaRun (fun c pma _ ↦ c.InRange pma) .firstPage (.ofLength 3 (by decide))
      [(.getFrame 0, bytes), (.read 0 [5], some [97])] pma' w') ∧
    ¬Faithful .firstPage (.ofLength 3 (by decide)) [(.read 0 [5], some [0])] := by
  refine ⟨?_, ?_, ?_⟩
  · obtain ⟨⟨r, pma'⟩, w', hrun, hr⟩ := exists_of_returns
      (x := (PmaCall.read 0 [5]).exec .firstPage) (s := World.ofLength 3 (by decide))
      (P := fun r _ ↦ r.1 == some [0]) (by decide +kernel)
    obtain rfl : r = some [0] := by simpa using hr
    exact ⟨pma', w', .cons ⟨by decide, by decide⟩ hrun (.nil _ _)⟩
  · obtain ⟨⟨bytes, pma₁⟩, w₁, hrun₁, hr₁⟩ := exists_of_returns
      (x := (PmaCall.getFrame 0).exec .firstPage) (s := World.ofLength 3 (by decide))
      (P := fun r w ↦ r.2.size == PAGE_SIZE &&
        returns ((PmaCall.read 0 [5]).exec r.2) w fun r _ ↦ r.1 == some [97])
      (by decide +kernel)
    simp only [Bool.and_eq_true, beq_iff_eq] at hr₁
    obtain ⟨hsize, hread⟩ := hr₁
    obtain ⟨⟨r, pma'⟩, w', hrun, hr⟩ := exists_of_returns hread
    obtain rfl : r = some [97] := by simpa using hr
    refine ⟨bytes, pma', w', .cons Nat.one_pos hrun₁ (.cons ⟨?_, ?_⟩ hrun (.nil _ _))⟩
    · rw [hsize]
      norm_num
    · rw [hsize]
      norm_num
  · rintro ⟨events, hall, hreads⟩
    cases hall with
    | cons hexplains hrest =>
      cases hexplains with
      | read hlen =>
        have hbyte := hreads [] 0 [0] _ rfl 0 (by decide)
        exact absurd hbyte (by decide)

end Maturin
