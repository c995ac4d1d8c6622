import Maturin.Fat.Sound

/-!
# Runs on a volume

Any number of files are open on a volume, each with an entry of its own, and are used in any order.
In every run each of them behaves as its bytes do, whatever is done to the others, but for a write
for which there is no free cluster. What is on the disk besides is left alone.
-/

namespace Maturin.Fatfs

/-- A call on a file. -/
inductive FileOp
  | read (len : ℕ)
  | write (buf : List UInt8)
  | seek (pos : SeekFrom)
  | truncate

/-- What a call does to the bytes of a file -/
def FileOp.apply (f : FsFile) : FileOp → FileOut × FsFile
  | .read len => (.bytes (f.read len).1, (f.read len).2)
  | .write buf => (.written (f.write buf).1, (f.write buf).2)
  | .seek pos => ((f.seek pos).1.elim .invalidInput .position, (f.seek pos).2)
  | .truncate => (.truncated, f.truncate)

/-- A volume and the files that are open on it. -/
structure Volume (ι : Type) where
  fs : FileSystem
  file : ι → File

variable {ι : Type} [DecidableEq ι]

namespace Volume

/-- A call on one of the files -/
def step (L : Layout) (v : Volume ι) (e : ι × FileOp) : FileOut × Volume ι :=
  match e.2 with
  | .read len =>
    let (bytes, file) := (v.file e.1).read L len v.fs
    (.bytes bytes, { v with file := Function.update v.file e.1 file })
  | .write buf =>
    let (out, fs, file) := (v.file e.1).write L buf v.fs
    (out, ⟨fs, Function.update v.file e.1 file⟩)
  | .seek pos =>
    let (out, file) := (v.file e.1).seek L pos v.fs
    (out, { v with file := Function.update v.file e.1 file })
  | .truncate =>
    let (fs, file) := (v.file e.1).truncate L v.fs
    (.truncated, ⟨fs, Function.update v.file e.1 file⟩)

/-- Calls one after the other, and what they give -/
def run (L : Layout) (v : Volume ι) : List (ι × FileOp) → List FileOut × Volume ι
  | [] => ([], v)
  | e :: events =>
    let (out, v) := v.step L e
    let (outs, v) := v.run L events
    (out :: outs, v)

end Volume

/-- The bytes follow a call; a write may fail. -/
def Answers (F : ι → FsFile) (e : ι × FileOp) (out : FileOut) (F' : ι → FsFile) : Prop :=
  (out = (e.2.apply (F e.1)).1 ∧ F' = Function.update F e.1 (e.2.apply (F e.1)).2) ∨
    ((∃ buf, e.2 = .write buf) ∧ out = .notEnoughSpace ∧ F' = F)

/-- The bytes follow the calls of a run. -/
inductive Follows : (ι → FsFile) → List (ι × FileOp) → List FileOut → (ι → FsFile) → Prop
  | nil (F : ι → FsFile) : Follows F [] [] F
  | cons {F F₁ F' : ι → FsFile} {e : ι × FileOp} {events : List (ι × FileOp)} {out : FileOut}
      {outs : List FileOut} : Answers F e out F₁ → Follows F₁ events outs F' →
      Follows F (e :: events) (out :: outs) F'

/-- The files have their bytes, and no cluster is in two of them. -/
structure Sound (L : Layout) (v : Volume ι) (chain : ι → List ℕ) (F : ι → FsFile) : Prop where
  sim : ∀ i, FileSim L v.fs.disk (chain i) (v.file i) (F i)
  apart : ∀ i j, i ≠ j → ∀ c ∈ chain i, c ∉ chain j
  ok : v.fs.Ok L

/-- What a call does to what is no file's -/
structure Spared (L : Layout) (v v' : Volume ι) (chain chain' : ι → List ℕ) : Prop where
  mirrored : L.fat.Mirrored v.fs.disk → L.fat.Mirrored v'.fs.disk
  kept : ∀ c, L.IsCluster c → L.table v.fs.disk c ≠ .free → (∀ i, c ∉ chain i) →
    L.table v'.fs.disk c = L.table v.fs.disk c ∧
      (∀ x, L.InCluster c x → v'.fs.disk x = v.fs.disk x) ∧ ∀ i, c ∉ chain' i

variable {L : Layout} {v v' v'' : Volume ι} {chain chain' chain'' : ι → List ℕ} {F F' : ι → FsFile}
  {i : ι} {fs' : FileSystem} {places : List ℕ} {file' : File} {f' : FsFile}

omit [DecidableEq ι] in
theorem Spared.trans (h : Spared L v v' chain chain') (h' : Spared L v' v'' chain' chain'') :
    Spared L v v'' chain chain'' where
  mirrored hm := h'.mirrored (h.mirrored hm)
  kept c hc hused hout := by
    obtain ⟨htable, hbytes, hout'⟩ := h.kept c hc hused hout
    obtain ⟨htable', hbytes', hout''⟩ := h'.kept c hc (htable ▸ hused) hout'
    exact ⟨htable'.trans htable, fun x hx ↦ (hbytes' x hx).trans (hbytes x hx), hout''⟩

/-- A call on one file is no matter to the others. -/
theorem Sound.changed (h : Sound L v chain F) (hsim : FileSim L fs'.disk places file' f')
    (hchanged : Changed L v.fs fs' (chain i) places) :
    Sound L ⟨fs', Function.update v.file i file'⟩ (Function.update chain i places)
        (Function.update F i f') ∧
      Spared L v ⟨fs', Function.update v.file i file'⟩ chain (Function.update chain i places) := by
  have hothers : ∀ j, j ≠ i → ∀ c ∈ chain j, c ∉ places := fun j hj c hc hmem ↦
    (hchanged.taken c hmem).elim (h.apart j i hj c hc) ((h.sim j).used c hc)
  refine ⟨⟨fun j ↦ ?_, fun j k hjk c hc ↦ ?_, hchanged.ok⟩, hchanged.mirrored,
    fun c hc hused hout ↦ ?_⟩
  · dsimp only
    by_cases hj : j = i
    · subst hj
      rwa [Function.update_self, Function.update_self, Function.update_self]
    · rw [Function.update_of_ne hj, Function.update_of_ne hj, Function.update_of_ne hj]
      have hkept : ∀ c ∈ chain j, L.table fs'.disk c = L.table v.fs.disk c ∧
          ∀ x, L.InCluster c x → fs'.disk x = v.fs.disk x := fun c hc ↦
        hchanged.kept c ((h.sim j).clusters c hc) ((h.sim j).used c hc) (h.apart j i hj c hc)
      exact (h.sim j).congr (fun c hc ↦ (hkept c hc).1) fun c hc ↦ (hkept c hc).2
  · by_cases hj : j = i
    · subst hj
      rw [Function.update_self] at hc
      rw [Function.update_of_ne (Ne.symm hjk)]
      exact fun hmem ↦ hothers k (Ne.symm hjk) c hmem hc
    · rw [Function.update_of_ne hj] at hc
      by_cases hk : k = i
      · subst hk
        rw [Function.update_self]
        exact hothers j hj c hc
      · rw [Function.update_of_ne hk]
        exact h.apart j k hjk c hc
  · obtain ⟨htable, hbytes⟩ := hchanged.kept c hc hused (hout i)
    refine ⟨htable, hbytes, fun j hmem ↦ ?_⟩
    by_cases hj : j = i
    · subst hj
      rw [Function.update_self] at hmem
      exact (hchanged.taken c hmem).elim (hout j) hused
    · rw [Function.update_of_ne hj] at hmem
      exact hout j hmem

/-- **A call does to the bytes what it says**, or there is no free cluster for a write. -/
theorem Sound.step (h : Sound L v chain F) (e : ι × FileOp) :
    ∃ chain' F', Sound L (v.step L e).2 chain' F' ∧ Spared L v (v.step L e).2 chain chain' ∧
      Answers F e (v.step L e).1 F' ∧
      ((v.step L e).1 = .notEnoughSpace →
        ∀ n, L.IsCluster n → L.table v.fs.disk n ≠ .free) := by
  obtain ⟨i, op⟩ := e
  have hsim := h.sim i
  have hstay : ∀ {file' f'}, FileSim L v.fs.disk (chain i) file' f' →
      Sound L { v with file := Function.update v.file i file' }
        (Function.update chain i (chain i)) (Function.update F i f') ∧
      Spared L v { v with file := Function.update v.file i file' } chain
        (Function.update chain i (chain i)) := fun hfile ↦ h.changed hfile (.refl h.ok)
  cases op with
  | read len =>
    obtain ⟨hbytes, hfile⟩ := hsim.read len
    obtain ⟨hsound, hspared⟩ := hstay hfile
    exact ⟨_, _, hsound, hspared, .inl ⟨congrArg FileOut.bytes hbytes, rfl⟩,
      fun hout ↦ by cases hout⟩
  | seek pos =>
    obtain ⟨hout, hfile⟩ := hsim.seek pos
    obtain ⟨hsound, hspared⟩ := hstay hfile
    refine ⟨_, _, hsound, hspared, .inl ⟨hout, rfl⟩, fun hspace ↦ ?_⟩
    have hspace' := hout.symm.trans hspace
    cases hpos : ((F i).seek pos).1 <;> rw [hpos] at hspace' <;> cases hspace'
  | write buf =>
    rcases hsim.write h.ok buf with ⟨hout, hno, hfile, hchanged⟩ | ⟨places, hout, hfile, hchanged⟩
    · obtain ⟨hsound, hspared⟩ := h.changed hfile hchanged
      rw [Function.update_eq_self i F] at hsound
      exact ⟨_, _, hsound, hspared, .inr ⟨⟨buf, rfl⟩, hout, rfl⟩, fun _ ↦ hno⟩
    · obtain ⟨hsound, hspared⟩ := h.changed hfile hchanged
      exact ⟨_, _, hsound, hspared, .inl ⟨hout, rfl⟩,
        fun hspace ↦ by cases hout.symm.trans hspace⟩
  | truncate =>
    obtain ⟨places, hfile, hchanged⟩ := hsim.truncate h.ok
    obtain ⟨hsound, hspared⟩ := h.changed hfile hchanged
    exact ⟨_, _, hsound, hspared, .inl ⟨rfl, rfl⟩, fun hspace ↦ by cases hspace⟩

theorem Sound.run (h : Sound L v chain F) (events : List (ι × FileOp)) :
    ∃ chain' F', Sound L (v.run L events).2 chain' F' ∧
      Spared L v (v.run L events).2 chain chain' ∧ Follows F events (v.run L events).1 F' := by
  induction events generalizing v chain F with
  | nil =>
    exact ⟨chain, F, h, ⟨id, fun c _ _ hout ↦ ⟨rfl, fun _ _ ↦ rfl, hout⟩⟩, .nil F⟩
  | cons e events ih =>
    obtain ⟨chain₁, F₁, hsound, hspared, hanswers, -⟩ := h.step e
    obtain ⟨chain', F', hsound', hspared', hfollows⟩ := ih hsound
    exact ⟨chain', F', hsound', hspared.trans hspared', .cons hanswers hfollows⟩

/-! ## What a volume gives -/

theorem small_fits : ∀ cluster < 2 + RESERVED_FAT_ENTRIES,
    FatType.fat12.Fits ⟨512, 512, 2⟩ cluster := by
  intro c hc
  have hlt : c < 4 := hc
  change c + c / 2 + 2 ≤ 512
  omega

theorem small_clusters_le : 2 + RESERVED_FAT_ENTRIES ≤ FatType.fat12.bad := by decide

theorem small_cluster_pos : 0 < 1 * 512 := by decide

theorem small_flags_lt : 0x41 < 512 := by decide

theorem small_fat_le : 512 + 2 * 512 ≤ 3 * 512 := by decide

/-- A volume of two clusters -/
def small : Layout where
  fatType := .fat12
  fat := ⟨512, 512, 2⟩
  totalClusters := 2
  mirrors_pos := Nat.two_pos
  fits := small_fits
  clusters_le := small_clusters_le
  bytesPerSector := 512
  sectorsPerCluster := 1
  firstDataSector := 3
  statusFlags := ⟨false, false⟩
  cluster_pos := small_cluster_pos
  flags_lt := small_flags_lt
  fat_le := small_fat_le

/-- The first cluster is in use, and both files are empty. -/
def fresh : Volume Bool where
  fs := {
    disk := fun x ↦ if x % 512 = 3 then 0xFF else if x % 512 = 4 then 0x0F else 0
    fsInfo := ⟨none, none, false⟩
    currentStatusFlags := ⟨false, false⟩ }
  file _ := ⟨none, none, 0, ⟨0, 0, 0⟩⟩

theorem noBytes_size_le : ([] : List UInt8).length ≤ MAX_FILE_SIZE := Nat.zero_le _

/-- A file without bytes -/
def noBytes : FsFile where
  clusterSize := 512
  bytes := []
  offset := 0
  clusterSize_pos := FsFile.cluster_pos
  size_le := noBytes_size_le
  offset_le := Nat.le_refl 0

theorem entry_fresh : DirEntryEditor.firstCluster .fat12 ⟨0, 0, 0⟩ = none := by decide

theorem sound_fresh : Sound small fresh (fun _ ↦ []) fun _ ↦ noBytes where
  sim _ := {
    clusterSize_eq := rfl
    offset_eq := rfl
    size_eq := rfl
    linked := .nil _
    clusters := List.forall_mem_nil _
    used := List.forall_mem_nil _
    length_iff := fun _ ↦ iff_of_false (Nat.not_lt_zero _) (Nat.not_lt_zero _)
    first := rfl
    entry := entry_fresh
    current := rfl
    data := fun _ _ hk ↦ absurd hk (Nat.not_lt_zero _) }
  apart _ _ _ := List.forall_mem_nil _
  ok := ⟨fun _ hn ↦ (by cases hn), fun _ hn ↦ (by cases hn)⟩

/-- One file takes the last cluster, and is read; the other one finds none. -/
def calls : List (Bool × FileOp) :=
  [(false, .write [97, 98]), (true, .write [99]), (false, .seek (.start 0)), (false, .read 2)]

/-- **The entries are enough.** A file that is opened again, with the entry that it has in a state
that a run reaches, has the bytes that it had, and the position is at the start. -/
theorem reopened (h : Sound L v chain F) (events : List (ι × FileOp)) :
    ∃ (chain' : ι → List ℕ) (F' : ι → FsFile), Follows F events (v.run L events).1 F' ∧ ∀ i,
      FileSim L (v.run L events).2.fs.disk (chain' i)
        (File.new (((v.run L events).2.file i).entry.firstCluster L.fatType)
          ((v.run L events).2.file i).entry) ((F' i).withOffset 0) := by
  obtain ⟨chain', F', hsound, -, hfollows⟩ := h.run events
  refine ⟨chain', F', hfollows, fun i ↦ ?_⟩
  rw [(hsound.sim i).entry]
  exact (hsound.sim i).moved (Nat.zero_min _).symm rfl

theorem reopened_calls : ∃ (chain' : Bool → List ℕ) (F' : Bool → FsFile),
    Follows (fun _ ↦ noBytes) calls (fresh.run small calls).1 F' ∧ ∀ i,
      FileSim small (fresh.run small calls).2.fs.disk (chain' i)
        (File.new (((fresh.run small calls).2.file i).entry.firstCluster small.fatType)
          ((fresh.run small calls).2.file i).entry) ((F' i).withOffset 0) :=
  reopened sound_fresh calls

/-- **What is no file's is left alone**: the clusters in use that are in none of the files keep
their entries and their bytes. -/
theorem clusters_kept (h : Sound L v chain F) (events : List (ι × FileOp)) {c : ℕ}
    (hc : L.IsCluster c) (hused : L.table v.fs.disk c ≠ .free) (hout : ∀ i, c ∉ chain i) :
    L.table (v.run L events).2.fs.disk c = L.table v.fs.disk c ∧
      ∀ x, L.InCluster c x → (v.run L events).2.fs.disk x = v.fs.disk x := by
  obtain ⟨chain', F', -, hspared, -⟩ := h.run events
  obtain ⟨htable, hbytes, -⟩ := hspared.kept c hc hused hout
  exact ⟨htable, hbytes⟩

theorem clusters_kept_calls :
    small.table (fresh.run small calls).2.fs.disk 2 = small.table fresh.fs.disk 2 ∧
      ∀ x, small.InCluster 2 x → (fresh.run small calls).2.fs.disk x = fresh.fs.disk x :=
  clusters_kept sound_fresh calls ⟨Nat.le_refl 2, by decide⟩ (by decide)
    fun _ ↦ List.not_mem_nil

/-- **Space is used up first**: a write fails in a state that a run reaches only if no cluster is
free there. -/
theorem full_of_notEnoughSpace (h : Sound L v chain F) (events : List (ι × FileOp)) (i : ι)
    (buf : List UInt8)
    (hout : ((v.run L events).2.step L (i, .write buf)).1 = .notEnoughSpace) {n : ℕ}
    (hn : L.IsCluster n) : L.table (v.run L events).2.fs.disk n ≠ .free := by
  obtain ⟨chain', F', hsound, -⟩ := h.run events
  obtain ⟨-, -, -, -, -, hno⟩ := hsound.step (i, .write buf)
  exact hno hout n hn

theorem full_of_notEnoughSpace_calls :
    small.table (fresh.run small calls).2.fs.disk 3 ≠ .free :=
  full_of_notEnoughSpace sound_fresh calls true [99] rfl ⟨by decide, by decide⟩

/-- **The copies of the table agree** in every state that a run reaches, if they did before. -/
theorem copies_agree (h : Sound L v chain F) (hmirrored : L.fat.Mirrored v.fs.disk)
    (events : List (ι × FileOp)) : L.fat.Mirrored (v.run L events).2.fs.disk := by
  obtain ⟨chain', F', -, hspared, -⟩ := h.run events
  exact hspared.mirrored hmirrored

theorem mirrored_fresh : small.fat.Mirrored fresh.fs.disk := by
  intro i _ k _
  change (if (512 + k + i * 512) % 512 = 3 then (0xFF : UInt8)
      else if (512 + k + i * 512) % 512 = 4 then 0x0F else 0) =
    if (512 + k) % 512 = 3 then 0xFF else if (512 + k) % 512 = 4 then 0x0F else 0
  rw [Nat.add_mul_mod_self_right]

theorem copies_agree_calls : small.fat.Mirrored (fresh.run small calls).2.fs.disk :=
  copies_agree sound_fresh mirrored_fresh calls

/-- What the calls give -/
example : (fresh.run small calls).1 =
    [.written 2, .notEnoughSpace, .position 0, .bytes [97, 98]] := by
  decide

end Maturin.Fatfs
