import Maturin.Fat.Files

/-!
# Files as their bytes

The clusters of a file are a chain of the table, and its bytes are those of the clusters up to the
size that the entry has. Each function of `File` does to the bytes what `FsFile` says, changes no
cluster that was in use and is in no other file, and takes only clusters that were free.
-/

namespace Maturin

/-- What `truncate` does to the bytes -/
def FsFile.truncate (self : FsFile) : FsFile where
  clusterSize := self.clusterSize
  bytes := self.bytes.take self.offset
  offset := self.offset
  clusterSize_pos := self.clusterSize_pos
  size_le := (List.length_take_le _ _).trans (self.offset_le.trans self.size_le)
  offset_le := by
    have hle := self.offset_le
    rw [List.length_take]
    omega

theorem FsFile.write_le (f : FsFile) (buf : List UInt8) : (f.write buf).1 ≤ buf.length :=
  (Nat.min_le_left _ _).trans (Nat.min_le_left _ _)

theorem FsFile.write_bytes (f : FsFile) (buf : List UInt8) :
    (f.write buf).2.bytes = f.bytes.take f.offset ++ buf.take (f.write buf).1 ++
      f.bytes.drop (f.offset + (f.write buf).1) := rfl

namespace Fatfs

namespace Layout

theorem clustersFromBytes_zero (L : Layout) : L.clustersFromBytes 0 = 0 := by
  have hpos := L.clusterSize_pos
  rw [clustersFromBytes, Nat.zero_add]
  exact Nat.div_eq_of_lt (by omega)

theorem clustersFromBytes_eq (L : Layout) {o : ℕ} (ho : 0 < o) :
    L.clustersFromBytes o = (o - 1) / L.clusterSize + 1 := by
  rw [clustersFromBytes, show o + L.clusterSize - 1 = o - 1 + L.clusterSize by omega,
    Nat.add_div_right _ L.clusterSize_pos]

end Layout

variable {L : Layout} {fs fs' : FileSystem} {chain chain' : List ℕ} {file file' : File} {f : FsFile}
  {n c x k : ℕ}

/-- A file of the volume and its bytes. -/
structure FileSim (L : Layout) (disk : ByteMem) (chain : List ℕ) (file : File) (f : FsFile) :
    Prop where
  clusterSize_eq : f.clusterSize = L.clusterSize
  offset_eq : f.offset = file.offset
  size_eq : f.bytes.length = file.entry.size
  linked : Linked (L.next disk) chain
  clusters : ∀ c ∈ chain, L.IsCluster c
  used : ∀ c ∈ chain, L.table disk c ≠ .free
  length_iff : ∀ k, k < chain.length ↔ k * L.clusterSize < file.entry.size
  first : file.firstCluster = chain.head?
  entry : file.entry.firstCluster L.fatType = file.firstCluster
  current : file.currentCluster =
    if file.offset = 0 then none else chain[(file.offset - 1) / L.clusterSize]?
  data : ∀ k c, k < file.entry.size → chain[k / L.clusterSize]? = some c →
    f.bytes[k]? = some (disk (L.offsetFromCluster c + k % L.clusterSize))

namespace FileSim

variable {disk disk' : ByteMem}

theorem offset_le (h : FileSim L disk chain file f) : file.offset ≤ file.entry.size := by
  have hle := f.offset_le
  rwa [h.offset_eq, h.size_eq] at hle

theorem size_le (h : FileSim L disk chain file f) : file.entry.size ≤ MAX_FILE_SIZE :=
  h.size_eq ▸ f.size_le

/-- The cluster of a byte -/
theorem exists_cluster (h : FileSim L disk chain file f) (hk : k < file.entry.size) :
    ∃ c, chain[k / L.clusterSize]? = some c ∧ c ∈ chain := by
  have hlt : k / L.clusterSize < chain.length :=
    (h.length_iff _).mpr (Nat.lt_of_le_of_lt (Nat.div_mul_le_self k _) hk)
  exact ⟨_, List.getElem?_eq_getElem hlt, List.getElem_mem hlt⟩

theorem next_eq (h : FileSim L disk chain file f) (hk : chain[k]? = some c) :
    ClusterIterator.next L.fatType L.fat disk (some c) = chain[k + 1]? := by
  rw [ClusterIterator.next, Option.bind_some,
    L.getNextCluster_eq (h.clusters c (List.mem_of_getElem? hk)), h.linked.next_getElem? hk]

/-- A file depends on the clusters of its chain alone. -/
theorem congr (h : FileSim L disk chain file f)
    (htable : ∀ c ∈ chain, L.table disk' c = L.table disk c)
    (hdata : ∀ c ∈ chain, ∀ x, L.InCluster c x → disk' x = disk x) :
    FileSim L disk' chain file f where
  clusterSize_eq := h.clusterSize_eq
  offset_eq := h.offset_eq
  size_eq := h.size_eq
  linked := h.linked.congr fun c hc ↦ by rw [FatArea.next, FatArea.next, htable c hc]
  clusters := h.clusters
  used c hc := by
    rw [htable c hc]
    exact h.used c hc
  length_iff := h.length_iff
  first := h.first
  entry := h.entry
  current := h.current
  data k c hk hc := by
    rw [h.data k c hk hc, hdata c (List.mem_of_getElem? hc)]
    exact ⟨Nat.le_add_right _ _, Nat.add_lt_add_left (Nat.mod_lt _ L.clusterSize_pos) _⟩

theorem sub_one_div {o s : ℕ} (ho : 0 < o) :
    o / s = if o % s = 0 then (o - 1) / s + 1 else (o - 1) / s := by
  obtain ⟨o, rfl⟩ := Nat.exists_eq_add_one.mpr ho
  rw [Nat.add_sub_cancel]
  have hsucc : (o + 1) / s = o / s + if s ∣ o + 1 then 1 else 0 := Nat.succ_div
  simp only [Nat.dvd_iff_mod_eq_zero] at hsucc
  rw [hsucc]
  split_ifs <;> rfl

/-- The cluster that `read` and `write` look for is the one of the next byte. -/
theorem here (h : FileSim L disk chain file f) :
    (if file.offset % L.clusterSize = 0 then file.nextCluster L disk else file.currentCluster) =
      chain[file.offset / L.clusterSize]? := by
  by_cases hzero : file.offset = 0
  · rw [hzero, Nat.zero_mod, if_pos rfl, Nat.zero_div, File.nextCluster, h.current, if_pos hzero,
      h.first, List.head?_eq_getElem?]
  · have hpos := Nat.pos_of_ne_zero hzero
    have hle := h.offset_le
    obtain ⟨c, hc, -⟩ := h.exists_cluster (k := file.offset - 1) (by omega)
    have hcurrent := h.current
    rw [if_neg hzero, hc] at hcurrent
    rw [sub_one_div hpos]
    split_ifs with hmod
    · rw [File.nextCluster, hcurrent]
      exact h.next_eq hc
    · rw [hcurrent, hc]

/-- The bytes behind the position in its cluster -/
theorem split_add {o i s : ℕ} (hi : o % s + i < s) :
    (o + i) / s = o / s ∧ (o + i) % s = o % s + i := by
  have hdiv := Nat.div_add_mod o s
  have hadd : o + i = s * (o / s) + (o % s + i) := by omega
  have hs : 0 < s := Nat.lt_of_le_of_lt (Nat.zero_le _) hi
  constructor
  · rw [hadd, Nat.mul_add_div hs, Nat.div_eq_of_lt hi, Nat.add_zero]
  · rw [hadd, Nat.mul_add_mod, Nat.mod_eq_of_lt hi]

/-- The position is moved. -/
theorem moved (h : FileSim L disk chain file f) {m o : ℕ} {cluster : Option ℕ}
    (ho : o = min m file.entry.size)
    (hcluster : cluster = if o = 0 then none else chain[(o - 1) / L.clusterSize]?) :
    FileSim L disk chain { file with offset := o, currentCluster := cluster }
      (f.withOffset m) where
  clusterSize_eq := h.clusterSize_eq
  offset_eq := by
    rw [ho, ← h.size_eq]
    rfl
  size_eq := h.size_eq
  linked := h.linked
  clusters := h.clusters
  used := h.used
  length_iff := h.length_iff
  first := h.first
  entry := h.entry
  current := hcluster
  data := h.data

theorem unmoved (h : FileSim L disk chain file f) {m : ℕ}
    (hm : min m file.entry.size = file.offset) : FileSim L disk chain file (f.withOffset m) :=
  h.moved hm.symm h.current

/-- **Reading gives the bytes.** -/
theorem read (h : FileSim L fs.disk chain file f) (len : ℕ) :
    (file.read L len fs).1 = (f.read len).1 ∧
      FileSim L fs.disk chain (file.read L len fs).2 (f.read len).2 := by
  have hmod := Nat.mod_lt file.offset L.clusterSize_pos
  have hle := h.offset_le
  rw [File.read, FsFile.read, FsFile.leftInCluster, h.clusterSize_eq, h.offset_eq, h.size_eq]
  dsimp only
  rw [h.here]
  generalize hn : min (min len (L.clusterSize - file.offset % L.clusterSize))
    (file.entry.size - file.offset) = n
  have hzero : n = 0 → ([] : List UInt8) = (f.bytes.drop file.offset).take n ∧
      FileSim L fs.disk chain file (f.withOffset (file.offset + n)) := fun hn ↦ by
    subst hn
    exact ⟨rfl, h.unmoved (by omega)⟩
  cases hc : chain[file.offset / L.clusterSize]? with
  | none =>
    refine hzero ?_
    have hend := mt (h.length_iff (file.offset / L.clusterSize)).mpr
      (Nat.not_lt.mpr (List.getElem?_eq_none_iff.mp hc))
    have hdiv := Nat.div_mul_le_self file.offset L.clusterSize
    omega
  | some c =>
    dsimp only
    by_cases hpos : n = 0
    · rw [if_pos hpos]
      exact hzero hpos
    · rw [if_neg hpos]
      refine ⟨List.ext_getElem? fun i ↦ ?_, h.moved (by omega) ?_⟩
      · rw [List.getElem?_take, List.getElem?_drop, ByteMem.readBytes, List.getElem?_map]
        split_ifs with hi
        · obtain ⟨hdiv, hrem⟩ := split_add (o := file.offset) (i := i) (s := L.clusterSize)
            (by omega)
          rw [List.getElem?_range hi, Option.map_some, h.data _ c (by omega) (hdiv ▸ hc), hrem,
            Nat.add_assoc]
        · rw [List.getElem?_eq_none (by rw [List.length_range]; omega)]
          rfl
      · obtain ⟨hdiv, -⟩ := split_add (o := file.offset) (i := n - 1) (s := L.clusterSize)
          (by omega)
        rw [if_neg (by omega), Nat.add_sub_assoc (by omega), hdiv, hc]

/-! ## Moving -/

theorem skipLoop (h : FileSim L disk chain file f) {left i j : ℕ} (hc : chain[j]? = some c)
    (hlt : j + left < chain.length) :
    ∃ c', chain[j + left]? = some c' ∧ File.skipLoop L disk left i c = (c', none) := by
  induction left generalizing i j c with
  | zero => exact ⟨c, hc, rfl⟩
  | succ left ih =>
    have hnext := List.getElem?_eq_getElem (l := chain) (i := j + 1) (by omega)
    obtain ⟨c', hc', hloop⟩ := ih (i := i + 1) hnext (by omega)
    refine ⟨c', ?_, ?_⟩
    · rw [← hc', Nat.add_right_comm, Nat.add_assoc]
    · rw [File.skipLoop, h.next_eq hc, hnext]
      exact hloop

theorem clusterFor (h : FileSim L disk chain file f) {o : ℕ} (ho : o ≤ file.entry.size) :
    file.clusterFor L disk o =
      (o, if o = 0 then none else chain[(o - 1) / L.clusterSize]?) := by
  rw [File.clusterFor]
  dsimp only
  by_cases hzero : o = 0
  · rw [if_pos hzero, if_pos hzero]
  rw [if_neg hzero, if_neg hzero, L.clustersFromBytes_eq (Nat.pos_of_ne_zero hzero)]
  by_cases hsame : (o - 1) / L.clusterSize + 1 = L.clustersFromBytes file.offset
  · rw [if_pos hsame]
    have hoffset : file.offset ≠ 0 := fun hoffset ↦ by
      rw [hoffset, L.clustersFromBytes_zero] at hsame
      exact Nat.succ_ne_zero _ hsame
    rw [L.clustersFromBytes_eq (Nat.pos_of_ne_zero hoffset), Nat.add_right_cancel_iff] at hsame
    rw [h.current, if_neg hoffset, hsame]
  · rw [if_neg hsame, h.first, Nat.add_sub_cancel]
    obtain ⟨c, hc, -⟩ := h.exists_cluster (k := o - 1) (by omega)
    have hlt := (List.getElem?_eq_some_iff.mp hc).1
    have hhead := List.getElem?_eq_getElem (Nat.zero_lt_of_lt hlt)
    obtain ⟨c', hc', hloop⟩ := h.skipLoop (i := 0) hhead
      (show 0 + (o - 1) / L.clusterSize < chain.length by omega)
    rw [List.head?_eq_getElem?, hhead]
    dsimp only
    rw [hloop, ← hc', Nat.zero_add]
    rfl

/-- **Moving is moving in the bytes.** -/
theorem seek (h : FileSim L fs.disk chain file f) (pos : SeekFrom) :
    (file.seek L pos fs).1 = ((f.seek pos).1.elim .invalidInput .position) ∧
      FileSim L fs.disk chain (file.seek L pos fs).2 (f.seek pos).2 := by
  have hnew : f.newOffset pos = file.newOffset pos := by
    cases pos <;> simp only [FsFile.newOffset, File.newOffset, h.offset_eq, h.size_eq]
  rw [FsFile.seek, hnew, File.seek]
  by_cases hrange : 0 ≤ file.newOffset pos ∧ file.newOffset pos ≤ MAX_FILE_SIZE
  · rw [if_pos hrange, if_pos hrange]
    generalize (file.newOffset pos).toNat = m
    have hend : (f.withOffset m).offset = min m file.entry.size := by
      rw [← h.size_eq]
      rfl
    dsimp only
    by_cases hsame : min m file.entry.size = file.offset
    · rw [if_pos hsame]
      exact ⟨congrArg FileOut.position (hend.trans hsame).symm, h.unmoved hsame⟩
    · rw [if_neg hsame, h.clusterFor (Nat.min_le_right _ _)]
      exact ⟨congrArg FileOut.position hend.symm, h.moved rfl rfl⟩
  · rw [if_neg hrange, if_neg hrange]
    exact ⟨rfl, h⟩

/-! ## Writing -/

/-- The bytes of a file after a write -/
theorem getElem?_write (f : FsFile) (buf : List UInt8) (k : ℕ) :
    (f.write buf).2.bytes[k]? =
      if f.offset ≤ k ∧ k < f.offset + (f.write buf).1 then buf[k - f.offset]?
      else f.bytes[k]? := by
  have hle := f.offset_le
  have hn := f.write_le buf
  have hbytes := f.write_bytes buf
  generalize (f.write buf).1 = n at hn hbytes ⊢
  have htake : (f.bytes.take f.offset).length = f.offset := List.length_take_of_le hle
  have htake' : (buf.take n).length = n := List.length_take_of_le hn
  rw [hbytes, List.append_assoc, List.getElem?_append, htake, List.getElem?_append, htake',
    List.getElem?_take, List.getElem?_take, List.getElem?_drop]
  split_ifs <;> first | rfl | (exfalso; omega) | (congr 1; omega)

theorem write_zero {f : FsFile} {buf : List UInt8} (h : (f.write buf).1 = 0) :
    (f.write buf).2 = f := by
  have hbytes : (f.write buf).2.bytes = f.bytes := List.ext_getElem? fun k ↦ by
    rw [getElem?_write, h, if_neg (by omega)]
  have hoffset : (f.write buf).2.offset = f.offset := congrArg (f.offset + ·) h
  generalize hf : (f.write buf).2 = f' at hbytes hoffset
  have hsize : f'.clusterSize = f.clusterSize := hf ▸ rfl
  cases f'
  cases f
  subst hbytes hoffset hsize
  rfl

theorem length_write (f : FsFile) (buf : List UInt8) :
    (f.write buf).2.bytes.length = max f.bytes.length (f.offset + (f.write buf).1) := by
  have hle := f.offset_le
  have hn := f.write_le buf
  have hbytes := f.write_bytes buf
  rw [hbytes, List.length_append, List.length_append, List.length_take, List.length_take,
    List.length_drop]
  omega

theorem write_eq (h : FileSim L disk chain file f) (buf : List UInt8) : (f.write buf).1 =
    min (min buf.length (L.clusterSize - file.offset % L.clusterSize))
      (MAX_FILE_SIZE - file.offset) := by
  have hmin : (f.write buf).1 =
      min (min buf.length f.leftInCluster) (MAX_FILE_SIZE - f.offset) := rfl
  rw [hmin, FsFile.leftInCluster, h.clusterSize_eq, h.offset_eq]

/-- The bytes are in their cluster, in which the position is. -/
theorem written {chain₁ : List ℕ} {disk₁ : ByteMem} {file₁ : File} {buf : List UInt8}
    (h : FileSim L disk chain file f) (hlinked : Linked (L.next disk₁) chain₁)
    (hclusters : ∀ c ∈ chain₁, L.IsCluster c) (hused : ∀ c ∈ chain₁, L.table disk₁ c ≠ .free)
    (hlength : ∀ k, k < chain₁.length ↔
      k * L.clusterSize < max file.entry.size (file.offset + (f.write buf).1))
    (hfirst : file₁.firstCluster = chain₁.head?)
    (hentry : file₁.entry.firstCluster L.fatType = file₁.firstCluster)
    (hoffset : file₁.offset = file.offset) (hsize : file₁.entry.size = file.entry.size)
    (hc : chain₁[file.offset / L.clusterSize]? = some c)
    (hsub : ∀ k c', k < file.entry.size → chain₁[k / L.clusterSize]? = some c' →
      chain[k / L.clusterSize]? = some c')
    (hdata : ∀ c ∈ chain, ∀ x, L.InCluster c x → disk₁ x = disk x) (hpos : 0 < (f.write buf).1) :
    FileSim L (disk₁.writeBytes (L.offsetFromCluster c + file.offset % L.clusterSize)
        (buf.take (f.write buf).1)) chain₁
      (File.updateDirEntryAfterWrite { file₁ with
        offset := file₁.offset + (f.write buf).1
        currentCluster := some c }) (f.write buf).2 := by
  have hget := getElem?_write f buf
  have hlen := length_write f buf
  have hwrite := h.write_eq buf
  have hmod := Nat.mod_lt file.offset L.clusterSize_pos
  have hle := h.offset_le
  have hoff : (f.write buf).2.offset = f.offset + (f.write buf).1 := rfl
  have hclusterSize : (f.write buf).2.clusterSize = f.clusterSize := rfl
  generalize (f.write buf).2 = f' at hget hlen hoff hclusterSize ⊢
  generalize (f.write buf).1 = n at hget hlen hwrite hoff hlength hpos ⊢
  have hn : n ≤ buf.length := by omega
  have hbuf : (buf.take n).length = n := List.length_take_of_le hn
  have hcluster := hclusters c (List.mem_of_getElem? hc)
  rw [h.offset_eq] at hget hoff
  rw [h.size_eq, h.offset_eq] at hlen
  generalize hdisk₂ : disk₁.writeBytes (L.offsetFromCluster c + file.offset % L.clusterSize)
    (buf.take n) = disk₂
  -- what is written is in the cluster
  have hkeep : ∀ x, ¬L.InCluster c x → disk₂ x = disk₁ x := fun x hx ↦ by
    rw [← hdisk₂]
    rw [Layout.InCluster] at hx
    exact ByteMem.writeBytes_of_notMem (by rw [hbuf]; omega)
  have htable : L.table disk₂ = L.table disk₁ :=
    L.table_congr fun x hx ↦ hkeep x fun hin ↦ hx (Layout.outside_of_inCluster hin)
  have hfile : ∃ size, size = max file.entry.size (file.offset + n) ∧
      File.updateDirEntryAfterWrite { file₁ with
          offset := file₁.offset + n
          currentCluster := some c } =
        { file₁ with
          offset := file.offset + n
          currentCluster := some c
          entry := { file₁.entry with size := size } } := by
    rw [File.updateDirEntryAfterWrite]
    dsimp only
    rw [hoffset, hsize]
    split_ifs with hgt
    · exact ⟨_, by omega, rfl⟩
    · exact ⟨file₁.entry.size, by omega, rfl⟩
  obtain ⟨size, hnew, hfile⟩ := hfile
  rw [hfile]
  refine ⟨hclusterSize.trans h.clusterSize_eq, hoff, hlen.trans hnew.symm,
    hlinked.congr fun c' _ ↦ by rw [FatArea.next, FatArea.next, htable], hclusters,
    fun c' hc' ↦ by rw [htable]; exact hused c' hc', fun k ↦ ?_, hfirst, hentry, ?_,
    fun k c' hk hc' ↦ ?_⟩
  · rw [hlength, hnew]
  · obtain ⟨hdiv, -⟩ := split_add (o := file.offset) (i := n - 1) (s := L.clusterSize) (by omega)
    dsimp only
    rw [if_neg (by omega), Nat.add_sub_assoc (by omega), hdiv, hc]
  · dsimp only at hk
    rw [hget]
    have hself : L.InCluster c' (L.offsetFromCluster c' + k % L.clusterSize) :=
      ⟨Nat.le_add_right _ _, Nat.add_lt_add_left (Nat.mod_lt _ L.clusterSize_pos) _⟩
    by_cases hin : file.offset ≤ k ∧ k < file.offset + n
    · obtain ⟨i, rfl⟩ := Nat.exists_eq_add_of_le hin.1
      obtain ⟨hdiv, hrem⟩ := split_add (o := file.offset) (i := i) (s := L.clusterSize) (by omega)
      obtain rfl : c = c' := Option.some.inj (hc.symm.trans (hdiv ▸ hc'))
      have hi : i < (buf.take n).length := by omega
      rw [if_pos hin, Nat.add_sub_cancel_left, hrem, ← hdisk₂, ← Nat.add_assoc,
        ByteMem.writeBytes_of_mem hi, List.getElem_take, List.getElem?_eq_getElem]
    · have hold : k < file.entry.size := by omega
      have hwas := hsub k c' hold hc'
      have hbyte : disk₂ (L.offsetFromCluster c' + k % L.clusterSize) =
          disk₁ (L.offsetFromCluster c' + k % L.clusterSize) := by
        by_cases heq : c' = c
        · subst heq
          have hsame : k / L.clusterSize = file.offset / L.clusterSize :=
            (List.getElem?_inj (List.getElem?_eq_some_iff.mp hc').1 hlinked.nodup).mp
              (hc'.trans hc.symm)
          have hk' := Nat.div_add_mod k L.clusterSize
          have ho' := Nat.div_add_mod file.offset L.clusterSize
          rw [hsame] at hk'
          rw [← hdisk₂]
          exact ByteMem.writeBytes_of_notMem (by rw [hbuf]; omega)
        · exact hkeep _ (Layout.offset_ne (hclusters c' (List.mem_of_getElem? hc')) hcluster heq
            hself)
      rw [if_neg hin, h.data k c' hold hwas, hbyte, hdata c' (List.mem_of_getElem? hwas) _ hself]

end FileSim

/-- What a function of a file does to the rest of the volume. -/
structure Changed (L : Layout) (fs fs' : FileSystem) (chain chain' : List ℕ) : Prop where
  ok : fs'.Ok L
  mirrored : L.fat.Mirrored fs.disk → L.fat.Mirrored fs'.disk
  kept : ∀ c, L.IsCluster c → L.table fs.disk c ≠ .free → c ∉ chain →
    L.table fs'.disk c = L.table fs.disk c ∧ ∀ x, L.InCluster c x → fs'.disk x = fs.disk x
  taken : ∀ c ∈ chain', c ∈ chain ∨ L.table fs.disk c = .free

theorem Changed.refl (h : fs.Ok L) : Changed L fs fs chain chain :=
  ⟨h, id, fun _ _ _ _ ↦ ⟨rfl, fun _ _ ↦ rfl⟩, fun _ ↦ .inl⟩

theorem Changed.setDirtyFlag (h : fs.Ok L) : Changed L fs (fs.setDirtyFlag L true) chain chain :=
  ⟨h.congr FileSystem.setDirtyFlag_fsInfo FileSystem.setDirtyFlag_table,
    FileSystem.setDirtyFlag_mirrored,
    fun _ _ _ _ ↦ ⟨by rw [FileSystem.setDirtyFlag_table],
      fun _ ↦ FileSystem.setDirtyFlag_inCluster⟩, fun _ ↦ .inl⟩

/-- A free cluster is put behind the chain. -/
theorem Changed.alloc (h : Changed L fs fs' chain chain) {fs'' : FileSystem} {prev : Option ℕ}
    (htable₁ : L.table fs'.disk = L.table fs.disk) (hfree : L.table fs'.disk n = .free)
    (hprev : ∀ p, prev = some p → p ∈ chain) (hok : fs''.Ok L)
    (htable : L.table fs''.disk = FileSystem.linkedTable (L.table fs'.disk) n prev)
    (hmirrored : L.fat.Mirrored fs'.disk → L.fat.Mirrored fs''.disk)
    (hdata : ∀ c x, L.IsCluster c → c ≠ n → L.InCluster c x → fs''.disk x = fs'.disk x) :
    Changed L fs fs'' chain (chain ++ [n]) := by
  refine ⟨hok, fun hm ↦ hmirrored (h.mirrored hm), fun c hc hused hmem ↦ ?_, fun c hc ↦ ?_⟩
  · have hcn : c ≠ n := by
      rintro rfl
      exact hused (htable₁ ▸ hfree)
    obtain ⟨hkept, hbytes⟩ := h.kept c hc hused hmem
    refine ⟨?_, fun x hx ↦ (hdata c x hc hcn hx).trans (hbytes x hx)⟩
    rw [htable, FileSystem.linkedTable_of_ne hcn (fun hp ↦ hmem (hprev c hp)), hkept]
  · rcases List.mem_append.mp hc with hc | hc
    · exact .inl hc
    · rw [List.mem_singleton.mp hc, ← htable₁]
      exact .inr hfree

/-- Bytes are written in a cluster of the file. -/
theorem Changed.writeBytes (h : Changed L fs fs' chain chain') (hc : c ∈ chain')
    (hcluster : L.IsCluster c) {a : ℕ} {bs : List UInt8} (ha : L.offsetFromCluster c ≤ a)
    (hend : a + bs.length ≤ L.offsetFromCluster c + L.clusterSize) :
    Changed L fs { fs' with disk := fs'.disk.writeBytes a bs } chain chain' := by
  have hkeep : ∀ x, ¬L.InCluster c x → fs'.disk.writeBytes a bs x = fs'.disk x := fun x hx ↦ by
    rw [Layout.InCluster] at hx
    exact ByteMem.writeBytes_of_notMem (by omega)
  have hfat : ∀ x, ¬L.Outside x → fs'.disk.writeBytes a bs x = fs'.disk x :=
    fun x hx ↦ hkeep x fun hin ↦ hx (Layout.outside_of_inCluster hin)
  refine ⟨h.ok.congr rfl (L.table_congr hfat), fun hm ↦ L.mirrored_congr hfat (h.mirrored hm),
    fun c' hc' hused hnot ↦ ?_, h.taken⟩
  obtain ⟨htable, hdata⟩ := h.kept c' hc' hused hnot
  have hne : c' ≠ c := by
    rintro rfl
    exact (h.taken c' hc).elim hnot hused
  refine ⟨(congrFun (L.table_congr hfat) c').trans htable, fun x hx ↦ ?_⟩
  exact (hkeep x (Layout.offset_ne hc' hcluster hne hx)).trans (hdata x hx)

/-- The table after a chain got a new end -/
theorem linked_alloc {disk disk' : ByteMem} (hlinked : Linked (L.next disk) chain)
    (htable : L.table disk' = FileSystem.linkedTable (L.table disk) n chain.getLast?)
    (hn : n ∉ chain) : Linked (L.next disk') (chain ++ [n]) := by
  cases hlast : chain.getLast? with
  | none =>
    obtain rfl := List.getLast?_eq_none_iff.mp hlast
    refine .singleton ?_
    rw [FatArea.next, htable, hlast, FileSystem.linkedTable, Function.update_self]
    rfl
  | some p =>
    refine (hlinked.concat hlast hn).congr fun c _ ↦ ?_
    rw [FatArea.next, htable, hlast, FileSystem.linkedTable, Function.update_apply,
      Function.update_apply, Function.update_apply, Function.update_apply]
    split_ifs <;> rfl

namespace FileSim

variable {disk : ByteMem}

theorem setDirtyFlag (h : FileSim L fs.disk chain file f) :
    FileSim L (fs.setDirtyFlag L true).disk chain file f :=
  h.congr (fun _ _ ↦ by rw [FileSystem.setDirtyFlag_table])
    fun _ _ _ ↦ FileSystem.setDirtyFlag_inCluster

theorem clusterForWrite_of_some (h : FileSim L fs.disk chain file f)
    (hc : chain[file.offset / L.clusterSize]? = some c) :
    file.clusterForWrite L fs = .ok (c, fs, file) := by
  have hhere := h.here
  rw [hc] at hhere
  rw [File.clusterForWrite]
  split_ifs at hhere ⊢ <;> rw [hhere]

/-- A file that is full ends with its last cluster. -/
theorem full (h : FileSim L disk chain file f)
    (hc : chain[file.offset / L.clusterSize]? = none) :
    file.offset % L.clusterSize = 0 ∧ file.offset = file.entry.size ∧
      file.offset = chain.length * L.clusterSize ∧ file.currentCluster = chain.getLast? := by
  have hge := List.getElem?_eq_none_iff.mp hc
  have hend := mt (h.length_iff (file.offset / L.clusterSize)).mpr (Nat.not_lt.mpr hge)
  have hle := h.offset_le
  have hsplit := Nat.div_add_mod file.offset L.clusterSize
  rw [Nat.mul_comm] at hsplit
  have hlength : chain.length = file.offset / L.clusterSize := by
    refine Nat.le_antisymm hge (Nat.le_of_not_lt fun hlt ↦ ?_)
    have hmul := Nat.mul_lt_mul_of_pos_right hlt L.clusterSize_pos
    exact Nat.lt_irrefl _ ((h.length_iff chain.length).mpr (by omega))
  refine ⟨by omega, by omega, by rw [hlength]; omega, ?_⟩
  rw [h.current, List.getLast?_eq_getElem?]
  split_ifs with hzero
  · rw [List.getElem?_eq_none]
    rw [hlength, hzero, Nat.zero_div]
  · rw [hlength, sub_one_div (Nat.pos_of_ne_zero hzero), if_pos (by omega),
      Nat.add_sub_cancel]

/-- The chain is long enough for what is written in one of its clusters. -/
theorem length_iff_of_some (h : FileSim L disk chain file f)
    (hc : chain[file.offset / L.clusterSize]? = some c)
    (hn : file.offset % L.clusterSize + n ≤ L.clusterSize) (k : ℕ) :
    k < chain.length ↔ k * L.clusterSize < max file.entry.size (file.offset + n) := by
  have hlt := (h.length_iff _).mp (List.getElem?_eq_some_iff.mp hc).1
  have hsplit := Nat.div_add_mod file.offset L.clusterSize
  rw [Nat.mul_comm] at hsplit
  rw [h.length_iff]
  constructor
  · exact fun hk ↦ Nat.lt_of_lt_of_le hk (Nat.le_max_left _ _)
  · intro hk
    by_contra hge
    have hle : file.offset / L.clusterSize + 1 ≤ k := by
      refine Nat.le_of_not_lt fun hlt' ↦ hge ?_
      exact Nat.lt_of_le_of_lt (Nat.mul_le_mul_right _ (Nat.le_of_lt_succ hlt')) hlt
    have hmul := Nat.mul_le_mul_right L.clusterSize hle
    rw [Nat.succ_mul] at hmul
    omega

/-- A full chain needs one cluster more for what is written behind it. -/
theorem length_iff_of_none (h : FileSim L disk chain file f)
    (hc : chain[file.offset / L.clusterSize]? = none) {m : ℕ} (hpos : 0 < m)
    (hm : m ≤ L.clusterSize) (k : ℕ) :
    k < (chain ++ [n]).length ↔ k * L.clusterSize < max file.entry.size (file.offset + m) := by
  obtain ⟨-, hsize, hlength, -⟩ := h.full hc
  rw [List.length_append, List.length_singleton]
  constructor
  · intro hk
    have hmul := Nat.mul_le_mul_right L.clusterSize (Nat.le_of_lt_succ hk)
    omega
  · intro hk
    by_contra hge
    have hmul := Nat.mul_le_mul_right L.clusterSize (Nat.le_of_not_lt hge)
    rw [Nat.succ_mul] at hmul
    omega

theorem clusterForWrite_of_none (h : FileSim L fs.disk chain file f)
    (hc : chain[file.offset / L.clusterSize]? = none) :
    (fs.allocCluster L chain.getLast? false = none →
      file.clusterForWrite L fs = .error .notEnoughSpace) ∧
    ∀ n fs', fs.allocCluster L chain.getLast? false = some (n, fs') →
      file.clusterForWrite L fs = .ok (n, fs',
        if file.firstCluster.isNone then file.setFirstCluster L n else file) := by
  obtain ⟨hmod, -, -, hcurrent⟩ := h.full hc
  have hhere := h.here
  rw [hc, if_pos hmod] at hhere
  rw [File.clusterForWrite, if_pos hmod, hhere, hcurrent]
  dsimp only
  exact ⟨fun halloc ↦ by rw [halloc], fun n fs' halloc ↦ by rw [halloc]⟩

/-- The first cluster of a file that got a new one -/
theorem firstCluster_alloc (h : FileSim L disk chain file f) (hn : L.IsCluster n)
    (hfile : file' = if file.firstCluster.isNone then file.setFirstCluster L n else file) :
    file'.firstCluster = (chain ++ [n]).head? ∧
      file'.entry.firstCluster L.fatType = file'.firstCluster ∧ file'.offset = file.offset ∧
      file'.entry.size = file.entry.size := by
  subst hfile
  have hfirst := h.first
  cases chain with
  | nil =>
    rw [if_pos (by rw [hfirst]; rfl)]
    refine ⟨rfl, DirEntryEditor.firstCluster_setFirstCluster _ fun m hm ↦ ?_, rfl, rfl⟩
    obtain rfl := Option.some.inj hm
    exact L.valid_data hn
  | cons a chain =>
    rw [if_neg (by rw [hfirst]; exact Bool.false_ne_true)]
    exact ⟨hfirst, h.entry, rfl, rfl⟩

/-- **Writing changes the bytes**, or there is no free cluster. -/
theorem write (h : FileSim L fs.disk chain file f) (hok : fs.Ok L) (buf : List UInt8) :
    ((file.write L buf fs).1 = .notEnoughSpace ∧
      (∀ n, L.IsCluster n → L.table fs.disk n ≠ .free) ∧
      FileSim L (file.write L buf fs).2.1.disk chain (file.write L buf fs).2.2 f ∧
      Changed L fs (file.write L buf fs).2.1 chain chain) ∨
    ∃ chain', (file.write L buf fs).1 = .written (f.write buf).1 ∧
      FileSim L (file.write L buf fs).2.1.disk chain' (file.write L buf fs).2.2 (f.write buf).2 ∧
      Changed L fs (file.write L buf fs).2.1 chain chain' := by
  have hwrite := h.write_eq buf
  have hmod := Nat.mod_lt file.offset L.clusterSize_pos
  rw [File.write]
  dsimp only
  rw [← hwrite]
  by_cases hzero : (f.write buf).1 = 0
  · rw [if_pos hzero, write_zero hzero]
    exact .inr ⟨chain, congrArg FileOut.written hzero.symm, h, .refl hok⟩
  rw [if_neg hzero]
  have hpos := Nat.pos_of_ne_zero hzero
  have h₁ := h.setDirtyFlag
  have hchanged : Changed L fs (fs.setDirtyFlag L true) chain chain := .setDirtyFlag hok
  have htable₁ : L.table (fs.setDirtyFlag L true).disk = L.table fs.disk :=
    FileSystem.setDirtyFlag_table
  generalize fs.setDirtyFlag L true = fs₁ at h₁ hchanged htable₁ ⊢
  have hbuf : (buf.take (f.write buf).1).length ≤
      L.clusterSize - file.offset % L.clusterSize := by
    rw [List.length_take]
    omega
  cases hc : chain[file.offset / L.clusterSize]? with
  | some c =>
    have hmem := List.mem_of_getElem? hc
    rw [h₁.clusterForWrite_of_some hc]
    refine .inr ⟨chain, rfl, ?_, hchanged.writeBytes hmem (h.clusters c hmem)
      (Nat.le_add_right _ _) (by omega)⟩
    exact h₁.written h₁.linked h₁.clusters h₁.used (h.length_iff_of_some hc (by omega)) h₁.first
      h₁.entry rfl rfl hc (fun _ _ _ ↦ id) (fun _ _ _ _ ↦ rfl) hpos
  | none =>
    obtain ⟨-, -, hlength, -⟩ := h.full hc
    have hprev : ∀ p, chain.getLast? = some p → p ∈ chain := fun p ↦ List.mem_of_getLast?
    rcases FileSystem.allocCluster_spec false hchanged.ok
        (fun p hp ↦ h₁.clusters p (hprev p hp)) (fun p hp ↦ h₁.used p (hprev p hp)) with
      ⟨n, fs', hn, hfree, halloc, hok', htable', hmirrored, hdata⟩ | ⟨hno, halloc⟩
    · rw [(h₁.clusterForWrite_of_none hc).2 n fs' halloc]
      dsimp only
      have hnot : n ∉ chain := fun hmem ↦ h₁.used n hmem hfree
      have hne : ∀ c ∈ chain, c ≠ n := fun c hc heq ↦ hnot (heq ▸ hc)
      have hchanged' : Changed L fs fs' chain (chain ++ [n]) :=
        hchanged.alloc htable₁ hfree hprev hok' htable' hmirrored hdata
      generalize hfile : (if file.firstCluster.isNone then file.setFirstCluster L n else file) =
        file₁
      obtain ⟨hfirst, hentry, hoffset, hsize₁⟩ := h₁.firstCluster_alloc hn hfile.symm
      have hmem : n ∈ chain ++ [n] := List.mem_append_right _ List.mem_cons_self
      refine .inr ⟨chain ++ [n], rfl, ?_, hchanged'.writeBytes hmem hn
        (Nat.le_add_right _ _) (by omega)⟩
      refine h₁.written (linked_alloc h₁.linked htable' hnot) (fun c hc ↦ ?_) (fun c hc ↦ ?_)
        (h.length_iff_of_none hc hpos (by omega)) hfirst hentry hoffset hsize₁ ?_
        (fun k c' hk hc' ↦ ?_)
        (fun c hc x hx ↦ hdata c x (h.clusters c hc) (hne c hc) hx) hpos
      · rcases List.mem_append.mp hc with hc | hc
        · exact h.clusters c hc
        · exact List.mem_singleton.mp hc ▸ hn
      · rw [htable']
        refine fun hf ↦ ?_
        obtain ⟨hf, hcn⟩ := (FileSystem.linkedTable_eq_free fun p hp ↦
          h₁.used p (hprev p hp)).mp hf
        rcases List.mem_append.mp hc with hc | hc
        · exact h₁.used c hc hf
        · exact hcn (List.mem_singleton.mp hc)
      · rw [hlength, Nat.mul_div_cancel _ L.clusterSize_pos]
        exact List.getElem?_concat_length
      · have hlt : k / L.clusterSize < chain.length := (h.length_iff _).mpr
          (Nat.lt_of_le_of_lt (Nat.div_mul_le_self k _) hk)
        rwa [List.getElem?_append_left hlt] at hc'
    · rw [(h₁.clusterForWrite_of_none hc).1 halloc]
      exact .inl ⟨rfl, fun n hn ↦ htable₁ ▸ hno n hn, h₁, hchanged⟩

/-! ## Truncation -/

theorem length_truncate (h : FileSim L disk chain file f) :
    f.truncate.bytes.length = file.offset := by
  have hle := h.offset_le
  rw [FsFile.truncate, List.length_take, h.size_eq, h.offset_eq]
  exact Nat.min_eq_left hle

/-- The bytes that stay -/
theorem truncate_of_pos (h : FileSim L fs.disk chain file f) (hok : fs.Ok L)
    (hpos : 0 < file.offset) :
    ∃ chain', FileSim L (file.truncate L fs).1.disk chain' (file.truncate L fs).2 f.truncate ∧
      Changed L fs (file.truncate L fs).1 chain chain' := by
  have hle := h.offset_le
  obtain ⟨c, hc, hmem⟩ := h.exists_cluster (k := file.offset - 1) (by omega)
  have hlt := (List.getElem?_eq_some_iff.mp hc).1
  have hcurrent := h.current
  rw [if_neg (Nat.ne_of_gt hpos), hc] at hcurrent
  have hcut : file.truncate L fs = (fs.truncateClusterChain L c,
      { file with entry := { file.entry with size := file.offset } }) := by
    simp only [File.truncate, hcurrent, if_neg (Nat.ne_of_gt hpos)]
  obtain ⟨hok', htable, hmirrored, hdata⟩ :=
    FileSystem.truncateClusterChain_spec hok h.linked h.clusters h.used hc
  rw [hcut]
  dsimp only
  generalize fs.truncateClusterChain L c = fs' at hok' htable hmirrored hdata ⊢
  generalize hk : (file.offset - 1) / L.clusterSize = k at hc hlt htable ⊢
  have hmemTake : ∀ c' ∈ chain.take (k + 1), c' ∈ chain := fun c' ↦ List.mem_of_mem_take
  have hnot : ∀ c' ∈ chain.take (k + 1), c' ∉ chain.drop (k + 1) := fun c' hc' hdrop ↦
    List.disjoint_take_drop h.linked.nodup (Nat.le_refl _) hc' hdrop
  have htake : ∀ c' ∈ chain.take (k + 1),
      L.table fs'.disk c' = if c' = c then .endOfChain else L.table fs.disk c' := fun c' hc' ↦ by
    rw [htable, if_neg (hnot c' hc')]
  refine ⟨chain.take (k + 1), ?_, hok', hmirrored, fun c' hc' hused hout ↦ ⟨?_, fun x ↦ hdata c' x⟩,
    fun c' hc' ↦ .inl (hmemTake c' hc')⟩
  · refine ⟨h.clusterSize_eq, h.offset_eq, h.length_truncate, ?_,
      fun c' hc' ↦ h.clusters c' (hmemTake c' hc'), fun c' hc' ↦ ?_, fun j ↦ ?_, ?_, h.entry, ?_,
      fun j c' hj hc' ↦ ?_⟩
    · refine (h.linked.take hc).congr fun c' hc' ↦ ?_
      rw [FatArea.next, htake c' hc', Function.update_apply]
      split_ifs <;> rfl
    · rw [htake c' hc']
      split_ifs
      · exact fun hf ↦ by cases hf
      · exact h.used c' (hmemTake c' hc')
    · dsimp only
      rw [List.length_take, Nat.min_eq_left hlt, Nat.lt_succ_iff, ← hk,
        Nat.le_div_iff_mul_le L.clusterSize_pos]
      omega
    · rw [List.head?_take, if_neg (Nat.succ_ne_zero k)]
      exact h.first
    · dsimp only
      rw [if_neg (Nat.ne_of_gt hpos), hk, List.getElem?_take, if_pos (Nat.lt_succ_self k), hc,
        hcurrent]
    · dsimp only at hj
      have hwas : chain[j / L.clusterSize]? = some c' := by
        rw [List.getElem?_take] at hc'
        split_ifs at hc'
        exact hc'
      rw [FsFile.truncate, List.getElem?_take, if_pos (h.offset_eq ▸ hj),
        h.data j c' (Nat.lt_of_lt_of_le hj hle) hwas, hdata c']
      exact ⟨Nat.le_add_right _ _, Nat.add_lt_add_left (Nat.mod_lt _ L.clusterSize_pos) _⟩
  · rw [htable, if_neg fun hdrop ↦ hout (List.mem_of_mem_drop hdrop),
      if_neg fun heq : c' = c ↦ hout (heq ▸ hmem)]

/-- A file without bytes and without clusters -/
theorem empty (h : FileSim L disk chain file f) (hzero : file.offset = 0) {disk' : ByteMem}
    {first : Option ℕ} (hfirst : first = none) :
    FileSim L disk' [] { file with
      firstCluster := first
      entry := DirEntryEditor.setFirstCluster L.fatType none
        { file.entry with size := file.offset } } f.truncate := by
  subst hfirst
  have hcurrent := h.current
  rw [if_pos hzero] at hcurrent
  refine ⟨h.clusterSize_eq, h.offset_eq, h.length_truncate, .nil _, List.forall_mem_nil _,
    List.forall_mem_nil _, fun k ↦ iff_of_false (Nat.not_lt_zero _) ?_, rfl,
    DirEntryEditor.firstCluster_setFirstCluster _ (fun _ hn ↦ by cases hn),
    hcurrent.trans (if_pos hzero).symm, fun k c hk ↦ absurd hk ?_⟩
  · exact fun hk ↦ Nat.not_lt_zero _ (hzero ▸ hk)
  · exact fun hk ↦ Nat.not_lt_zero _ (hzero ▸ hk)

/-- **Truncation cuts the bytes.** -/
theorem truncate (h : FileSim L fs.disk chain file f) (hok : fs.Ok L) :
    ∃ chain', FileSim L (file.truncate L fs).1.disk chain' (file.truncate L fs).2 f.truncate ∧
      Changed L fs (file.truncate L fs).1 chain chain' := by
  rcases Nat.eq_zero_or_pos file.offset with hzero | hpos
  · have hcurrent := h.current
    rw [if_pos hzero] at hcurrent
    have hfirst := h.first
    cases hhead : chain.head? with
    | none =>
      rw [hhead] at hfirst
      have hcut : file.truncate L fs = (fs, { file with
          entry := DirEntryEditor.setFirstCluster L.fatType none
            { file.entry with size := file.offset } }) := by
        simp only [File.truncate, hcurrent, hfirst, if_pos hzero]
      rw [hcut]
      exact ⟨[], h.empty hzero hfirst, hok, id, fun _ _ _ _ ↦ ⟨rfl, fun _ _ ↦ rfl⟩,
        fun _ hc ↦ by cases hc⟩
    | some n =>
      rw [hhead] at hfirst
      have hcut : file.truncate L fs = (fs.freeClusterChain L n, { file with
          firstCluster := none
          entry := DirEntryEditor.setFirstCluster L.fatType none
            { file.entry with size := file.offset } }) := by
        simp only [File.truncate, hcurrent, hfirst, if_pos hzero]
      obtain ⟨hok', htable, hmirrored, hdata⟩ :=
        FileSystem.freeClusterChain_spec hok h.linked h.clusters h.used hhead
      rw [hcut]
      exact ⟨[], h.empty hzero rfl, hok', hmirrored,
        fun c _ _ hout ↦ ⟨(htable c).trans (if_neg hout), fun x ↦ hdata c x⟩,
        fun _ hc ↦ by cases hc⟩
  · exact h.truncate_of_pos hok hpos

end FileSim

end Fatfs

end Maturin
