import Maturin.Lib.Bytes
import Maturin.Syscall.Unlinkat
import Mathlib.Data.List.TakeWhile

/-!
# Reading a link into a buffer

`sys_readlinkat` gives back a text and its length in bytes, which it is to cut off at the length of
the buffer. The text has three sources: the path `proc/self/exe` stands for one fixed program, a
name of the table of links for its real name, and a file below the include directory of the compiler
for the same file below another directory.

The first text is cut off. The other two are copied whole, so a buffer that is too short is run
over, and the length returned is that of the text.
-/

namespace Maturin

variable {σ Γ D F : Type}

/-- The bytes of a text -/
def utf8Bytes (s : List Char) : List UInt8 := s.flatMap String.utf8EncodeChar

theorem length_utf8Bytes (s : List Char) : (utf8Bytes s).length = utf8Len s := by
  rw [utf8Bytes, List.length_flatMap, utf8Len]
  congr 1
  exact List.map_congr_left fun c _ ↦ String.length_utf8EncodeChar c

/-- The include directory of the compiler -/
def GCC_INCLUDE : List Char :=
  "./riscv64-linux-musl-native/lib/gcc/riscv64-linux-musl/11.2.1/include/".toList

/-- Where its files are -/
def GCC_LINK_INCLUDE : List Char := "/riscv64-linux-musl-native/include/".toList

/-- The path of the file that the caller executes -/
def PROC_SELF_EXE : List Char := "proc/self/exe".toList

/-- The directory in front of the last component of a directory, and that component; `none` is a
panic. -/
def splitLast (path : List Char) : Option FileDisc :=
  if path = [] then none
  else
    let path := path.dropLast
    let front := (path.reverse.dropWhile (· ≠ '/')).reverse
    if front = [] then none else some ⟨front, path.drop front.length⟩

namespace LinkState

/-- The name under which a directory is looked for in the table; `none` is a panic. -/
def nameOfDir (k : FileDisc) : Option FileDisc :=
  if k.file = [] then
    if k.path = ROOT_DIR then some { k with file := ROOT_DIR } else splitLast k.path
  else some k

/-- `read_link`; the outer `none` is a panic. -/
def readLink (s : LinkState σ Γ) (path file : List Char) : Option (Option (List Char)) :=
  let file :=
    if ['/', '.'].isSuffixOf file || ['/', '.', '.'].isSuffixOf file then file ++ ['/'] else file
  match s.mapPathAndFile path file with
  | none => some none
  | some k =>
    (nameOfDir k).map fun k ↦
      match s.map.get k with
      | some disc => some (disc.path ++ disc.file)
      | none =>
        if GCC_INCLUDE.isPrefixOf k.path then
          some (GCC_LINK_INCLUDE ++ k.path.drop GCC_INCLUDE.length ++ k.file)
        else none

/-- `sys_readlinkat`, where `valid` says whether the path and `len` bytes from `buf` on are mapped,
and the memory after it; the outer `none` is a panic. -/
def sysReadlinkat (s : LinkState σ Γ) (valid : Bool) (cwd : List Char)
    (getDir : BitVec 32 → Option (List Char)) (dirFd : BitVec 32) (path : List Char) (buf len : ℕ)
    (mem : ByteMem) : Option (Except ErrorNo ℕ × ByteMem) :=
  if !valid then some (.error .EFAULT, mem)
  else
    match resolvePathFromFd cwd getDir dirFd path with
    | some (path, file) =>
      if file = PROC_SELF_EXE then
        let name := utf8Bytes "/lmbench_all".toList
        let writeLen := min len name.length
        some (.ok writeLen, mem.writeBytes buf (name.take writeLen))
      else
        (s.readLink path file).map fun linkedFile ↦
          match linkedFile with
          | some linkedFile =>
            let bytes := utf8Bytes linkedFile
            (.ok bytes.length, mem.writeBytes buf bytes)
          | none => (.error .EINVAL, mem)
    | none => some (.error .EINVAL, mem)

/-- The text that a path links to, if there is one -/
def linkText (s : LinkState σ Γ) (cwd : List Char) (getDir : BitVec 32 → Option (List Char))
    (dirFd : BitVec 32) (path : List Char) : Option (List Char) :=
  match resolvePathFromFd cwd getDir dirFd path with
  | some (path, file) =>
    if file = PROC_SELF_EXE then some "/lmbench_all".toList else (s.readLink path file).join
  | none => none

/-- The call returns, and gives as much of the text as the buffer has room for. -/
def RespectsBuffer (s : LinkState σ Γ) (cwd : List Char) (getDir : BitVec 32 → Option (List Char))
    (dirFd : BitVec 32) (path : List Char) (buf len : ℕ) (mem : ByteMem) : Prop :=
  ∃ r, s.sysReadlinkat true cwd getDir dirFd path buf len mem = some r ∧
    ∀ text, s.linkText cwd getDir dirFd path = some text →
      r.1 = .ok (min len (utf8Len text)) ∧
      (∀ i < min len (utf8Len text), (utf8Bytes text)[i]? = some (r.2 (buf + i))) ∧
      ∀ a, (a < buf ∨ buf + min len (utf8Len text) ≤ a) → r.2 a = mem a

variable {K : FatFs σ D F} {s : LinkState σ Γ} {k : FileDisc} {path file : List Char}

/-- A directory that is not the root has a last component. -/
theorem exists_splitLast {names : List (List Char)} (hne : names ≠ []) :
    ∃ k, splitLast (dirPath names) = some k := by
  obtain ⟨front, name, rfl⟩ := (List.eq_nil_or_concat' names).resolve_left hne
  obtain ⟨l, hl⟩ := exists_dirPath_eq front
  have hdrop : (dirPath (front ++ [name])).dropLast = l ++ '/' :: name := by
    rw [dirPath_append, hl, ← List.append_assoc, List.dropLast_concat, List.append_assoc,
      List.singleton_append]
  have hpath : dirPath (front ++ [name]) ≠ [] := by
    rw [dirPath, ROOT_DIR]
    simp
  have hslash : ((l ++ '/' :: name).reverse.dropWhile (· ≠ '/')).reverse ≠ [] := by
    intro hnil
    rw [List.reverse_eq_nil_iff, List.dropWhile_eq_nil_iff] at hnil
    exact absurd (hnil '/' (by simp)) (by simp)
  rw [splitLast, if_neg hpath, hdrop]
  dsimp only
  rw [if_neg hslash]
  exact ⟨_, rfl⟩

theorem exists_nameOfDir (h : k.Normal) : ∃ k', nameOfDir k = some k' := by
  rw [nameOfDir]
  split_ifs with hfile hroot
  · exact ⟨_, rfl⟩
  · obtain ⟨names, -, hpath⟩ := h.exists_names
    rw [hpath]
    refine exists_splitLast fun hnil ↦ hroot ?_
    rw [hpath, hnil, dirPath_nil]
  · exact ⟨_, rfl⟩

/-- `read_link` does not panic. -/
theorem Sound.exists_readLink (hs : s.Sound) (path file : List Char) :
    ∃ r, s.readLink path file = some r := by
  rw [readLink]
  split
  · exact ⟨_, rfl⟩
  · rename_i k hk
    obtain ⟨k', hk'⟩ := exists_nameOfDir (hs.normal_of_map hk)
    rw [hk']
    exact ⟨_, rfl⟩

variable {cwd text : List Char} {getDir : BitVec 32 → Option (List Char)} {dirFd : BitVec 32}
  {buf len : ℕ} {mem : ByteMem}

/-- A text that is cut off -/
theorem writeBytes_take_text {n : ℕ} (hn : n ≤ utf8Len text) (buf : ℕ) (mem : ByteMem) :
    (∀ i < n, (utf8Bytes text)[i]? =
      some (mem.writeBytes buf ((utf8Bytes text).take n) (buf + i))) ∧
    ∀ a, (a < buf ∨ buf + n ≤ a) → mem.writeBytes buf ((utf8Bytes text).take n) a = mem a := by
  have hlen : ((utf8Bytes text).take n).length = n := by
    rw [List.length_take, length_utf8Bytes]
    exact min_eq_left hn
  constructor
  · intro i hi
    have hi' : i < ((utf8Bytes text).take n).length := hlen.symm ▸ hi
    rw [ByteMem.writeBytes_of_mem hi', List.getElem_take, List.getElem?_eq_getElem]
  · intro a ha
    exact ByteMem.writeBytes_of_notMem (hlen.symm ▸ ha)

/-- **The buffer is respected if and only if the text of a link fits into it**; that of
`proc/self/exe` need not. -/
theorem respectsBuffer_iff (h : s.Tables K) (cwd : List Char)
    (getDir : BitVec 32 → Option (List Char)) (dirFd : BitVec 32) (path : List Char)
    (buf len : ℕ) (mem : ByteMem) :
    s.RespectsBuffer cwd getDir dirFd path buf len mem ↔
      ∀ dir file text, resolvePathFromFd cwd getDir dirFd path = some (dir, file) →
        file ≠ PROC_SELF_EXE → s.readLink dir file = some (some text) → utf8Len text ≤ len := by
  cases hresolve : resolvePathFromFd cwd getDir dirFd path with
  | none =>
    have hcall : s.sysReadlinkat true cwd getDir dirFd path buf len mem =
        some (.error .EINVAL, mem) := by
      rw [sysReadlinkat, hresolve]
      rfl
    refine iff_of_true ⟨_, hcall, fun text htext ↦ ?_⟩ fun dir file text hr ↦ by cases hr
    rw [linkText, hresolve] at htext
    cases htext
  | some r =>
    obtain ⟨dir, file⟩ := r
    by_cases hexe : file = PROC_SELF_EXE
    · -- the text is cut off
      subst hexe
      have hcall : s.sysReadlinkat true cwd getDir dirFd path buf len mem =
          some (.ok (min len (utf8Len "/lmbench_all".toList)), mem.writeBytes buf
            ((utf8Bytes "/lmbench_all".toList).take
              (min len (utf8Len "/lmbench_all".toList)))) := by
        rw [sysReadlinkat, hresolve, ← length_utf8Bytes]
        rfl
      refine iff_of_true ⟨_, hcall, fun text htext ↦ ?_⟩ fun dir file text hr hne ↦ ?_
      · rw [linkText, hresolve] at htext
        obtain rfl : "/lmbench_all".toList = text := Option.some.inj htext
        exact ⟨rfl, writeBytes_take_text (min_le_right _ _) buf mem⟩
      · obtain ⟨-, rfl⟩ := Prod.mk.inj (Option.some.inj hr)
        exact absurd rfl hne
    · obtain ⟨linked, hlinked⟩ := h.sound.exists_readLink dir file
      have htext : s.linkText cwd getDir dirFd path = linked := by
        rw [linkText, hresolve]
        dsimp only
        rw [if_neg hexe, hlinked, Option.join_some]
      have hiff : (∀ dir' file' text, some (dir, file) = some (dir', file') →
          file' ≠ PROC_SELF_EXE → s.readLink dir' file' = some (some text) → utf8Len text ≤ len) ↔
          ∀ text, linked = some text → utf8Len text ≤ len := by
        constructor
        · intro hall text ht
          exact hall dir file text rfl hexe (hlinked.trans (congrArg some ht))
        · rintro hall dir' file' text hr - ht
          obtain ⟨rfl, rfl⟩ := Prod.mk.inj (Option.some.inj hr)
          exact hall text (Option.some.inj (hlinked.symm.trans ht))
      rw [hiff, RespectsBuffer, htext, sysReadlinkat, hresolve]
      dsimp only
      rw [if_neg hexe, hlinked, Option.map_some]
      cases linked with
      | none =>
        refine iff_of_true ⟨_, rfl, fun text ht ↦ by cases ht⟩ fun text ht ↦ by cases ht
      | some linked =>
        constructor
        · rintro ⟨r, hr, hall⟩ text ht
          obtain rfl := Option.some.inj ht
          obtain rfl := Option.some.inj hr
          have hlen : (utf8Bytes linked).length = min len (utf8Len linked) :=
            Except.ok.inj (hall linked rfl).1
          rw [length_utf8Bytes] at hlen
          omega
        · intro hall
          have hmin := min_eq_right (hall linked rfl)
          refine ⟨_, rfl, fun text ht ↦ ?_⟩
          obtain rfl := Option.some.inj ht
          have hcut := writeBytes_take_text (le_refl (utf8Len linked)) buf mem
          rw [List.take_of_length_le (length_utf8Bytes linked).le] at hcut
          rw [hmin]
          exact ⟨congrArg Except.ok (length_utf8Bytes linked), hcut⟩

/-- A character may take more than one byte of the buffer. -/
example : utf8Len ['é', 'a'] = 3 := by decide +kernel

theorem resolve_b : resolvePathFromFd ROOT_DIR (fun _ ↦ none) AT_FDCWD ['b'] =
    some (ROOT_DIR, ['b']) := by decide +kernel

/-- The name `b` is linked to `./a`. -/
theorem readLink_linkedFile : linkedFile.readLink ROOT_DIR ['b'] = some (some ['.', '/', 'a']) := by
  decide +kernel

/-- A buffer of three bytes has room for the text. -/
theorem respectsBuffer_three : linkedFile.RespectsBuffer ROOT_DIR (fun _ ↦ none) AT_FDCWD ['b']
    0x1000 3 (fun _ ↦ 0) := by
  refine (respectsBuffer_iff tables_linkedFile _ _ _ _ _ _ _).mpr fun dir file text hr _ ht ↦ ?_
  obtain ⟨rfl, rfl⟩ := Prod.mk.inj (Option.some.inj (resolve_b.symm.trans hr))
  obtain rfl := Option.some.inj (Option.some.inj (readLink_linkedFile.symm.trans ht))
  decide +kernel

/-- A buffer of one byte is run over: the call returns 3, and the byte behind it is a slash. -/
theorem readlinkat_overruns : linkedFile.Tables FatFs.rootOnly ∧
    (linkedFile.sysReadlinkat true ROOT_DIR (fun _ ↦ none) AT_FDCWD ['b'] 0x1000 1
      (fun _ ↦ 0)).map (fun r ↦ (r.1, r.2 0x1000, r.2 0x1001)) =
        some (.ok 3, 46, 47) ∧
    ¬linkedFile.RespectsBuffer ROOT_DIR (fun _ ↦ none) AT_FDCWD ['b'] 0x1000 1 (fun _ ↦ 0) := by
  have hcall : linkedFile.sysReadlinkat true ROOT_DIR (fun _ ↦ none) AT_FDCWD ['b'] 0x1000 1
      (fun _ ↦ 0) = some (.ok 3, ByteMem.writeBytes 0x1000 [46, 47, 97] fun _ ↦ 0) := by
    have hexe : (['b'] : List Char) ≠ PROC_SELF_EXE := by decide +kernel
    have hbytes : utf8Bytes ['.', '/', 'a'] = [46, 47, 97] := by decide +kernel
    rw [sysReadlinkat, resolve_b]
    dsimp only
    rw [if_neg hexe, readLink_linkedFile, Option.map_some]
    dsimp only
    rw [hbytes]
    rfl
  refine ⟨tables_linkedFile, ?_, ?_⟩
  · rw [hcall, Option.map_some]
    decide +kernel
  · rintro ⟨r, hr, hall⟩
    obtain rfl := Option.some.inj (hcall.symm.trans hr)
    have htext : linkedFile.linkText ROOT_DIR (fun _ ↦ none) AT_FDCWD ['b'] =
        some ['.', '/', 'a'] := by decide +kernel
    exact absurd (hall _ htext).1 (by decide +kernel)

end LinkState

end Maturin
