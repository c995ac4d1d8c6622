import Maturin.Base.Error
import Maturin.Base.Addr
import Maturin.Lib.Bytes
import Mathlib.Data.List.Nodup

/-!
# Directory entries

`sys_getdents64` of `syscall/fs.rs` stores records of the entries of a directory (`Dirent64`) one
behind the other in a buffer of the user. It is called again and again until it returns 0. The
descriptor does not remember how far the listing has come: what tells the calls apart is the field
`d_off` of the record that the buffer begins with, before the call. Every stored record has -1
there, so that a second call with the buffer of the first one returns 0; with any other buffer it
begins at the first entry again.
-/

namespace Maturin

/-- An entry of a directory: the bytes of its name, and whether it is a directory. -/
@[ext]
structure FatDirEntry where
  name : List UInt8
  isDir : Bool

namespace FatDirEntry

/-- `Dirent64::d_name_offset()` -/
abbrev dNameOffset : ℕ := 19

/-- The size of the entry in the buffer. -/
def entrySize (entry : FatDirEntry) : ℕ := dNameOffset + entry.name.length + 1

/-- What `set_info` and the copy of the name store: `d_ino`, `d_off`, `d_reclen`, `d_type`, `d_name`
and a zero. -/
def bytes (entry : FatDirEntry) : List UInt8 :=
  [1, 0, 0, 0, 0, 0, 0, 0] ++ List.replicate 8 0xff ++
    [UInt8.ofNat entry.entrySize, UInt8.ofNat (entry.entrySize / 256), if entry.isDir then 4 else 8]
    ++ entry.name ++ [0]

theorem length_bytes (entry : FatDirEntry) : entry.bytes.length = entry.entrySize := by
  simp only [bytes, List.length_append, List.length_cons, List.length_nil, List.length_replicate,
    entrySize, dNameOffset]

/-- The entries that fit into a buffer of a length, from an offset on. -/
def fits (len : ℕ) : List FatDirEntry → ℕ → List FatDirEntry
  | [], _ => []
  | entry :: rest, offset =>
    if offset + entry.entrySize > len then [] else entry :: fits len rest (offset + entry.entrySize)

/-- The records of entries, one behind the other. -/
def records (entries : List FatDirEntry) : List UInt8 := entries.flatMap bytes

variable {entry : FatDirEntry} {entries rest : List FatDirEntry} {len offset : ℕ}

theorem records_cons : records (entry :: rest) = entry.bytes ++ records rest := rfl

/-- Every entry fits exactly if all of them fit together. -/
theorem fits_eq_self_iff :
    fits len entries offset = entries ↔ entries = [] ∨ offset + (records entries).length ≤ len := by
  induction entries generalizing offset with
  | nil => exact iff_of_true rfl (.inl rfl)
  | cons entry rest ih =>
    have hor : (entry :: rest = [] ∨ offset + (records (entry :: rest)).length ≤ len) ↔
        offset + entry.entrySize + (records rest).length ≤ len := by
      rw [records_cons, List.length_append, length_bytes, ← Nat.add_assoc]
      exact or_iff_right (List.cons_ne_nil _ _)
    rw [hor, fits]
    by_cases hlarge : offset + entry.entrySize > len
    · rw [if_pos hlarge]
      exact iff_of_false (List.cons_ne_nil _ _).symm fun hle ↦
        absurd ((Nat.le_add_right _ _).trans hle) (not_le.mpr hlarge)
    · rw [if_neg hlarge, List.cons.injEq, eq_self, true_and, ih]
      refine ⟨fun h ↦ h.elim (fun hnil ↦ ?_) id, .inr⟩
      rw [hnil]
      exact not_lt.mp hlarge

theorem fits_eq_nil_iff :
    fits len (entry :: rest) offset = [] ↔ len < offset + entry.entrySize := by
  rw [fits]
  by_cases hlarge : offset + entry.entrySize > len
  · rw [if_pos hlarge]
    exact iff_of_true rfl hlarge
  · rw [if_neg hlarge]
    exact iff_of_false (List.cons_ne_nil _ _) hlarge

/-- What fits are the first entries. -/
theorem fits_initial : fits len entries offset <+: entries := by
  induction entries generalizing offset with
  | nil => exact List.nil_prefix
  | cons entry rest ih =>
    rw [fits]
    split_ifs
    · exact List.nil_prefix
    · exact (List.prefix_cons_inj entry).mpr ih

end FatDirEntry


/-! ## The system call -/

/-- A buffer of the user, which ends below the last address, and the memory before the call. -/
structure DirBuffer where
  mem : ByteMem
  buf : ℕ
  len : ℕ
  bounds : buf + len ≤ 2 ^ 64

/-- `d_off` of the record at an address, as a word. -/
def dOff (mem : ByteMem) (buf : ℕ) : ℕ := mem.load 8 (buf + 8)

/-- The word of `d_off` that is -1. -/
def D_OFF_END : ℕ := 2 ^ 64 - 1

/-- The loop of `sys_getdents64`, which returns the offset behind the last record. -/
def direntsLoop (buf len : ℕ) : List FatDirEntry → ℕ → ByteMem → ℕ × ByteMem
  | [], offset, mem => (offset, mem)
  | entry :: rest, offset, mem =>
    if offset + entry.entrySize > len then (offset, mem)
    else direntsLoop buf len rest (offset + entry.entrySize)
      (mem.writeBytes (buf + offset) entry.bytes)

/-- `sys_getdents64`: `dir` is the directory of the descriptor, `dirEntries` what a directory
contains, and `allocPage` whether `manually_alloc_page` finds the page of an address. -/
def sysGetdents64 (allocPage : ℕ → Bool) (dir : Option (List Char))
    (dirEntries : List Char → Option (List FatDirEntry)) (b : DirBuffer) :
    Except ErrorNo ℕ × ByteMem :=
  if dOff b.mem b.buf = D_OFF_END then
    (.ok 0, b.mem)
  else
    match dir with
    | none => (.error .EINVAL, b.mem)
    | some dir =>
      if !allocPage b.buf || !allocPage (wsub (wadd b.buf b.len) 1) then
        (.error .EFAULT, b.mem)
      else
        match dirEntries dir with
        | none => (.error .EINVAL, b.mem)
        | some entries =>
          let (offset, mem) := direntsLoop b.buf b.len entries 0 b.mem
          (.ok offset, mem)

open FatDirEntry

section direntsLoop

variable {buf len offset : ℕ} {entries : List FatDirEntry} {mem : ByteMem}

/-- The loop stores the records of the entries that fit. -/
theorem direntsLoop_eq : direntsLoop buf len entries offset mem =
    (offset + (records (fits len entries offset)).length,
      mem.writeBytes (buf + offset) (records (fits len entries offset))) := by
  induction entries generalizing offset mem with
  | nil =>
    rw [direntsLoop, fits]
    rw [records, List.flatMap_nil, ByteMem.writeBytes_nil]
    rfl
  | cons entry rest ih =>
    rw [direntsLoop, fits]
    by_cases hlarge : offset + entry.entrySize > len
    · rw [if_pos hlarge, if_pos hlarge, records, List.flatMap_nil, ByteMem.writeBytes_nil]
      rfl
    · rw [if_neg hlarge, if_neg hlarge, ih, records_cons, List.length_append, length_bytes,
        ByteMem.writeBytes_append, length_bytes, Nat.add_assoc, Nat.add_assoc]

end direntsLoop

/-! ## What the user reads -/

/-- `d_reclen` of the record at the beginning. -/
def dRecLen (bytes : List UInt8) : ℕ := (bytes[16]?.getD 0).toNat + 256 * (bytes[17]?.getD 0).toNat

/-- `d_type` of the record at the beginning. -/
def dType (bytes : List UInt8) : UInt8 := bytes[18]?.getD 0

/-- The bytes are records of the entries: every record is as long as its `d_reclen` says, so that
the next one is behind it, and has the type and the name of its entry, and a zero after the name. -/
inductive Lists : List UInt8 → List FatDirEntry → Prop
  | nil : Lists [] []
  | cons {record bytes : List UInt8} {entry : FatDirEntry} {entries : List FatDirEntry}
      (reclen : record.length = dRecLen record)
      (type : dType record = if entry.isDir then 4 else 8)
      (name : record.drop dNameOffset = entry.name ++ [0])
      (rest : Lists bytes entries) : Lists (record ++ bytes) (entry :: entries)

/-- The content of a directory. A name of 255 UTF-16 units has at most 765 bytes. -/
structure Directory where
  entries : List FatDirEntry
  nodup : (entries.map FatDirEntry.name).Nodup
  length_le : ∀ entry ∈ entries, entry.name.length ≤ 765

section Lists

variable {entry : FatDirEntry} {entries entries' : List FatDirEntry} {bytes record : List UInt8}

theorem length_bytes_le (h : entry.name.length ≤ 765) : entry.entrySize ≤ 785 := by
  rw [entrySize, dNameOffset]
  omega

theorem dRecLen_bytes (h : entry.name.length ≤ 765) (rest : List UInt8) :
    dRecLen (entry.bytes ++ rest) = entry.entrySize := by
  have hle := length_bytes_le h
  have hlow : (entry.bytes ++ rest)[16]? = some (UInt8.ofNat entry.entrySize) := rfl
  have hhigh : (entry.bytes ++ rest)[17]? = some (UInt8.ofNat (entry.entrySize / 256)) := rfl
  rw [dRecLen, hlow, hhigh, Option.getD_some, Option.getD_some, UInt8.toNat_ofNat',
    UInt8.toNat_ofNat']
  omega

theorem dType_bytes (entry : FatDirEntry) (rest : List UInt8) :
    dType (entry.bytes ++ rest) = if entry.isDir then 4 else 8 := rfl

theorem drop_bytes : entry.bytes.drop dNameOffset = entry.name ++ [0] := rfl

/-- The bytes up to the name do not depend on what follows the record. -/
theorem dRecLen_append (h : dNameOffset ≤ record.length) :
    dRecLen (record ++ bytes) = dRecLen record := by
  rw [dNameOffset] at h
  rw [dRecLen, dRecLen, List.getElem?_append_left (by omega), List.getElem?_append_left (by omega)]

theorem lists_records (h : ∀ entry ∈ entries, entry.name.length ≤ 765) :
    Lists (records entries) entries := by
  induction entries with
  | nil => exact .nil
  | cons entry rest ih =>
    have hentry := h entry List.mem_cons_self
    rw [records_cons]
    refine .cons ?_ ?_ drop_bytes (ih fun e he ↦ h e (List.mem_cons_of_mem _ he))
    · have hreclen := dRecLen_bytes hentry []
      rw [List.append_nil] at hreclen
      rw [hreclen, length_bytes]
    · have htype := dType_bytes entry []
      rwa [List.append_nil] at htype

/-- The records tell the entries. -/
theorem eq_of_lists (h : ∀ entry ∈ entries, entry.name.length ≤ 765)
    (hlists : Lists (records entries) entries') : entries = entries' := by
  induction entries generalizing entries' with
  | nil =>
    generalize hbytes : records [] = bytes at hlists
    cases hlists with
    | nil => rfl
    | @cons record rest entry' entries' reclen type name hrest =>
      have hnil : record = [] := (List.append_eq_nil_iff.mp hbytes.symm).1
      rw [hnil, List.drop_nil] at name
      exact absurd name.symm (by simp)
  | cons entry rest ih =>
    have hentry := h entry List.mem_cons_self
    generalize hbytes : records (entry :: rest) = bytes at hlists
    rw [records_cons] at hbytes
    cases hlists with
    | nil => exact absurd (congrArg List.length hbytes) (by simp [length_bytes, entrySize])
    | @cons record tail entry' entries' reclen type name hrest =>
      -- both first records say the same length
      have hoffset : dNameOffset ≤ record.length := by
        by_contra hlt
        rw [List.drop_eq_nil_of_le (not_le.mp hlt).le] at name
        exact absurd name.symm (by simp)
      have hlen : entry.bytes.length = record.length := by
        rw [reclen, length_bytes, ← dRecLen_bytes hentry (records rest), hbytes,
          dRecLen_append hoffset]
      obtain ⟨hrecord, htail⟩ := List.append_inj hbytes hlen
      subst hrecord htail
      have hname : entry.name = entry'.name := by
        rw [drop_bytes] at name
        exact (List.append_inj' name rfl).1
      have htype : entry.isDir = entry'.isDir := by
        have hdType := dType_bytes entry []
        rw [List.append_nil, type] at hdType
        revert hdType
        cases entry.isDir <;> cases entry'.isDir <;> decide
      rw [ih (fun e he ↦ h e (List.mem_cons_of_mem _ he)) hrest, FatDirEntry.ext hname htype]

end Lists

/-! ## Listing a directory -/

section listing

variable (allocPage : ℕ → Bool) (dir : Option (List Char))
  (dirEntries : List Char → Option (List FatDirEntry))

/-- The bytes that a call has stored, as far as its answer says. -/
def returned (b : DirBuffer) : List UInt8 :=
  match sysGetdents64 allocPage dir dirEntries b with
  | (.ok n, mem) => mem.readBytes b.buf n
  | (.error _, _) => []

/-- Calls with the buffers one after the other, up to the first one that returns 0, list the
entries. -/
def ListsAll (buffers : ℕ → DirBuffer) (entries : List FatDirEntry) : Prop :=
  ∃ n, (∀ i < n, (sysGetdents64 allocPage dir dirEntries (buffers i)).1 ≠ .ok 0) ∧
    (sysGetdents64 allocPage dir dirEntries (buffers n)).1 = .ok 0 ∧
    Lists ((List.range n).flatMap fun i ↦ returned allocPage dir dirEntries (buffers i)) entries

variable {allocPage dir dirEntries} {path : List Char} {d : Directory} {b : DirBuffer}
  {buffers : ℕ → DirBuffer}

/-- The entries that a call stores. -/
def listed (entries : List FatDirEntry) (b : DirBuffer) : List FatDirEntry :=
  if dOff b.mem b.buf = D_OFF_END then [] else fits b.len entries 0

theorem listed_of_end {entries : List FatDirEntry} (h : dOff b.mem b.buf = D_OFF_END) :
    listed entries b = [] := if_pos h

theorem listed_of_ne {entries : List FatDirEntry} (h : dOff b.mem b.buf ≠ D_OFF_END) :
    listed entries b = fits b.len entries 0 := if_neg h

theorem listed_initial (entries : List FatDirEntry) (b : DirBuffer) :
    listed entries b <+: entries := by
  rw [listed]
  split_ifs
  · exact List.nil_prefix
  · exact fits_initial

theorem length_records_eq_zero_iff {entries : List FatDirEntry} :
    (records entries).length = 0 ↔ entries = [] := by
  cases entries with
  | nil => exact iff_of_true rfl rfl
  | cons entry rest =>
    refine iff_of_false ?_ (List.cons_ne_nil _ _)
    rw [records_cons, List.length_append, length_bytes, entrySize]
    omega

/-- A call stores the records of `listed`. -/
theorem sysGetdents64_eq (hdir : dir = some path) (hentries : dirEntries path = some d.entries)
    (halloc : allocPage b.buf = true ∧ allocPage (wsub (wadd b.buf b.len) 1) = true) :
    sysGetdents64 allocPage dir dirEntries b = (.ok (records (listed d.entries b)).length,
      b.mem.writeBytes b.buf (records (listed d.entries b))) := by
  subst hdir
  rw [sysGetdents64, listed]
  by_cases hend : dOff b.mem b.buf = D_OFF_END
  · rw [if_pos hend, if_pos hend, records, List.flatMap_nil, ByteMem.writeBytes_nil]
    rfl
  · rw [if_neg hend, if_neg hend]
    simp only [halloc, hentries, Bool.not_true, Bool.or_self, Bool.false_eq_true, if_false,
      direntsLoop_eq, Nat.zero_add, Nat.add_zero]

theorem returned_eq (hdir : dir = some path) (hentries : dirEntries path = some d.entries)
    (halloc : allocPage b.buf = true ∧ allocPage (wsub (wadd b.buf b.len) 1) = true) :
    returned allocPage dir dirEntries b = records (listed d.entries b) := by
  rw [returned, sysGetdents64_eq hdir hentries halloc]
  exact ByteMem.readBytes_writeBytes

theorem sysGetdents64_eq_zero_iff (hdir : dir = some path)
    (hentries : dirEntries path = some d.entries)
    (halloc : allocPage b.buf = true ∧ allocPage (wsub (wadd b.buf b.len) 1) = true) :
    (sysGetdents64 allocPage dir dirEntries b).1 = .ok 0 ↔ listed d.entries b = [] := by
  rw [sysGetdents64_eq hdir hentries halloc, Except.ok.injEq, length_records_eq_zero_iff]

/-- The records of several calls are those of what the calls have listed. -/
theorem flatMap_records {α : Type} (l : List α) (f : α → List FatDirEntry) :
    l.flatMap (fun a ↦ records (f a)) = records (l.flatMap f) := by
  simp only [records, List.flatMap_assoc]

/-- Calls list the directory exactly if what they list, one after the other, is its content. -/
theorem listsAll_iff (hdir : dir = some path) (hentries : dirEntries path = some d.entries)
    (halloc : ∀ i, allocPage (buffers i).buf = true ∧
      allocPage (wsub (wadd (buffers i).buf (buffers i).len) 1) = true) :
    ListsAll allocPage dir dirEntries buffers d.entries ↔
      ∃ n, (∀ i < n, listed d.entries (buffers i) ≠ []) ∧ listed d.entries (buffers n) = [] ∧
        ((List.range n).flatMap fun i ↦ listed d.entries (buffers i)) = d.entries := by
  have hlists : ∀ n, Lists ((List.range n).flatMap fun i ↦
      returned allocPage dir dirEntries (buffers i)) d.entries ↔
        ((List.range n).flatMap fun i ↦ listed d.entries (buffers i)) = d.entries := by
    intro n
    have hreturned : ((List.range n).flatMap fun i ↦
        returned allocPage dir dirEntries (buffers i)) =
          records ((List.range n).flatMap fun i ↦ listed d.entries (buffers i)) := by
      rw [← flatMap_records]
      exact List.flatMap_congr fun i _ ↦ returned_eq hdir hentries (halloc i)
    rw [hreturned]
    constructor
    · refine eq_of_lists fun entry hentry ↦ ?_
      obtain ⟨i, -, hi⟩ := List.mem_flatMap.mp hentry
      exact d.length_le entry ((listed_initial _ _).subset hi)
    · intro heq
      rw [heq]
      exact lists_records d.length_le
  simp only [ListsAll, hlists, ne_eq, sysGetdents64_eq_zero_iff hdir hentries (halloc _)]

/-- What a call lists of a directory that is not empty begins with the first entry. -/
theorem exists_listed {entry : FatDirEntry} {rest : List FatDirEntry}
    (h : listed (entry :: rest) b ≠ []) : ∃ tail, listed (entry :: rest) b = entry :: tail := by
  obtain ⟨tail, htail⟩ := listed_initial (entry :: rest) b
  cases hlisted : listed (entry :: rest) b with
  | nil => exact absurd hlisted h
  | cons first tail' =>
    rw [hlisted, List.cons_append, List.cons.injEq] at htail
    exact ⟨tail', by rw [htail.1]⟩

/-- Two calls that return something return the first entry twice. -/
theorem not_nodup_of_two_calls {entry : FatDirEntry} {rest : List FatDirEntry} {n : ℕ}
    (hne : ∀ i < n, listed (entry :: rest) (buffers i) ≠ []) (htwo : 1 < n) :
    ¬((List.range n).flatMap fun i ↦ listed (entry :: rest) (buffers i)).Nodup := by
  have hmem : ∀ i < n, entry ∈ listed (entry :: rest) (buffers i) := by
    intro i hi
    obtain ⟨tail, htail⟩ := exists_listed (hne i hi)
    rw [htail]
    exact List.mem_cons_self
  intro hnodup
  have hpairwise := (List.nodup_flatMap.mp hnodup).2
  have hdisjoint := List.pairwise_iff_getElem.mp hpairwise 0 1 (by rw [List.length_range]; omega)
    (by rwa [List.length_range]) Nat.zero_lt_one
  rw [List.getElem_range, List.getElem_range] at hdisjoint
  exact hdisjoint (hmem 0 (by omega)) (hmem 1 htwo)

/-- **Listing a directory.** Whatever the buffers are and hold, the calls list every entry once if
and only if the directory is empty, or the first call stores all of them and the second returns 0:
the first buffer holds them all and does not happen to have -1 in `d_off`, while the second has -1
there or is too short for the first entry. -/
theorem listsAll_iff_first (hdir : dir = some path) (hentries : dirEntries path = some d.entries)
    (halloc : ∀ i, allocPage (buffers i).buf = true ∧
      allocPage (wsub (wadd (buffers i).buf (buffers i).len) 1) = true) :
    ListsAll allocPage dir dirEntries buffers d.entries ↔
      d.entries = [] ∨
      dOff (buffers 0).mem (buffers 0).buf ≠ D_OFF_END ∧
        (records d.entries).length ≤ (buffers 0).len ∧
        (dOff (buffers 1).mem (buffers 1).buf = D_OFF_END ∨
          ∀ entry ∈ d.entries.head?, (buffers 1).len < entry.entrySize) := by
  rw [listsAll_iff hdir hentries halloc]
  have hnodup : d.entries.Nodup := List.Nodup.of_map _ d.nodup
  cases hd : d.entries with
  | nil =>
    exact iff_of_true ⟨0, fun i hi ↦ absurd hi (Nat.not_lt_zero i),
      List.prefix_nil.mp (listed_initial _ _), rfl⟩ (.inl rfl)
  | cons entry rest =>
    rw [hd] at hnodup
    constructor
    · rintro ⟨n, hne, hnil, heq⟩
      refine .inr ?_
      -- a second call with entries would list the first entry twice
      have hone : n = 1 := by
        refine le_antisymm (not_lt.mp fun htwo ↦ ?_) (Nat.one_le_iff_ne_zero.mpr fun hzero ↦ ?_)
        · refine not_nodup_of_two_calls hne htwo ?_
          rwa [heq]
        · rw [hzero, List.range_zero, List.flatMap_nil] at heq
          exact List.cons_ne_nil _ _ heq.symm
      subst hone
      rw [List.range_one, List.flatMap_singleton] at heq
      have hstart : dOff (buffers 0).mem (buffers 0).buf ≠ D_OFF_END := by
        intro hend
        rw [listed_of_end hend] at heq
        exact List.cons_ne_nil _ _ heq.symm
      rw [listed_of_ne hstart, fits_eq_self_iff, Nat.zero_add] at heq
      refine ⟨hstart, heq.resolve_left (List.cons_ne_nil _ _), ?_⟩
      rw [or_iff_not_imp_left]
      rintro hend first hfirst
      obtain rfl := Option.some.inj hfirst
      rwa [listed_of_ne hend, fits_eq_nil_iff, Nat.zero_add] at hnil
    · rintro (hnil | ⟨hstart, hlen, hend⟩)
      · exact absurd hnil (List.cons_ne_nil _ _)
      · have hfirst : listed (entry :: rest) (buffers 0) = entry :: rest := by
          rw [listed_of_ne hstart, fits_eq_self_iff, Nat.zero_add]
          exact .inr hlen
        refine ⟨1, fun i hi ↦ ?_, ?_, ?_⟩
        · rw [Nat.lt_one_iff.mp hi, hfirst]
          exact List.cons_ne_nil _ _
        · by_cases hneg : dOff (buffers 1).mem (buffers 1).buf = D_OFF_END
          · exact listed_of_end hneg
          · rw [listed_of_ne hneg, fits_eq_nil_iff, Nat.zero_add]
            exact hend.resolve_left hneg entry rfl
        · rw [List.range_one, List.flatMap_singleton, hfirst]

/-- Two files, `a` and `b`. -/
def twoFiles : Directory where
  entries := [⟨[97], false⟩, ⟨[98], false⟩]
  nodup := by decide
  length_le := by decide

/-- One buffer for all calls: it is zero before the first call, and holds the records of `stored`
after it. -/
def reused (len : ℕ) (hlen : len ≤ 0x1000) (stored : List FatDirEntry) : ℕ → DirBuffer
  | 0 => ⟨fun _ ↦ 0, 0x1000, len, by omega⟩
  | _ + 1 => ⟨ByteMem.writeBytes 0x1000 (records stored) fun _ ↦ 0, 0x1000, len, by omega⟩

theorem listsAll_twoFiles :
    ListsAll (fun _ ↦ true) (some []) (fun _ ↦ some twoFiles.entries)
      (reused 100 (by omega) twoFiles.entries) twoFiles.entries := by
  rw [listsAll_iff_first (d := twoFiles) rfl rfl fun _ ↦ ⟨rfl, rfl⟩]
  exact .inr ⟨by decide, by decide, .inl (by decide)⟩

/-- With a buffer that holds one of the two records, the second call returns 0. -/
theorem not_listsAll_twoFiles :
    ¬ListsAll (fun _ ↦ true) (some []) (fun _ ↦ some twoFiles.entries)
      (reused 24 (by omega) [⟨[97], false⟩]) twoFiles.entries := by
  rw [listsAll_iff (d := twoFiles) rfl rfl fun _ ↦ ⟨rfl, rfl⟩]
  have hfirst : listed twoFiles.entries (reused 24 (by omega) [⟨[97], false⟩] 0) =
      [⟨[97], false⟩] := by
    rw [listed_of_ne (by decide)]
    rfl
  have hsecond : listed twoFiles.entries (reused 24 (by omega) [⟨[97], false⟩] 1) = [] :=
    listed_of_end (by decide)
  rintro ⟨n, hne, hnil, heq⟩
  rcases n with _ | _ | n
  · rw [hfirst] at hnil
    cases hnil
  · rw [List.range_one, List.flatMap_singleton, hfirst] at heq
    cases heq
  · exact hne 1 (by omega) hsecond

end listing

end Maturin
