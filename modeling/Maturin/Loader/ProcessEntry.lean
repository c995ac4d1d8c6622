import Maturin.Loader.Layout

/-!
# What a program finds at its start

A program finds its arguments from its stack pointer on: the number of its arguments, a pointer to
each of them and a null, a pointer to each string of the environment and a null, and the pairs of
the auxiliary vector up to one of key 0. `ProcessEntry.decode` reads memory in this way, given the
bytes from the stack pointer on, and finds what `InitInfo::serialize` was given.
-/

namespace Maturin

/-! ## The layout -/

/-- The number with the given digits, of which the first is the lowest. -/
def fromNeBytes (bytes : List UInt8) : ℕ := bytes.foldr (fun b v ↦ b.toNat + 256 * v) 0

/-- The words of a slice of bytes. -/
def wordsOf : List UInt8 → List ℕ
  | b₀ :: b₁ :: b₂ :: b₃ :: b₄ :: b₅ :: b₆ :: b₇ :: rest =>
    fromNeBytes [b₀, b₁, b₂, b₃, b₄, b₅, b₆, b₇] :: wordsOf rest
  | _ => []

/-- The pairs before one of key 0. -/
def pairsOf : List ℕ → Option (List (ℕ × ℕ))
  | 0 :: _ :: _ => some []
  | key :: value :: rest => (pairsOf rest).map ((key, value) :: ·)
  | _ => none

/-- The string behind a pointer, in the bytes from `sp` on. -/
def strAt (sp : ℕ) (bytes : List UInt8) (pos : ℕ) : Option String :=
  if sp ≤ pos ∧ 0 ∈ bytes.drop (pos - sp) then
    String.fromUTF8? ⟨((bytes.drop (pos - sp)).takeWhile (· ≠ 0)).toArray⟩
  else
    none

/-- What a program finds at its start. -/
structure ProcessEntry where
  argv : List ℕ
  args : List String
  envp : List ℕ
  envs : List String
  auxv : List (ℕ × ℕ)
  deriving DecidableEq

/-- Read the memory of a program from its stack pointer on. -/
def ProcessEntry.decode (sp : ℕ) (bytes : List UInt8) : Option ProcessEntry :=
  match wordsOf bytes with
  | [] => none
  | argc :: words =>
    match words.drop argc with
    | 0 :: rest =>
      match rest.dropWhile (· ≠ 0) with
      | 0 :: pairs => do
        let argv := words.take argc
        let envp := rest.takeWhile (· ≠ 0)
        let args ← argv.mapM (strAt sp bytes)
        let envs ← envp.mapM (strAt sp bytes)
        let auxv ← pairsOf pairs
        some { argv, args, envp, envs, auxv }
      | _ => none
    | _ => none

/-! ## Reading words and strings -/

theorem fromNeBytes_digits (n v : ℕ) :
    fromNeBytes ((List.range n).map fun i ↦ UInt8.ofNat (v / 256 ^ i)) = v % 256 ^ n := by
  induction n generalizing v with
  | zero => rw [pow_zero, Nat.mod_one]; rfl
  | succ n ih =>
    have htail : (List.range n).map (fun i ↦ UInt8.ofNat (v / 256 ^ (i + 1)))
        = (List.range n).map fun i ↦ UInt8.ofNat (v / 256 / 256 ^ i) :=
      List.map_congr_left fun i _ ↦ by rw [Nat.div_div_eq_div_mul, pow_succ']
    rw [List.range_succ_eq_map, List.map_cons, List.map_map]
    change (UInt8.ofNat (v / 256 ^ 0)).toNat + 256 * fromNeBytes ((List.range n).map fun i ↦
      UInt8.ofNat (v / 256 ^ (i + 1))) = _
    rw [htail, ih, pow_zero, Nat.div_one, pow_succ', Nat.mod_mul, UInt8.toNat_ofNat']

/-- A word is read again. -/
theorem wordsOf_toNeBytes {v : ℕ} (hv : v < 2 ^ 64) (rest : List UInt8) :
    wordsOf (toNeBytes v ++ rest) = v :: wordsOf rest := by
  have hdigits : fromNeBytes (toNeBytes v) = v := by
    rw [toNeBytes, fromNeBytes_digits]
    exact Nat.mod_eq_of_lt hv
  change fromNeBytes (toNeBytes v) :: wordsOf rest = _
  rw [hdigits]

theorem wordsOf_flatMap {words : List ℕ} (hlt : ∀ v ∈ words, v < 2 ^ 64) (rest : List UInt8) :
    wordsOf (words.flatMap toNeBytes ++ rest) = words ++ wordsOf rest := by
  induction words with
  | nil => rfl
  | cons v words ih =>
    rw [List.flatMap_cons, List.append_assoc, wordsOf_toNeBytes (hlt v List.mem_cons_self),
      ih fun v hv ↦ hlt v (List.mem_cons_of_mem _ hv)]
    rfl

theorem fromUTF8?_asBytes (s : String) : String.fromUTF8? ⟨(asBytes s).toArray⟩ = some s := by
  rw [String.fromUTF8?, asBytes, Array.toArray_toList]
  exact dif_pos s.isValidUTF8

/-- Pairs are read up to one of key 0. -/
theorem pairsOf_pairWords {pairs : List (ℕ × ℕ)} (hkey : ∀ pair ∈ pairs, pair.1 ≠ 0)
    (rest : List ℕ) : pairsOf (InitInfo.pairWords pairs ++ 0 :: 0 :: rest) = some pairs := by
  induction pairs with
  | nil => rfl
  | cons pair pairs ih =>
    obtain ⟨key, value⟩ := pair
    have hrest := ih fun pair hpair ↦ hkey pair (List.mem_cons_of_mem _ hpair)
    have hne : key ≠ 0 := hkey (key, value) List.mem_cons_self
    obtain ⟨k, rfl⟩ := Nat.exists_eq_succ_of_ne_zero hne
    change (pairsOf (InitInfo.pairWords pairs ++ 0 :: 0 :: rest)).map _ = _
    rw [hrest]
    rfl

namespace InitStack

variable {w : InitStack} {a : ℕ} {bytes rest : List UInt8} {s : String}

/-- The slice has the bytes from the stack pointer on. -/
theorem getElem?_deref (hw : w.InBuffer) {i : ℕ} (hi : w.sp + i < w.buttom) :
    w.deref[i]? = some (w.byteAt (w.sp + i)) := by
  have hfits := hw.fits
  have hlt : i < w.deref.length := by
    rw [length_deref hw]
    omega
  have hidx : USER_INIT_STACK_SIZE - (w.buttom - w.sp) + i =
      USER_INIT_STACK_SIZE - (w.buttom - (w.sp + i)) := by omega
  rw [List.getElem?_eq_getElem hlt, byteAt, ← hidx]
  simp only [deref, ByteMem.readBytes, List.getElem_map, List.getElem_range]
  rw [wsub_of_le hw.le hw.lt, wsub_of_le hw.fits (by norm_num)]

/-- What the stack holds is in the slice. -/
theorem Holds.exists_drop (h : w.Holds a bytes) (hw : w.InBuffer) :
    ∃ rest, w.deref.drop (a - w.sp) = bytes ++ rest := by
  have hle := h.le
  have hend := h.end_le
  refine ⟨w.deref.drop (a - w.sp + bytes.length), List.ext_getElem? fun i ↦ ?_⟩
  rw [List.getElem?_drop]
  by_cases hi : i < bytes.length
  · have hidx : w.sp + (a - w.sp + i) = a + i := by omega
    rw [getElem?_deref hw (by omega), hidx, h.byteAt i hi, List.getElem?_append_left hi,
      List.getElem?_eq_getElem hi]
  · rw [List.getElem?_append_right (not_lt.mp hi), List.getElem?_drop]
    congr 1
    omega

/-- A string is read up to its zero. -/
theorem Holds.strAt_eq (h : w.Holds a (asBytes s ++ [0])) (hw : w.InBuffer)
    (hnul : 0 ∉ asBytes s) : strAt w.sp w.deref a = some s := by
  obtain ⟨rest, hdrop⟩ := h.exists_drop hw
  have hne : ∀ b ∈ asBytes s, (decide (b ≠ 0)) = true := fun b hb ↦
    decide_eq_true fun hzero ↦ hnul (hzero ▸ hb)
  rw [List.append_assoc] at hdrop
  have hmem : (0 : UInt8) ∈ asBytes s ++ ([0] ++ rest) :=
    List.mem_append_right _ List.mem_cons_self
  rw [strAt, hdrop, if_pos ⟨h.le, hmem⟩, List.takeWhile_append_of_pos hne]
  change String.fromUTF8? ⟨(asBytes s ++ []).toArray⟩ = _
  rw [List.append_nil, fromUTF8?_asBytes]

/-- Strings are read behind their pointers. -/
theorem mapM_strAt {strs : List String} {poss : List ℕ} (hw : w.InBuffer)
    (h : List.Forall₂ (fun s pos ↦ w.Holds pos (asBytes s ++ [0])) strs poss)
    (hnul : ∀ s ∈ strs, 0 ∉ asBytes s) : poss.mapM (strAt w.sp w.deref) = some strs := by
  induction h with
  | nil => rfl
  | cons hs hrest ih =>
    rw [List.mapM_cons, hs.strAt_eq hw (hnul _ List.mem_cons_self),
      ih fun s hs ↦ hnul s (List.mem_cons_of_mem _ hs)]
    rfl

/-- A pointer to what the stack holds is an address of the stack. -/
theorem Holds.pos_lt (h : w.Holds a bytes) (hne : bytes ≠ []) : w.sp ≤ a ∧ a < w.buttom := by
  have hpos := List.length_pos_iff.mpr hne
  have hend := h.end_le
  exact ⟨h.le, by omega⟩

theorem pos_lt_of_forall₂ {strs : List String} {poss : List ℕ}
    (h : List.Forall₂ (fun s pos ↦ w.Holds pos (asBytes s ++ [0])) strs poss) :
    ∀ pos ∈ poss, w.sp ≤ pos ∧ pos < w.buttom := by
  induction h with
  | nil => exact fun pos hpos ↦ absurd hpos List.not_mem_nil
  | cons hs _ ih =>
    intro pos hpos
    rcases List.mem_cons.mp hpos with rfl | hpos
    · exact hs.pos_lt (List.append_ne_nil_of_right_ne_nil _ (List.cons_ne_nil _ _))
    · exact ih pos hpos

end InitStack

/-! ## The round trip -/

namespace InitInfo

open InitStack

variable {info : InitInfo} {writer : InitStack} {argv envp : List ℕ} {auxv : List (ℕ × ℕ)}
variable {randomPos stackTop : ℕ} {data : ByteMem}

/-- What a program can be told: strings without a zero, and pairs of a `u8` other than 0 and a
`usize`. -/
structure Tellable (info : InitInfo) : Prop where
  noNul : ∀ s ∈ info.args ++ info.envs, 0 ∉ asBytes s
  key : ∀ pair ∈ info.auxv.entries, pair.1 ≠ 0 ∧ pair.1 < 2 ^ 8
  value : ∀ pair ∈ info.auxv.entries, pair.2 < 2 ^ 64

/-- The tables are read from the words of the stack. -/
theorem decode_of_tables {sp : ℕ} {bytes : List UInt8} {rest : List ℕ}
    (hwords : wordsOf bytes = tables auxv argv envp ++ rest) (henvp : ∀ pos ∈ envp, pos ≠ 0)
    (hkey : ∀ pair ∈ auxv, pair.1 ≠ 0) (hargs : argv.mapM (strAt sp bytes) = some info.args)
    (henvs : envp.mapM (strAt sp bytes) = some info.envs) :
    ProcessEntry.decode sp bytes =
      some { argv, args := info.args, envp, envs := info.envs, auxv } := by
  have hne : ∀ pos ∈ envp, decide (pos ≠ 0) = true := fun pos hpos ↦
    decide_eq_true (henvp pos hpos)
  have htables : tables auxv argv envp ++ rest =
      argv.length :: (argv ++ 0 :: (envp ++ 0 :: (pairWords auxv ++ 0 :: 0 :: rest))) := by
    simp only [tables, List.cons_append, List.append_assoc, List.nil_append]
  have hdrop : (envp ++ 0 :: (pairWords auxv ++ 0 :: 0 :: rest)).dropWhile (· ≠ 0) =
      0 :: (pairWords auxv ++ 0 :: 0 :: rest) := by
    rw [List.dropWhile_append_of_pos hne]
    rfl
  have htake : (envp ++ 0 :: (pairWords auxv ++ 0 :: 0 :: rest)).takeWhile (· ≠ 0) = envp := by
    rw [List.takeWhile_append_of_pos hne]
    exact List.append_nil envp
  rw [ProcessEntry.decode, hwords, htables]
  simp only [List.drop_left, hdrop, List.take_left, htake, hargs, henvs, pairsOf_pairWords hkey,
    Option.bind_eq_bind, Option.bind_some]

theorem Tellable.of_mem_auxv (h : info.Tellable) (hpos : randomPos < 2 ^ 64) :
    ∀ pair ∈ info.auxv.entries.reverse.map (auxValue randomPos),
      (pair.1 ≠ 0 ∧ pair.1 < 2 ^ 8) ∧ pair.2 < 2 ^ 64 := by
  intro pair hpair
  obtain ⟨entry, hentry, rfl⟩ := List.mem_map.mp hpair
  have hmem := List.mem_reverse.mp hentry
  refine ⟨h.key entry hmem, ?_⟩
  rw [InitInfo.auxValue]
  dsimp only
  split_ifs
  · exact hpos
  · exact h.value entry hmem

/-- A pointer to a string is an address of the stack. -/
theorem Layout.pos_lt (h : info.Layout writer argv envp randomPos) :
    ∀ pos ∈ argv ++ envp, writer.sp ≤ pos ∧ pos < writer.buttom := by
  intro pos hpos
  rcases List.mem_append.mp hpos with hpos | hpos
  · exact pos_lt_of_forall₂ h.args pos hpos
  · exact pos_lt_of_forall₂ h.envs pos hpos

/-- The tables are words. -/
theorem Layout.wordsOf_deref (h : info.Layout writer argv envp randomPos) (hinfo : info.Tellable) :
    ∃ rest, wordsOf writer.deref =
      InitInfo.tables (info.auxv.entries.reverse.map (auxValue randomPos)) argv envp ++ rest := by
  have hlt := h.inBuffer.lt
  have hpos := h.pos_lt
  have hrandom := h.random.pos_lt (List.cons_ne_nil _ _)
  have haux := hinfo.of_mem_auxv (hrandom.2.trans hlt)
  obtain ⟨rest, hdrop⟩ := h.tables.holds.exists_drop h.inBuffer
  rw [Nat.sub_self, List.drop_zero] at hdrop
  refine ⟨wordsOf rest, ?_⟩
  rw [hdrop, wordsOf_flatMap]
  have hargc : argv.length < 2 ^ 64 := by
    have hend := h.tables.holds.end_le
    rw [length_flatMap_toNeBytes, InitInfo.tables, List.length_cons, List.length_append] at hend
    omega
  intro v hv
  simp only [InitInfo.tables, pairWords, List.mem_cons, List.mem_append, List.mem_flatMap,
    List.not_mem_nil, or_false] at hv
  rcases hv with rfl | hv | rfl | hv | rfl | ⟨pair, hpair, rfl | rfl⟩ | rfl | rfl
  · exact hargc
  · exact (hpos v (List.mem_append_left _ hv)).2.trans hlt
  · norm_num
  · exact (hpos v (List.mem_append_right _ hv)).2.trans hlt
  · norm_num
  · exact (haux pair hpair).1.2.trans (by norm_num)
  · exact (haux pair hpair).2
  · norm_num
  · norm_num

/-- **A program finds what it was given.** Data that fits is put on the stack, and the words from
the stack pointer on lead to the arguments and the environment in their order and to every pair of
the auxiliary vector, where the value for `AT_RANDOM` is the address of 16 bytes of the stack. All
pointers are addresses of the stack. -/
theorem exists_decode (hargs : info.args ≠ [])
    (hfits : info.size stackTop ≤ USER_INIT_STACK_SIZE)
    (htop : USER_INIT_STACK_SIZE < stackTop ∧ stackTop < 2 ^ 64) (hinfo : info.Tellable)
    (data : ByteMem) :
    ∃ writer argv envp randomPos, info.serialize stackTop data = .ok writer ∧
      writer.sp + writer.deref.length = stackTop ∧
      writer.deref.length = info.size stackTop ∧
      ProcessEntry.decode writer.sp writer.deref = some
        { argv, args := info.args, envp, envs := info.envs,
          auxv := info.auxv.entries.reverse.map (auxValue randomPos) } ∧
      (∀ pos ∈ argv ++ envp, writer.sp ≤ pos ∧ pos < stackTop) ∧
      writer.sp ≤ randomPos ∧ randomPos + 16 ≤ stackTop ∧
      (writer.deref.drop (randomPos - writer.sp)).take 16 = randomBytes := by
  obtain ⟨writer, hwriter, hw, hbuttom, hsp⟩ := exists_serialize hargs hfits htop data
  have hlen : ∀ s ∈ info.args ++ info.envs, (asBytes s).length < 2 ^ 63 := fun s hs ↦
    (length_asBytes_lt hfits htop.1 s hs).trans (by norm_num)
  obtain ⟨-, argv, envp, randomPos, hlay⟩ := exists_layout hwriter htop hlen
  have hpos := hlay.pos_lt
  have hrandom := hlay.random.pos_lt (List.cons_ne_nil _ _)
  have haux := hinfo.of_mem_auxv (hrandom.2.trans hw.lt)
  have hlength := length_deref hw
  have hle := hw.le
  have hne : ∀ pos ∈ envp, pos ≠ 0 := by
    intro pos hp
    have hroom := hw.room
    have hfits := hw.fits
    have hsp_le := (hpos pos (List.mem_append_right _ hp)).1
    omega
  -- the tables and the strings behind them
  obtain ⟨rest, hwords⟩ := hlay.wordsOf_deref hinfo
  have hdecode := decode_of_tables hwords hne (fun pair hpair ↦ (haux pair hpair).1.1)
    (mapM_strAt hw hlay.args fun s hs ↦ hinfo.noNul s (List.mem_append_left _ hs))
    (mapM_strAt hw hlay.envs fun s hs ↦ hinfo.noNul s (List.mem_append_right _ hs))
  obtain ⟨after, hafter⟩ := hlay.random.exists_drop hw
  refine ⟨writer, argv, envp, randomPos, hwriter, by omega, ?_, hdecode, hbuttom ▸ hpos,
    hlay.random.le, ?_, ?_⟩
  · rw [hlength, hbuttom, hsp, size]
  · rw [← hbuttom]
    exact hlay.random.end_le
  · rw [hafter]
    exact List.take_left' (length_flatMap_toNeBytes _)

/-- Two arguments and a string of the environment. -/
def shellInfo : InitInfo where
  args := ["sh", "-c"]
  envs := ["PWD=/"]
  auxv := (OrdMap.empty.insert AT_RANDOM 0).insert AT_PAGESZ PAGE_SIZE

theorem tellable_shellInfo : shellInfo.Tellable := by
  constructor <;> decide +kernel

theorem size_shellInfo : shellInfo.size (USER_STACK_OFFSET + USER_STACK_SIZE) = 136 := by
  decide +kernel

/-- A shell finds its arguments. -/
theorem exists_decode_shell : ∃ writer entry,
    shellInfo.serialize (USER_STACK_OFFSET + USER_STACK_SIZE) (fun _ ↦ 0) = .ok writer ∧
    ProcessEntry.decode writer.sp writer.deref = some entry ∧
    entry.args = ["sh", "-c"] ∧ entry.envs = ["PWD=/"] := by
  obtain ⟨writer, argv, envp, randomPos, hwriter, -, -, hdecode, -⟩ :=
    exists_decode (List.cons_ne_nil _ _) (size_shellInfo.le.trans (by norm_num))
      ⟨by norm_num, by norm_num⟩ tellable_shellInfo fun _ ↦ 0
  exact ⟨writer, _, hwriter, hdecode, rfl, rfl⟩

end InitInfo

end Maturin
