import Maturin.Loader.Stack
import Mathlib.Algebra.Group.Nat.Even

/-!
# How the initial stack pointer is aligned

A push brings the stack pointer down to a multiple of the alignment of its own elements, and words
come last. So a program starts with a stack pointer that is a multiple of 8. It is one of 16 if the
number of all the words happens to be even, where the strings that are pushed together count as the
words that they reach into. No word is put in between to make the number even.

The stack may also end below its beginning, as subtraction wraps: nothing here asks how large
`stack_top` is.
-/

namespace Maturin

namespace InitStack

variable {w w' : InitStack} {stackTop n : ℕ} {bytes : List UInt8} {words : List ℕ} {s : String}

/-- The stack pointer is `n` bytes below the top, which is the bottom of the stack. -/
structure Below (w : InitStack) (stackTop n : ℕ) : Prop where
  buttom : w.buttom = stackTop
  sp : w.sp = wsub stackTop n
  fits : n ≤ USER_INIT_STACK_SIZE

/-- The words that bytes reach into. -/
def wordCount (n : ℕ) : ℕ := (n + 7) / 8

theorem wsub_wsub {a b : ℕ} (htop : stackTop < 2 ^ 64) (h : a + b ≤ 2 ^ 64) :
    wsub (wsub stackTop a) b = wsub stackTop (a + b) := by
  rw [wsub, wsub, wsub]
  omega

/-- The stack reaches as far down as `n` bytes, if it reaches so far within the buffer. -/
theorem below_of_pushSlice {align : ℕ} (htop : stackTop < 2 ^ 64) (hn : n < 2 ^ 64)
    (h : w.pushSlice align bytes = .ok w') (hbuttom : w.buttom = stackTop)
    (hsp : wsub (wsub w.sp bytes.length) (wsub w.sp bytes.length % align) = wsub stackTop n) :
    w'.Below stackTop n := by
  rw [pushSlice] at h
  dsimp only at h
  rw [hsp] at h
  split_ifs at h with hassert
  obtain rfl := Except.ok.inj h
  refine ⟨hbuttom, rfl, ?_⟩
  rw [hbuttom] at hassert
  have hback : wsub stackTop (wsub stackTop n) = n := by
    rw [wsub, wsub]
    omega
  rwa [hback] at hassert

theorem Below.pushBytes (hw : w.Below stackTop n) (htop : stackTop < 2 ^ 64)
    (h : w.pushSlice 1 bytes = .ok w') (hlen : bytes.length < 2 ^ 63) :
    w'.Below stackTop (n + bytes.length) := by
  have hfits := hw.fits
  have hsize : USER_INIT_STACK_SIZE = 0x4000 := rfl
  refine below_of_pushSlice htop (by omega) h hw.buttom ?_
  rw [hw.sp, wsub_wsub htop (by omega), Nat.mod_one, wsub_wsub htop (by omega), Nat.add_zero]

/-- Words are pushed below a gap, if the stack does not end with a word. -/
theorem Below.pushWords (hw : w.Below stackTop n) (htop : stackTop < 2 ^ 64)
    (haligned : stackTop % 16 = 0) (h : w.pushWords words = .ok w')
    (hlen : words.length < 2 ^ 60) :
    w'.Below stackTop (8 * (wordCount n + words.length)) := by
  have hfits := hw.fits
  have hsize : USER_INIT_STACK_SIZE = 0x4000 := rfl
  have hbytes := length_flatMap_toNeBytes words
  rw [InitStack.pushWords] at h
  refine below_of_pushSlice htop (by rw [wordCount]; omega) h hw.buttom ?_
  rw [hw.sp, hbytes, wsub_wsub htop (by omega)]
  -- the gap is what is missing to a word
  have hgap : wsub stackTop (n + 8 * words.length) % 8 = 8 * wordCount n - n := by
    rw [wsub, wordCount]
    omega
  rw [hgap, wsub_wsub htop (by rw [wordCount]; omega)]
  congr 1
  rw [wordCount]
  omega

/-- More words leave no gap. -/
theorem Below.pushMore {k : ℕ} (hw : w.Below stackTop (8 * k)) (htop : stackTop < 2 ^ 64)
    (haligned : stackTop % 16 = 0) (h : w.pushWords words = .ok w')
    (hlen : words.length < 2 ^ 60) : w'.Below stackTop (8 * (k + words.length)) := by
  have hk : wordCount (8 * k) = k := by
    rw [wordCount]
    omega
  have hpush := hw.pushWords htop haligned h hlen
  rwa [hk] at hpush

theorem Below.pushStr {pos : ℕ} (hw : w.Below stackTop n) (htop : stackTop < 2 ^ 64)
    (h : w.pushStr s = .ok (pos, w')) (hlen : (asBytes s).length < 2 ^ 63) :
    w'.Below stackTop (n + ((asBytes s).length + 1)) := by
  obtain ⟨w₁, h₁, h⟩ := exists_of_bind_eq_ok h
  obtain ⟨w₂, h₂, h⟩ := exists_of_bind_eq_ok h
  obtain ⟨-, rfl⟩ := Prod.mk.inj (Except.ok.inj h)
  have hw₂ := (hw.pushBytes htop h₁ (by norm_num)).pushBytes htop h₂ hlen
  rwa [List.length_singleton, Nat.add_assoc, Nat.add_comm 1] at hw₂

theorem Below.pushStrs {strs : List String} {poss : List ℕ} (hw : w.Below stackTop n)
    (htop : stackTop < 2 ^ 64) (h : pushStrs strs w = .ok (poss, w'))
    (hlen : ∀ s ∈ strs, (asBytes s).length < 2 ^ 63) :
    w'.Below stackTop (n + strBytes strs) ∧ poss.length = strs.length := by
  induction strs generalizing w n poss with
  | nil =>
    obtain ⟨rfl, rfl⟩ := Prod.mk.inj (Except.ok.inj h)
    exact ⟨hw, rfl⟩
  | cons s strs ih =>
    obtain ⟨⟨pos, w₁⟩, h₁, h⟩ := exists_of_bind_eq_ok h
    obtain ⟨⟨rest, w₂⟩, h₂, h⟩ := exists_of_bind_eq_ok h
    obtain ⟨rfl, rfl⟩ := Prod.mk.inj (Except.ok.inj h)
    have hw₁ := hw.pushStr htop h₁ (hlen s List.mem_cons_self)
    obtain ⟨hw₂, hcount⟩ := ih hw₁ h₂ fun s hs ↦ hlen s (List.mem_cons_of_mem _ hs)
    have hsum : strBytes (s :: strs) = (asBytes s).length + 1 + strBytes strs := List.sum_cons
    rw [hsum, ← Nat.add_assoc]
    exact ⟨hw₂, by rw [List.length_cons, hcount, List.length_cons]⟩

/-- There are not more strings than bytes. -/
theorem length_le_strBytes (strs : List String) : strs.length ≤ strBytes strs := by
  induction strs with
  | nil => exact le_rfl
  | cons s strs ih =>
    have hsum : strBytes (s :: strs) = (asBytes s).length + 1 + strBytes strs := List.sum_cons
    rw [hsum, List.length_cons]
    omega

end InitStack

namespace InitInfo

open InitStack

variable {info : InitInfo} {writer writer' : InitStack} {randomPos stackTop k : ℕ}
variable {data : ByteMem}

theorem below_of_pushAuxv {entries : List (ℕ × ℕ)} (hw : writer.Below stackTop (8 * k))
    (htop : stackTop < 2 ^ 64) (haligned : stackTop % 16 = 0)
    (h : pushAuxv randomPos entries writer = .ok writer') :
    writer'.Below stackTop (8 * (k + 2 * entries.length)) := by
  induction entries generalizing writer k with
  | nil =>
    obtain rfl := Except.ok.inj h
    exact hw
  | cons entry entries ih =>
    obtain ⟨type, value⟩ := entry
    obtain ⟨w₁, h₁, h⟩ := exists_of_bind_eq_ok h
    have hw₁ := hw.pushMore htop haligned h₁ (by norm_num)
    have hw₂ := ih hw₁ h
    rw [List.length_cons, List.length_singleton] at hw₂
    have hsum : k + 2 * (entries.length + 1) = k + (1 + 1) + 2 * entries.length := by omega
    rw [List.length_cons, hsum]
    exact hw₂

/-- The words on the stack of a program, with the gaps that strings leave. -/
def wordsPushed (info : InitInfo) : ℕ :=
  wordCount ((asBytes (info.args.headD "")).length + 1) +
    wordCount (strBytes info.envs + strBytes info.args) + 2 * info.auxv.entries.length +
    info.envs.length + info.args.length + 7

/-- Everything is words in the end. -/
theorem below_of_serialize (h : info.serialize stackTop data = .ok writer)
    (htop : stackTop < 2 ^ 64) (haligned : stackTop % 16 = 0)
    (hlen : ∀ s ∈ info.args ++ info.envs, (asBytes s).length < 2 ^ 63) :
    writer.Below stackTop (8 * info.wordsPushed) := by
  have hargs := fun s hs ↦ hlen s (List.mem_append_left _ hs)
  have henvs := fun s hs ↦ hlen s (List.mem_append_right _ hs)
  rw [serialize] at h
  split at h
  case h_1 => cases h
  case h_2 name rest hname =>
    obtain ⟨⟨_, w₁⟩, h₁, h⟩ := exists_of_bind_eq_ok h
    obtain ⟨w₂, h₂, h⟩ := exists_of_bind_eq_ok h
    obtain ⟨⟨envp, w₃⟩, h₃, h⟩ := exists_of_bind_eq_ok h
    obtain ⟨⟨argv, w₄⟩, h₄, h⟩ := exists_of_bind_eq_ok h
    obtain ⟨w₅, h₅, h⟩ := exists_of_bind_eq_ok h
    obtain ⟨w₆, h₆, h⟩ := exists_of_bind_eq_ok h
    obtain ⟨w₇, h₇, h⟩ := exists_of_bind_eq_ok h
    obtain ⟨w₈, h₈, h⟩ := exists_of_bind_eq_ok h
    obtain ⟨w₉, h₉, h⟩ := exists_of_bind_eq_ok h
    obtain ⟨w₁₀, h₁₀, h⟩ := exists_of_bind_eq_ok h
    -- the strings
    have hw₀ : (InitStack.new stackTop data).Below stackTop 0 := by
      refine ⟨rfl, ?_, Nat.zero_le _⟩
      rw [wsub_of_le (Nat.zero_le _) htop]
      rfl
    have hw₁ := hw₀.pushStr htop h₁ (hargs name (hname ▸ List.mem_cons_self))
    have hw₂ := hw₁.pushWords htop haligned h₂ (by norm_num)
    obtain ⟨hw₃, henvp⟩ := hw₂.pushStrs htop h₃ henvs
    obtain ⟨hw₄, hargv⟩ := hw₃.pushStrs htop h₄ hargs
    have hcount : envp.length < 2 ^ 60 ∧ argv.length < 2 ^ 60 := by
      have hsize : USER_INIT_STACK_SIZE = 0x4000 := rfl
      have hfits := hw₄.fits
      have hle := length_le_strBytes info.envs
      have hle' := length_le_strBytes info.args
      omega
    -- the tables
    have hw₅ := hw₄.pushWords htop haligned h₅ (by norm_num)
    have hw₆ := below_of_pushAuxv hw₅ htop haligned h₆
    have hw₇ := hw₆.pushMore htop haligned h₇ (by norm_num)
    have hw₈ := hw₇.pushMore htop haligned h₈ hcount.1
    have hw₉ := hw₈.pushMore htop haligned h₉ (by norm_num)
    have hw₁₀ := hw₉.pushMore htop haligned h₁₀ hcount.2
    have hw₁₁ := hw₁₀.pushMore htop haligned h (by norm_num)
    convert hw₁₁ using 2
    simp only [wordsPushed, hname, List.headD_cons, List.length_cons, List.length_nil, henvp,
      hargv, wordCount]
    omega

/-- The stack pointer is what the loader gets when it subtracts the length of the data. -/
theorem sub_length_deref (h : info.serialize stackTop data = .ok writer)
    (htop : stackTop < 2 ^ 64) (haligned : stackTop % 16 = 0)
    (hlen : ∀ s ∈ info.args ++ info.envs, (asBytes s).length < 2 ^ 63) :
    wsub stackTop writer.deref.length = writer.sp := by
  obtain ⟨hbuttom, hsp, hfits⟩ := below_of_serialize h htop haligned hlen
  have hsize : USER_INIT_STACK_SIZE = 0x4000 := rfl
  rw [deref, ByteMem.length_readBytes, hbuttom, hsp, wsub, wsub, wsub]
  omega

/-- **The initial stack pointer is aligned for odd data**: it is a multiple of 16 exactly if the
words that the name of the program reaches into, the words that all the other strings reach into
together, and the strings themselves are an odd number. -/
theorem sp_aligned_iff (h : info.serialize stackTop data = .ok writer)
    (htop : stackTop < 2 ^ 64) (haligned : stackTop % 16 = 0)
    (hlen : ∀ s ∈ info.args ++ info.envs, (asBytes s).length < 2 ^ 63) :
    writer.sp % 16 = 0 ↔
      Odd (((asBytes (info.args.headD "")).length + 1 + 7) / 8 +
        (strBytes info.envs + strBytes info.args + 7) / 8 +
        info.envs.length + info.args.length) := by
  obtain ⟨-, hsp, hfits⟩ := below_of_serialize h htop haligned hlen
  have hsize : USER_INIT_STACK_SIZE = 0x4000 := rfl
  rw [hsp, wsub, wordsPushed, wordCount, wordCount, Nat.odd_iff]
  rw [wordsPushed, wordCount, wordCount] at hfits
  omega

/-- The bottom of the stack that the loader makes. -/
abbrev loaderTop : ℕ := USER_STACK_OFFSET + USER_STACK_SIZE

theorem size_ls : (ElfFile.bare.initInfo ["ls"]).size loaderTop ≤ USER_INIT_STACK_SIZE := by
  decide +kernel

theorem size_ls_l : (ElfFile.bare.initInfo ["ls", "-l"]).size loaderTop ≤ USER_INIT_STACK_SIZE := by
  decide +kernel

/-- The stack pointer is aligned for `ls -l`. -/
theorem sp_aligned_ls_l : ∃ writer,
    (ElfFile.bare.initInfo ["ls", "-l"]).serialize loaderTop (fun _ ↦ 0) = .ok writer ∧
      writer.sp % 16 = 0 := by
  have htop : USER_INIT_STACK_SIZE < loaderTop := by norm_num
  have hbuffer : USER_INIT_STACK_SIZE < 2 ^ 63 := by norm_num
  obtain ⟨writer, hwriter, -⟩ :=
    exists_serialize (List.cons_ne_nil _ _) size_ls_l ⟨htop, by norm_num⟩ fun _ ↦ 0
  refine ⟨writer, hwriter, ?_⟩
  refine (sp_aligned_iff hwriter (by norm_num) (by norm_num) ?_).mpr (by decide +kernel)
  exact fun s hs ↦ (length_asBytes_lt size_ls_l htop s hs).trans hbuffer

/-- It is not for `ls`. -/
theorem sp_not_aligned_ls : ∃ writer, loaderTop % 16 = 0 ∧
    (ElfFile.bare.initInfo ["ls"]).serialize loaderTop (fun _ ↦ 0) = .ok writer ∧
      writer.sp % 16 = 8 := by
  obtain ⟨writer, hwriter, -, -, hsp⟩ :=
    exists_serialize (List.cons_ne_nil _ _) size_ls ⟨by norm_num, by norm_num⟩ fun _ ↦ 0
  refine ⟨writer, by norm_num, hwriter, ?_⟩
  rw [hsp]
  decide +kernel

end InitInfo

end Maturin
