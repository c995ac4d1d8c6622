import Maturin.Loader.InitStack

/-!
# What the initial stack holds

A push puts its bytes at the new top of the stack and leaves what is above it. So in the end the
stack holds everything that was pushed, each string where `push_str` said it is, and from the top on
the words of the tables one behind the other, since the pushes of words leave no gaps between them.

A slice is at most `isize::MAX` bytes long, so the lengths here are below `2 ^ 63`.
-/

namespace Maturin

theorem exists_of_bind_eq_ok {ε α β : Type} {x : Except ε β} {f : β → Except ε α} {a : α}
    (h : x >>= f = .ok a) : ∃ b, x = .ok b ∧ f b = .ok a := by
  cases x with
  | error e => cases h
  | ok b => exact ⟨b, rfl, h⟩

theorem bind_of_eq_ok {ε α β : Type} {x : Except ε β} {b : β} (f : β → Except ε α)
    (h : x = .ok b) : x >>= f = f b := by
  rw [h]
  rfl

namespace InitStack

variable {w w' w'' : InitStack} {align a : ℕ} {bytes : List UInt8} {ws words : List ℕ} {s : String}

/-! ## One push -/

/-- The byte at an address. -/
def byteAt (self : InitStack) (x : ℕ) : UInt8 :=
  self.data (USER_INIT_STACK_SIZE - (self.buttom - x))

/-- The stack is in its buffer. -/
structure InBuffer (w : InitStack) : Prop where
  lt : w.buttom < 2 ^ 64
  room : USER_INIT_STACK_SIZE < w.buttom
  le : w.sp ≤ w.buttom
  fits : w.buttom - w.sp ≤ USER_INIT_STACK_SIZE

/-- The second stack is the first one with more below it. -/
structure Extends (w w' : InitStack) : Prop where
  buttom : w'.buttom = w.buttom
  le : w'.sp ≤ w.sp
  byteAt : ∀ x, w.sp ≤ x → x < w.buttom → w'.byteAt x = w.byteAt x

/-- The stack has the bytes at an address. -/
structure Holds (w : InitStack) (a : ℕ) (bytes : List UInt8) : Prop where
  le : w.sp ≤ a
  end_le : a + bytes.length ≤ w.buttom
  byteAt : ∀ i (h : i < bytes.length), w.byteAt (a + i) = bytes[i]

theorem Extends.refl (w : InitStack) : Extends w w := ⟨rfl, le_rfl, fun _ _ _ ↦ rfl⟩

theorem Extends.trans (h : Extends w w') (h' : Extends w' w'') : Extends w w'' where
  buttom := h'.buttom.trans h.buttom
  le := h'.le.trans h.le
  byteAt x hl hr := by rw [h'.byteAt x (h.le.trans hl) (h.buttom ▸ hr), h.byteAt x hl hr]

/-- What is on the stack stays there. -/
theorem Holds.mono (h : w.Holds a bytes) (he : Extends w w') : w'.Holds a bytes where
  le := he.le.trans h.le
  end_le := he.buttom ▸ h.end_le
  byteAt i hi := by
    have := h.end_le
    rw [he.byteAt _ (h.le.trans (Nat.le_add_right _ _)) (by omega), h.byteAt i hi]

theorem Holds.append {cs : List UInt8} (h : w.Holds a bytes) (h' : w.Holds (a + bytes.length) cs) :
    w.Holds a (bytes ++ cs) where
  le := h.le
  end_le := by
    rw [List.length_append, ← Nat.add_assoc]
    exact h'.end_le
  byteAt i hi := by
    by_cases hlt : i < bytes.length
    · rw [List.getElem_append_left hlt, h.byteAt i hlt]
    · rw [List.length_append] at hi
      rw [List.getElem_append_right (not_lt.mp hlt),
        ← h'.byteAt (i - bytes.length) (by omega)]
      congr 1
      omega

/-- What a push does. -/
theorem exists_of_pushSlice (hw : w.InBuffer) (h : w.pushSlice align bytes = .ok w')
    (halign : 0 < align ∧ align ≤ 8) (hlen : bytes.length < 2 ^ 63) :
    w'.InBuffer ∧ Extends w w' ∧ w'.Holds w'.sp bytes ∧
      w'.sp = w.sp - bytes.length - (w.sp - bytes.length) % align ∧ bytes.length ≤ w.sp := by
  obtain ⟨hlt, hroom, hle, hfits⟩ := hw
  have hmod := fun n ↦ Nat.mod_lt n halign.1
  have hmod' := fun n ↦ Nat.mod_le n align
  have hsize : USER_INIT_STACK_SIZE = 0x4000 := rfl
  rw [pushSlice] at h
  dsimp only at h
  split_ifs at h with hassert
  obtain rfl := Except.ok.inj h
  dsimp only
  have hfit : bytes.length ≤ w.sp := by
    -- a stack pointer that wraps is far from the bottom
    by_contra hwrap
    have hsub : wsub w.sp bytes.length = w.sp + 2 ^ 64 - bytes.length := by
      rw [wsub]
      omega
    have hm := hmod (w.sp + 2 ^ 64 - bytes.length)
    have hm' := hmod' (w.sp + 2 ^ 64 - bytes.length)
    rw [hsub] at hassert
    generalize (w.sp + 2 ^ 64 - bytes.length) % align = r at hassert hm hm'
    rw [wsub_of_le hm' (by omega), wsub] at hassert
    omega
  have hsub : wsub w.sp bytes.length = w.sp - bytes.length := wsub_of_le hfit (by omega)
  have hm := hmod' (w.sp - bytes.length)
  rw [hsub, wsub_of_le hm (by omega)] at hassert ⊢
  generalize hsp : w.sp - bytes.length - (w.sp - bytes.length) % align = sp at hassert ⊢
  have hsp_le : sp + bytes.length ≤ w.sp := by omega
  rw [wsub_of_le (by omega) hlt] at hassert ⊢
  rw [wsub_of_le hassert (by norm_num)]
  refine ⟨⟨hlt, hroom, ?_, hassert⟩, ⟨rfl, ?_, fun x hl hr ↦ ?_⟩, ⟨le_rfl, ?_, fun i hi ↦ ?_⟩, rfl,
    hfit⟩
  · dsimp only
    omega
  · dsimp only
    omega
  · rw [byteAt, byteAt]
    dsimp only
    exact ByteMem.writeBytes_of_notMem (Or.inr (by omega))
  · dsimp only
    omega
  · rw [byteAt]
    dsimp only
    have hidx : USER_INIT_STACK_SIZE - (w.buttom - (sp + i)) =
        USER_INIT_STACK_SIZE - (w.buttom - sp) + i := by omega
    rw [hidx, ByteMem.writeBytes_of_mem hi]

/-! ## Words and strings -/

@[simp] theorem length_toNeBytes (v : ℕ) : (toNeBytes v).length = 8 := by
  rw [toNeBytes, List.length_map, List.length_range]

theorem length_flatMap_toNeBytes (ws : List ℕ) : (ws.flatMap toNeBytes).length = 8 * ws.length := by
  induction ws with
  | nil => rfl
  | cons v ws ih =>
    rw [List.flatMap_cons, List.length_append, ih, length_toNeBytes, List.length_cons]
    omega

/-- The words at the top of the stack. -/
structure Top (w : InitStack) (ws : List ℕ) : Prop where
  aligned : w.sp % 8 = 0
  holds : w.Holds w.sp (ws.flatMap toNeBytes)

/-- Words are pushed with a gap if need be. -/
theorem exists_of_pushWords (hw : w.InBuffer) (h : w.pushWords words = .ok w')
    (hlen : words.length < 2 ^ 60) : w'.InBuffer ∧ Extends w w' ∧ w'.Top words := by
  have hbytes := length_flatMap_toNeBytes words
  obtain ⟨hw', hext, hholds, hsp, -⟩ :=
    exists_of_pushSlice hw h ⟨by norm_num, le_rfl⟩ (by omega)
  exact ⟨hw', hext, by omega, hholds⟩

/-- No gap is left below words. -/
theorem Top.push (ht : w.Top ws) (hw : w.InBuffer) (h : w.pushWords words = .ok w')
    (hlen : words.length < 2 ^ 60) :
    w'.InBuffer ∧ Extends w w' ∧ w'.Top (words ++ ws) := by
  have hbytes := length_flatMap_toNeBytes words
  have haligned := ht.aligned
  obtain ⟨hw', hext, hholds, hsp, hle⟩ :=
    exists_of_pushSlice hw h ⟨by norm_num, le_rfl⟩ (by omega)
  refine ⟨hw', hext, by omega, ?_⟩
  rw [List.flatMap_append]
  refine hholds.append ?_
  have hnext : w'.sp + (words.flatMap toNeBytes).length = w.sp := by omega
  rw [hnext]
  exact ht.holds.mono hext

/-- A string is pushed with a zero behind it. -/
theorem exists_of_pushStr {pos : ℕ} (hw : w.InBuffer) (h : w.pushStr s = .ok (pos, w'))
    (hlen : (asBytes s).length < 2 ^ 63) :
    w'.InBuffer ∧ Extends w w' ∧ w'.sp + 1 ≤ w.sp ∧ w'.Holds pos (asBytes s ++ [0]) := by
  obtain ⟨w₁, h₁, h⟩ := exists_of_bind_eq_ok h
  obtain ⟨w₂, h₂, h⟩ := exists_of_bind_eq_ok h
  obtain ⟨rfl, rfl⟩ := Prod.mk.inj (Except.ok.inj h)
  obtain ⟨hw₁, hext₁, hzero, hsp₁, hle₁⟩ :=
    exists_of_pushSlice hw h₁ ⟨by norm_num, by norm_num⟩ (by norm_num)
  obtain ⟨hw₂, hext₂, hstr, hsp₂, hle₂⟩ :=
    exists_of_pushSlice hw₁ h₂ ⟨by norm_num, by norm_num⟩ hlen
  rw [List.length_singleton] at hsp₁ hle₁
  refine ⟨hw₂, hext₁.trans hext₂, by omega, hstr.append ?_⟩
  have hnext : w₂.sp + (asBytes s).length = w₁.sp := by omega
  rw [hnext]
  exact hzero.mono hext₂

/-- Strings are pushed one after another. -/
theorem exists_of_pushStrs {strs : List String} {poss : List ℕ} (hw : w.InBuffer)
    (h : pushStrs strs w = .ok (poss, w')) (hlen : ∀ s ∈ strs, (asBytes s).length < 2 ^ 63) :
    w'.InBuffer ∧ Extends w w' ∧ w'.sp + poss.length ≤ w.sp ∧
      List.Forall₂ (fun s pos ↦ w'.Holds pos (asBytes s ++ [0])) strs poss := by
  induction strs generalizing w poss with
  | nil =>
    obtain ⟨rfl, rfl⟩ := Prod.mk.inj (Except.ok.inj h)
    exact ⟨hw, Extends.refl w, le_rfl, List.Forall₂.nil⟩
  | cons s strs ih =>
    obtain ⟨⟨pos, w₁⟩, h₁, h⟩ := exists_of_bind_eq_ok h
    obtain ⟨⟨rest, w₂⟩, h₂, h⟩ := exists_of_bind_eq_ok h
    obtain ⟨rfl, rfl⟩ := Prod.mk.inj (Except.ok.inj h)
    obtain ⟨hw₁, hext₁, hsp₁, hpos⟩ := exists_of_pushStr hw h₁ (hlen s List.mem_cons_self)
    obtain ⟨hw₂, hext₂, hsp₂, hrest⟩ := ih hw₁ h₂ fun s hs ↦ hlen s (List.mem_cons_of_mem _ hs)
    refine ⟨hw₂, hext₁.trans hext₂, ?_, hrest.cons (hpos.mono hext₂)⟩
    rw [List.length_cons]
    omega

/-! ## Room -/

/-- Where a push of `n` bytes puts the stack pointer. -/
def lowered (sp align n : ℕ) : ℕ := sp - n - (sp - n) % align

theorem lowered_one (sp n : ℕ) : lowered sp 1 n = sp - n := by
  rw [lowered, Nat.mod_one, Nat.sub_zero]

theorem length_deref (hw : w.InBuffer) : w.deref.length = w.buttom - w.sp := by
  rw [deref, ByteMem.length_readBytes, wsub_of_le hw.le hw.lt]

/-- What was pushed fits into the buffer. -/
theorem length_deref_of_pushSlice (h : w.pushSlice align bytes = .ok w') :
    w'.deref.length ≤ USER_INIT_STACK_SIZE := by
  rw [pushSlice] at h
  dsimp only at h
  split_ifs at h with hfit
  obtain rfl := Except.ok.inj h
  rw [deref, ByteMem.length_readBytes]
  exact hfit

/-- How many bytes strings are with a zero behind each. -/
def strBytes (strs : List String) : ℕ := (strs.map fun s ↦ (asBytes s).length + 1).sum

/-- What is in the buffer can be pushed. -/
theorem exists_pushSlice (bytes : List UInt8) (hw : w.InBuffer) (halign : 0 < align ∧ align ≤ 8)
    (hfit : w.buttom ≤ USER_INIT_STACK_SIZE + lowered w.sp align bytes.length) :
    ∃ w', w.pushSlice align bytes = .ok w' ∧ w'.InBuffer ∧ w'.buttom = w.buttom ∧
      w'.sp = lowered w.sp align bytes.length := by
  have hlt := hw.lt
  have hroom := hw.room
  have hle := hw.le
  have hmod := Nat.mod_le (w.sp - bytes.length) align
  have hsize : USER_INIT_STACK_SIZE = 0x4000 := rfl
  have hassert : wsub w.buttom (wsub (wsub w.sp bytes.length) (wsub w.sp bytes.length % align)) ≤
      USER_INIT_STACK_SIZE := by
    rw [lowered] at hfit
    have hsub : wsub w.sp bytes.length = w.sp - bytes.length := wsub_of_le (by omega) (by omega)
    rw [hsub, wsub_of_le hmod (by omega), wsub_of_le (by omega) hlt]
    omega
  cases h : w.pushSlice align bytes with
  | error p =>
    rw [pushSlice] at h
    dsimp only at h
    rw [if_pos hassert] at h
    cases h
  | ok w' =>
    rw [lowered] at hfit
    obtain ⟨hw', hext, -, hsp, -⟩ := exists_of_pushSlice hw h halign (by omega)
    exact ⟨w', rfl, hw', hext.buttom, hsp⟩

theorem exists_pushWords (words : List ℕ) (hw : w.InBuffer)
    (hfit : w.buttom ≤ USER_INIT_STACK_SIZE + lowered w.sp 8 (8 * words.length)) :
    ∃ w', w.pushWords words = .ok w' ∧ w'.InBuffer ∧ w'.buttom = w.buttom ∧
      w'.sp = lowered w.sp 8 (8 * words.length) := by
  rw [← length_flatMap_toNeBytes] at hfit ⊢
  exact exists_pushSlice _ hw ⟨by norm_num, le_rfl⟩ hfit

/-- Words below words. -/
theorem exists_pushWords_of_aligned (words : List ℕ) (hw : w.InBuffer) (haligned : w.sp % 8 = 0)
    (hfit : w.buttom ≤ USER_INIT_STACK_SIZE + (w.sp - 8 * words.length)) :
    ∃ w', w.pushWords words = .ok w' ∧ w'.InBuffer ∧ w'.buttom = w.buttom ∧
      w'.sp = w.sp - 8 * words.length ∧ w'.sp % 8 = 0 := by
  have hlowered : lowered w.sp 8 (8 * words.length) = w.sp - 8 * words.length := by
    rw [lowered]
    omega
  rw [← hlowered] at hfit ⊢
  obtain ⟨w', h, hw', hbuttom, hsp⟩ := exists_pushWords words hw hfit
  exact ⟨w', h, hw', hbuttom, hsp, by omega⟩

theorem exists_pushStr (s : String) (hw : w.InBuffer)
    (hfit : w.buttom ≤ USER_INIT_STACK_SIZE + (w.sp - ((asBytes s).length + 1))) :
    ∃ w', w.pushStr s = .ok (w'.sp, w') ∧ w'.InBuffer ∧ w'.buttom = w.buttom ∧
      w'.sp = w.sp - ((asBytes s).length + 1) := by
  have hzero : ([0] : List UInt8).length = 1 := rfl
  obtain ⟨w₁, h₁, hw₁, hb₁, hsp₁⟩ := exists_pushSlice [0] hw ⟨Nat.one_pos, by norm_num⟩
    (by rw [lowered_one]; omega)
  rw [lowered_one, hzero] at hsp₁
  obtain ⟨w₂, h₂, hw₂, hb₂, hsp₂⟩ := exists_pushSlice (asBytes s) hw₁ ⟨Nat.one_pos, by norm_num⟩
    (by rw [lowered_one]; omega)
  rw [lowered_one] at hsp₂
  refine ⟨w₂, ?_, hw₂, hb₂.trans hb₁, by omega⟩
  rw [pushStr, bind_of_eq_ok _ h₁, bind_of_eq_ok _ h₂]
  rfl

theorem exists_pushStrs (strs : List String) (hw : w.InBuffer)
    (hfit : w.buttom ≤ USER_INIT_STACK_SIZE + (w.sp - strBytes strs)) :
    ∃ poss w', pushStrs strs w = .ok (poss, w') ∧ poss.length = strs.length ∧ w'.InBuffer ∧
      w'.buttom = w.buttom ∧ w'.sp = w.sp - strBytes strs := by
  induction strs generalizing w with
  | nil => exact ⟨[], w, rfl, rfl, hw, rfl, rfl⟩
  | cons s strs ih =>
    have hsum : strBytes (s :: strs) = (asBytes s).length + 1 + strBytes strs := List.sum_cons
    obtain ⟨w₁, h₁, hw₁, hb₁, hsp₁⟩ := exists_pushStr s hw (by omega)
    obtain ⟨poss, w₂, h₂, hlen, hw₂, hb₂, hsp₂⟩ := ih hw₁ (by omega)
    refine ⟨w₁.sp :: poss, w₂, ?_, ?_, hw₂, hb₂.trans hb₁, by omega⟩
    · rw [pushStrs, bind_of_eq_ok _ h₁]
      dsimp only
      rw [bind_of_eq_ok _ h₂]
      rfl
    · rw [List.length_cons, hlen, List.length_cons]

end InitStack

/-! ## Everything -/

namespace InitInfo

open InitStack

variable {info : InitInfo} {writer writer' : InitStack} {ws : List ℕ} {randomPos stackTop : ℕ}
variable {data : ByteMem}

/-- What a program is told for an entry of the auxiliary vector. -/
def auxValue (randomPos : ℕ) (entry : ℕ × ℕ) : ℕ × ℕ :=
  (entry.1, if entry.1 = AT_RANDOM then randomPos else entry.2)

/-- The words of pairs. -/
def pairWords (pairs : List (ℕ × ℕ)) : List ℕ := pairs.flatMap fun pair ↦ [pair.1, pair.2]

/-- The random bytes. -/
def randomBytes : List UInt8 := [3703830112808742751, 7081108068768079778].flatMap toNeBytes

/-- The auxiliary vector is pushed from its first entry on, so its last one is on top. -/
theorem exists_of_pushAuxv {entries : List (ℕ × ℕ)} (ht : writer.Top ws) (hw : writer.InBuffer)
    (h : pushAuxv randomPos entries writer = .ok writer') :
    writer'.InBuffer ∧ Extends writer writer' ∧
      writer'.Top (pairWords (entries.reverse.map (auxValue randomPos)) ++ ws) := by
  induction entries generalizing writer ws with
  | nil =>
    obtain rfl := Except.ok.inj h
    exact ⟨hw, Extends.refl _, ht⟩
  | cons entry entries ih =>
    obtain ⟨type, value⟩ := entry
    obtain ⟨w₁, h₁, h⟩ := exists_of_bind_eq_ok h
    obtain ⟨hw₁, hext₁, ht₁⟩ := ht.push hw h₁ (by norm_num)
    obtain ⟨hw₂, hext₂, ht₂⟩ := ih ht₁ hw₁ h
    refine ⟨hw₂, hext₁.trans hext₂, ?_⟩
    rw [List.reverse_cons, List.map_append, pairWords, List.flatMap_append, List.append_assoc]
    exact ht₂

theorem exists_pushAuxv (randomPos : ℕ) (entries : List (ℕ × ℕ)) (hw : writer.InBuffer)
    (haligned : writer.sp % 8 = 0)
    (hfit : writer.buttom ≤ USER_INIT_STACK_SIZE + (writer.sp - 16 * entries.length)) :
    ∃ writer', pushAuxv randomPos entries writer = .ok writer' ∧ writer'.InBuffer ∧
      writer'.buttom = writer.buttom ∧ writer'.sp = writer.sp - 16 * entries.length ∧
      writer'.sp % 8 = 0 := by
  induction entries generalizing writer with
  | nil => exact ⟨writer, rfl, hw, rfl, rfl, haligned⟩
  | cons entry entries ih =>
    obtain ⟨type, value⟩ := entry
    rw [List.length_cons] at hfit ⊢
    obtain ⟨w₁, h₁, hw₁, hb₁, hsp₁, hal₁⟩ := exists_pushWords_of_aligned
      [type, if type = AT_RANDOM then randomPos else value] hw haligned
      (by rw [List.length_cons, List.length_singleton]; omega)
    rw [List.length_cons, List.length_singleton] at hsp₁
    obtain ⟨w₂, h₂, hw₂, hb₂, hsp₂, hal₂⟩ := ih hw₁ hal₁ (by omega)
    refine ⟨w₂, ?_, hw₂, hb₂.trans hb₁, by omega, hal₂⟩
    rw [pushAuxv, bind_of_eq_ok _ h₁]
    exact h₂

/-- The words at the top of the stack of a program. -/
def tables (auxv : List (ℕ × ℕ)) (argv envp : List ℕ) : List ℕ :=
  argv.length :: (argv ++ 0 :: (envp ++ 0 :: (pairWords auxv ++ [0, 0])))

/-- What the stack of a program holds. -/
structure Layout (info : InitInfo) (writer : InitStack) (argv envp : List ℕ) (randomPos : ℕ) :
    Prop where
  inBuffer : writer.InBuffer
  tables : writer.Top (tables (info.auxv.entries.reverse.map (auxValue randomPos)) argv envp)
  args : List.Forall₂ (fun s pos ↦ writer.Holds pos (asBytes s ++ [0])) info.args argv
  envs : List.Forall₂ (fun s pos ↦ writer.Holds pos (asBytes s ++ [0])) info.envs envp
  random : writer.Holds randomPos randomBytes

/-- **The stack holds what was pushed.** -/
theorem exists_layout (h : info.serialize stackTop data = .ok writer)
    (htop : USER_INIT_STACK_SIZE < stackTop ∧ stackTop < 2 ^ 64)
    (hlen : ∀ s ∈ info.args ++ info.envs, (asBytes s).length < 2 ^ 63) :
    writer.buttom = stackTop ∧ ∃ argv envp randomPos, info.Layout writer argv envp randomPos := by
  have hargs := fun s hs ↦ hlen s (List.mem_append_left _ hs)
  have henvs := fun s hs ↦ hlen s (List.mem_append_right _ hs)
  rw [serialize] at h
  split at h
  case h_1 => cases h
  case h_2 name rest hname =>
    obtain ⟨⟨_, w₁⟩, h₁, h⟩ := exists_of_bind_eq_ok h
    obtain ⟨w₂, h₂, h⟩ := exists_of_bind_eq_ok h
    obtain ⟨⟨envp, w₃⟩, h₃, h⟩ := exists_of_bind_eq_ok h
    obtain ⟨⟨argv, w₄⟩, h₄, h⟩ := exists_of_bind_eq_ok h
    obtain ⟨w₅, h₅, h⟩ := exists_of_bind_eq_ok h
    obtain ⟨w₆, h₆, h⟩ := exists_of_bind_eq_ok h
    obtain ⟨w₇, h₇, h⟩ := exists_of_bind_eq_ok h
    obtain ⟨w₈, h₈, h⟩ := exists_of_bind_eq_ok h
    obtain ⟨w₉, h₉, h⟩ := exists_of_bind_eq_ok h
    obtain ⟨w₁₀, h₁₀, h⟩ := exists_of_bind_eq_ok h
    -- the strings
    have hw₀ : (InitStack.new stackTop data).InBuffer :=
      ⟨htop.2, htop.1, le_rfl, (Nat.sub_self stackTop).le.trans (Nat.zero_le _)⟩
    obtain ⟨hw₁, he₁, -, -⟩ := exists_of_pushStr hw₀ h₁ (hargs name (hname ▸ List.mem_cons_self))
    obtain ⟨hw₂, he₂, hrandom⟩ := exists_of_pushWords hw₁ h₂ (by norm_num)
    obtain ⟨hw₃, he₃, hle₃, henvp⟩ := exists_of_pushStrs hw₂ h₃ henvs
    obtain ⟨hw₄, he₄, hle₄, hargv⟩ := exists_of_pushStrs hw₃ h₄ hargs
    have hbuttom : w₄.buttom = stackTop :=
      (he₁.trans (he₂.trans (he₃.trans he₄))).buttom
    -- there are not more strings than bytes
    have hcount : envp.length < 2 ^ 60 ∧ argv.length < 2 ^ 60 := by
      have hsize : USER_INIT_STACK_SIZE = 0x4000 := rfl
      have hfits := hw₄.fits
      have hle₂ := hw₂.le
      have hbuttom₂ := (he₃.trans he₄).buttom
      have hsp₄ := he₄.le
      omega
    -- the tables
    obtain ⟨hw₅, he₅, ht₅⟩ := exists_of_pushWords hw₄ h₅ (by norm_num)
    obtain ⟨hw₆, he₆, ht₆⟩ := exists_of_pushAuxv ht₅ hw₅ h₆
    obtain ⟨hw₇, he₇, ht₇⟩ := ht₆.push hw₆ h₇ (by norm_num)
    obtain ⟨hw₈, he₈, ht₈⟩ := ht₇.push hw₇ h₈ hcount.1
    obtain ⟨hw₉, he₉, ht₉⟩ := ht₈.push hw₈ h₉ (by norm_num)
    obtain ⟨hw₁₀, he₁₀, ht₁₀⟩ := ht₉.push hw₉ h₁₀ hcount.2
    obtain ⟨hw₁₁, he₁₁, ht₁₁⟩ := ht₁₀.push hw₁₀ h (by norm_num)
    have he : Extends w₄ writer :=
      he₅.trans (he₆.trans (he₇.trans (he₈.trans (he₉.trans (he₁₀.trans he₁₁)))))
    refine ⟨he.buttom.trans hbuttom, argv, envp, w₂.sp, hw₁₁, ?_, ?_, ?_, ?_⟩
    · exact ht₁₁
    · exact hargv.imp fun s pos hpos ↦ hpos.mono he
    · exact henvp.imp fun s pos hpos ↦ hpos.mono (he₄.trans he)
    · exact hrandom.holds.mono (he₃.trans (he₄.trans he))

theorem length_deref_of_serialize (h : info.serialize stackTop data = .ok writer) :
    writer.deref.length ≤ USER_INIT_STACK_SIZE := by
  rw [serialize] at h
  split at h
  case h_1 => cases h
  case h_2 name rest hname =>
    -- only the last push matters
    iterate 10 obtain ⟨_, -, h⟩ := exists_of_bind_eq_ok h
    exact length_deref_of_pushSlice h

/-- Where the tables of a program end. -/
def tablesEnd (info : InitInfo) (stackTop : ℕ) : ℕ :=
  let sp := lowered (stackTop - ((asBytes (info.args.headD "")).length + 1)) 8 16
  lowered (sp - strBytes info.envs - strBytes info.args) 8 16

/-- Where the stack pointer is when everything is pushed below `stackTop`. -/
def lowest (info : InitInfo) (stackTop : ℕ) : ℕ :=
  info.tablesEnd stackTop - 16 * info.auxv.entries.length - 8 - 8 * info.envs.length - 8 -
    8 * info.args.length - 8

/-- The size of the data on the stack, with the gaps that the alignment of words leaves. -/
def size (info : InitInfo) (stackTop : ℕ) : ℕ := stackTop - info.lowest stackTop

theorem size_pos (info : InitInfo) (htop : 0 < stackTop) : 0 < info.size stackTop := by
  have hle : info.tablesEnd stackTop ≤ stackTop := by
    rw [tablesEnd, lowered, lowered]
    omega
  rw [size, lowest]
  omega

/-- The strings of data that fits are not longer than the buffer. -/
theorem length_asBytes_lt (hfits : info.size stackTop ≤ USER_INIT_STACK_SIZE)
    (htop : USER_INIT_STACK_SIZE < stackTop) :
    ∀ s ∈ info.args ++ info.envs, (asBytes s).length < USER_INIT_STACK_SIZE := by
  have hle : ∀ {strs : List String}, ∀ s ∈ strs, (asBytes s).length + 1 ≤ strBytes strs := by
    intro strs s hs
    obtain ⟨before, after, rfl⟩ := List.append_of_mem hs
    rw [strBytes, List.map_append, List.sum_append, List.map_cons, List.sum_cons]
    omega
  have hsum : strBytes info.envs + strBytes info.args ≤ USER_INIT_STACK_SIZE := by
    rw [size, lowest, tablesEnd, lowered, lowered] at hfits
    omega
  intro s hs
  rcases List.mem_append.mp hs with hs | hs
  · have := hle s hs
    omega
  · have := hle s hs
    omega

/-- The tables are pushed without gaps. -/
theorem exists_pushTables (randomPos : ℕ) (entries : List (ℕ × ℕ)) (envp argv : List ℕ)
    (hw : writer.InBuffer) (haligned : writer.sp % 8 = 0)
    (hfit : writer.buttom ≤ USER_INIT_STACK_SIZE +
      (writer.sp - 16 * entries.length - 8 - 8 * envp.length - 8 - 8 * argv.length - 8)) :
    ∃ writer', (do
        let writer ← pushAuxv randomPos entries writer
        let writer ← writer.pushWords [0]
        let writer ← writer.pushWords envp
        let writer ← writer.pushWords [0]
        let writer ← writer.pushWords argv
        writer.pushWords [argv.length]) = .ok writer' ∧
      writer'.InBuffer ∧ writer'.buttom = writer.buttom ∧ writer'.sp = writer.sp -
        16 * entries.length - 8 - 8 * envp.length - 8 - 8 * argv.length - 8 := by
  have hone : ∀ v : ℕ, 8 * [v].length = 8 := fun _ ↦ rfl
  obtain ⟨w₁, h₁, hw₁, hb₁, hsp₁, hal₁⟩ := exists_pushAuxv randomPos entries hw haligned (by omega)
  obtain ⟨w₂, h₂, hw₂, hb₂, hsp₂, hal₂⟩ := exists_pushWords_of_aligned [0] hw₁ hal₁
    (by rw [hone, hb₁, hsp₁]; omega)
  rw [hone, hsp₁] at hsp₂
  obtain ⟨w₃, h₃, hw₃, hb₃, hsp₃, hal₃⟩ := exists_pushWords_of_aligned envp hw₂ hal₂
    (by rw [hb₂, hb₁, hsp₂]; omega)
  rw [hsp₂] at hsp₃
  obtain ⟨w₄, h₄, hw₄, hb₄, hsp₄, hal₄⟩ := exists_pushWords_of_aligned [0] hw₃ hal₃
    (by rw [hone, hb₃, hb₂, hb₁, hsp₃]; omega)
  rw [hone, hsp₃] at hsp₄
  obtain ⟨w₅, h₅, hw₅, hb₅, hsp₅, hal₅⟩ := exists_pushWords_of_aligned argv hw₄ hal₄
    (by rw [hb₄, hb₃, hb₂, hb₁, hsp₄]; omega)
  rw [hsp₄] at hsp₅
  obtain ⟨w₆, h₆, hw₆, hb₆, hsp₆, -⟩ := exists_pushWords_of_aligned [argv.length] hw₅ hal₅
    (by rw [hone, hb₅, hb₄, hb₃, hb₂, hb₁, hsp₅]; exact hfit)
  rw [hone, hsp₅] at hsp₆
  refine ⟨w₆, ?_, hw₆, by rw [hb₆, hb₅, hb₄, hb₃, hb₂, hb₁], hsp₆⟩
  rw [bind_of_eq_ok _ h₁, bind_of_eq_ok _ h₂, bind_of_eq_ok _ h₃, bind_of_eq_ok _ h₄,
    bind_of_eq_ok _ h₅, h₆]

/-- **Data that fits is pushed.** -/
theorem exists_serialize (hargs : info.args ≠ [])
    (hfits : info.size stackTop ≤ USER_INIT_STACK_SIZE)
    (htop : USER_INIT_STACK_SIZE < stackTop ∧ stackTop < 2 ^ 64) (data : ByteMem) :
    ∃ writer, info.serialize stackTop data = .ok writer ∧ writer.InBuffer ∧
      writer.buttom = stackTop ∧ writer.sp = info.lowest stackTop := by
  obtain ⟨name, rest, hname⟩ := List.exists_cons_of_ne_nil hargs
  have hw₀ : (InitStack.new stackTop data).InBuffer :=
    ⟨htop.2, htop.1, le_rfl, (Nat.sub_self stackTop).le.trans (Nat.zero_le _)⟩
  have hb₀ : (InitStack.new stackTop data).buttom = stackTop := rfl
  have hsp₀ : (InitStack.new stackTop data).sp = stackTop := rfl
  have htwo : ∀ u v : ℕ, 8 * [u, v].length = 16 := fun _ _ ↦ rfl
  have hle : ∀ sp, lowered sp 8 16 ≤ sp ∧ lowered sp 8 16 % 8 = 0 := fun sp ↦ by
    rw [lowered]
    omega
  have hend : info.tablesEnd stackTop =
      lowered (lowered (stackTop - ((asBytes name).length + 1)) 8 16 - strBytes info.envs -
        strBytes info.args) 8 16 := by
    rw [tablesEnd, hname]
    rfl
  -- the strings are above the tables
  have hroom : stackTop ≤ USER_INIT_STACK_SIZE + info.tablesEnd stackTop := by
    rw [size, lowest] at hfits
    omega
  rw [hend] at hroom
  generalize hs₁ : stackTop - ((asBytes name).length + 1) = s₁ at hend hroom
  have hle₂ := (hle s₁).1
  generalize hs₂ : lowered s₁ 8 16 = s₂ at hend hroom hle₂
  have hle₅ := hle (s₂ - strBytes info.envs - strBytes info.args)
  generalize hs₅ : lowered (s₂ - strBytes info.envs - strBytes info.args) 8 16 = s₅
    at hend hroom hle₅
  obtain ⟨w₁, h₁, hw₁, hb₁, hsp₁⟩ := exists_pushStr name hw₀ (by rw [hb₀, hsp₀, hs₁]; omega)
  rw [hsp₀, hs₁] at hsp₁
  rw [hb₀] at hb₁
  obtain ⟨w₂, h₂, hw₂, hb₂, hsp₂⟩ :=
    exists_pushWords [3703830112808742751, 7081108068768079778] hw₁
      (by rw [htwo, hb₁, hsp₁, hs₂]; omega)
  rw [htwo, hsp₁, hs₂] at hsp₂
  rw [hb₁] at hb₂
  obtain ⟨envp, w₃, h₃, hlen₃, hw₃, hb₃, hsp₃⟩ := exists_pushStrs info.envs hw₂
    (by rw [hb₂, hsp₂]; omega)
  rw [hsp₂] at hsp₃
  rw [hb₂] at hb₃
  obtain ⟨argv, w₄, h₄, hlen₄, hw₄, hb₄, hsp₄⟩ := exists_pushStrs info.args hw₃
    (by rw [hb₃, hsp₃]; omega)
  rw [hsp₃] at hsp₄
  rw [hb₃] at hb₄
  -- the tables
  obtain ⟨w₅, h₅, hw₅, hb₅, hsp₅⟩ := exists_pushWords [0, 0] hw₄
    (by rw [htwo, hb₄, hsp₄, hs₅]; exact hroom)
  rw [htwo, hsp₄, hs₅] at hsp₅
  rw [hb₄] at hb₅
  have hlowest : info.lowest stackTop = s₅ - 16 * info.auxv.entries.length - 8 -
      8 * envp.length - 8 - 8 * argv.length - 8 := by
    rw [lowest, hend, hlen₃, hlen₄]
  rw [size, hlowest] at hfits
  obtain ⟨w₆, h₆, hw₆, hb₆, hsp₆⟩ := exists_pushTables w₂.sp info.auxv.entries envp argv hw₅
    (hsp₅ ▸ hle₅.2) (by rw [hb₅, hsp₅]; omega)
  rw [hsp₅, ← hlowest] at hsp₆
  refine ⟨w₆, ?_, hw₆, hb₆.trans hb₅, hsp₆⟩
  rw [serialize, hname]
  dsimp only
  rw [bind_of_eq_ok _ h₁]
  dsimp only
  rw [bind_of_eq_ok _ h₂, bind_of_eq_ok _ h₃]
  dsimp only
  rw [← hname, bind_of_eq_ok _ h₄]
  dsimp only
  rw [bind_of_eq_ok _ h₅, h₆]

/-- The slice has the size of the data and ends at `stackTop`. -/
theorem exists_writer (hargs : info.args ≠ [])
    (hfits : info.size stackTop ≤ USER_INIT_STACK_SIZE)
    (htop : USER_INIT_STACK_SIZE < stackTop ∧ stackTop < 2 ^ 64) (data : ByteMem) :
    ∃ writer, info.serialize stackTop data = .ok writer ∧
      writer.deref.length = info.size stackTop ∧ stackTop - writer.deref.length = writer.sp := by
  obtain ⟨writer, hwriter, hw, hbuttom, hsp⟩ := exists_serialize hargs hfits htop data
  have hle := hw.le
  have hlength := length_deref hw
  refine ⟨writer, hwriter, ?_, by omega⟩
  rw [hlength, hbuttom, hsp, size]

end InitInfo

end Maturin
