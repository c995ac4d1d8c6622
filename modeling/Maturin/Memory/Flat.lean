import Maturin.Lib.FlatMem
import Maturin.Memory.Bitmap
import Maturin.Memory.Contents
import Maturin.Memory.Space

/-!
# An address space is a flat memory

`MemorySet::read` and `MemorySet::write` go through the areas of a range, and in each area through
its pages. With disjoint areas and no files behind them they read and write one memory: its bytes
are those of the frames, and zeros where a page has no frame yet. A call treats the bytes of the
range from the first one on, until one of them is in no area that allows the access.
-/

open Exec

namespace Maturin

variable {σ φ F : Type}

/-- The interval and its area agree, and there is no file behind the area. -/
structure RangeArea.IsLazy (a : RangeArea (VmArea F)) : Prop where
  start_eq : a.segment.start = a.start
  end_eq : a.segment.end_ = a.end_
  aligned : PageAligned a.start
  aligned_end : PageAligned a.end_
  end_lt : a.end_ < 2 ^ 64
  size_eq : a.segment.pma.size = a.end_ - a.start
  backend_eq : a.segment.pma.backend = none

/-- The areas have no frame in common. -/
def RangeArea.Unshared (a b : RangeArea (VmArea F)) : Prop :=
  ∀ j k p : ℕ, a.segment.pma.frames[j]? = some (some p) → b.segment.pma.frames[k]? ≠ some (some p)

theorem RangeArea.Unshared.symm {a b : RangeArea (VmArea F)} (h : a.Unshared b) : b.Unshared a :=
  fun j k p hb ha ↦ h k j p ha hb

namespace MemorySet

/-- The addresses of the areas that allow the access. -/
def accessible (self : MemorySet F) (accessFlags : PTEFlags) : Set ℕ :=
  {x | ∃ area ∈ self.areaMap.iter, x ∈ Set.Ico area.start area.end_ ∧
    area.flags.contains accessFlags = true}

/-- The bytes of the areas; a page without a frame holds zeros. -/
def contents (self : MemorySet F) (mem : ByteMem) : ByteMem := fun x ↦
  match self.areaMap.find x with
  | some area => area.pma.contents (fun _ ↦ 0) mem (x - area.start)
  | none => 0

variable [FrameAllocator σ]

/-- Disjoint areas of whole pages without files, each with frames of its own. -/
structure Lazy (ms : MemorySet F) (w : World σ φ) : Prop where
  separated : SegmentLaws.Separated ms.areaMap
  area : ∀ a ∈ ms.areaMap.areas, a.IsLazy
  owns : ∀ a ∈ ms.areaMap.areas, a.segment.pma.Owns w
  unshared : ms.areaMap.areas.Pairwise RangeArea.Unshared

/-- What every call keeps. -/
structure Follows (ms : MemorySet F) (w : World σ φ) (ms' : MemorySet F) (w' : World σ φ) :
    Prop where
  isLazy : ms'.Lazy w'
  accessible_eq : ms'.accessible = ms.accessible
  oom : w.oom = true → w'.oom = true

variable {ms ms₁ ms' : MemorySet F} {w w₁ w' : World σ φ} {a : RangeArea (VmArea F)}
variable {x start len k : ℕ} {accessFlags : PTEFlags}

theorem Lazy.follows (h : ms.Lazy w) : Follows ms w ms w := ⟨h, rfl, id⟩

theorem Follows.trans (h : Follows ms w ms₁ w₁) (h' : Follows ms₁ w₁ ms' w') :
    Follows ms w ms' w' :=
  ⟨h'.isLazy, h'.accessible_eq.trans h.accessible_eq, fun ho ↦ h'.oom (h.oom ho)⟩

namespace Lazy

theorem contents_of_mem (h : ms.Lazy w) (ha : a ∈ ms.areaMap.areas) (hx : x ∈ a.range)
    (mem : ByteMem) :
    ms.contents mem x = a.segment.pma.contents (fun _ ↦ 0) mem (x - a.start) := by
  rw [contents, h.separated.find_eq_some_iff.mpr ⟨a, ha, hx, rfl⟩, ← (h.area a ha).start_eq]

theorem contents_of_notMem (h : ms.Lazy w) (hx : ∀ a ∈ ms.areaMap.areas, x ∉ a.range)
    (mem : ByteMem) : ms.contents mem x = 0 := by
  have hnone : ms.areaMap.find x = none := Option.eq_none_iff_forall_ne_some.mpr fun seg hseg ↦ by
    obtain ⟨a, ha, hxa, -⟩ := h.separated.find_eq_some_iff.mp hseg
    exact hx a ha hxa
  rw [contents, hnone]

/-- An address can be accessed if its area allows it. -/
theorem mem_accessible_iff (h : ms.Lazy w) : x ∈ ms.accessible accessFlags ↔
    ∃ a ∈ ms.areaMap.areas, x ∈ a.range ∧ a.segment.flags.contains accessFlags = true := by
  constructor
  · rintro ⟨area, harea, hx, hflags⟩
    obtain ⟨a, ha, rfl⟩ := List.mem_map.mp harea
    rw [(h.area a ha).start_eq, (h.area a ha).end_eq] at hx
    exact ⟨a, ha, hx, hflags⟩
  · rintro ⟨a, ha, hx, hflags⟩
    refine ⟨a.segment, List.mem_map_of_mem ha, ?_, hflags⟩
    rw [(h.area a ha).start_eq, (h.area a ha).end_eq]
    exact hx

/-- What a round of the loops finds at an address. -/
theorem find_cases (h : ms.Lazy w) (x : ℕ) (accessFlags : PTEFlags) :
    (ms.areaMap.find x = none ∧ x ∉ ms.accessible accessFlags) ∨
    ∃ a ∈ ms.areaMap.areas, x ∈ a.range ∧ ms.areaMap.find x = some a.segment ∧
      (a.segment.flags.contains accessFlags = true ∧ a.range ⊆ ms.accessible accessFlags ∨
        a.segment.flags.contains accessFlags = false ∧ x ∉ ms.accessible accessFlags) := by
  by_cases hx : ∃ a ∈ ms.areaMap.areas, x ∈ a.range
  · obtain ⟨a, ha, hxa⟩ := hx
    refine Or.inr ⟨a, ha, hxa, h.separated.find_eq_some_iff.mpr ⟨a, ha, hxa, rfl⟩, ?_⟩
    cases hflags : a.segment.flags.contains accessFlags with
    | true => exact Or.inl ⟨rfl, fun y hy ↦ h.mem_accessible_iff.mpr ⟨a, ha, hy, hflags⟩⟩
    | false =>
      refine Or.inr ⟨rfl, fun hacc ↦ ?_⟩
      obtain ⟨b, hb, hxb, hbflags⟩ := h.mem_accessible_iff.mp hacc
      have hab : a = b := by
        by_contra hne
        exact (h.separated.apart.forall ha hb hne).notMem hxa hxb
      rw [← hab, hflags] at hbflags
      exact absurd hbflags Bool.false_ne_true
  · refine Or.inl ⟨Option.eq_none_iff_forall_ne_some.mpr fun seg hseg ↦ ?_, fun hacc ↦ ?_⟩
    · obtain ⟨a, ha, hxa, -⟩ := h.separated.find_eq_some_iff.mp hseg
      exact hx ⟨a, ha, hxa⟩
    · obtain ⟨a, ha, hxa, -⟩ := h.mem_accessible_iff.mp hacc
      exact hx ⟨a, ha, hxa⟩

/-- After the frame vector of an area grew, the areas still lie apart, and what was written into the
vector was written into the flat memory. -/
theorem setSegment (h : ms.Lazy w) (ha : a ∈ ms.areaMap.areas) (hx : x ∈ a.range)
    {pma : PmAreaLazy F} (hg : Grown a.segment.pma w pma w') {piece : List UInt8}
    (hfit : x + piece.length ≤ a.end_) (hpma : pma.contents (fun _ ↦ 0) w'.mem
      = ByteMem.writeBytes (x - a.start) piece (a.segment.pma.contents (fun _ ↦ 0) w.mem)) :
    Follows ms w { ms with areaMap := ms.areaMap.setSegment x { a.segment with pma } } w' ∧
      ({ ms with areaMap := ms.areaMap.setSegment x { a.segment with pma } } :
        MemorySet F).contents w'.mem = ByteMem.writeBytes x piece (ms.contents w.mem) := by
  obtain ⟨L, hL, hset⟩ := h.separated.exists_perm_setSegment ha hx
  obtain ⟨hkey, hperm, -⟩ := hset { a.segment with pma }
  set ms' : MemorySet F := { ms with areaMap := ms.areaMap.setSegment x { a.segment with pma } }
    with hms'
  have hLmem : ∀ b ∈ L, b ∈ ms.areaMap.areas := fun b hb ↦
    hL.mem_iff.mpr (List.mem_cons_of_mem a hb)
  have hmem' : ∀ b, b ∈ ms'.areaMap.areas ↔
      b = ⟨a.start, a.end_, { a.segment with pma }⟩ ∨ b ∈ L :=
    fun b ↦ hperm.mem_iff.trans List.mem_cons
  have hapart := List.pairwise_cons.mp ((hL.pairwise_iff RangeArea.Apart.symm).mp h.separated.apart)
  have hunshared := List.pairwise_cons.mp ((hL.pairwise_iff RangeArea.Unshared.symm).mp h.unshared)
  -- a frame of another area is no frame of this one, and stays what it was
  have hother : ∀ b ∈ L, ∀ j p : ℕ, b.segment.pma.frames[j]? = some (some p) → Kept w w' p :=
    fun b hb j p hp ↦ hg.kept p ((h.owns b (hLmem b hb)).frame hp).2.2
      ((h.owns b (hLmem b hb)).frame hp).1 fun i hi ↦ hunshared.1 b hb i j p hi hp
  have hlazy : ms'.Lazy w' := by
    refine ⟨⟨hkey, fun b hb ↦ ?_, (hperm.pairwise_iff RangeArea.Apart.symm).mpr ?_⟩,
      fun b hb ↦ ?_, fun b hb ↦ ?_, (hperm.pairwise_iff RangeArea.Unshared.symm).mpr ?_⟩
    · rcases (hmem' b).mp hb with rfl | hb
      · exact h.separated.lt a ha
      · exact h.separated.lt b (hLmem b hb)
    · exact List.pairwise_cons.mpr hapart
    · rcases (hmem' b).mp hb with rfl | hb
      · obtain ⟨hstart, hend, hal, hal', hlt, hsize, hback⟩ := h.area a ha
        exact ⟨hstart, hend, hal, hal', hlt, hg.size_eq.trans hsize, hg.backend_eq.trans hback⟩
      · exact h.area b (hLmem b hb)
    · rcases (hmem' b).mp hb with rfl | hb
      · exact hg.owns
      · have hb' := h.owns b (hLmem b hb)
        exact ⟨fun hp ↦ ⟨(hb'.frame hp).1, (hb'.frame hp).2.1, (hother b hb _ _ hp).1⟩, hb'.inj⟩
    · refine List.pairwise_cons.mpr ⟨fun b hb j k p hj hk ↦ ?_, hunshared.2⟩
      rcases hg.new hj with hj | hfresh
      · exact hunshared.1 b hb j k p hj hk
      · exact hfresh ((h.owns b (hLmem b hb)).frame hk).2.2
  refine ⟨⟨hlazy, funext fun flags ↦ Set.ext fun y ↦ ?_, hg.oom⟩, funext fun y ↦ ?_⟩
  · rw [hlazy.mem_accessible_iff, h.mem_accessible_iff]
    simp only [hmem', hL.mem_iff, List.mem_cons, or_and_right, exists_or, exists_eq_left]
    rfl
  · obtain ⟨hl, hr⟩ := hx
    by_cases hy : y ∈ a.range
    · obtain ⟨hyl, hyr⟩ := hy
      rw [hlazy.contents_of_mem ((hmem' _).mpr (Or.inl rfl)) ⟨hyl, hyr⟩]
      dsimp only
      rw [hpma]
      have hbyte := h.contents_of_mem ha ⟨hyl, hyr⟩ w.mem
      rcases lt_or_ge y x with hlt | hge
      · rw [ByteMem.writeBytes_of_notMem (Or.inl hlt), hbyte,
          ByteMem.writeBytes_of_notMem (Or.inl (by omega))]
      · rw [ByteMem.writeBytes, ByteMem.writeBytes, if_pos hge, if_pos (by omega), hbyte,
          show y - a.start - (x - a.start) = y - x by omega]
    · have hout : y < x ∨ x + piece.length ≤ y := by
        by_contra hin
        exact hy ⟨by omega, by omega⟩
      rw [ByteMem.writeBytes_of_notMem hout]
      by_cases hb : ∃ b ∈ L, y ∈ b.range
      · obtain ⟨b, hb, hyb⟩ := hb
        rw [hlazy.contents_of_mem ((hmem' _).mpr (Or.inr hb)) hyb,
          h.contents_of_mem (hLmem b hb) hyb]
        refine PmAreaLazy.contents_congr fun j p hp z hz ↦ ?_
        exact (hother b hb j p hp).2 _ (by omega) (by omega)
      · rw [h.contents_of_notMem, hlazy.contents_of_notMem]
        · intro c hc
          rcases (hmem' c).mp hc with rfl | hc
          · exact hy
          · exact fun hyc ↦ hb ⟨c, hc, hyc⟩
        · intro c hc
          rcases List.mem_cons.mp (hL.mem_iff.mp hc) with rfl | hc
          · exact hy
          · exact fun hyc ↦ hb ⟨c, hc, hyc⟩

/-- A vector that only got frames leaves the flat memory as it is. -/
theorem setSegment_of_eq (h : ms.Lazy w) (ha : a ∈ ms.areaMap.areas) (hx : x ∈ a.range)
    {pma : PmAreaLazy F} (hg : Grown a.segment.pma w pma w') (hpma : pma.contents (fun _ ↦ 0) w'.mem
      = a.segment.pma.contents (fun _ ↦ 0) w.mem) :
    Follows ms w { ms with areaMap := ms.areaMap.setSegment x { a.segment with pma } } w' ∧
      ({ ms with areaMap := ms.areaMap.setSegment x { a.segment with pma } } :
        MemorySet F).contents w'.mem = ms.contents w.mem := by
  have hfit : x + ([] : List UInt8).length ≤ a.end_ := hx.2.le
  have hset := h.setSegment ha hx hg hfit (hpma.trans ByteMem.writeBytes_nil.symm)
  rwa [ByteMem.writeBytes_nil] at hset

variable {f : ByteMem}

omit [FrameAllocator σ] in
/-- An area that allows no access to the first byte of a range. -/
theorem not_subset (hx : start + k ∉ ms.accessible accessFlags) (hk : k < len) :
    ¬Set.Ico start (start + len) ⊆ ms.accessible accessFlags :=
  fun hsub ↦ hx (hsub ⟨by omega, by omega⟩)

/-- The loop of `write` from the byte `k` of the range on. It stops at the end of the range, or
after a part of it, because a byte cannot be accessed or the frames run out. -/
theorem wp_writeLoop {src : List UInt8} (hlen : len ≤ src.length) (rounds : ℕ) (h : ms.Lazy w)
    (hk : k ≤ len) (hrounds : len - k ≤ rounds)
    (hf : ms.contents w.mem = ByteMem.writeBytes start (src.take k) f)
    (hacc : Set.Ico start (start + k) ⊆ ms.accessible accessFlags) :
    wp (ms.writeLoop src accessFlags rounds (start + k) (len - k) k) (fun r w' ↦
      Follows ms w r.2 w' ∧ ∃ j ≤ len,
        r.2.contents w'.mem = ByteMem.writeBytes start (src.take j) f ∧
        (r.1 = .ok () ∧ j = len ∧ Set.Ico start (start + len) ⊆ ms.accessible accessFlags ∨
          (∃ err, r.1 = .error err) ∧ (w'.oom = true ∨
            ¬Set.Ico start (start + len) ⊆ ms.accessible accessFlags))) noPanic w := by
  induction rounds generalizing ms k w with
  | zero =>
    obtain rfl : k = len := by omega
    exact ⟨h.follows, k, le_rfl, hf, Or.inl ⟨rfl, rfl, hacc⟩⟩
  | succ rounds ih =>
    rw [writeLoop]
    by_cases hpos : len - k > 0
    · rw [if_pos hpos]
      rcases h.find_cases (start + k) accessFlags with ⟨hnone, hx⟩ | ⟨a, ha, hx, hfind, hflags⟩
      · rw [hnone]
        exact ⟨h.follows, k, hk, hf, Or.inr ⟨⟨_, rfl⟩, Or.inr (not_subset hx (by omega))⟩⟩
      · have hat := h.area a ha
        have hend := hat.end_eq
        have hstart := hat.start_eq
        have hlt := hat.end_lt
        have hsize := hat.size_eq
        obtain ⟨hl, hr⟩ := hx
        rw [hfind]
        dsimp only
        rw [if_neg (by omega)]
        rcases hflags with ⟨hflags, hsub⟩ | ⟨hflags, hx⟩
        · rw [hflags, if_neg (by decide), if_neg (by omega), wp_bind]
          -- up to the end of the area, or of the range
          set n := min (a.segment.end_ - (start + k)) (len - k) with hn
          have hpiece : ((src.drop k).take n).length = n := by
            rw [List.length_take, List.length_drop]
            omega
          refine wp_imp ((h.owns a ha).wp_write (z := fun _ ↦ 0) (by omega) (by omega) (by omega)
            fun _ _ _ _ _ ↦ rfl) fun r w₁ hr ↦ ?_
          rcases r with ⟨res, pma⟩
          obtain ⟨hgrown, -, ⟨rfl, hpma⟩ | ⟨j, hj, rfl, hoom, hpma⟩⟩ := hr
          · rw [hstart] at hpma
            obtain ⟨hfollows, hcontents⟩ := h.setSegment ha ⟨hl, hr⟩ hgrown (by omega) hpma
            rw [hf, ByteMem.writeBytes_take_add (by omega)] at hcontents
            have hacc' : Set.Ico start (start + (k + n)) ⊆ ms.accessible accessFlags := by
              rintro x ⟨hxl, hxr⟩
              by_cases hx : x < start + k
              · exact hacc ⟨hxl, hx⟩
              · exact hsub ⟨by omega, by omega⟩
            rw [← hfollows.accessible_eq] at hacc'
            have hnext := ih hfollows.isLazy (by omega) (by omega) hcontents hacc'
            rw [← Nat.add_assoc, Nat.sub_add_eq, hfollows.accessible_eq] at hnext
            exact wp_imp hnext fun r w' hr ↦ ⟨hfollows.trans hr.1, hr.2⟩
          · -- the frames ran out within the area, after `j` bytes
            rw [hstart, List.take_take] at hpma
            obtain ⟨hfollows, hcontents⟩ := h.setSegment ha ⟨hl, hr⟩ hgrown
              (by rw [List.length_take, List.length_drop]; omega) hpma
            rw [hf, ByteMem.writeBytes_take_add (by omega)] at hcontents
            exact ⟨hfollows, _, by omega, hcontents, Or.inr ⟨⟨_, rfl⟩, Or.inl hoom⟩⟩
        · rw [hflags, if_pos (by decide)]
          exact ⟨h.follows, k, hk, hf, Or.inr ⟨⟨_, rfl⟩, Or.inr (not_subset hx (by omega))⟩⟩
    · rw [if_neg hpos]
      obtain rfl : k = len := by omega
      exact ⟨h.follows, k, le_rfl, hf, Or.inl ⟨rfl, rfl, hacc⟩⟩

/-- The loop of `read` from the byte `k` of the range on. -/
theorem wp_readLoop {dst₀ dst : List UInt8} (hlen : len ≤ dst₀.length) (rounds : ℕ)
    (h : ms.Lazy w) (hk : k ≤ len) (hrounds : len - k ≤ rounds)
    (hf : ms.contents w.mem = f) (hdst : dst = f.readBytes start k ++ dst₀.drop k)
    (hacc : Set.Ico start (start + k) ⊆ ms.accessible accessFlags) :
    wp (ms.readLoop accessFlags rounds dst (start + k) (len - k) k) (fun r w' ↦
      Follows ms w r.2.1 w' ∧ r.2.1.contents w'.mem = f ∧
        (r.1 = .ok () ∧ r.2.2 = f.readBytes start len ++ dst₀.drop len ∧
            Set.Ico start (start + len) ⊆ ms.accessible accessFlags ∨
          (∃ err, r.1 = .error err) ∧ (w'.oom = true ∨
            ¬Set.Ico start (start + len) ⊆ ms.accessible accessFlags))) noPanic w := by
  induction rounds generalizing ms k w dst with
  | zero =>
    obtain rfl : k = len := by omega
    exact ⟨h.follows, hf, Or.inl ⟨rfl, hdst, hacc⟩⟩
  | succ rounds ih =>
    rw [readLoop]
    by_cases hpos : len - k > 0
    · rw [if_pos hpos]
      rcases h.find_cases (start + k) accessFlags with ⟨hnone, hx⟩ | ⟨a, ha, hx, hfind, hflags⟩
      · rw [hnone]
        exact ⟨h.follows, hf, Or.inr ⟨⟨_, rfl⟩, Or.inr (not_subset hx (by omega))⟩⟩
      · have hat := h.area a ha
        have hend := hat.end_eq
        have hstart := hat.start_eq
        have hlt := hat.end_lt
        have hsize := hat.size_eq
        obtain ⟨hl, hr⟩ := hx
        rw [hfind]
        dsimp only
        rw [if_neg (by omega)]
        rcases hflags with ⟨hflags, hsub⟩ | ⟨hflags, hx⟩
        · have hdlen : dst.length = dst₀.length := by
            rw [hdst, List.length_append, ByteMem.length_readBytes, List.length_drop]
            omega
          rw [hflags, if_neg (by decide), if_neg (by omega), wp_bind]
          set n := min (a.segment.end_ - (start + k)) (len - k) with hn
          have hbuf : ((dst.drop k).take n).length = n := by
            rw [List.length_take, List.length_drop]
            omega
          refine wp_imp ((h.owns a ha).wp_read (z := fun _ ↦ 0) (by omega) (by omega) (by omega)
            fun _ _ _ _ _ ↦ rfl) fun r w₁ hr ↦ ?_
          rcases r with ⟨res, pma, piece⟩
          obtain ⟨hgrown, -, hpma, -, ⟨rfl, rfl⟩ | ⟨rfl, hoom⟩⟩ := hr
          · obtain ⟨hfollows, hcontents⟩ := h.setSegment_of_eq ha ⟨hl, hr⟩ hgrown hpma
            rw [hf] at hcontents
            have hacc' : Set.Ico start (start + (k + n)) ⊆ ms.accessible accessFlags := by
              rintro x ⟨hxl, hxr⟩
              by_cases hx : x < start + k
              · exact hacc ⟨hxl, hx⟩
              · exact hsub ⟨by omega, by omega⟩
            rw [← hfollows.accessible_eq] at hacc'
            -- within the area, the bytes are those of the frame vector
            have hpiece : (a.segment.pma.contents (fun _ ↦ 0) w.mem).readBytes
                (start + k - a.segment.start) n = f.readBytes (start + k) n := by
              refine ByteMem.readBytes_eq_iff.mpr fun i hi ↦ ?_
              rw [← hf, h.contents_of_mem ha ⟨by omega, by omega⟩,
                show start + k + i - a.start = start + k - a.segment.start + i by omega]
            have hdst' : dst.take k ++ f.readBytes (start + k) n ++ dst.drop (k + n)
                = f.readBytes start (k + n) ++ dst₀.drop (k + n) := by
              rw [hdst, List.take_left' ByteMem.length_readBytes, ByteMem.readBytes_add,
                List.drop_append, List.drop_eq_nil_of_le (by rw [ByteMem.length_readBytes]; omega),
                List.nil_append, ByteMem.length_readBytes, List.drop_drop,
                show k + (k + n - k) = k + n by omega]
            have hnext := ih hfollows.isLazy (by omega) (by omega) hcontents hdst' hacc'
            rw [← Nat.add_assoc, Nat.sub_add_eq, hfollows.accessible_eq] at hnext
            dsimp only
            rw [hbuf, hpiece]
            exact wp_imp hnext fun r w' hr ↦ ⟨hfollows.trans hr.1, hr.2⟩
          · obtain ⟨hfollows, hcontents⟩ := h.setSegment_of_eq ha ⟨hl, hr⟩ hgrown hpma
            rw [hf] at hcontents
            exact ⟨hfollows, hcontents, Or.inr ⟨⟨_, rfl⟩, Or.inl hoom⟩⟩
        · rw [hflags, if_pos (by decide)]
          exact ⟨h.follows, hf, Or.inr ⟨⟨_, rfl⟩, Or.inr (not_subset hx (by omega))⟩⟩
    · rw [if_neg hpos]
      obtain rfl : k = len := by omega
      exact ⟨h.follows, hf, Or.inl ⟨rfl, hdst, hacc⟩⟩

end Lazy

end MemorySet

/-- The address space of a process is one, if no file is mapped. -/
theorem SpaceOk.isLazy [FrameAllocator σ] {e : PtEnv} {g : ℕ → Option Cell} {ms : MemorySet F}
    {w : World σ φ} (h : SpaceOk e g ms w)
    (hback : ∀ a ∈ ms.areaMap.areas, a.segment.pma.backend = none) : ms.Lazy w := by
  obtain ⟨T, hb, -⟩ := h.coherent.backed
  -- a frame of an area is the frame of a page
  have hpage : ∀ {a : RangeArea (VmArea F)} {p j q : ℕ}, AreaOk e.lim g p a.segment →
      a.segment.pma.frames[j]? = some (some q) →
        ∃ pg, pageAt g (p + j) = some pg ∧ pg.paddr = q := by
    intro a p j q hp hj
    obtain ⟨c, hc, hframe⟩ := hp.cell j (List.getElem?_eq_some_iff.mp hj).1
    rw [hframe, Option.some.injEq, Option.map_eq_some_iff] at hj
    obtain ⟨pg, hpg, rfl⟩ := hj
    exact ⟨pg, by rw [pageAt, hc, Option.bind_some, hpg], rfl⟩
  have hat := h.coherent.layout.area
  refine ⟨⟨h.keyed, fun a ha ↦ ?_, h.coherent.layout.apart⟩, fun a ha ↦ ?_, fun a ha ↦ ?_,
    h.coherent.layout.apart.imp_of_mem fun {a b} ha hb' hab j k q hj hk ↦ ?_⟩
  · exact (hat a ha).lt
  · obtain ⟨p, hp, -⟩ := (hat a ha).ok
    refine ⟨(hat a ha).start_eq, (hat a ha).end_eq, ?_, ?_,
      h.coherent.layout.end_lt h.coherent.lim_le ha, ?_, hback a ha⟩
    · rw [(hat a ha).start_page hp]
      exact Nat.mul_mod_left _ _
    · rw [(hat a ha).end_page hp]
      exact Nat.mul_mod_left _ _
    · rw [hp.size_eq, (hat a ha).start_eq, (hat a ha).end_eq]
  · obtain ⟨p, hp, -⟩ := (hat a ha).ok
    refine ⟨fun hj ↦ ?_, fun hj hk ↦ ?_⟩
    · obtain ⟨pg, hpg, rfl⟩ := hpage hp hj
      exact ⟨(hb.frames.ok hpg).aligned, (hb.frames.ok hpg).lt, (hb.frames.ok hpg).inUse⟩
    · obtain ⟨pg, hpg, hq⟩ := hpage hp hj
      obtain ⟨pg', hpg', hq'⟩ := hpage hp hk
      exact Nat.add_left_cancel (hb.frames.inj hpg hpg' (hq.trans hq'.symm))
  · obtain ⟨p, hp, -⟩ := (hat a ha).ok
    obtain ⟨p', hp', -⟩ := (hat b hb').ok
    obtain ⟨pg, hpg, hq⟩ := hpage hp hj
    obtain ⟨pg', hpg', hq'⟩ := hpage hp' hk
    have heq := hb.frames.inj hpg hpg' (hq.trans hq'.symm)
    have hmem : p + j ∈ a.pages := by
      rw [(hat a ha).pages_eq hp]
      exact ⟨by omega, Nat.add_lt_add_left (List.getElem?_eq_some_iff.mp hj).1 p⟩
    have hmem' : p + j ∈ b.pages := by
      rw [(hat b hb').pages_eq hp', heq]
      exact ⟨by omega, Nat.add_lt_add_left (List.getElem?_eq_some_iff.mp hk).1 p'⟩
    exact hab.notMem hmem hmem'

/-! ## Runs -/

/-- A call of `MemorySet::read` or `MemorySet::write` with a buffer. -/
inductive FlatCall
  | read (start len : ℕ) (dst : List UInt8) (accessFlags : PTEFlags)
  | write (start len : ℕ) (src : List UInt8) (accessFlags : PTEFlags)

namespace FlatCall

def range : FlatCall → Set ℕ
  | read start len _ _ | write start len _ _ => Set.Ico start (start + len)

def accessFlags : FlatCall → PTEFlags
  | read _ _ _ accessFlags | write _ _ _ accessFlags => accessFlags

/-- The buffer has room for the range. -/
def Fits : FlatCall → Prop
  | read _ len buf _ | write _ len buf _ => len ≤ buf.length

/-- The access that a call with the given result was. A call that fails may have written a part of
its range. -/
inductive Explains : FlatCall → Except OSError (List UInt8) → MemEvent → Prop
  | read {start len dst accessFlags bytes} : bytes.length = len →
      Explains (read start len dst accessFlags) (.ok bytes) (.read start bytes)
  | readFailed {start len dst accessFlags err} :
      Explains (read start len dst accessFlags) (.error err) (.read start [])
  | write {start len src accessFlags} :
      Explains (write start len src accessFlags) (.ok []) (.write start (src.take len))
  | writeFailed {start len src accessFlags err j} : j ≤ len →
      Explains (write start len src accessFlags) (.error err) (.write start (src.take j))

variable [FrameAllocator σ]

/-- The call, with the bytes that it read. -/
def exec (ms : MemorySet F) :
    FlatCall → EStateM Panic (World σ φ) (Except OSError (List UInt8) × MemorySet F)
  | read start len dst accessFlags => do
    let (r, ms, dst) ← ms.read start len dst accessFlags
    pure (r.map fun _ ↦ dst.take len, ms)
  | write start len src accessFlags => do
    let (r, ms) ← ms.write start len src accessFlags
    pure (r.map fun _ ↦ [], ms)

/-- The calls one after the other, each with its result. -/
def run : List FlatCall → MemorySet F →
    EStateM Panic (World σ φ) (List (FlatCall × Except OSError (List UInt8)) × MemorySet F)
  | [], ms => pure ([], ms)
  | c :: calls, ms => do
    let (r, ms) ← c.exec ms
    let (log, ms) ← run calls ms
    pure ((c, r) :: log, ms)

end FlatCall

section runs

variable [FrameAllocator σ] {ms : MemorySet F} {w : World σ φ}

/-- One call is one access to the flat memory, and succeeds if its range can be accessed. -/
theorem MemorySet.Lazy.wp_exec (h : ms.Lazy w) {c : FlatCall} (hfits : c.Fits) :
    wp (c.exec ms) (fun r w' ↦ ms.Follows w r.2 w' ∧
      (w'.oom = false → (r.1.isOk = true ↔ c.range ⊆ ms.accessible c.accessFlags)) ∧
      ∃ e, c.Explains r.1 e ∧ e.Agrees (ms.contents w.mem) ∧
        r.2.contents w'.mem = e.apply (ms.contents w.mem)) noPanic w := by
  cases c with
  | read start len dst accessFlags =>
    rw [FlatCall.exec, wp_bind, MemorySet.read]
    have hloop : wp (ms.readLoop accessFlags len dst (start + 0) (len - 0) 0) _ noPanic w :=
      h.wp_readLoop hfits len (Nat.zero_le _) le_rfl rfl rfl (by simp)
    refine wp_imp hloop fun r w' hr ↦ ?_
    rcases r with ⟨res, ms', dst'⟩
    obtain ⟨hfollows, hcontents, ⟨rfl, rfl, hsub⟩ | ⟨⟨err, rfl⟩, hfail⟩⟩ := hr
    · refine ⟨hfollows, fun _ ↦ iff_of_true rfl hsub, _, .read ?_, ?_, hcontents⟩
      · rw [List.length_take_of_le (by simp)]
      · rw [MemEvent.Agrees, List.take_left' ByteMem.length_readBytes, ByteMem.length_readBytes]
    · exact ⟨hfollows, fun hoom ↦ iff_of_false Bool.false_ne_true
        (hfail.resolve_left (by rw [hoom]; exact Bool.false_ne_true)),
        _, .readFailed, rfl, hcontents⟩
  | write start len src accessFlags =>
    rw [FlatCall.exec, wp_bind, MemorySet.write]
    have hloop : wp (ms.writeLoop src accessFlags len (start + 0) (len - 0) 0) _ noPanic w :=
      h.wp_writeLoop (f := ms.contents w.mem) hfits len (Nat.zero_le _) le_rfl
        (by rw [List.take_zero, ByteMem.writeBytes_nil]) (by simp)
    refine wp_imp hloop fun r w' hr ↦ ?_
    rcases r with ⟨res, ms'⟩
    obtain ⟨hfollows, j, hj, hcontents, ⟨rfl, rfl, hsub⟩ | ⟨⟨err, rfl⟩, hfail⟩⟩ := hr
    · exact ⟨hfollows, fun _ ↦ iff_of_true rfl hsub, _, .write, trivial, hcontents⟩
    · exact ⟨hfollows, fun hoom ↦ iff_of_false Bool.false_ne_true
        (hfail.resolve_left (by rw [hoom]; exact Bool.false_ne_true)), _, .writeFailed hj, trivial,
        hcontents⟩

/-- A run of calls is a run of the flat memory. -/
theorem MemorySet.Lazy.wp_run (h : ms.Lazy w) {calls : List FlatCall}
    (hfits : ∀ c ∈ calls, c.Fits) :
    wp (FlatCall.run calls ms) (fun r w' ↦ ms.Follows w r.2 w' ∧ r.1.map Prod.fst = calls ∧
      (w'.oom = false → ∀ x ∈ r.1,
        (x.2.isOk = true ↔ x.1.range ⊆ ms.accessible x.1.accessFlags)) ∧
      ∃ events, List.Forall₂ (fun x e ↦ x.1.Explains x.2 e) r.1 events ∧
        FlatRun (ms.contents w.mem) events (r.2.contents w'.mem)) noPanic w := by
  induction calls generalizing ms w with
  | nil => exact ⟨h.follows, rfl, fun _ x hx ↦ absurd hx List.not_mem_nil, [], .nil, .nil _⟩
  | cons c calls ih =>
    rw [FlatCall.run, wp_bind]
    refine wp_imp (h.wp_exec (hfits c List.mem_cons_self)) fun r w₁ hr ↦ ?_
    obtain ⟨hfollows, hok, e, hexplains, hagrees, hcontents⟩ := hr
    dsimp only
    rw [wp_bind]
    refine wp_imp (ih hfollows.isLazy fun c hc ↦ hfits c (List.mem_cons_of_mem _ hc))
      fun r' w' hr' ↦ ?_
    obtain ⟨hfollows', hcalls, hok', events, hall, hrun⟩ := hr'
    rw [hcontents] at hrun
    refine ⟨hfollows.trans hfollows', congrArg (c :: ·) hcalls, fun hoom x hx ↦ ?_, e :: events,
      .cons hexplains hall, .cons hagrees hrun⟩
    rcases List.mem_cons.mp hx with rfl | hx
    · -- what has not failed up to the end has not failed before
      refine hok (Bool.eq_false_iff.mpr fun ho ↦ ?_)
      rw [hfollows'.oom ho] at hoom
      exact absurd hoom (by decide)
    · rw [← hfollows.accessible_eq]
      exact hok' hoom x hx

/-- **An address space without files is a flat memory.** With frames available, a call succeeds
exactly if every byte of its range lies in an area that allows the access. A read returns the byte
written last at each address, or the one that was there at the start, and the bytes outside of what
was written stay as they are. -/
theorem MemorySet.Lazy.isFlat (h : ms.Lazy w) {calls : List FlatCall}
    (hfits : ∀ c ∈ calls, c.Fits) :
    wp (FlatCall.run calls ms) (fun r w' ↦ r.2.Lazy w' ∧ r.1.map Prod.fst = calls ∧
      (w'.oom = false → ∀ x ∈ r.1,
        (x.2.isOk = true ↔ x.1.range ⊆ ms.accessible x.1.accessFlags)) ∧
      ∃ events, List.Forall₂ (fun x e ↦ x.1.Explains x.2 e) r.1 events ∧
        ReadsLast (ms.contents w.mem) events ∧
        ∀ x, r.2.contents w'.mem x = (lastWrite events x).getD (ms.contents w.mem x)) noPanic w :=
  wp_imp (h.wp_run hfits) fun _ _ hr ↦ by
    obtain ⟨hfollows, hcalls, hok, events, hall, hrun⟩ := hr
    exact ⟨hfollows.isLazy, hcalls, hok, events, hall, hrun.readsLast, hrun.eq_lastWrite⟩

end runs

/-- An area of one page without a frame. -/
def RangeArea.onePage (start : ℕ) : RangeArea (VmArea Empty) :=
  ⟨start, start + PAGE_SIZE, ⟨start, start + PAGE_SIZE, PTEFlags.READ ||| PTEFlags.WRITE,
    ⟨[none], none⟩⟩⟩

/-- Two areas, side by side. -/
def MemorySet.twoAreas : MemorySet Empty where
  areaMap := {
    segments := ⟨[(0x1000, .onePage 0x1000), (0x2000, .onePage 0x2000)], by simp⟩
    args := 0 }
  pt := ⟨0, []⟩
  isUser := true

theorem MemorySet.lazy_twoAreas (w : World Bitmap Unit) : MemorySet.twoAreas.Lazy w := by
  have hnone : ∀ {start j p : ℕ},
      (RangeArea.onePage start).segment.pma.frames[j]? ≠ some (some p) := by
    intro start j p hj
    cases j <;> simp [RangeArea.onePage] at hj
  have hareas : ∀ a ∈ MemorySet.twoAreas.areaMap.areas, ∃ start, (start = 0x1000 ∨ start = 0x2000) ∧
      a = .onePage start := by
    intro a ha
    rcases List.mem_pair.mp ha with rfl | rfl
    · exact ⟨_, Or.inl rfl, rfl⟩
    · exact ⟨_, Or.inr rfl, rfl⟩
  refine ⟨⟨fun x hx ↦ ?_, fun a ha ↦ ?_, ?_⟩, fun a ha ↦ ?_, fun a ha ↦ ?_, ?_⟩
  · rcases List.mem_pair.mp hx with rfl | rfl <;> rfl
  · obtain ⟨start, -, rfl⟩ := hareas a ha
    exact Nat.lt_add_of_pos_right (by norm_num)
  · exact List.pairwise_pair.mpr (Or.inl (by decide))
  · obtain ⟨start, hstart, rfl⟩ := hareas a ha
    refine ⟨rfl, rfl, ?_, ?_, ?_, ?_, rfl⟩
    · rcases hstart with rfl | rfl <;> decide
    · rcases hstart with rfl | rfl <;> decide
    · rcases hstart with rfl | rfl <;> decide
    · simp [RangeArea.onePage, PmAreaLazy.size]
  · obtain ⟨start, -, rfl⟩ := hareas a ha
    exact ⟨fun hj ↦ absurd hj hnone, fun hj ↦ absurd hj hnone⟩
  · exact List.pairwise_pair.mpr fun j k p hj ↦ absurd hj hnone

/-- Writing across the two areas and reading it again. -/
theorem isFlat_twoAreas : wp (FlatCall.run
    [.write 0x1FFF 2 [1, 2] PTEFlags.WRITE, .read 0x1FFE 4 [0, 0, 0, 0] PTEFlags.READ]
    MemorySet.twoAreas) (fun r w' ↦ (w'.oom = false → ∀ x ∈ r.1,
        (x.2.isOk = true ↔ x.1.range ⊆ MemorySet.twoAreas.accessible x.1.accessFlags)) ∧
      ∃ events, List.Forall₂ (fun x e ↦ FlatCall.Explains x.1 x.2 e) r.1 events ∧
        ReadsLast (MemorySet.twoAreas.contents World.kernel.mem) events) noPanic World.kernel := by
  refine wp_imp ((MemorySet.lazy_twoAreas World.kernel).isFlat (by simp [FlatCall.Fits]))
    fun r w' hr ↦ ?_
  obtain ⟨-, -, hok, events, hall, hreads, -⟩ := hr
  exact ⟨hok, events, hall, hreads⟩

end Maturin
