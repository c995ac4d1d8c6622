import Maturin.Memory.Contents
import Maturin.Memory.Image
import Maturin.Memory.Write

/-!
# What a program finds after a write

`MemorySet::write` writes past the page table, and gives a page without a frame one of zeros. Where
no file is behind the areas, a program finds zeros in such a page anyway. So after the write it
finds the written bytes in their places and what it found before everywhere else.
-/

open Exec

namespace Maturin

/-! ## Areas -/

/-- Changing a segment in place changes what is found at the addresses of its area. -/
theorem SegmentLaws.Separated.find_setSegment {S : Type} {m : RangeActionMap S} {a : RangeArea S}
    {pos : ℕ} (h : SegmentLaws.Separated m) (ha : a ∈ m.areas) (hpos : pos ∈ a.range) (seg : S)
    (x : ℕ) : (x ∈ a.range → (m.setSegment pos seg).find x = some seg) ∧
      (x ∉ a.range → (m.setSegment pos seg).find x = m.find x) := by
  obtain ⟨L, hL, hset⟩ := h.exists_perm_setSegment ha hpos
  obtain ⟨hkeyed, hperm, -⟩ := hset seg
  have hapart := List.pairwise_cons.mp ((hL.pairwise_iff RangeArea.Apart.symm).mp h.apart)
  have h' : SegmentLaws.Separated (m.setSegment pos seg) := by
    refine ⟨hkeyed, fun b hb ↦ ?_, (hperm.pairwise_iff RangeArea.Apart.symm).mpr ?_⟩
    · rcases List.mem_cons.mp (hperm.mem_iff.mp hb) with rfl | hb
      · exact h.lt a ha
      · exact h.lt b (hL.mem_iff.mpr (List.mem_cons_of_mem a hb))
    · exact List.pairwise_cons.mpr hapart
  refine ⟨fun hx ↦ ?_, fun hx ↦ ?_⟩
  · exact h'.find_eq_some_iff.mpr ⟨_, hperm.mem_iff.mpr List.mem_cons_self, hx, rfl⟩
  · refine Option.ext fun seg' ↦ ?_
    rw [h'.find_eq_some_iff, h.find_eq_some_iff]
    refine exists_congr fun b ↦ and_congr_left fun ⟨hxb, _⟩ ↦ ?_
    rw [hperm.mem_iff, hL.mem_iff, List.mem_cons, List.mem_cons]
    refine or_congr_left (iff_of_false ?_ ?_)
    · rintro rfl
      exact hx hxb
    · rintro rfl
      exact hx hxb

namespace MemorySet

variable {σ φ F : Type} {ms : MemorySet F} {w : World σ φ} {area : VmArea F} {x : ℕ}

/-- The address space with another frame vector for the area at an address. -/
def withPma (ms : MemorySet F) (x : ℕ) (area : VmArea F) (pma : PmAreaLazy F) : MemorySet F :=
  { ms with areaMap := ms.areaMap.setSegment x { area with pma } }

/-- Where there is no file a program finds the contents of the frame vector. -/
theorem readsAt_of_find (hfind : ms.areaMap.find x = some area) (hback : area.pma.backend = none)
    (hal : PageAligned area.start) (hle : area.start ≤ x) :
    ms.readsAt w x = some (area.pma.contents (fun _ ↦ 0) w.mem (x - area.start)) := by
  have hmod : (x - area.start) % PAGE_SIZE = x % PAGE_SIZE := by
    simp only [PageAligned, PAGE_SIZE] at hal ⊢
    omega
  rw [readsAt, byteAt, backingAt, hfind, Option.map_some, Option.bind_some, Option.bind_some, hback,
    PmAreaLazy.contents, hmod]
  cases area.pma.frames[(x - area.start) / PAGE_SIZE]?.join with
  | none => rfl
  | some p => rfl

/-- What is found depends on the area and its frames. -/
theorem readsAt_congr {ms' : MemorySet F} {w' : World σ φ}
    (hfind : ms'.areaMap.find x = ms.areaMap.find x)
    (hkept : ∀ area, ms.areaMap.find x = some area → ∀ j p : ℕ,
      area.pma.frames[j]? = some (some p) →
        w'.mem (p + x % PAGE_SIZE) = w.mem (p + x % PAGE_SIZE)) :
    ms'.readsAt w' x = ms.readsAt w x := by
  rw [readsAt, readsAt, byteAt, byteAt, backingAt, backingAt, hfind]
  cases harea : ms.areaMap.find x with
  | none => rfl
  | some area =>
    rw [Option.map_some, Option.map_some]
    cases hp : area.pma.frames[(x - area.start) / PAGE_SIZE]?.join with
    | none => rfl
    | some p =>
      rw [Option.map_some, Option.map_some,
        hkept area harea _ p (Option.join_eq_some_iff.mp hp)]

end MemorySet

/-- Bytes from `a` on that are found in place of others. -/
def overwritten (a : ℕ) (bs : List UInt8) (found : ℕ → Option UInt8) : ℕ → Option UInt8 := fun x ↦
  if a ≤ x then bs[x - a]?.or (found x) else found x

section overwritten

variable {a x : ℕ} {bs cs : List UInt8} {found : ℕ → Option UInt8}

@[simp] theorem overwritten_nil : overwritten a [] found = found := by
  funext x
  rw [overwritten, List.getElem?_nil, Option.none_or, ite_self]

theorem overwritten_of_notMem (h : x < a ∨ a + bs.length ≤ x) :
    overwritten a bs found x = found x := by
  rw [overwritten]
  split_ifs with hx
  · rw [List.getElem?_eq_none (by omega), Option.none_or]
  · rfl

theorem overwritten_append : overwritten a (bs ++ cs) found =
    overwritten (a + bs.length) cs (overwritten a bs found) := by
  funext x
  rcases lt_or_ge x (a + bs.length) with hlt | hge
  · have hcs : overwritten (a + bs.length) cs (overwritten a bs found) x =
        overwritten a bs found x := overwritten_of_notMem (Or.inl hlt)
    rw [hcs, overwritten, overwritten]
    split_ifs with hx
    · rw [List.getElem?_append_left (by omega)]
    · rfl
  · rw [overwritten, overwritten, if_pos (by omega), if_pos hge,
      List.getElem?_append_right (by omega), overwritten_of_notMem (Or.inr hge), Nat.sub_add_eq]

end overwritten

/-! ## Writing -/

variable {σ φ F : Type} [FrameAllocator σ] [FileStore F φ] {e : PtEnv} {g : ℕ → Option Cell}
variable {ms : MemorySet F} {w : World σ φ} {a : RangeArea (VmArea F)} {x start : ℕ}

namespace SpaceOk

omit [FileStore F φ] in
/-- The frame of a page of an area is that of a cell. -/
theorem exists_page (h : SpaceOk e g ms w) (ha : a ∈ ms.areaMap.areas) {j p : ℕ}
    (hj : a.segment.pma.frames[j]? = some (some p)) :
    ∃ pg, pageAt g (a.start / PAGE_SIZE + j) = some pg ∧ pg.paddr = p ∧
      a.start / PAGE_SIZE + j ∈ a.pages := by
  have hat := h.coherent.layout.area a ha
  obtain ⟨q, hq, -⟩ := hat.ok
  obtain ⟨hlt, -⟩ := List.getElem?_eq_some_iff.mp hj
  obtain ⟨c, hc, hframe⟩ := hq.cell j hlt
  rw [hj, eq_comm, Option.some.injEq] at hframe
  obtain ⟨pg, hpg, hpaddr⟩ := Option.map_eq_some_iff.mp hframe
  have hpage : a.start / PAGE_SIZE = q := by
    rw [← hat.start_eq, hq.start_eq, Nat.mul_div_cancel q (by norm_num)]
  refine ⟨pg, ?_, hpaddr, ?_⟩
  · rw [hpage, pageAt, hc]
    exact hpg
  · rw [hpage, hat.pages_eq hq]
    exact ⟨Nat.le_add_right _ _, Nat.add_lt_add_left hlt q⟩

omit [FileStore F φ] in
/-- Each area has frames of its own. -/
theorem owns (h : SpaceOk e g ms w) (ha : a ∈ ms.areaMap.areas) : a.segment.pma.Owns w := by
  obtain ⟨T, hb, -⟩ := h.coherent.backed
  refine ⟨fun hj ↦ ?_, fun {j k p} hj hk ↦ ?_⟩
  · obtain ⟨pg, hpg, rfl, -⟩ := h.exists_page ha hj
    have hok := hb.frames.ok hpg
    exact ⟨hok.aligned, hok.lt, hok.inUse⟩
  · obtain ⟨pg, hpg, hp, -⟩ := h.exists_page ha hj
    obtain ⟨pg', hpg', hp', -⟩ := h.exists_page ha hk
    have := hb.frames.inj hpg hpg' (hp.trans hp'.symm)
    omega

/-- Areas that lie apart have no frame in common. -/
theorem frames_ne (h : SpaceOk e g ms w) {b : RangeArea (VmArea F)} (ha : a ∈ ms.areaMap.areas)
    (hb : b ∈ ms.areaMap.areas) (hxb : x ∈ b.range) (hxa : x ∉ a.range) {j k p : ℕ}
    (hj : a.segment.pma.frames[j]? = some (some p)) : b.segment.pma.frames[k]? ≠ some (some p) := by
  intro hk
  obtain ⟨T, hbacked, -⟩ := h.coherent.backed
  obtain ⟨pg, hpg, hp, hn⟩ := h.exists_page ha hj
  obtain ⟨pg', hpg', hp', hm⟩ := h.exists_page hb hk
  rw [hbacked.frames.inj hpg hpg' (hp.trans hp'.symm)] at hn
  have hab : a = b := (areaLaws e 0).eq_of_mem_range h.represents.good ha hb hn hm
  exact hxa (hab ▸ hxb)

/-- A piece is written into an area without a file. -/
theorem wp_writePiece (h : SpaceOk e g ms w) {area : VmArea F}
    (hfind : ms.areaMap.find start = some area) (hback : area.pma.backend = none)
    (piece : List UInt8) (hlen : start + piece.length ≤ area.end_) :
    wp (area.pma.write (start - area.start) piece) (fun r w' ↦
      (∃ g', SpaceOk e g' (ms.withPma start area r.2) w') ∧
      (∀ x, (ms.withPma start area r.2).NoFile x ↔ ms.NoFile x) ∧ ∀ n, r.1 = .ok n →
        (ms.withPma start area r.2).readsAt w' = overwritten start piece (ms.readsAt w))
      noPanic w := by
  obtain ⟨a, ha, hx, rfl⟩ := ((areaLaws e 0).find_eq_some_iff h.represents).mp hfind
  obtain ⟨L, hL, hset⟩ := (areaLaws e 0).exists_represents_setSegment h.represents ha hx
  have hsep := SegmentLaws.Represents.separated _ h.represents
  have hcoh := h.coherent.perm hL
  have hat := h.coherent.layout.area a ha
  have hstart := hat.start_eq
  have hend := hat.end_eq
  obtain ⟨q, hq, -⟩ := hat.ok
  have hal : PageAligned a.segment.start := hq.start_eq ▸ Nat.mul_mod_left q PAGE_SIZE
  have hsize := hq.size_eq
  have hlt := hq.end_lt hcoh.lim_le
  obtain ⟨hl, hr⟩ := hx
  refine wp_mono (wp_and (hcoh.wp_write ⟨hl, hr⟩ (hend ▸ hlen)) ((h.owns ha).wp_write
    (z := fun _ ↦ 0) (by omega) (by omega) (by omega) fun _ _ _ _ _ ↦ rfl)) (fun r w' hr' ↦ ?_)
    fun _ _ hp ↦ hp.1
  obtain ⟨⟨g', -, hcoh'⟩, hgrown, -, hres⟩ := hr'
  obtain ⟨res, pma⟩ := r
  -- the space with the frames of the area as the write left them
  have hok : SpaceOk e g' (ms.withPma start a.segment pma) w' := by
    have := h.of_represents (hset { a.segment with pma } (onPages g') (ms.pt, w') ⟨g', rfl, hcoh'⟩)
    rwa [funext fun n ↦ onPages_page g' n] at this
  have hfind' := hsep.find_setSegment ha ⟨hl, hr⟩ { a.segment with pma }
  have hback' : pma.backend = none := hgrown.backend_eq.trans hback
  refine ⟨⟨g', hok⟩, fun x ↦ ?_, fun n hn ↦ funext fun x ↦ ?_⟩
  · by_cases hxa : x ∈ a.range
    · exact iff_of_true ⟨_, (hfind' x).1 hxa, hback'⟩
        ⟨_, hsep.find_eq_some_iff.mpr ⟨a, ha, hxa, rfl⟩, hback⟩
    · exact exists_congr fun area ↦ and_congr_left fun _ ↦ by
        rw [← (hfind' x).2 hxa]
        rfl
  · by_cases hxa : x ∈ a.range
    · have hold : ms.areaMap.find x = some a.segment :=
        hsep.find_eq_some_iff.mpr ⟨a, ha, hxa, rfl⟩
      have hle : a.segment.start ≤ x := hstart ▸ hxa.1
      have hnew : (ms.withPma start a.segment pma).areaMap.find x = some { a.segment with pma } :=
        (hfind' x).1 hxa
      rcases hres with ⟨-, hpma⟩ | ⟨j, -, herr, -⟩
      · dsimp only at hpma
        have hread := MemorySet.readsAt_of_find (w := w) hold hback hal hle
        rw [MemorySet.readsAt_of_find hnew hback' hal hle, hpma]
        dsimp only
        rcases lt_or_ge x start with hlt | hge
        · rw [overwritten_of_notMem (Or.inl hlt), hread,
            ByteMem.writeBytes_of_notMem (Or.inl (by omega))]
        · have hidx : x - a.segment.start - (start - a.segment.start) = x - start := by omega
          rw [overwritten, if_pos hge, hread, ByteMem.writeBytes, if_pos (by omega), hidx]
          cases piece[x - start]? <;> rfl
      · cases hn.symm.trans herr
    · rw [MemorySet.readsAt_congr ((hfind' x).2 hxa), overwritten_of_notMem]
      · by_contra hin
        exact hxa ⟨by omega, by omega⟩
      · intro area harea j p hj
        obtain ⟨b, hb, hxb, rfl⟩ := hsep.find_eq_some_iff.mp harea
        have hframe := (h.owns hb).frame hj
        -- a frame of another area is none of this one's
        have hkept := hgrown.kept p hframe.2.2 hframe.1 fun i hi ↦ h.frames_ne ha hb hxb hxa hi hj
        have hmod : x % PAGE_SIZE < PAGE_SIZE := Nat.mod_lt _ (by norm_num)
        exact hkept.2 _ (by omega) (by omega)

/-- The loop of `write` from the byte `k` of the source on. -/
theorem wp_writeLoop_readsAt {src : List UInt8} (accessFlags : PTEFlags)
    (found : ℕ → Option UInt8) {len k : ℕ} (rounds : ℕ) (h : SpaceOk e g ms w) (hk : k ≤ len)
    (hlen : len ≤ src.length)
    (hrounds : len - k ≤ rounds)
    (hfile : ∀ x, start ≤ x → x < start + len → ms.NoFile x)
    (hread : ms.readsAt w = overwritten start (src.take k) found) :
    wp (ms.writeLoop src accessFlags rounds (start + k) (len - k) k) (fun r w' ↦
      (∃ g', SpaceOk e g' r.2 w') ∧ (∀ x, r.2.NoFile x ↔ ms.NoFile x) ∧
      (r.1 = .ok () → r.2.readsAt w' = overwritten start (src.take len) found)) noPanic w := by
  induction rounds generalizing ms k w g with
  | zero =>
    obtain rfl : k = len := by omega
    exact ⟨⟨g, h⟩, fun _ ↦ Iff.rfl, fun _ ↦ hread⟩
  | succ rounds ih =>
    rw [MemorySet.writeLoop]
    by_cases hpos : len - k > 0
    · rw [if_pos hpos]
      obtain ⟨area, hfind, hback⟩ := hfile (start + k) (by omega) (by omega)
      rw [hfind]
      dsimp only
      split_ifs with hbefore hdenied hsrc
      · exact ⟨⟨g, h⟩, fun _ ↦ Iff.rfl, fun hok ↦ by cases hok⟩
      · exact ⟨⟨g, h⟩, fun _ ↦ Iff.rfl, fun hok ↦ by cases hok⟩
      · omega
      · rw [wp_bind]
        set n := min (area.end_ - (start + k)) (len - k) with hn
        have hpiece : ((src.drop k).take n).length = n := by
          rw [List.length_take, List.length_drop]
          omega
        refine wp_imp (h.wp_writePiece hfind hback ((src.drop k).take n) (by omega))
          fun r w₁ hr ↦ ?_
        obtain ⟨res, pma⟩ := r
        obtain ⟨⟨g₁, hok₁⟩, hfile₁, hread₁⟩ := hr
        cases res with
        | error err => exact ⟨⟨g₁, hok₁⟩, hfile₁, fun hok ↦ by cases hok⟩
        | ok j =>
          -- the piece joins what was written before
          have hnext : (ms.withPma (start + k) area pma).readsAt w₁ =
              overwritten start (src.take (k + n)) found := by
            rw [hread₁ j rfl, hread, List.take_add, overwritten_append, List.length_take_of_le
              (by omega)]
          have hrest := ih hok₁ (by omega) (by omega)
            (fun x hl hr ↦ (hfile₁ x).mpr (hfile x hl hr)) hnext
          rw [← Nat.add_assoc, Nat.sub_add_eq] at hrest
          refine wp_imp hrest fun r w' hr ↦ ⟨hr.1, fun x ↦ (hr.2.1 x).trans (hfile₁ x), hr.2.2⟩
    · rw [if_neg hpos]
      obtain rfl : k = len := by omega
      exact ⟨⟨g, h⟩, fun _ ↦ Iff.rfl, fun _ ↦ hread⟩

/-- **After a write a program finds the bytes.** -/
theorem wp_write_readsAt (h : SpaceOk e g ms w) (start : ℕ) (src : List UInt8)
    (accessFlags : PTEFlags)
    (hfile : ∀ x, start ≤ x → x < start + src.length → ms.NoFile x) :
    wp (ms.write start src.length src accessFlags) (fun r w' ↦
      (∃ g', SpaceOk e g' r.2 w') ∧ (∀ x, r.2.NoFile x ↔ ms.NoFile x) ∧
      (r.1 = .ok () → r.2.readsAt w' = overwritten start src (ms.readsAt w))) noPanic w := by
  have hloop := h.wp_writeLoop_readsAt accessFlags (ms.readsAt w) src.length (Nat.zero_le _) le_rfl
    le_rfl hfile (by rw [List.take_zero, overwritten_nil])
  rw [List.take_length] at hloop
  exact hloop

end SpaceOk

end Maturin
