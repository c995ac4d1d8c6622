import Maturin.RangeActionMap.Laws
import Maturin.RangeActionMap.Lawful
import Maturin.RangeActionMap.Ledger
import Mathlib.Algebra.BigOperators.Group.List.Lemmas
import Mathlib.Algebra.Order.Group.Multiset
import Mathlib.Logic.Relation

/-!
# The range map refines a partial map

The specification of a range map is a partial function from addresses to a resource and a flag:
`unmap` erases it on the range, `mprotect` changes the flags on the range and `mmap_fixed` takes
the values of the new segment there. A configuration of a run carries the map, the ledger of the
segments made and removed, the state of the segments and the specification.

The invariant of runs is that the areas are non-empty and apart, that each owns exactly its
interval with the values of the specification, and that at every address what was made is what was
removed and what the areas hold. It is `SegmentLaws` for segments that own a resource for each
address, so the spec lemmas of the map's operations apply.
-/

open Exec

namespace Maturin

namespace LawfulSegment

variable {S σ R F : Type} [Segment S σ] (laws : LawfulSegment S σ R F)
variable {f : ℕ → Option (R × F)} {L : List (RangeArea S)} {a : RangeArea S}
variable {args : ArgsType} {start end_ p : ℕ}

/-! ## Resources -/

/-- The resources that the segments hold for the address. -/
def heldAt (segs : List S) (p : ℕ) : Multiset R :=
  (segs.map fun seg ↦ (laws.res seg p).elim 0 ({·})).sum

@[simp] theorem heldAt_nil : laws.heldAt [] p = 0 := rfl

@[simp] theorem heldAt_cons (seg : S) (segs : List S) :
    laws.heldAt (seg :: segs) p = (laws.res seg p).elim 0 ({·}) + laws.heldAt segs p := by
  rw [heldAt, List.map_cons, List.sum_cons]
  rfl

@[simp] theorem heldAt_append (segs segs' : List S) :
    laws.heldAt (segs ++ segs') p = laws.heldAt segs p + laws.heldAt segs' p := by
  rw [heldAt, List.map_append, List.sum_append]
  rfl

theorem heldAt_perm {segs segs' : List S} (h : segs.Perm segs') :
    laws.heldAt segs p = laws.heldAt segs' p :=
  (h.map _).sum_eq

/-! ## The invariant -/

/-- The areas of `L` stand for `f`, and the ledger balances at every address. -/
structure Accounts (made : List S) (f : ℕ → Option (R × F)) (L : List (RangeArea S))
    (s : Ledger S × σ) : Prop where
  nonempty : ∀ a ∈ L, a.start < a.end_
  apart : L.Pairwise RangeArea.Apart
  cover : ∀ p, (f p).isSome → ∃ a ∈ L, p ∈ a.range
  owns : ∀ a ∈ L, laws.Owns a.segment a.start a.end_
  value : ∀ a ∈ L, ∀ p ∈ a.range, f p = laws.valueAt a.segment p
  made_eq : s.1.made = made
  balance : ∀ p, laws.heldAt made p =
    laws.heldAt s.1.removed p + laws.heldAt (L.map RangeArea.segment) p

variable {laws}
variable {made : List S} {s t : Ledger S × σ}

theorem Accounts.perm {L' : List (RangeArea S)} (hperm : L.Perm L')
    (h : laws.Accounts made f L s) : laws.Accounts made f L' s where
  nonempty a ha := h.nonempty a (hperm.mem_iff.mpr ha)
  apart := (hperm.pairwise_iff RangeArea.Apart.symm).mp h.apart
  cover p hp := by
    obtain ⟨a, ha, hpa⟩ := h.cover p hp
    exact ⟨a, hperm.mem_iff.mp ha, hpa⟩
  owns a ha := h.owns a (hperm.mem_iff.mpr ha)
  value a ha := h.value a (hperm.mem_iff.mpr ha)
  made_eq := h.made_eq
  balance p := by rw [h.balance p, laws.heldAt_perm (hperm.map RangeArea.segment)]

/-- The two halves of a segment hold together what the segment held. -/
theorem heldAt_split {pos : ℕ} {seg left right : S}
    (h : laws.res left p = (if p < pos then laws.res seg p else none) ∧
      laws.res right p = (if p < pos then none else laws.res seg p)) :
    (laws.res left p).elim (0 : Multiset R) ({·}) + (laws.res right p).elim 0 ({·}) =
      (laws.res seg p).elim 0 ({·}) := by
  rw [h.1, h.2]
  by_cases hp : p < pos
  · rw [if_pos hp, if_pos hp, Option.elim_none, add_zero]
  · rw [if_neg hp, if_neg hp, Option.elim_none, zero_add]

theorem Accounts.split {pos : ℕ} {left right : S} (h : laws.Accounts made f (a :: L) s)
    (hl : a.start < pos) (hr : pos < a.end_) (ht : t.1 = s.1)
    (hflag : laws.flag left = laws.flag a.segment ∧ laws.flag right = laws.flag a.segment)
    (hres : ∀ p, laws.res left p = (if p < pos then laws.res a.segment p else none) ∧
      laws.res right p = (if p < pos then none else laws.res a.segment p)) :
    laws.Accounts made f (⟨a.start, pos, left⟩ :: ⟨pos, a.end_, right⟩ :: L) t where
  nonempty b hb := by
    rcases List.mem_cons.mp hb with rfl | hb
    · exact hl
    rcases List.mem_cons.mp hb with rfl | hb
    · exact hr
    · exact h.nonempty b (List.mem_cons_of_mem a hb)
  apart := by
    obtain ⟨ha, hL⟩ := List.pairwise_cons.mp h.apart
    refine List.pairwise_cons.mpr ⟨fun b hb ↦ ?_, List.pairwise_cons.mpr ⟨fun b hb ↦ ?_, hL⟩⟩
    · rcases List.mem_cons.mp hb with rfl | hb
      · exact Or.inl le_rfl
      · exact (ha b hb).imp hr.le.trans (·.trans le_rfl)
    · exact (ha b hb).imp id (·.trans hl.le)
  cover p hp := by
    obtain ⟨b, hb, hpb⟩ := h.cover p hp
    rcases List.mem_cons.mp hb with rfl | hb
    · rw [RangeArea.mem_range] at hpb
      by_cases hpos : p < pos
      · exact ⟨_, List.mem_cons_self, hpb.1, hpos⟩
      · exact ⟨_, List.mem_cons_of_mem _ List.mem_cons_self, not_lt.mp hpos, hpb.2⟩
    · exact ⟨b, List.mem_cons_of_mem _ (List.mem_cons_of_mem _ hb), hpb⟩
  owns b hb := by
    have hown := h.owns a List.mem_cons_self
    rcases List.mem_cons.mp hb with rfl | hb
    · intro p
      have := hown p
      dsimp only
      rw [(hres p).1]
      split_ifs with hp
      · rw [this]
        omega
      · simp only [Option.isSome_none, Bool.false_eq_true, false_iff]
        omega
    rcases List.mem_cons.mp hb with rfl | hb
    · intro p
      have := hown p
      dsimp only
      rw [(hres p).2]
      split_ifs with hp
      · simp only [Option.isSome_none, Bool.false_eq_true, false_iff]
        omega
      · rw [this]
        omega
    · exact h.owns b (List.mem_cons_of_mem a hb)
  value b hb p hp := by
    have hval := h.value a List.mem_cons_self p
    rcases List.mem_cons.mp hb with rfl | hb
    · rw [RangeArea.mem_range] at hp
      rw [hval ⟨hp.1, hp.2.trans hr⟩, valueAt, valueAt, (hres p).1, if_pos hp.2, hflag.1]
    rcases List.mem_cons.mp hb with rfl | hb
    · rw [RangeArea.mem_range] at hp
      rw [hval ⟨hl.le.trans hp.1, hp.2⟩, valueAt, valueAt, (hres p).2, if_neg hp.1.not_gt, hflag.2]
    · exact h.value b (List.mem_cons_of_mem a hb) p hp
  made_eq := by rw [ht, h.made_eq]
  balance p := by
    have := h.balance p
    rw [List.map_cons, heldAt_cons] at this
    rw [ht, List.map_cons, List.map_cons, heldAt_cons, heldAt_cons, ← add_assoc (Option.elim _ _ _),
      heldAt_split (hres p), this]

theorem Accounts.remove (h : laws.Accounts made f (a :: L) s) (hmade : t.1.made = s.1.made)
    (hremoved : t.1.removed = s.1.removed ++ [a.segment]) :
    laws.Accounts made (PointMap.erase a.range f) L t where
  nonempty b hb := h.nonempty b (List.mem_cons_of_mem a hb)
  apart := (List.pairwise_cons.mp h.apart).2
  cover p hp := by
    obtain ⟨b, hb, hpb⟩ := h.cover p (PointMap.isSome_of_isSome_erase hp)
    rcases List.mem_cons.mp hb with rfl | hb
    · rw [PointMap.erase_of_mem hpb] at hp
      exact absurd hp (by simp)
    · exact ⟨b, hb, hpb⟩
  owns b hb := h.owns b (List.mem_cons_of_mem a hb)
  value b hb p hp := by
    have hapart := (List.pairwise_cons.mp h.apart).1 b hb
    rw [PointMap.erase_of_notMem (hapart.symm.notMem hp)]
    exact h.value b (List.mem_cons_of_mem a hb) p hp
  made_eq := by rw [hmade, h.made_eq]
  balance p := by
    rw [h.balance p, hremoved, List.map_cons, heldAt_cons, heldAt_append, heldAt_cons, heldAt_nil,
      add_zero, add_assoc]

theorem Accounts.modify {seg : S} {newFlag : F} (h : laws.Accounts made f (a :: L) s)
    (ht : t.1 = s.1) (hflag : laws.flag seg = newFlag)
    (hres : ∀ p, laws.res seg p = laws.res a.segment p) :
    laws.Accounts made (PointMap.update a.range (fun v ↦ (v.1, newFlag)) f)
      (⟨a.start, a.end_, seg⟩ :: L) t where
  nonempty b hb := by
    rcases List.mem_cons.mp hb with rfl | hb
    · exact h.nonempty a List.mem_cons_self
    · exact h.nonempty b (List.mem_cons_of_mem a hb)
  apart := by
    obtain ⟨ha, hL⟩ := List.pairwise_cons.mp h.apart
    exact List.pairwise_cons.mpr ⟨ha, hL⟩
  cover p hp := by
    rw [PointMap.isSome_update] at hp
    obtain ⟨b, hb, hpb⟩ := h.cover p hp
    rcases List.mem_cons.mp hb with rfl | hb
    · exact ⟨_, List.mem_cons_self, hpb⟩
    · exact ⟨b, List.mem_cons_of_mem _ hb, hpb⟩
  owns b hb := by
    rcases List.mem_cons.mp hb with rfl | hb
    · intro p
      rw [hres p]
      exact h.owns a List.mem_cons_self p
    · exact h.owns b (List.mem_cons_of_mem a hb)
  value b hb p hp := by
    rcases List.mem_cons.mp hb with rfl | hb
    · have hval := h.value a List.mem_cons_self p hp
      have hp' : p ∈ a.range := hp
      rw [PointMap.update_of_mem hp', hval, valueAt, valueAt, Option.map_map, hres p, hflag]
      rfl
    · -- another area has no place in the range
      have hapart := (List.pairwise_cons.mp h.apart).1 b hb
      rw [PointMap.update_of_notMem (hapart.symm.notMem hp)]
      exact h.value b (List.mem_cons_of_mem a hb) p hp
  made_eq := by rw [ht, h.made_eq]
  balance p := by
    rw [h.balance p, ht, List.map_cons, List.map_cons, heldAt_cons, heldAt_cons, hres p]

variable (laws) in
/-- The invariant is preserved by the methods of the segments. -/
def segmentLaws (args : ArgsType) (made : List S) :
    SegmentLaws S (Ledger S × σ) (R × F) args where
  Good := laws.Accounts made
  Cut pos := pos < 2 ^ 64
  Free _ := True
  setFlag newFlag v := (v.1, laws.ofIdent newFlag)
  perm hperm h := h.perm hperm
  nonempty h := h.nonempty
  apart h := h.apart
  cover h := h.cover
  split h hl hr hpos := by
    change wp (onSnd _) _ _ _
    rw [wp_onSnd]
    refine wp_mono (laws.split (h.owns _ List.mem_cons_self) hl hr hpos) (fun r t hrt ↦ ?_)
      fun _ _ he ↦ he
    exact h.split hl hr rfl ⟨hrt.1, hrt.2.1⟩ hrt.2.2
  remove {f a L s} h _ := by
    change wp (MonadState.modifyGet _ >>= fun _ ↦ onSnd _) _ _ _
    rw [wp_bind, wp_modifyGet, wp_onSnd]
    exact wp_mono laws.remove (fun _ t _ ↦ h.remove rfl rfl) fun _ _ he ↦ he
  modify h _ := by
    change wp (onSnd _) _ _ _
    rw [wp_onSnd]
    exact wp_mono laws.modify (fun _ t hrt ↦ h.modify rfl hrt.1 hrt.2) fun _ _ he ↦ he

/-- A new segment on erased ground takes over the specification there. -/
theorem Accounts.make {seg : S} (hlt : start < end_)
    (h : laws.Accounts made (PointMap.erase (Set.Ico start end_) f) L s)
    (hown : laws.Owns seg start end_) (hmade : t.1.made = s.1.made ++ [seg])
    (hremoved : t.1.removed = s.1.removed) (hfree : ∀ a ∈ L, RangeArea.Apart ⟨start, end_, seg⟩ a) :
    laws.Accounts (made ++ [seg]) (PointMap.overwrite (Set.Ico start end_) (laws.valueAt seg) f)
      (⟨start, end_, seg⟩ :: L) t where
  nonempty b hb := by
    rcases List.mem_cons.mp hb with rfl | hb
    · exact hlt
    · exact h.nonempty b hb
  apart := List.pairwise_cons.mpr ⟨hfree, h.apart⟩
  cover p hp := by
    by_cases hin : p ∈ Set.Ico start end_
    · exact ⟨_, List.mem_cons_self, hin⟩
    · rw [PointMap.overwrite_of_notMem hin, ← PointMap.erase_of_notMem (f := f) hin] at hp
      obtain ⟨b, hb, hpb⟩ := h.cover p hp
      exact ⟨b, List.mem_cons_of_mem _ hb, hpb⟩
  owns b hb := by
    rcases List.mem_cons.mp hb with rfl | hb
    · exact hown
    · exact h.owns b hb
  value b hb p hp := by
    rcases List.mem_cons.mp hb with rfl | hb
    · have hin : p ∈ Set.Ico start end_ := hp
      exact PointMap.overwrite_of_mem hin
    · have hin : p ∉ Set.Ico start end_ := (hfree b hb).symm.notMem hp
      rw [PointMap.overwrite_of_notMem hin, ← PointMap.erase_of_notMem (f := f) hin]
      exact h.value b hb p hp
  made_eq := by rw [hmade, h.made_eq]
  balance p := by
    rw [heldAt_append, h.balance p, hremoved, List.map_cons, heldAt_cons, heldAt_cons, heldAt_nil,
      add_zero, add_assoc, add_comm (laws.heldAt (L.map _) p)]

/-! ## Runs -/

/-- A point of a run: the map, the ledger, the state of the segments and the specification. -/
structure Config (S σ R F : Type) where
  map : RangeActionMap S
  ledger : Ledger S
  state : σ
  spec : ℕ → Option (R × F)

variable (laws) in
/-- One call on the range `[start, end_)`, and what it does to the specification. -/
inductive Step (start end_ : ℕ) : Config S σ R F → Config S σ R F → Prop
  | unmap {c : Config S σ R F} {m : RangeActionMap S} {l : Ledger S} {t : σ}
    (hrun : (c.map.unmap start end_).run (c.ledger, c.state) = .ok m (l, t)) :
    Step start end_ c ⟨m, l, t, PointMap.erase (Set.Ico start end_) c.spec⟩
  | mprotect {c : Config S σ R F} {newFlag : IdentType} {m : RangeActionMap S} {l : Ledger S}
    {t : σ} (hrun : (c.map.mprotect start end_ newFlag).run (c.ledger, c.state) = .ok m (l, t)) :
    Step start end_ c
      ⟨m, l, t, PointMap.update (Set.Ico start end_) (fun v ↦ (v.1, laws.ofIdent newFlag)) c.spec⟩
  | mmapFixed {c : Config S σ R F} {f : EStateM Panic σ S} {seg : S} {r : Option ℕ}
    {m : RangeActionMap S} {l : Ledger S} {t : σ}
    (hlow : LOWER_LIMIT ≤ start) (hup : end_ ≤ UPPER_LIMIT)
    (hf : ∀ s, wp f (fun seg _ ↦ laws.Owns seg start end_) anyPanic s)
    (hrun : (c.map.mmapFixed start end_ (Ledger.make f)).run (c.ledger, c.state) =
      .ok (r, m) (l, t))
    (hmade : l.made = c.ledger.made ++ [seg]) :
    Step start end_ c
      ⟨m, l, t, PointMap.overwrite (Set.Ico start end_) (laws.valueAt seg) c.spec⟩
  | mmapFixedOutside {c : Config S σ R F} {f : EStateM Panic σ S} {r : Option ℕ}
    {m : RangeActionMap S} {l : Ledger S} {t : σ}
    (hout : start < LOWER_LIMIT ∨ end_ > UPPER_LIMIT)
    (hrun : (c.map.mmapFixed start end_ (Ledger.make f)).run (c.ledger, c.state) =
      .ok (r, m) (l, t)) :
    Step start end_ c ⟨m, l, t, c.spec⟩

variable (laws) in
/-- The configurations reachable from an empty map by calls on non-empty ranges. -/
inductive Reach (args : ArgsType) : Config S σ R F → Prop
  | new (s : σ) : Reach args ⟨RangeActionMap.new args, ⟨[], []⟩, s, fun _ ↦ none⟩
  | step {c c' : Config S σ R F} {start end_ : ℕ} (hreach : Reach args c) (hlt : start < end_)
    (hend : end_ < 2 ^ 64) (hstep : laws.Step start end_ c c') : Reach args c'

variable (laws) in
/-- The map of a configuration stands for its specification. -/
def Config.Inv (args : ArgsType) (c : Config S σ R F) : Prop :=
  (laws.segmentLaws args c.ledger.made).Represents c.spec c.map (c.ledger, c.state)

variable {c c' : Config S σ R F}

theorem inv_new (s : σ) :
    Config.Inv laws args ⟨RangeActionMap.new args, ⟨[], []⟩, s, fun _ ↦ none⟩ where
  keyed x hx := absurd hx (OrdMap.notMem_empty x)
  good :=
    { nonempty := fun _ ha ↦ absurd ha List.not_mem_nil
      apart := List.Pairwise.nil
      cover := fun _ hp ↦ absurd hp (by simp)
      owns := fun _ ha ↦ absurd ha List.not_mem_nil
      value := fun _ ha ↦ absurd ha List.not_mem_nil
      made_eq := rfl
      balance := fun _ ↦ rfl }
  args_eq := rfl

/-- A range of machine words cuts every area at a machine word. -/
theorem cutsAllowed (hlt : start < end_) (hend : end_ < 2 ^ 64) (a : RangeArea S) :
    (laws.segmentLaws args made).CutsAllowed f start end_ a :=
  ⟨fun _ _ ↦ hlt.trans hend, fun _ _ ↦ hend, fun _ _ _ _ ↦ trivial⟩

theorem inv_unmap (h : c.Inv laws args) (hlt : start < end_) (hend : end_ < 2 ^ 64) :
    wp (c.map.unmap start end_) (fun m t ↦ t.1.made = c.ledger.made ∧
      Config.Inv laws args ⟨m, t.1, t.2, PointMap.erase (Set.Ico start end_) c.spec⟩)
      noPanic (c.ledger, c.state) := by
  refine wp_imp (SegmentLaws.wp_unmap _ h hlt fun a _ ↦ cutsAllowed hlt hend a) fun m t ht ↦ ?_
  have hmade : t.1.made = c.ledger.made := ht.good.made_eq
  refine ⟨hmade, ?_⟩
  rw [Config.Inv, hmade]
  exact ht

theorem inv_mprotect (h : c.Inv laws args) (hlt : start < end_) (hend : end_ < 2 ^ 64)
    (newFlag : IdentType) :
    wp (c.map.mprotect start end_ newFlag) (fun m t ↦ t.1.made = c.ledger.made ∧
      Config.Inv laws args ⟨m, t.1, t.2,
        PointMap.update (Set.Ico start end_) (fun v ↦ (v.1, laws.ofIdent newFlag)) c.spec⟩)
      noPanic (c.ledger, c.state) := by
  refine wp_imp (SegmentLaws.wp_mprotect _ h hlt fun a _ ↦ cutsAllowed hlt hend a) fun m t ht ↦ ?_
  have hmade : t.1.made = c.ledger.made := ht.good.made_eq
  refine ⟨hmade, ?_⟩
  rw [Config.Inv, hmade]
  exact ht

/-- After `unmap` the range is apart from every area. -/
theorem apart_of_erased {seg : S} (hlt : start < end_)
    (h : laws.Accounts made (PointMap.erase (Set.Ico start end_) f) L s) (ha : a ∈ L) :
    RangeArea.Apart ⟨start, end_, seg⟩ a := by
  by_contra hmeet
  rw [RangeArea.Apart] at hmeet
  have hne := h.nonempty a ha
  -- the larger of the two starts lies in both, but nothing is left in the range
  have hrange : max start a.start ∈ a.range := by
    rw [RangeArea.mem_range]
    dsimp only at hmeet
    omega
  have hin : max start a.start ∈ Set.Ico start end_ := by
    rw [Set.mem_Ico]
    dsimp only at hmeet
    omega
  have hval := h.value a ha _ hrange
  rw [PointMap.erase_of_mem hin] at hval
  have hown := (h.owns a ha _).mpr hrange
  rw [valueAt] at hval
  rw [Option.map_eq_none_iff.mp hval.symm] at hown
  exact absurd hown (by simp)

theorem inv_mmapFixed (h : c.Inv laws args) (hlt : start < end_) (hend : end_ < 2 ^ 64)
    (hlow : LOWER_LIMIT ≤ start) (hup : end_ ≤ UPPER_LIMIT) {f : EStateM Panic σ S}
    {E : Panic → Ledger S × σ → Prop}
    (hf : ∀ s, wp f (fun seg _ ↦ laws.Owns seg start end_) (fun e t ↦ ∀ l, E e (l, t)) s) :
    wp (c.map.mmapFixed start end_ (Ledger.make f)) (fun r t ↦ r.1 = some start ∧
      ∃ seg, laws.Owns seg start end_ ∧ t.1.made = c.ledger.made ++ [seg] ∧
        Config.Inv laws args ⟨r.2, t.1, t.2,
          PointMap.overwrite (Set.Ico start end_) (laws.valueAt seg) c.spec⟩)
      E (c.ledger, c.state) := by
  refine SegmentLaws.wp_mmapFixed _ h hlt hlow hup (fun a _ ↦ cutsAllowed hlt hend a)
    fun m t hm ↦ ?_
  rw [Ledger.make, wp_bind, wp_onSnd]
  refine wp_mono (hf t.2) (fun seg t' hown ↦ ?_) fun e t' he ↦ he t.1
  rw [wp_bind, wp_modify, wp_pure]
  have hmade : t.1.made = c.ledger.made := hm.good.made_eq
  refine ⟨rfl, seg, hown, by rw [hmade], ?_⟩
  rw [Config.Inv]
  refine SegmentLaws.represents_insertRaw _ hm.keyed hm.args_eq ?_
  have hnew := hm.good.make (t := ({ t.1 with made := t.1.made ++ [seg] }, t')) hlt hown rfl rfl
    fun a ha ↦ apart_of_erased hlt hm.good ha
  rwa [← hmade] at hnew

theorem mmapFixed_of_outside {m : RangeActionMap S} {f : EStateM Panic (Ledger S × σ) S}
    (hout : start < LOWER_LIMIT ∨ end_ > UPPER_LIMIT) :
    (m.mmapFixed start end_ f).run s = .ok (none, m) s := by
  rw [RangeActionMap.mmapFixed, if_pos hout]
  rfl

/-- One call keeps the invariant, and makes resources only in its range. -/
theorem inv_step (h : c.Inv laws args) (hlt : start < end_) (hend : end_ < 2 ^ 64)
    (hstep : laws.Step start end_ c c') :
    c'.Inv laws args ∧ ∀ p ∉ Set.Ico start end_, c'.spec p = c.spec p ∧
      laws.heldAt c'.ledger.made p = laws.heldAt c.ledger.made p := by
  cases hstep with
  | unmap hrun =>
    obtain ⟨hmade, hinv⟩ := wp_ok (inv_unmap h hlt hend) hrun
    exact ⟨hinv, fun p hp ↦ ⟨PointMap.erase_of_notMem hp, by rw [hmade]⟩⟩
  | mprotect hrun =>
    obtain ⟨hmade, hinv⟩ := wp_ok (inv_mprotect h hlt hend _) hrun
    exact ⟨hinv, fun p hp ↦ ⟨PointMap.update_of_notMem hp, by rw [hmade]⟩⟩
  | mmapFixed hlow hup hf hrun hmade =>
    have hwp := inv_mmapFixed (E := fun _ _ ↦ True) h hlt hend hlow hup
      fun s ↦ wp_mono (hf s) (fun _ _ hown ↦ hown) fun _ _ _ _ ↦ trivial
    obtain ⟨-, seg, hown, hmade', hinv⟩ := wp_ok hwp hrun
    rw [hmade, List.append_cancel_left_eq, List.cons.injEq] at hmade'
    rw [hmade'.1]
    refine ⟨hinv, fun p hp ↦ ⟨PointMap.overwrite_of_notMem hp, ?_⟩⟩
    have hnone : laws.res seg p = none := by
      rw [← Option.not_isSome_iff_eq_none, hown p]
      exact hp
    rw [hmade, hmade'.1, heldAt_append, heldAt_cons, hnone, heldAt_nil, Option.elim_none, add_zero,
      add_zero]
  | mmapFixedOutside hout hrun =>
    rw [mmapFixed_of_outside hout] at hrun
    cases hrun
    exact ⟨h, fun p _ ↦ ⟨rfl, rfl⟩⟩

theorem inv_of_reach (h : laws.Reach args c) : c.Inv laws args := by
  induction h with
  | new s => exact inv_new s
  | step _ hlt hend hstep ih => exact (inv_step ih hlt hend hstep).1

/-! ## What the areas hold -/

theorem heldAt_eq_zero {segs : List S} (h : ∀ seg ∈ segs, laws.res seg p = none) :
    laws.heldAt segs p = 0 := by
  induction segs with
  | nil => rfl
  | cons seg segs ih =>
    rw [heldAt_cons, h seg List.mem_cons_self, Option.elim_none, zero_add]
    exact ih fun seg' hseg ↦ h seg' (List.mem_cons_of_mem seg hseg)

theorem res_eq_none_of_notMem (h : laws.Accounts made f L s) (ha : a ∈ L) (hp : p ∉ a.range) :
    laws.res a.segment p = none := by
  rw [← Option.not_isSome_iff_eq_none, h.owns a ha p]
  exact hp

/-- The areas hold the resource of the specification, once. -/
theorem Accounts.heldAt_areas (h : laws.Accounts made f L s) :
    laws.heldAt (L.map RangeArea.segment) p = (f p).elim 0 (fun v ↦ {v.1}) := by
  cases hp : f p with
  | none =>
    refine heldAt_eq_zero fun seg hseg ↦ ?_
    obtain ⟨a, ha, rfl⟩ := List.mem_map.mp hseg
    by_contra hne
    have hval := h.value a ha p ((h.owns a ha p).mp (Option.isSome_iff_ne_none.mpr hne))
    rw [hp, valueAt] at hval
    exact hne (Option.map_eq_none_iff.mp hval.symm)
  | some v =>
    obtain ⟨a, ha, hpa⟩ := h.cover p (by rw [hp]; rfl)
    obtain ⟨L₁, L₂, rfl⟩ := List.append_of_mem ha
    have hperm : (L₁ ++ a :: L₂).Perm (a :: (L₁ ++ L₂)) := List.perm_middle
    have h' := h.perm hperm
    have hrest : laws.heldAt ((L₁ ++ L₂).map RangeArea.segment) p = 0 := by
      refine heldAt_eq_zero fun seg hseg ↦ ?_
      obtain ⟨b, hb, rfl⟩ := List.mem_map.mp hseg
      have hapart := (List.pairwise_cons.mp h'.apart).1 b hb
      exact res_eq_none_of_notMem h' (List.mem_cons_of_mem a hb) (hapart.notMem hpa)
    have hval := h'.value a List.mem_cons_self p hpa
    rw [hp, valueAt] at hval
    obtain ⟨r, hr, hv⟩ := Option.map_eq_some_iff.mp hval.symm
    rw [laws.heldAt_perm (hperm.map RangeArea.segment), List.map_cons, heldAt_cons, hrest, hr, ← hv]
    rfl

/-- `find` agrees with the specification. -/
theorem Config.Inv.find_eq (h : c.Inv laws args) :
    (c.map.find p).map (fun seg ↦ (laws.res seg p, laws.flag seg)) =
      (c.spec p).map fun v ↦ (some v.1, v.2) := by
  cases hfind : c.map.find p with
  | none =>
    cases hp : c.spec p with
    | none => rfl
    | some v =>
      obtain ⟨a, ha, hpa⟩ := h.good.cover p (by rw [hp]; rfl)
      have := (SegmentLaws.find_eq_some_iff _ h).mpr ⟨a, ha, hpa, rfl⟩
      rw [hfind] at this
      exact absurd this (by simp)
  | some seg =>
    obtain ⟨a, ha, hpa, rfl⟩ := (SegmentLaws.find_eq_some_iff _ h).mp hfind
    rw [h.good.value a ha p hpa, valueAt, Option.map_map]
    obtain ⟨r, hr⟩ := Option.isSome_iff_exists.mp ((h.good.owns a ha p).mpr hpa)
    rw [Option.map_some, hr]
    rfl

/-- **The range map refines a partial map.** In every reachable configuration the entries are keyed
by their starts, non-empty and apart; lookup agrees with the specification; and every resource made
for an address is either held by exactly one live segment, which the specification names, or has
been handed to `remove` once. The calls return, and outside its range a call changes nothing that
is held or released. -/
theorem refines_partialMap (laws : LawfulSegment S σ R F) (h : laws.Reach args c) :
    (SegmentLaws.KeyedByStart c.map.segments ∧ (∀ a ∈ c.map.areas, a.start < a.end_) ∧
      c.map.areas.Pairwise RangeArea.Apart) ∧
    (∀ p, (c.map.find p).map (fun seg ↦ (laws.res seg p, laws.flag seg)) =
      (c.spec p).map fun v ↦ (some v.1, v.2)) ∧
    (∀ p, laws.heldAt c.ledger.made p =
        laws.heldAt c.ledger.removed p + laws.heldAt c.map.iter p ∧
      laws.heldAt c.map.iter p = (c.spec p).elim 0 (fun v ↦ {v.1})) ∧
    ∀ start end_, start < end_ → end_ < 2 ^ 64 →
      (∃ m t, (c.map.unmap start end_).run (c.ledger, c.state) = .ok m t) ∧
      (∀ newFlag, ∃ m t,
        (c.map.mprotect start end_ newFlag).run (c.ledger, c.state) = .ok m t) ∧
      (∀ f : EStateM Panic σ S, (∀ s, wp f (fun seg _ ↦ laws.Owns seg start end_) noPanic s) →
        ∃ m t, (c.map.mmapFixed start end_ (Ledger.make f)).run (c.ledger, c.state) =
          .ok (if start < LOWER_LIMIT ∨ end_ > UPPER_LIMIT then none else some start, m) t) ∧
      ∀ c', laws.Step start end_ c c' → ∀ p ∉ Set.Ico start end_,
        laws.heldAt c'.ledger.removed p = laws.heldAt c.ledger.removed p ∧
          laws.heldAt c'.map.iter p = laws.heldAt c.map.iter p := by
  have hinv := inv_of_reach h
  have hbalance : ∀ {c : Config S σ R F}, c.Inv laws args → ∀ p,
      laws.heldAt c.ledger.made p =
        laws.heldAt c.ledger.removed p + laws.heldAt c.map.iter p ∧
      laws.heldAt c.map.iter p = (c.spec p).elim 0 (fun v ↦ {v.1}) :=
    fun hc p ↦ ⟨hc.good.balance p, hc.good.heldAt_areas⟩
  refine ⟨⟨hinv.keyed, hinv.good.nonempty, hinv.good.apart⟩, fun p ↦ hinv.find_eq,
    hbalance hinv, fun start end_ hlt hend ↦ ⟨?_, fun newFlag ↦ ?_, fun f hf ↦ ?_, ?_⟩⟩
  · obtain ⟨m, t, hrun, -⟩ := exists_of_wp (inv_unmap hinv hlt hend)
    exact ⟨m, t, hrun⟩
  · obtain ⟨m, t, hrun, -⟩ := exists_of_wp (inv_mprotect hinv hlt hend newFlag)
    exact ⟨m, t, hrun⟩
  · by_cases hout : start < LOWER_LIMIT ∨ end_ > UPPER_LIMIT
    · rw [if_pos hout]
      exact ⟨_, _, mmapFixed_of_outside hout⟩
    · rw [if_neg hout]
      rw [not_or, not_lt, not_lt] at hout
      obtain ⟨⟨r, m⟩, t, hrun, hr, -⟩ := exists_of_wp (inv_mmapFixed (E := noPanic) hinv hlt hend
        hout.1 hout.2 fun s ↦ wp_mono (hf s) (fun _ _ hown ↦ hown) fun _ _ he _ ↦ he)
      exact ⟨m, t, by rw [hrun, ← hr]⟩
  · intro c' hstep p hp
    obtain ⟨hinv', hframe⟩ := inv_step hinv hlt hend hstep
    have hheld : laws.heldAt c'.map.iter p = laws.heldAt c.map.iter p := by
      rw [(hbalance hinv' p).2, (hbalance hinv p).2, (hframe p hp).1]
    have hmade := (hframe p hp).2
    rw [(hbalance hinv' p).1, (hbalance hinv p).1, hheld] at hmade
    exact ⟨add_right_cancel hmade, hheld⟩

/-- A segment of three addresses whose middle changes its flag. -/
theorem refines_partialMap_seg : ∃ c, Test.Seg.lawful.Reach 0 c ∧
    c.map.areas.map (fun a ↦ (a.start, a.end_)) =
      [(0x1000, 0x1001), (0x1001, 0x1002), (0x1002, 0x1003)] ∧
    (c.spec 0x1001).map (fun v ↦ (some v.1, v.2)) = some (some 1, 7) := by
  have hnew : Test.Seg.lawful.Reach 0 _ := Reach.new Test.FrameAllocator.new
  have hmap := hnew.step (by norm_num : 0x1000 < 0x1003) (by norm_num)
    (Step.mmapFixed (f := Test.Seg.new 0x1000 0x1003 3) (by norm_num) (by norm_num)
      (fun s ↦ wp_mono (Test.Seg.wp_new (by norm_num) 3 s) (fun _ _ h ↦ h) fun _ _ h ↦ h.elim)
      rfl rfl)
  have hprot := hmap.step (by norm_num : 0x1001 < 0x1002) (by norm_num)
    (Step.mprotect (show (_ : RangeActionMap _).mprotect _ _ 7 _ = _ from rfl))
  exact ⟨_, hprot, rfl, ((refines_partialMap Test.Seg.lawful hprot).2.1 0x1001).symm.trans rfl⟩

end LawfulSegment

end Maturin
