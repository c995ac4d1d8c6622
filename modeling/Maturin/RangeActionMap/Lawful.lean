import Maturin.Base.Addr
import Maturin.RangeActionMap.Segment

/-!
# Segments that own a resource for each address

`LawfulSegment` is what the range map expects of a segment type: a segment holds one resource for
each of its addresses, `split` divides them at the position, `modify` sets the flag and `remove`
leaves nothing. The segments with which the crate `range-action-map-test` tests the map, each a
vector of frame numbers from an allocator, are of this kind.
-/

open Exec

namespace Maturin

/-- A segment type whose segments own resources of type `R` and carry a flag of type `F`. -/
structure LawfulSegment (S σ R F : Type) [Segment S σ] where
  /-- The resource that the segment owns for an address. -/
  res : S → ℕ → Option R
  flag : S → F
  ofIdent : IdentType → F
  split : ∀ {seg a b pos args} {s : σ}, (∀ p, (res seg p).isSome ↔ a ≤ p ∧ p < b) →
    a < pos → pos < b → pos < 2 ^ 64 →
    wp (Segment.split seg pos args) (fun r _ ↦
      flag r.1 = flag seg ∧ flag r.2 = flag seg ∧
        ∀ p, res r.1 p = (if p < pos then res seg p else none) ∧
          res r.2 p = (if p < pos then none else res seg p)) noPanic s
  modify : ∀ {seg newFlag args} {s : σ},
    wp (Segment.modify seg newFlag args) (fun seg' _ ↦
      flag seg' = ofIdent newFlag ∧ ∀ p, res seg' p = res seg p) noPanic s
  remove : ∀ {seg args} {s : σ},
    wp (Segment.remove seg args) (fun seg' _ ↦ ∀ p, res seg' p = none) noPanic s

namespace LawfulSegment

variable {S σ R F : Type} [Segment S σ] (laws : LawfulSegment S σ R F)

/-- The segment owns a resource for exactly the addresses of `[start, end_)`. -/
def Owns (seg : S) (start end_ : ℕ) : Prop :=
  ∀ p, (laws.res seg p).isSome ↔ start ≤ p ∧ p < end_

/-- What an address is mapped to by the segment. -/
def valueAt (seg : S) (p : ℕ) : Option (R × F) :=
  (laws.res seg p).map fun r ↦ (r, laws.flag seg)

end LawfulSegment

/-! ## The segments of the test crate -/

namespace Test

/-- The frame allocator of the test crate: the next fresh frame and the stack of freed ones. -/
structure FrameAllocator where
  start : ℕ
  recycled : List ℕ

namespace FrameAllocator

def new : FrameAllocator := ⟨0, []⟩

/-- Take the frame freed last, else a fresh one. -/
def alloc (self : FrameAllocator) : ℕ × FrameAllocator :=
  match self.recycled with
  | frame :: recycled => (frame, { self with recycled })
  | [] => (self.start, { self with start := self.start + 1 })

def dealloc (self : FrameAllocator) (frame : ℕ) : FrameAllocator :=
  { self with recycled := frame :: self.recycled }

end FrameAllocator

/-- A segment of the test crate. -/
structure Seg where
  start : ℕ
  end_ : ℕ
  flags : ℕ
  frames : List ℕ

namespace Seg

/-- The loop of `Seg::new`: `n` more frames. -/
def allocFrames : ℕ → List ℕ → EStateM Panic FrameAllocator (List ℕ)
  | 0, frames => pure frames
  | n + 1, frames => do
    let frame ← modifyGet FrameAllocator.alloc
    allocFrames n (frames ++ [frame])

def new (start end_ flags : ℕ) : EStateM Panic FrameAllocator Seg := do
  let frames ← allocFrames (end_ - start) []
  pure { start, end_, flags, frames }

instance : Segment Seg FrameAllocator where
  remove self _ := do
    -- dropping a frame gives it back
    modify fun s ↦ self.frames.foldl FrameAllocator.dealloc s
    pure { self with frames := [] }
  split self pos _ :=
    let i := wsub pos self.start
    if i ≤ self.frames.length then
      pure ({ self with end_ := pos, frames := self.frames.take i },
        { start := pos, end_ := self.end_, flags := self.flags, frames := self.frames.drop i })
    else
      throw .indexOutOfBounds
  modify self newFlag _ := pure { self with flags := newFlag }

/-- The frame of an address. -/
def frameAt (self : Seg) (p : ℕ) : Option ℕ :=
  if self.start ≤ p then self.frames[p - self.start]? else none

theorem frameAt_isSome {self : Seg} {p : ℕ} :
    (self.frameAt p).isSome ↔ self.start ≤ p ∧ p < self.start + self.frames.length := by
  rw [frameAt]
  split_ifs with h
  · rw [isSome_getElem?]
    omega
  · simp [h]

/-- The segments of the test crate own a frame for each address. -/
def lawful : LawfulSegment Seg FrameAllocator ℕ ℕ where
  res := frameAt
  flag := flags
  ofIdent newFlag := newFlag
  split {seg a b pos args s} hown hl hr hpos := by
    have hown' : ∀ p, (seg.start ≤ p ∧ p < seg.start + seg.frames.length) ↔ a ≤ p ∧ p < b :=
      fun p ↦ frameAt_isSome.symm.trans (hown p)
    have hposIn := (hown' pos).mpr ⟨hl.le, hr⟩
    have hi : wsub pos seg.start = pos - seg.start := wsub_of_le hposIn.1 hpos
    change wp (if wsub pos seg.start ≤ seg.frames.length then _ else _) _ _ s
    rw [if_pos (by omega), wp_pure, hi]
    refine ⟨rfl, rfl, fun p ↦ ⟨?_, ?_⟩⟩
    · rw [frameAt, frameAt]
      dsimp only
      by_cases hp : p < pos
      · rw [if_pos hp]
        by_cases hs : seg.start ≤ p
        · rw [if_pos hs, if_pos hs, List.getElem?_take_of_lt (by omega)]
        · rw [if_neg hs, if_neg hs]
      · rw [if_neg hp, if_pos (by omega), List.getElem?_eq_none]
        rw [List.length_take]
        omega
    · rw [frameAt, frameAt]
      dsimp only
      by_cases hp : p < pos
      · rw [if_pos hp, if_neg (by omega)]
      · rw [if_neg hp, if_pos (by omega), if_pos (by omega), List.getElem?_drop]
        congr 1
        omega
  modify := ⟨rfl, fun _ ↦ rfl⟩
  remove {seg args s} := by
    change wp (modify _ >>= fun _ ↦ pure _) _ _ s
    rw [wp_bind, wp_modify, wp_pure]
    intro p
    simp [frameAt]

theorem wp_allocFrames (n : ℕ) (frames : List ℕ) (s : FrameAllocator) :
    wp (allocFrames n frames) (fun frames' _ ↦ frames'.length = frames.length + n) noPanic s := by
  induction n generalizing frames s with
  | zero => rfl
  | succ n ih =>
    rw [allocFrames, wp_bind, wp_modifyGet]
    refine wp_imp (ih _ _) fun frames' _ h ↦ ?_
    rw [h, List.length_append, List.length_singleton]
    omega

/-- `Seg::new` makes a segment that owns its whole interval. -/
theorem wp_new {start end_ : ℕ} (hlt : start < end_) (fl : ℕ) (s : FrameAllocator) :
    wp (new start end_ fl) (fun seg _ ↦ lawful.Owns seg start end_) noPanic s := by
  rw [new, wp_bind]
  refine wp_imp (wp_allocFrames _ _ s) fun frames _ h p ↦ ?_
  refine frameAt_isSome.trans ?_
  rw [h, List.length_nil]
  dsimp only
  omega

end Seg

end Test

end Maturin
