import Mathlib.Init
import Mathlib.Tactic.TypeStar

/-!
# Conditions on the steps of a run

A run is a list of events that a function takes one after the other. What is said of a run is said
of each of its events and of the state before it. An invariant connects two such conditions: where
it makes each step meet one if and only if it meets the other, a run meets one if and only if it
meets the other.
-/

variable {σ ε : Type*} {step : σ → ε → σ} {s : σ} {events : List ε}

/-- Every event of the run meets the condition, in the state before it. -/
def Throughout (step : σ → ε → σ) (C : σ → ε → Prop) (s : σ) : List ε → Prop
  | [] => True
  | e :: events => C s e ∧ Throughout step C (step s e) events

namespace Throughout

variable {C P Valid : σ → ε → Prop} {I : σ → Prop}

instance decidable [∀ s e, Decidable (C s e)] (s : σ) :
    (events : List ε) → Decidable (Throughout step C s events)
  | [] => .isTrue trivial
  | e :: events =>
    have := decidable (step s e) events
    inferInstanceAs (Decidable (_ ∧ _))

theorem of_forall (h : ∀ s e, C s e) (s : σ) (events : List ε) : Throughout step C s events := by
  induction events generalizing s with
  | nil => trivial
  | cons e events ih => exact ⟨h s e, ih (step s e)⟩

/-- Among valid events, one condition decides the other at each step, as long as it keeps the
invariant that this takes. -/
theorem iff (hvalid : Throughout step Valid s events) (hs : I s)
    (hstep : ∀ s e, I s → Valid s e → (P s e ↔ C s e))
    (hkeep : ∀ s e, I s → Valid s e → C s e → I (step s e)) :
    Throughout step P s events ↔ Throughout step C s events := by
  induction events generalizing s with
  | nil => exact Iff.rfl
  | cons e events ih =>
    obtain ⟨he, hvalid⟩ := hvalid
    have hrest : C s e → (Throughout step P (step s e) events ↔
        Throughout step C (step s e) events) :=
      fun hc ↦ ih hvalid (hkeep s e hs he hc)
    constructor
    · rintro ⟨hp, hps⟩
      have hc := (hstep s e hs he).mp hp
      exact ⟨hc, (hrest hc).mp hps⟩
    · rintro ⟨hc, hcs⟩
      exact ⟨(hstep s e hs he).mpr hc, (hrest hc).mpr hcs⟩

/-- Among valid events that meet a condition with which an invariant is kept, what the invariant
gives holds after each step. -/
theorem of_invariant {Q : σ → Prop} (hvalid : Throughout step Valid s events)
    (hcond : Throughout step C s events) (hs : I s)
    (hkeep : ∀ s e, I s → Valid s e → C s e → I (step s e)) (hgives : ∀ s, I s → Q s) :
    Throughout step (fun s e ↦ Q (step s e)) s events := by
  induction events generalizing s with
  | nil => trivial
  | cons e events ih =>
    have hnext := hkeep s e hs hvalid.1 hcond.1
    exact ⟨hgives _ hnext, ih hvalid.2 hcond.2 hnext⟩

/-- What every step keeps is kept in every state that the run reaches. -/
theorem keeps_iff {α : Type*} (f : σ → α) :
    Throughout step (fun s e ↦ f (step s e) = f s) s events ↔
      ∀ front, front <+: events → f (front.foldl step s) = f s := by
  induction events generalizing s with
  | nil =>
    refine iff_of_true trivial fun front hfront ↦ ?_
    rw [List.prefix_nil.mp hfront, List.foldl_nil]
  | cons e events ih =>
    constructor
    · rintro ⟨he, hrest⟩ front hfront
      cases front with
      | nil => rfl
      | cons e' front =>
        obtain ⟨rfl, htail⟩ := List.cons_prefix_cons.mp hfront
        rw [List.foldl_cons, ih.mp hrest front htail, he]
    · intro hall
      have he : f (step s e) = f s := hall [e] (List.prefix_append [e] events)
      refine ⟨he, ih.mpr fun front hfront ↦ ?_⟩
      rw [he]
      exact hall (e :: front) (List.cons_prefix_cons.mpr ⟨rfl, hfront⟩)

end Throughout
