import Mathlib.Data.List.Basic
import Mathlib.Logic.Function.Basic
import Mathlib.Tactic.Common

/-!
# Machines that answer calls

A machine takes a call in a state, and gives an answer and the next state. What can be observed of
it are its answers, so that two machines are the same to their callers if their traces are. One
simulates the other if related states answer alike and stay related.

Machines of one kind can be put side by side, each under a key. Whatever the order in which they are
called, each of them goes through the calls on its own key as if it were alone.
-/

variable {κ γ ρ ρ' σ σ' : Type*}

namespace Machine

variable (step : γ → σ → ρ × σ) (step' : γ → σ' → ρ' × σ')

/-- The calls with their answers. -/
def trace : List γ → σ → List (γ × ρ)
  | [], _ => []
  | c :: calls, s => (c, (step c s).1) :: trace calls (step c s).2

/-- The state after calls. -/
def after (calls : List γ) (s : σ) : σ := calls.foldl (fun s c ↦ (step c s).2) s

variable {step step'}

@[simp] theorem after_nil (s : σ) : after step [] s = s := rfl

@[simp] theorem after_cons (c : γ) (calls : List γ) (s : σ) :
    after step (c :: calls) s = after step calls (step c s).2 := rfl

/-- What every step keeps is kept by a run. -/
theorem after_induction {I : σ → Prop} (hstep : ∀ c s, I s → I (step c s).2) {s : σ} (h : I s)
    (calls : List γ) : I (after step calls s) := by
  induction calls generalizing s with
  | nil => exact h
  | cons c calls ih => exact ih (hstep c s h)

/-- The first machine simulates the second one, whose answers `f` translates. -/
theorem simulates {f : ρ' → ρ} {R : σ → σ' → Prop}
    (hstep : ∀ c s t, R s t → (step c s).1 = f (step' c t).1 ∧ R (step c s).2 (step' c t).2)
    {s : σ} {t : σ'} (h : R s t) (calls : List γ) :
    trace step calls s = (trace step' calls t).map (Prod.map id f) ∧
      R (after step calls s) (after step' calls t) := by
  induction calls generalizing s t with
  | nil => exact ⟨rfl, h⟩
  | cons c calls ih =>
    obtain ⟨hanswer, hR⟩ := hstep c s t h
    obtain ⟨htrace, hafter⟩ := ih hR
    refine ⟨?_, hafter⟩
    rw [trace, trace, List.map_cons, htrace, hanswer]
    rfl

/-- The first machine simulates the second one, with the same answers. -/
theorem simulates_id {step' : γ → σ' → ρ × σ'} {R : σ → σ' → Prop}
    (hstep : ∀ c s t, R s t → (step c s).1 = (step' c t).1 ∧ R (step c s).2 (step' c t).2)
    {s : σ} {t : σ'} (h : R s t) (calls : List γ) :
    trace step calls s = trace step' calls t ∧
      R (after step calls s) (after step' calls t) := by
  obtain ⟨htrace, hafter⟩ := simulates (f := id) hstep h calls
  rw [Prod.map_id, List.map_id] at htrace
  exact ⟨htrace, hafter⟩

/-! ## Machines side by side -/

variable [DecidableEq κ]

/-- A call on the machine with a key leaves the others alone. -/
def each (step : γ → σ → ρ × σ) (call : κ × γ) (s : κ → σ) : ρ × (κ → σ) :=
  ((step call.2 (s call.1)).1, Function.update s call.1 (step call.2 (s call.1)).2)

@[simp] theorem each_fst (k : κ) (c : γ) (s : κ → σ) :
    (each step (k, c) s).1 = (step c (s k)).1 := rfl

@[simp] theorem each_snd (k : κ) (c : γ) (s : κ → σ) :
    (each step (k, c) s).2 = Function.update s k (step c (s k)).2 := rfl

/-- The calls on a key. -/
def callsOn (k : κ) (calls : List (κ × γ)) : List γ :=
  calls.filterMap fun call ↦ if call.1 = k then some call.2 else none

/-- The calls on a key, with their answers. -/
def traceOn (k : κ) (events : List ((κ × γ) × ρ)) : List (γ × ρ) :=
  events.filterMap fun e ↦ if e.1.1 = k then some (e.1.2, e.2) else none

section

variable {k key : κ} {c : γ} {r : ρ} {calls : List (κ × γ)} {events : List ((κ × γ) × ρ)}

theorem callsOn_cons_self : callsOn k ((k, c) :: calls) = c :: callsOn k calls :=
  List.filterMap_cons_some (if_pos rfl)

theorem callsOn_cons_of_ne (h : key ≠ k) : callsOn k ((key, c) :: calls) = callsOn k calls :=
  List.filterMap_cons_none (if_neg h)

theorem traceOn_cons_self : traceOn k (((k, c), r) :: events) = (c, r) :: traceOn k events :=
  List.filterMap_cons_some (if_pos rfl)

theorem traceOn_cons_of_ne (h : key ≠ k) :
    traceOn k (((key, c), r) :: events) = traceOn k events :=
  List.filterMap_cons_none (if_neg h)

end

/-- **A machine among others is as if it were alone.** -/
theorem traceOn_each (step : γ → σ → ρ × σ) (k : κ) (calls : List (κ × γ)) (s : κ → σ) :
    traceOn k (trace (each step) calls s) = trace step (callsOn k calls) (s k) ∧
      after (each step) calls s k = after step (callsOn k calls) (s k) := by
  induction calls generalizing s with
  | nil => exact ⟨rfl, rfl⟩
  | cons call calls ih =>
    obtain ⟨key, c⟩ := call
    obtain ⟨htrace, hafter⟩ := ih (each step (key, c) s).2
    rw [trace, after_cons, hafter]
    by_cases hkey : key = k
    · subst hkey
      have hstate : (each step (key, c) s).2 key = (step c (s key)).2 := Function.update_self ..
      rw [traceOn_cons_self, callsOn_cons_self, htrace, hstate]
      exact ⟨rfl, rfl⟩
    · have hstate : (each step (key, c) s).2 k = s k := Function.update_of_ne (Ne.symm hkey) ..
      rw [traceOn_cons_of_ne hkey, callsOn_cons_of_ne hkey, htrace, hstate]
      exact ⟨rfl, rfl⟩

end Machine
