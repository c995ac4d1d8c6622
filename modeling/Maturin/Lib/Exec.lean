import Mathlib.Data.List.Basic
import Mathlib.Tactic.Common

/-!
# Stateful programs that may panic

Rust code that reads and writes a state, and that may stop in a failing `unwrap`, an index out of
bounds or a failing `assert!`, is a program of `EStateM ε σ`: `ε` says which panic it was and the
state at the panic is kept. A function returning a `Result` is a program of `ExceptT Err` over it,
so that `?` is the bind of that monad and `unwrap` turns the error into a panic.

The predicate transformer `wp` is total: the program returns and its result satisfies `Q`, or it
panics and the panic satisfies `E`. Taking `E` to be `noPanic` says that the program does not
panic; taking it to be `anyPanic` gives partial correctness.

Proofs about programs use the equations of `wp` for the program's constructs, the monotonicity
`wp_mono` to weaken a callee's postcondition, and `wpe_forM` for loops.
-/

namespace Exec

variable {ε σ τ α β Err : Type}

/-- The program run from `s` returns with `Q` or panics with `E`. -/
def wp (x : EStateM ε σ α) (Q : α → σ → Prop) (E : ε → σ → Prop) (s : σ) : Prop :=
  match x.run s with
  | .ok a t => Q a t
  | .error e t => E e t

/-- The exceptional postcondition of a program that must not panic. -/
def noPanic : ε → σ → Prop := fun _ _ ↦ False

/-- The exceptional postcondition of partial correctness. -/
def anyPanic : ε → σ → Prop := fun _ _ ↦ True

section wp

variable {Q Q' : α → σ → Prop} {E E' : ε → σ → Prop} {s : σ}

theorem wp_of_ok {x : EStateM ε σ α} {a : α} {t : σ} (h : x.run s = .ok a t) (hQ : Q a t) :
    wp x Q E s := by
  rw [wp, h]
  exact hQ

/-- Programs with the same run have the same weakest preconditions. -/
theorem wp_iff_of_run {x y : EStateM ε σ α} {t : σ} (h : x.run s = y.run t) :
    wp x Q E s ↔ wp y Q E t := by
  rw [wp, wp, h]

/-- What a weakest precondition says of a run that is known to return. -/
theorem wp_ok {x : EStateM ε σ α} {a : α} {t : σ} (h : wp x Q E s) (hr : x.run s = .ok a t) :
    Q a t := by
  rwa [wp, hr] at h

/-- A program that must not panic returns. -/
theorem exists_of_wp {x : EStateM ε σ α} (h : wp x Q noPanic s) :
    ∃ a t, x.run s = .ok a t ∧ Q a t := by
  rw [wp] at h
  split at h
  case h_1 a t hr => exact ⟨a, t, hr, h⟩
  case h_2 => exact h.elim

/-- A run of a sequence is a run of its first program and then one of the second. -/
theorem exists_of_run_bind {x : EStateM ε σ β} {f : β → EStateM ε σ α} {a : α} {t : σ}
    (h : (x >>= f).run s = .ok a t) :
    ∃ b u, x.run s = .ok b u ∧ (f b).run u = .ok a t := by
  change EStateM.bind x f s = _ at h
  rw [EStateM.bind] at h
  split at h
  case h_1 b u hr => exact ⟨b, u, hr, h⟩
  case h_2 => exact absurd h (by simp)

/-- A sequence goes on where its first program returns. -/
theorem run_bind_of_ok {x : EStateM ε σ β} {f : β → EStateM ε σ α} {b : β} {u : σ}
    (h : x.run s = .ok b u) : (x >>= f).run s = (f b).run u := by
  change EStateM.bind x f s = _
  rw [EStateM.bind, show x s = _ from h]
  rfl

/-- A sequence stops where its first program panics. -/
theorem run_bind_of_error {x : EStateM ε σ β} {f : β → EStateM ε σ α} {e : ε} {u : σ}
    (h : x.run s = .error e u) : (x >>= f).run s = .error e u := by
  change EStateM.bind x f s = _
  rw [EStateM.bind, show x s = _ from h]

theorem run_get_bind {f : σ → EStateM ε σ α} :
    ((get : EStateM ε σ σ) >>= f).run s = (f s).run s := rfl

/-- There is one way to return. -/
theorem exists_ok_iff {P : α → σ → Prop} {a : α} :
    (∃ b u, (EStateM.Result.ok a s : EStateM.Result ε σ α) = .ok b u ∧ P b u) ↔ P a s := by
  constructor
  · rintro ⟨b, u, h, hP⟩
    cases h
    exact hP
  · exact fun hP ↦ ⟨a, s, rfl, hP⟩

/-- Does the run return with a result that passes the test? -/
def returns (x : EStateM ε σ α) (s : σ) (P : α → σ → Bool) : Bool :=
  match x.run s with
  | .ok a t => P a t
  | .error _ _ => false

/-- The panic that ends the run. -/
def panicOf (x : EStateM ε σ α) (s : σ) : Option ε :=
  match x.run s with
  | .ok _ _ => none
  | .error e _ => some e

theorem exists_of_returns {x : EStateM ε σ α} {P : α → σ → Bool} (h : returns x s P = true) :
    ∃ a t, x.run s = .ok a t ∧ P a t = true := by
  rw [returns] at h
  split at h
  case h_1 a t hr => exact ⟨a, t, hr, h⟩
  case h_2 => exact absurd h (by simp)

/-- Does the run panic, and do the panic and the state pass the test? -/
def panics (x : EStateM ε σ α) (s : σ) (P : ε → σ → Bool) : Bool :=
  match x.run s with
  | .ok _ _ => false
  | .error e t => P e t

theorem exists_of_panics {x : EStateM ε σ α} {P : ε → σ → Bool} (h : panics x s P = true) :
    ∃ e t, x.run s = .error e t ∧ P e t = true := by
  rw [panics] at h
  split at h
  case h_1 => exact absurd h (by simp)
  case h_2 e t hr => exact ⟨e, t, hr, h⟩

/-- A run that is known to panic does so with a panic that may happen. -/
theorem exists_of_panicOf {x : EStateM ε σ α} {e : ε} (h : panicOf x s = some e)
    (hwp : wp x Q E s) : ∃ t, E e t := by
  rw [panicOf] at h
  rw [wp] at hwp
  split at h
  case h_1 => exact absurd h (by simp)
  case h_2 e' t hr =>
    rw [hr] at hwp
    exact ⟨t, Option.some.inj h ▸ hwp⟩

theorem wp_mono {x : EStateM ε σ α} (h : wp x Q E s) (hQ : ∀ a t, Q a t → Q' a t)
    (hE : ∀ e t, E e t → E' e t) : wp x Q' E' s := by
  rw [wp] at h ⊢
  split at h
  · exact hQ _ _ h
  · exact hE _ _ h

theorem wp_imp {x : EStateM ε σ α} (h : wp x Q E s) (hQ : ∀ a t, Q a t → Q' a t) :
    wp x Q' E s :=
  wp_mono h hQ fun _ _ he ↦ he

/-- Partial correctness of saying nothing. -/
theorem wp_true (x : EStateM ε σ α) : wp x (fun _ _ ↦ True) anyPanic s := by
  rw [wp]
  split <;> trivial

/-- Two facts about one run hold of it together. -/
theorem wp_and {x : EStateM ε σ α} (h : wp x Q E s) (h' : wp x Q' E' s) :
    wp x (fun a t ↦ Q a t ∧ Q' a t) (fun e t ↦ E e t ∧ E' e t) s := by
  rw [wp] at h h' ⊢
  cases hr : x.run s with
  | ok a t => rw [hr] at h h'; exact ⟨h, h'⟩
  | error e t => rw [hr] at h h'; exact ⟨h, h'⟩

@[simp] theorem wp_pure (a : α) : wp (pure a : EStateM ε σ α) Q E s ↔ Q a s := Iff.rfl

@[simp] theorem wp_bind (x : EStateM ε σ β) (f : β → EStateM ε σ α) :
    wp (x >>= f) Q E s ↔ wp x (fun b t ↦ wp (f b) Q E t) E s := by
  change (match (EStateM.bind x f) s with | .ok a t => Q a t | .error e t => E e t) ↔ _
  rw [EStateM.bind, wp, EStateM.run]
  cases x s <;> rfl

/-- What holds after the second program whatever the first one did. -/
theorem wp_bind_of_forall {x : EStateM ε σ β} {f : β → EStateM ε σ α}
    (h : ∀ b t, wp (f b) Q anyPanic t) : wp (x >>= f) Q anyPanic s := by
  rw [wp_bind]
  exact wp_imp (wp_true x) fun b t _ ↦ h b t

/-- What comes after matters only for the results that there can be. -/
theorem run_bind_congr {x : EStateM ε σ β} {f g : β → EStateM ε σ α} {Q : β → σ → Prop}
    (hx : wp x Q anyPanic s) (h : ∀ b t, Q b t → (f b).run t = (g b).run t) :
    (x >>= f).run s = (x >>= g).run s := by
  rw [wp] at hx
  change EStateM.bind x f s = EStateM.bind x g s
  rw [EStateM.bind, EStateM.bind]
  cases hr : x s with
  | ok b t =>
    rw [show x.run s = .ok b t from hr] at hx
    exact h b t hx
  | error e t => rfl

@[simp] theorem wp_map (x : EStateM ε σ β) (f : β → α) :
    wp (f <$> x) Q E s ↔ wp x (fun b t ↦ Q (f b) t) E s := by
  change (match (EStateM.map f x) s with | .ok a t => Q a t | .error e t => E e t) ↔ _
  rw [EStateM.map, wp, EStateM.run]
  cases x s <;> rfl

@[simp] theorem wp_throw (e : ε) : wp (throw e : EStateM ε σ α) Q E s ↔ E e s := Iff.rfl

@[simp] theorem wp_get {Q : σ → σ → Prop} : wp (get : EStateM ε σ σ) Q E s ↔ Q s s := Iff.rfl

@[simp] theorem wp_set {Q : PUnit → σ → Prop} (t : σ) :
    wp (set t : EStateM ε σ PUnit) Q E s ↔ Q ⟨⟩ t := Iff.rfl

@[simp] theorem wp_modify {Q : PUnit → σ → Prop} (f : σ → σ) :
    wp (modify f : EStateM ε σ PUnit) Q E s ↔ Q ⟨⟩ (f s) := Iff.rfl

@[simp] theorem wp_modifyGet (f : σ → α × σ) :
    wp (modifyGet f : EStateM ε σ α) Q E s ↔ Q (f s).1 (f s).2 := Iff.rfl

end wp

/-! ## Programs returning a `Result` -/

section wpe

variable {Q Q' : Except Err α → σ → Prop} {E E' : ε → σ → Prop} {s : σ}

/-- `wp` for a program returning a `Result`: the postcondition sees `ok` or `error`. -/
def wpe (x : ExceptT Err (EStateM ε σ) α) (Q : Except Err α → σ → Prop) (E : ε → σ → Prop)
    (s : σ) : Prop :=
  wp x.run Q E s

@[simp] theorem wp_run (x : ExceptT Err (EStateM ε σ) α) :
    wp x.run Q E s ↔ wpe x Q E s := Iff.rfl

theorem wpe_mono {x : ExceptT Err (EStateM ε σ) α} (h : wpe x Q E s)
    (hQ : ∀ r t, Q r t → Q' r t) (hE : ∀ e t, E e t → E' e t) : wpe x Q' E' s :=
  wp_mono h hQ hE

theorem wpe_imp {x : ExceptT Err (EStateM ε σ) α} (h : wpe x Q E s)
    (hQ : ∀ r t, Q r t → Q' r t) : wpe x Q' E s :=
  wp_imp h hQ

@[simp] theorem wpe_pure (a : α) :
    wpe (pure a : ExceptT Err (EStateM ε σ) α) Q E s ↔ Q (.ok a) s := Iff.rfl

@[simp] theorem wpe_throw (e : Err) :
    wpe (throw e : ExceptT Err (EStateM ε σ) α) Q E s ↔ Q (.error e) s := Iff.rfl

/-- `?`: an error of the first program is the result of the whole. -/
@[simp] theorem wpe_bind (x : ExceptT Err (EStateM ε σ) β)
    (f : β → ExceptT Err (EStateM ε σ) α) :
    wpe (x >>= f) Q E s ↔
      wpe x (fun r t ↦ match r with
        | .ok b => wpe (f b) Q E t
        | .error e => Q (.error e) t) E s := by
  change wp (x.run >>= fun r ↦ ExceptT.bindCont f r) Q E s ↔ _
  rw [wp_bind, wpe]
  have hcont : ∀ r t, wp (ExceptT.bindCont f r : EStateM ε σ (Except Err α)) Q E t ↔
      (match r with | .ok b => wpe (f b) Q E t | .error e => Q (.error e) t) := by
    intro r t
    cases r <;> rfl
  constructor
  · exact fun h ↦ wp_imp h fun r t ↦ (hcont r t).mp
  · exact fun h ↦ wp_imp h fun r t ↦ (hcont r t).mpr

@[simp] theorem wpe_lift (x : EStateM ε σ α) :
    wpe (ExceptT.lift x : ExceptT Err (EStateM ε σ) α) Q E s ↔
      wp x (fun a t ↦ Q (.ok a) t) E s := by
  change wp (Except.ok <$> x) Q E s ↔ _
  rw [wp_map]

@[simp] theorem wpe_get {Q : Except Err σ → σ → Prop} :
    wpe (get : ExceptT Err (EStateM ε σ) σ) Q E s ↔ Q (.ok s) s := Iff.rfl

@[simp] theorem wpe_set {Q : Except Err PUnit → σ → Prop} (t : σ) :
    wpe (set t : ExceptT Err (EStateM ε σ) PUnit) Q E s ↔ Q (.ok ⟨⟩) t := Iff.rfl

@[simp] theorem wpe_modify {Q : Except Err PUnit → σ → Prop} (f : σ → σ) :
    wpe (modify f : ExceptT Err (EStateM ε σ) PUnit) Q E s ↔ Q (.ok ⟨⟩) (f s) := Iff.rfl

@[simp] theorem wpe_mk (x : EStateM ε σ (Except Err α)) :
    wpe (ExceptT.mk x) Q E s ↔ wp x Q E s := Iff.rfl

end wpe

/-! ## Loops

The invariant of a loop over a list is indexed by the number of elements already treated. -/

theorem wpe_forM {l : List β} {f : β → ExceptT Err (EStateM ε σ) PUnit}
    {Q : Except Err PUnit → σ → Prop} {E : ε → σ → Prop} (I : ℕ → σ → Prop)
    (hstep : ∀ i (h : i < l.length) s, I i s → wpe (f l[i]) (fun r t ↦ match r with
      | .ok _ => I (i + 1) t
      | .error e => Q (.error e) t) E s)
    (hdone : ∀ t, I l.length t → Q (.ok ⟨⟩) t) {s : σ} (h0 : I 0 s) :
    wpe (l.forM f) Q E s := by
  induction l generalizing I s with
  | nil => exact hdone s h0
  | cons b l ih =>
    change wpe (f b >>= fun _ ↦ l.forM f) Q E s
    rw [wpe_bind]
    refine wpe_imp (hstep 0 (by simp) s h0) fun r t hr ↦ ?_
    cases r with
    | error e => exact hr
    | ok u =>
      refine ih (fun i ↦ I (i + 1)) (fun i h s hi ↦ ?_) (fun t ht ↦ hdone t ht) hr
      exact hstep (i + 1) (by simpa using h) s hi

/-- A loop without an early exit keeps what every round keeps. -/
theorem wp_forM {l : List β} {f : β → EStateM ε σ PUnit} {E : ε → σ → Prop} (I : σ → Prop)
    (hstep : ∀ b s, I s → wp (f b) (fun _ t ↦ I t) E s) {s : σ} (h : I s) :
    wp (l.forM f) (fun _ t ↦ I t) E s := by
  induction l generalizing s with
  | nil => exact h
  | cons b l ih =>
    change wp (f b >>= fun _ ↦ l.forM f) _ E s
    rw [wp_bind]
    exact wp_imp (hstep b s h) fun _ t ht ↦ ih ht

/-- In a loop that does not panic no round does. -/
theorem exists_of_wp_forM {l : List β} {f : β → EStateM ε σ PUnit} {Q : PUnit → σ → Prop}
    (I : σ → Prop) (hstep : ∀ b s, I s → wp (f b) (fun _ t ↦ I t) anyPanic s) {s : σ} (h : I s)
    (hwp : wp (l.forM f) Q noPanic s) :
    ∀ b ∈ l, ∃ t, I t ∧ wp (f b) (fun _ _ ↦ True) noPanic t := by
  induction l generalizing s with
  | nil => exact fun b hb ↦ absurd hb List.not_mem_nil
  | cons c l ih =>
    change wp (f c >>= fun _ ↦ l.forM f) Q noPanic s at hwp
    rw [wp_bind] at hwp
    obtain ⟨a, t, hr, ht⟩ := exists_of_wp hwp
    intro b hb
    rcases List.mem_cons.mp hb with rfl | hb
    · exact ⟨s, h, wp_imp hwp fun _ _ _ ↦ trivial⟩
    · exact ih (wp_ok (hstep c s h) hr) ht b hb

/-! ## Working on one component of the state -/

/-- Run a program on the second component of the state. -/
def onSnd (x : EStateM ε σ α) : EStateM ε (τ × σ) α := fun s ↦
  match x.run s.2 with
  | .ok a t => .ok a (s.1, t)
  | .error e t => .error e (s.1, t)

@[simp] theorem wp_onSnd (x : EStateM ε σ α) {Q : α → τ × σ → Prop} {E : ε → τ × σ → Prop}
    {s : τ × σ} :
    wp (onSnd x) Q E s ↔ wp x (fun a t ↦ Q a (s.1, t)) (fun e t ↦ E e (s.1, t)) s.2 := by
  rw [wp, wp, EStateM.run, onSnd]
  cases x.run s.2 <;> rfl

theorem run_onSnd_of_ok {x : EStateM ε σ α} {a : α} {s t : σ} (h : x.run s = .ok a t) (c : τ) :
    (onSnd x).run (c, s) = .ok a (c, t) := by
  change onSnd x (c, s) = _
  rw [onSnd, h]

/-- `onSnd` for a program returning a `Result`. -/
def onSndR (x : ExceptT Err (EStateM ε σ) α) : ExceptT Err (EStateM ε (τ × σ)) α :=
  ExceptT.mk (onSnd x.run)

@[simp] theorem wpe_onSndR (x : ExceptT Err (EStateM ε σ) α) {Q : Except Err α → τ × σ → Prop}
    {E : ε → τ × σ → Prop} {s : τ × σ} :
    wpe (onSndR x) Q E s ↔ wpe x (fun r t ↦ Q r (s.1, t)) (fun e t ↦ E e (s.1, t)) s.2 :=
  wp_onSnd x.run

/-- Run a program with `c` as the first component of its state, and return the new component. -/
def withFst (c : τ) (x : EStateM ε (τ × σ) α) : EStateM ε σ (α × τ) := fun s ↦
  match x.run (c, s) with
  | .ok a t => .ok (a, t.1) t.2
  | .error e t => .error e t.2

@[simp] theorem wp_withFst (c : τ) (x : EStateM ε (τ × σ) α) {Q : α × τ → σ → Prop}
    {E : ε → σ → Prop} {s : σ} :
    wp (withFst c x) Q E s ↔ wp x (fun a t ↦ Q (a, t.1) t.2) (fun e t ↦ E e t.2) (c, s) := by
  rw [wp, wp, EStateM.run, withFst]
  cases x.run (c, s) <;> rfl

/-! ## Ghost state

A program on `τ × σ` erases to one on `σ` when the first component does not influence it. -/

/-- Forgetting the first component of the state turns every run of `x` into a run of `y`. -/
def Erases (x : EStateM ε (τ × σ) α) (y : EStateM ε σ α) : Prop :=
  ∀ s, match x.run s with
    | .ok a t => y.run s.2 = .ok a t.2
    | .error e t => y.run s.2 = .error e t.2

theorem erases_pure (a : α) : Erases (pure a : EStateM ε (τ × σ) α) (pure a) := fun _ ↦ rfl

theorem erases_throw (e : ε) : Erases (throw e : EStateM ε (τ × σ) α) (throw e) := fun _ ↦ rfl

theorem erases_onSnd (x : EStateM ε σ α) : Erases (onSnd x : EStateM ε (τ × σ) α) x := by
  intro s
  rw [EStateM.run, onSnd]
  cases hx : x.run s.2 <;> rfl

theorem Erases.bind {x : EStateM ε (τ × σ) β} {y : EStateM ε σ β}
    {f : β → EStateM ε (τ × σ) α} {g : β → EStateM ε σ α} (h : Erases x y)
    (hf : ∀ b, Erases (f b) (g b)) : Erases (x >>= f) (y >>= g) := by
  intro s
  have hs := h s
  change match EStateM.bind x f s with
    | .ok a t => EStateM.bind y g s.2 = .ok a t.2
    | .error e t => EStateM.bind y g s.2 = .error e t.2
  rw [EStateM.bind, EStateM.bind]
  cases hx : x s with
  | ok b t =>
    rw [EStateM.run, hx] at hs
    have hy : y s.2 = .ok b t.2 := hs
    rw [hy]
    exact hf b t
  | error e t =>
    rw [EStateM.run, hx] at hs
    have hy : y s.2 = .error e t.2 := hs
    rw [hy]

/-- A step on the ghost component alone is erased. -/
theorem Erases.modify_bind {x : EStateM ε (τ × σ) α} {y : EStateM ε σ α}
    {g : τ × σ → τ × σ} (hg : ∀ s, (g s).2 = s.2) (h : Erases x y) :
    Erases (modify g >>= fun _ ↦ x) y := by
  intro s
  have hs := h (g s)
  rw [hg] at hs
  exact hs

theorem Erases.foldlM {l : List β} {f : α → β → EStateM ε (τ × σ) α} {g : α → β → EStateM ε σ α}
    (h : ∀ a b, Erases (f a b) (g a b)) (a : α) : Erases (l.foldlM f a) (l.foldlM g a) := by
  induction l generalizing a with
  | nil => exact erases_pure a
  | cons b l ih =>
    rw [List.foldlM_cons, List.foldlM_cons]
    exact (h a b).bind ih

/-! ## Unwrapping -/

/-- `unwrap` of a `Result`: an error is the panic `onErr e`. -/
def unwrap (onErr : Err → ε) (x : ExceptT Err (EStateM ε σ) α) : EStateM ε σ α := do
  match ← x.run with
  | .ok a => pure a
  | .error e => throw (onErr e)

@[simp] theorem wp_unwrap {onErr : Err → ε} (x : ExceptT Err (EStateM ε σ) α)
    {Q : α → σ → Prop} {E : ε → σ → Prop} {s : σ} :
    wp (unwrap onErr x) Q E s ↔
      wpe x (fun r t ↦ match r with | .ok a => Q a t | .error e => E (onErr e) t) E s := by
  rw [unwrap, wp_bind]
  constructor
  all_goals
    refine fun h ↦ wp_imp h fun r t hr ↦ ?_
    cases r <;> exact hr

/-! ## What every run keeps -/

/-- A run that starts with `I` ends with it, also in a panic. -/
def Maintains (I : σ → Prop) (x : EStateM ε σ α) : Prop :=
  ∀ s, I s → wp x (fun _ t ↦ I t) (fun _ t ↦ I t) s

namespace Maintains

variable {I : σ → Prop}

theorem pure (a : α) : Maintains I (Pure.pure a : EStateM ε σ α) := fun _ h ↦ h

theorem throw (e : ε) : Maintains I (MonadExcept.throw e : EStateM ε σ α) := fun _ h ↦ h

theorem get : Maintains I (MonadState.get : EStateM ε σ σ) := fun _ h ↦ h

theorem modify {f : σ → σ} (hf : ∀ s, I s → I (f s)) :
    Maintains I (modifyThe σ f : EStateM ε σ PUnit) := hf

theorem bind {x : EStateM ε σ β} {f : β → EStateM ε σ α} (hx : Maintains I x)
    (hf : ∀ b, Maintains I (f b)) : Maintains I (x >>= f) := by
  intro s hs
  rw [wp_bind]
  exact wp_imp (hx s hs) fun b t ht ↦ hf b t ht

theorem map {x : EStateM ε σ β} (f : β → α) (hx : Maintains I x) : Maintains I (f <$> x) := by
  intro s hs
  rw [wp_map]
  exact hx s hs

theorem onSnd {I : τ × σ → Prop} {x : EStateM ε σ α} (hx : ∀ t, Maintains (fun s ↦ I (t, s)) x) :
    Maintains I (Exec.onSnd x) := by
  intro s hs
  rw [wp_onSnd]
  exact hx s.1 s.2 hs

theorem withFst {c : τ} {x : EStateM ε (τ × σ) α} (hx : Maintains (fun s ↦ I s.2) x) :
    Maintains I (Exec.withFst c x) := by
  intro s hs
  rw [wp_withFst]
  exact hx (c, s) hs

theorem unwrap {onErr : Err → ε} {x : ExceptT Err (EStateM ε σ) α} (hx : Maintains I x.run) :
    Maintains I (Exec.unwrap onErr x) := by
  rw [Exec.unwrap]
  refine hx.bind fun r ↦ ?_
  cases r with
  | ok a => exact pure a
  | error e => exact throw (onErr e)

/-- The bind of a program returning a `Result`. -/
theorem run_bind {x : ExceptT Err (EStateM ε σ) β} {f : β → ExceptT Err (EStateM ε σ) α}
    (hx : Maintains I x.run) (hf : ∀ b, Maintains I (f b).run) : Maintains I (x >>= f).run := by
  refine hx.bind fun r ↦ ?_
  cases r with
  | ok b => exact hf b
  | error e => exact pure (Except.error e)

theorem run_lift {x : EStateM ε σ α} (hx : Maintains I x) :
    Maintains I (ExceptT.lift x : ExceptT Err (EStateM ε σ) α).run := hx.map _

theorem run_forM {l : List β} {f : β → ExceptT Err (EStateM ε σ) PUnit}
    (hf : ∀ b, Maintains I (f b).run) : Maintains I (l.forM f).run := by
  induction l with
  | nil => exact pure _
  | cons b l ih => exact run_bind (hf b) fun _ ↦ ih

theorem foldlM {l : List β} {f : α → β → EStateM ε σ α} (hf : ∀ a b, Maintains I (f a b)) (a : α) :
    Maintains I (l.foldlM f a) := by
  induction l generalizing a with
  | nil => exact pure a
  | cons b l ih =>
    rw [List.foldlM_cons]
    exact (hf a b).bind ih

/-- A run that is known to return keeps `I`. -/
theorem of_ok {x : EStateM ε σ α} (hx : Maintains I x) {s t : σ} {a : α} (hs : I s)
    (hr : x.run s = .ok a t) : I t :=
  wp_ok (hx s hs) hr

end Maintains

end Exec
