import Mathlib.Data.List.Nodup
import Mathlib.Order.Lattice
import Mathlib.Tactic.Common

/-!
# Ordered finite maps

A finite map with ordered keys is kept as the list of its entries in key order, which is the order
in which a search tree would visit them. The order is a field, so a list with a key twice or out of
order is not a map. The operations are those of a search tree with iteration: `insert`, which
replaces the value of a key that is present, `drainFilter`, which takes the entries satisfying a
test out of the map, and `findLE`, the entry with the largest key not above a bound.

Each operation has a membership lemma, and nothing else about the lists is used outside this file.
-/

universe u v

/-- A finite map with ordered keys, as the list of its entries in key order. -/
structure OrdMap (κ : Type u) (α : Type v) [LinearOrder κ] where
  /-- The entries in key order. -/
  entries : List (κ × α)
  /-- The keys increase strictly. -/
  sorted : entries.Pairwise fun x y ↦ x.1 < y.1

namespace OrdMap

variable {κ : Type u} {α : Type v} [LinearOrder κ]

instance : Membership (κ × α) (OrdMap κ α) := ⟨fun m x ↦ x ∈ m.entries⟩

theorem mem_def {m : OrdMap κ α} {x : κ × α} : x ∈ m ↔ x ∈ m.entries := Iff.rfl

/-- A key has at most one value. -/
theorem eq_of_mem {m : OrdMap κ α} {x y : κ × α} (hx : x ∈ m) (hy : y ∈ m) (hk : x.1 = y.1) :
    x = y := by
  have hnodup : (m.entries.map Prod.fst).Nodup :=
    List.pairwise_map.mpr (m.sorted.imp fun h ↦ h.ne)
  exact List.inj_on_of_nodup_map hnodup hx hy hk

/-- The map without entries. -/
def empty : OrdMap κ α where
  entries := []
  sorted := List.Pairwise.nil

@[simp] theorem notMem_empty (x : κ × α) : x ∉ (empty : OrdMap κ α) := List.not_mem_nil

/-! ## Insertion -/

/-- Insertion into a list of entries in key order. -/
def insertEntry (k : κ) (a : α) : List (κ × α) → List (κ × α)
  | [] => [(k, a)]
  | x :: l => if k < x.1 then (k, a) :: x :: l
      else if k = x.1 then (k, a) :: l else x :: insertEntry k a l

theorem mem_insertEntry {k : κ} {a : α} {l : List (κ × α)}
    (hl : l.Pairwise fun x y ↦ x.1 < y.1) {x : κ × α} :
    x ∈ insertEntry k a l ↔ x = (k, a) ∨ x ∈ l ∧ x.1 ≠ k := by
  induction l with
  | nil => simp [insertEntry]
  | cons y l ih =>
    obtain ⟨hy, hl'⟩ := List.pairwise_cons.mp hl
    rw [insertEntry]
    split
    case isTrue hlt =>
      rw [List.mem_cons]
      refine or_congr_right ⟨fun h ↦ ⟨h, ?_⟩, And.left⟩
      rcases List.mem_cons.mp h with rfl | h
      · exact hlt.ne'
      · exact (hlt.trans (hy x h)).ne'
    case isFalse hlt =>
      split
      case isTrue heq =>
        subst heq
        rw [List.mem_cons, List.mem_cons]
        refine or_congr_right ⟨fun h ↦ ⟨Or.inr h, (hy x h).ne'⟩, ?_⟩
        rintro ⟨rfl | h, hne⟩
        · exact absurd rfl hne
        · exact h
      case isFalse hne =>
        rw [List.mem_cons, ih hl', List.mem_cons]
        constructor
        · rintro (rfl | rfl | ⟨h, hx⟩)
          · exact Or.inr ⟨Or.inl rfl, fun h ↦ hne h.symm⟩
          · exact Or.inl rfl
          · exact Or.inr ⟨Or.inr h, hx⟩
        · rintro (rfl | ⟨rfl | h, hx⟩)
          · exact Or.inr (Or.inl rfl)
          · exact Or.inl rfl
          · exact Or.inr (Or.inr ⟨h, hx⟩)

theorem pairwise_insertEntry {k : κ} {a : α} {l : List (κ × α)}
    (hl : l.Pairwise fun x y ↦ x.1 < y.1) :
    (insertEntry k a l).Pairwise fun x y ↦ x.1 < y.1 := by
  induction l with
  | nil => simp [insertEntry]
  | cons y l ih =>
    obtain ⟨hy, hl'⟩ := List.pairwise_cons.mp hl
    rw [insertEntry]
    split
    case isTrue hlt =>
      refine List.pairwise_cons.mpr ⟨fun x hx ↦ ?_, hl⟩
      rcases List.mem_cons.mp hx with rfl | hx
      · exact hlt
      · exact hlt.trans (hy x hx)
    case isFalse hlt =>
      split
      case isTrue heq =>
        subst heq
        exact List.pairwise_cons.mpr ⟨hy, hl'⟩
      case isFalse hne =>
        refine List.pairwise_cons.mpr ⟨fun x hx ↦ ?_, ih hl'⟩
        rcases (mem_insertEntry hl').mp hx with rfl | ⟨hx, -⟩
        · exact lt_of_le_of_ne (not_lt.mp hlt) fun h ↦ hne h.symm
        · exact hy x hx

/-- Insertion; the value of a key that is present is replaced. -/
def insert (m : OrdMap κ α) (k : κ) (a : α) : OrdMap κ α where
  entries := insertEntry k a m.entries
  sorted := pairwise_insertEntry m.sorted

@[simp] theorem mem_insert {m : OrdMap κ α} {k : κ} {a : α} {x : κ × α} :
    x ∈ m.insert k a ↔ x = (k, a) ∨ x ∈ m ∧ x.1 ≠ k :=
  mem_insertEntry m.sorted

/-! ## Taking entries out -/

/-- The entries satisfying a test, in key order, and the map without them. -/
def drainFilter (m : OrdMap κ α) (p : κ × α → Bool) : List (κ × α) × OrdMap κ α :=
  (m.entries.filter p, ⟨m.entries.filter fun x ↦ !p x, m.sorted.filter _⟩)

@[simp] theorem mem_drainFilter_fst {m : OrdMap κ α} {p : κ × α → Bool} {x : κ × α} :
    x ∈ (m.drainFilter p).1 ↔ x ∈ m ∧ p x = true :=
  List.mem_filter

@[simp] theorem mem_drainFilter_snd {m : OrdMap κ α} {p : κ × α → Bool} {x : κ × α} :
    x ∈ (m.drainFilter p).2 ↔ x ∈ m ∧ p x = false := by
  rw [drainFilter, mem_def, List.mem_filter, Bool.not_eq_true']
  rfl

/-- Draining splits the entries of a map. -/
theorem perm_drainFilter (m : OrdMap κ α) (p : κ × α → Bool) :
    ((m.drainFilter p).1 ++ (m.drainFilter p).2.entries).Perm m.entries :=
  List.filter_append_perm p m.entries

/-- The map without a key. -/
def remove (m : OrdMap κ α) (k : κ) : OrdMap κ α := (m.drainFilter fun x ↦ x.1 = k).2

@[simp] theorem mem_remove {m : OrdMap κ α} {k : κ} {x : κ × α} :
    x ∈ m.remove k ↔ x ∈ m ∧ x.1 ≠ k := by
  rw [remove, mem_drainFilter_snd, decide_eq_false_iff_not]

/-! ## Looking up a key -/

/-- The value of a key. -/
def get (m : OrdMap κ α) (k : κ) : Option α := (m.entries.find? fun x ↦ x.1 = k).map Prod.snd

variable {m : OrdMap κ α} {k k' : κ} {a : α}

theorem get_eq_some : m.get k = some a ↔ (k, a) ∈ m := by
  rw [get, Option.map_eq_some_iff]
  constructor
  · rintro ⟨x, hfind, rfl⟩
    have hkey : x.1 = k := by simpa using List.find?_some hfind
    rw [← hkey]
    exact List.mem_of_find?_eq_some hfind
  · intro hmem
    have hsome : (m.entries.find? fun x ↦ x.1 = k).isSome := by
      rw [List.find?_isSome]
      exact ⟨(k, a), hmem, decide_eq_true rfl⟩
    obtain ⟨x, hfind⟩ := Option.isSome_iff_exists.mp hsome
    have hkey : x.1 = k := by simpa using List.find?_some hfind
    refine ⟨x, hfind, ?_⟩
    rw [eq_of_mem (List.mem_of_find?_eq_some hfind) hmem hkey]

theorem get_eq_none : m.get k = none ↔ ∀ a, (k, a) ∉ m := by
  rw [Option.eq_none_iff_forall_ne_some]
  exact forall_congr' fun a ↦ not_congr get_eq_some

@[simp] theorem get_empty : (empty : OrdMap κ α).get k = none := rfl

/-- Entering the value that a key has changes nothing. -/
theorem insert_of_get {m : OrdMap κ α} {k : κ} {a : α} (h : m.get k = some a) :
    m.insert k a = m := by
  have hmem : (k, a) ∈ m.entries := get_eq_some.mp h
  have hsorted := m.sorted
  have hentries : ∀ l : List (κ × α), l.Pairwise (fun x y ↦ x.1 < y.1) → (k, a) ∈ l →
      insertEntry k a l = l := by
    intro l hl hka
    induction l with
    | nil => exact absurd hka List.not_mem_nil
    | cons x l ih =>
      obtain ⟨hx, hl'⟩ := List.pairwise_cons.mp hl
      rw [insertEntry]
      rcases List.mem_cons.mp hka with rfl | hka
      · rw [if_neg (lt_irrefl k), if_pos rfl]
      · have hlt : x.1 < k := hx _ hka
        rw [if_neg hlt.not_gt, if_neg hlt.ne', ih hl' hka]
  cases m
  simp only [insert, hentries _ hsorted hmem]

@[simp] theorem get_insert_self : (m.insert k a).get k = some a := by
  rw [get_eq_some, mem_insert]
  exact Or.inl rfl

theorem get_insert_of_ne (h : k' ≠ k) : (m.insert k a).get k' = m.get k' := by
  ext b
  rw [get_eq_some, get_eq_some, mem_insert]
  constructor
  · rintro (heq | ⟨hmem, -⟩)
    · exact absurd (Prod.mk.inj heq).1 h
    · exact hmem
  · exact fun hmem ↦ Or.inr ⟨hmem, h⟩

@[simp] theorem get_remove_self : (m.remove k).get k = none := by
  rw [get_eq_none]
  intro a hmem
  exact (mem_remove.mp hmem).2 rfl

theorem get_remove_of_ne (h : k' ≠ k) : (m.remove k).get k' = m.get k' := by
  ext b
  rw [get_eq_some, get_eq_some, mem_remove]
  exact and_iff_left h

/-! ## The last entry not above a bound -/

/-- The entry with the largest key not above `k`. -/
def findLE (m : OrdMap κ α) (k : κ) : Option (κ × α) :=
  (m.entries.filter fun x ↦ decide (x.1 ≤ k)).getLast?

theorem findLE_eq_some {m : OrdMap κ α} {k : κ} {x : κ × α} :
    m.findLE k = some x ↔ x ∈ m ∧ x.1 ≤ k ∧ ∀ y ∈ m, y.1 ≤ k → y.1 ≤ x.1 := by
  have hsort := m.sorted.filter fun x ↦ decide (x.1 ≤ k)
  have hmem : ∀ y, y ∈ m.entries.filter (fun x ↦ decide (x.1 ≤ k)) ↔ y ∈ m ∧ y.1 ≤ k := by
    intro y
    rw [List.mem_filter, decide_eq_true_iff, mem_def]
  rw [findLE]
  constructor
  · intro h
    obtain ⟨l, hl⟩ := List.getLast?_eq_some_iff.mp h
    have hx : x ∈ m ∧ x.1 ≤ k := by rw [← hmem, hl]; simp
    refine ⟨hx.1, hx.2, fun y hy hyk ↦ ?_⟩
    have hy' := (hmem y).mpr ⟨hy, hyk⟩
    rw [hl] at hy' hsort
    rcases List.mem_append.mp hy' with hy' | hy'
    · exact ((List.pairwise_append.mp hsort).2.2 y hy' x (by simp)).le
    · rw [List.mem_singleton.mp hy']
  · rintro ⟨hx, hxk, hmax⟩
    cases h : (m.entries.filter fun x ↦ decide (x.1 ≤ k)).getLast? with
    | none =>
      rw [List.getLast?_eq_none_iff] at h
      have := (hmem x).mpr ⟨hx, hxk⟩
      rw [h] at this
      exact absurd this List.not_mem_nil
    | some z =>
      obtain ⟨l, hl⟩ := List.getLast?_eq_some_iff.mp h
      have hz : z ∈ m ∧ z.1 ≤ k := by rw [← hmem, hl]; simp
      have hx' := (hmem x).mpr ⟨hx, hxk⟩
      rw [hl] at hx' hsort
      rcases List.mem_append.mp hx' with hx' | hx'
      · have hlt := (List.pairwise_append.mp hsort).2.2 x hx' z (by simp)
        exact absurd (hmax z hz.1 hz.2) hlt.not_ge
      · rw [List.mem_singleton.mp hx']

/-! ## Iteration -/

/-- The values in key order. -/
def values (m : OrdMap κ α) : List α := m.entries.map Prod.snd

@[simp] theorem mem_values {m : OrdMap κ α} {a : α} : a ∈ m.values ↔ ∃ k, (k, a) ∈ m := by
  simp [values, mem_def]

theorem perm_insertEntry {k : κ} {a : α} {l : List (κ × α)} (hk : ∀ x ∈ l, x.1 ≠ k) :
    (insertEntry k a l).Perm ((k, a) :: l) := by
  induction l with
  | nil => exact List.Perm.refl _
  | cons y l ih =>
    rw [insertEntry]
    split
    · exact List.Perm.refl _
    · rw [if_neg fun h ↦ hk y (by simp) h.symm]
      exact ((ih fun x hx ↦ hk x (List.mem_cons_of_mem y hx)).cons y).trans (List.Perm.swap _ _ _)

/-- Inserting under a new key adds a value. -/
theorem perm_values_insert {m : OrdMap κ α} {k : κ} {a : α} (hk : ∀ x ∈ m, x.1 ≠ k) :
    (m.insert k a).values.Perm (a :: m.values) :=
  (perm_insertEntry hk).map Prod.snd

/-- Inserting under a key that is present replaces its value. -/
theorem exists_perm_values {m : OrdMap κ α} {k : κ} {a : α} (h : (k, a) ∈ m) :
    ∃ l, m.values.Perm (a :: l) ∧ ∀ b, (m.insert k b).values.Perm (b :: l) := by
  obtain ⟨l₁, l₂, hl⟩ := List.append_of_mem h
  have hlt : ∀ x ∈ l₁, x.1 < k := by
    intro x hx
    have hsort := m.sorted
    rw [hl] at hsort
    exact (List.pairwise_append.mp hsort).2.2 x hx (k, a) List.mem_cons_self
  have hins : ∀ b, insertEntry k b (l₁ ++ (k, a) :: l₂) = l₁ ++ (k, b) :: l₂ := by
    intro b
    clear hl
    induction l₁ with
    | nil => rw [List.nil_append, insertEntry, if_neg (lt_irrefl k), if_pos rfl, List.nil_append]
    | cons x l₁ ih =>
      have hx := hlt x List.mem_cons_self
      rw [List.cons_append, insertEntry, if_neg hx.not_gt, if_neg hx.ne',
        ih fun y hy ↦ hlt y (List.mem_cons_of_mem x hy), List.cons_append]
  have hperm : ∀ b : α, ((l₁ ++ (k, b) :: l₂).map Prod.snd).Perm
      (b :: (l₁ ++ l₂).map Prod.snd) := fun b ↦ (List.perm_middle.map Prod.snd)
  refine ⟨(l₁ ++ l₂).map Prod.snd, ?_, fun b ↦ ?_⟩
  · rw [values, hl]
    exact hperm a
  · have hentries : (m.insert k b).entries = l₁ ++ (k, b) :: l₂ := by
      rw [← hins, ← hl]
      rfl
    rw [values, hentries]
    exact hperm b

/-- Taking out a key that is present takes out its value. -/
theorem perm_values_remove {m : OrdMap κ α} {k : κ} {a : α} (h : (k, a) ∈ m) :
    m.values.Perm (a :: (m.remove k).values) := by
  obtain ⟨l₁, l₂, hl⟩ := List.append_of_mem h
  have hsort := m.sorted
  rw [hl, List.pairwise_append, List.pairwise_cons] at hsort
  have hentries : (m.remove k).entries = l₁ ++ l₂ := by
    have hfilter : (m.remove k).entries = m.entries.filter fun x ↦ !decide (x.1 = k) := rfl
    rw [hfilter, hl, List.filter_append, List.filter_cons_of_neg (by simp)]
    congr 1
    · refine List.filter_eq_self.mpr fun x hx ↦ ?_
      have hlt := hsort.2.2 x hx (k, a) List.mem_cons_self
      simpa using hlt.ne
    · refine List.filter_eq_self.mpr fun x hx ↦ ?_
      have hlt := hsort.2.1.1 x hx
      simpa using hlt.ne'
  rw [values, values, hl, hentries, List.map_append, List.map_append, List.map_cons]
  exact List.perm_middle

end OrdMap
