import Mathlib.Data.Set.Defs
import Mathlib.Tactic.ByContra
import Mathlib.Tactic.SplitIfs
import Mathlib.Tactic.TypeStar

/-!
# Streams through shared queues

Each of the streams that are in use has a queue through which its data goes, and several of them
may have the same. As long as data is sent only into a queue that a single stream has, and a stream
comes into use only with an empty queue, what each stream received and what waits in its queue is
what it was sent.
-/

variable {ι κ α : Type*} {live : Set ι} {target : ι → κ} {queue queue' : κ → List α}
  {sent received : ι → List α} {i : ι} {x : List α}

/-- The streams do not meet: a queue with data is that of a single one. -/
structure Streams (live : Set ι) (target : ι → κ) (queue : κ → List α)
    (sent received : ι → List α) : Prop where
  flow : ∀ i ∈ live, received i ++ queue (target i) = sent i
  alone : ∀ i ∈ live, ∀ j ∈ live, target i = target j → queue (target i) ≠ [] → i = j

namespace Streams

variable {sent' received' : ι → List α}

/-- What was received is the front of what was sent. -/
theorem received_prefix (h : Streams live target queue sent received) (hi : i ∈ live) :
    received i <+: sent i := ⟨_, h.flow i hi⟩

/-- Data is sent into a queue that no other stream has. -/
theorem send [DecidableEq ι] (h : Streams live target queue sent received)
    (halone : ∀ j ∈ live, target j = target i → j = i)
    (hqueue : queue' (target i) = queue (target i) ++ x)
    (hother : ∀ p, p ≠ target i → queue' p = queue p)
    (hsent : ∀ j ∈ live, sent' j = if j = i then sent j ++ x else sent j) :
    Streams live target queue' sent' received where
  flow j hj := by
    rw [hsent j hj]
    split_ifs with hji
    · rw [hji, hqueue, ← List.append_assoc, h.flow i (hji ▸ hj)]
    · rw [hother _ fun hport ↦ hji (halone j hj hport), h.flow j hj]
  alone j hj j' hj' hport hne := by
    by_cases htarget : target j = target i
    · rw [halone j hj htarget, halone j' hj' (hport.symm.trans htarget)]
    · rw [hother _ htarget] at hne
      exact h.alone j hj j' hj' hport hne

/-- Data is received from the front of the queue. -/
theorem receive [DecidableEq ι] (h : Streams live target queue sent received) (hi : i ∈ live)
    (hqueue : queue (target i) = x ++ queue' (target i))
    (hother : ∀ p, p ≠ target i → queue' p = queue p)
    (hreceived : ∀ j ∈ live, received' j = if j = i then received j ++ x else received j) :
    Streams live target queue' sent received' where
  flow j hj := by
    rw [hreceived j hj]
    split_ifs with hji
    · rw [hji, List.append_assoc, ← hqueue, h.flow i hi]
    · by_cases htarget : target j = target i
      · -- the other streams of this queue have no data in it
        have hnil : queue (target i) = [] := by
          by_contra hne
          exact hji (h.alone i hi j hj htarget.symm hne).symm
        obtain ⟨-, hnil'⟩ := List.append_eq_nil_iff.mp (hqueue.symm.trans hnil)
        rw [← h.flow j hj, htarget, hnil, hnil']
      · rw [hother _ htarget, h.flow j hj]
  alone j hj j' hj' hport hne := by
    refine h.alone j hj j' hj' hport fun hnil ↦ hne ?_
    by_cases htarget : target j = target i
    · rw [htarget] at hnil ⊢
      exact (List.append_eq_nil_iff.mp (hqueue.symm.trans hnil)).2
    · rw [hother _ htarget, hnil]

/-- What happens in the queues of no stream does not matter. -/
theorem elsewhere (h : Streams live target queue sent received)
    (hqueue : ∀ i ∈ live, queue' (target i) = queue (target i)) :
    Streams live target queue' sent received where
  flow i hi := by rw [hqueue i hi, h.flow i hi]
  alone i hi j hj hport hne := h.alone i hi j hj hport (by rwa [hqueue i hi] at hne)

/-- Streams come into use whose queues are empty. -/
theorem more {live' : Set ι} {target' : ι → κ} (h : Streams live target queue sent received)
    (htarget : ∀ i ∈ live, target' i = target i)
    (hsent : ∀ i ∈ live, sent' i = sent i) (hreceived : ∀ i ∈ live, received' i = received i)
    (hnew : ∀ i ∈ live', i ∉ live → sent' i = [] ∧ received' i = [] ∧ queue (target' i) = []) :
    Streams live' target' queue sent' received' where
  flow i hi := by
    by_cases hold : i ∈ live
    · rw [htarget i hold, hsent i hold, hreceived i hold, h.flow i hold]
    · obtain ⟨hs, hr, hq⟩ := hnew i hi hold
      rw [hs, hr, hq, List.append_nil]
  alone i hi j hj hport hne := by
    have hold : ∀ j ∈ live', queue (target' j) ≠ [] → j ∈ live := by
      intro j hj hne
      by_contra hnot
      exact hne (hnew j hj hnot).2.2
    have hiold := hold i hi hne
    have hjold := hold j hj (hport ▸ hne)
    rw [htarget i hiold] at hport hne
    exact h.alone i hiold j hjold (hport.trans (htarget j hjold)) hne

end Streams
