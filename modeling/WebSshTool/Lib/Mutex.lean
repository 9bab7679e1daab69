import Mathlib.Logic.Function.Basic
import Mathlib.Tactic.Common

/-!
# Mutexes and the tasks that keep their guards

A table of mutexes records at most one owner for each. Where the tasks are
state machines of their own, the table and the tasks say the same thing
twice: a task is the owner of a mutex exactly when it stands at a point where
it keeps the guard. `Owned` is that agreement, and everything a safety
argument wants from a lock follows from it: two tasks never keep one guard at
a time, and a free mutex has nobody keeping its guard.

Nothing is said about who gets a mutex next. A released one goes to whichever
task takes the next step on it, so results hold for every queueing policy.
-/

namespace WebSshTool.Mutex

variable {κ τ : Type*}

/-- The owner table `locks` agrees with the guards the tasks keep. -/
def Owned (locks : κ → Option τ) (holds : τ → κ → Bool) : Prop :=
  ∀ l t, locks l = some t ↔ holds t l = true

variable {locks locks' : κ → Option τ} {holds holds' : τ → κ → Bool}

theorem Owned.init : Owned (fun _ : κ => (none : Option τ)) fun _ _ => false := by
  intro l t
  simp

/-- Mutual exclusion. -/
theorem Owned.unique (h : Owned locks holds) {l : κ} {t u : τ}
    (ht : holds t l = true) (hu : holds u l = true) : t = u := by
  rw [← h l t] at ht
  rw [← h l u, ht] at hu
  exact Option.some.inj hu

theorem Owned.not_holds (h : Owned locks holds) {l : κ} (hl : locks l = none)
    (t : τ) : holds t l = false := by
  cases ht : holds t l with
  | false => rfl
  | true =>
      rw [← h l t, hl] at ht
      exact absurd ht (by simp)

/-- One task moves: the guards it gains were free, the table changes exactly
where its guards do, and no other task's guards change. -/
theorem Owned.step (h : Owned locks holds) (t : τ)
    (hother : ∀ u, u ≠ t → ∀ l, holds' u l = holds u l)
    (hfree : ∀ l, holds' t l = true → holds t l = true ∨ locks l = none)
    (hl : ∀ l, locks' l = bif holds t l == holds' t l then locks l
      else bif holds' t l then some t else none) :
    Owned locks' holds' := by
  intro l u
  rw [hl l]
  by_cases hut : u = t
  · subst hut
    cases hold : holds u l <;> cases hnew : holds' u l <;> simp [h l u, hold]
  · rw [hother u hut l]
    have hexcl : holds t l = true → holds u l = false := by
      intro ht
      cases hu : holds u l with
      | false => rfl
      | true => exact absurd (h.unique hu ht) hut
    cases hold : holds t l with
    | true =>
        cases hnew : holds' t l with
        | true => simp [h l u]
        | false => simp [hexcl hold]
    | false =>
        cases hnew : holds' t l with
        | true =>
            -- The mover got a free lock, so `u` was not keeping it.
            have hnone : locks l = none := by
              rcases hfree l hnew with hc | hn
              · rw [hold] at hc
                exact absurd hc (by simp)
              · exact hn
            simp [h.not_holds hnone u, Ne.symm hut]
        | false => simp [h l u]

end WebSshTool.Mutex
