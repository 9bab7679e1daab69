import Mathlib.Data.Multiset.AddSub
import Mathlib.Data.List.Perm.Basic
import Mathlib.Tactic.Abel
import Mathlib.Tactic.Common

/-!
# What a pool of tasks holds

Tasks that run at once are a list from which any of them may leave. What they
hold between them, each task some or nothing, is a sum, and the order in which
they joined is no part of it.
-/

namespace WebSshTool

variable {τ α : Type*}

/-- What the tasks of a pool hold. -/
def held (f : τ → Option α) (pool : List τ) : Multiset α := pool.filterMap f

section

variable {f : τ → Option α} {pool : List τ} {i : Nat} {t : τ}

theorem held_append (pool' : List τ) :
    held f (pool ++ pool') = held f pool + held f pool' := by
  rw [held, List.filterMap_append, ← Multiset.coe_add]
  rfl

theorem held_singleton (t : τ) : held f [t] = Multiset.ofList (f t).toList := by
  rw [held]
  cases h : f t with
  | none => rw [List.filterMap_cons_none h]; rfl
  | some a => rw [List.filterMap_cons_some h]; rfl

theorem held_cons : held f (t :: pool) = Multiset.ofList (f t).toList + held f pool := by
  rw [← held_singleton, ← held_append, List.singleton_append]

/-- What a task that leaves takes with it. -/
theorem held_eraseIdx (h : pool[i]? = some t) :
    held f pool = Multiset.ofList (f t).toList + held f (pool.eraseIdx i) := by
  obtain ⟨hi, rfl⟩ := List.getElem?_eq_some_iff.mp h
  rw [← held_cons]
  exact Multiset.coe_eq_coe.mpr ((List.getElem_cons_eraseIdx_perm hi).symm.filterMap f)

/-- A task that goes on as another. -/
theorem held_set (h : pool[i]? = some t) (t' : τ) :
    held f (pool.set i t') = ↑(f t').toList + held f (pool.eraseIdx i) := by
  obtain ⟨hi, -⟩ := List.getElem?_eq_some_iff.mp h
  rw [← held_cons]
  exact Multiset.coe_eq_coe.mpr ((List.set_perm_cons_eraseIdx hi t').filterMap f)

theorem mem_held {a : α} : a ∈ held f pool ↔ ∃ t ∈ pool, f t = some a := by
  rw [held, Multiset.mem_coe, List.mem_filterMap]

end

end WebSshTool
