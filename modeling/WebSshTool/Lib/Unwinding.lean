import WebSshTool.Lib.Machine
import Mathlib.Data.List.Basic

/-!
# A run as one party sees it

A view forgets what does not belong to one party. If the steps that do not concern
the party leave its view alone, and the others do to the view what they do to the
state, then the party cannot tell the run from the one in which only its own steps
were taken: that one is a run too, and it ends in the view of the whole.

Whom a label concerns may be settled by an earlier label that gave a name to
something, once and for all. `findSome?_of_path` is for those.
-/

namespace WebSshTool.Machine

variable {σ ι : Type*} {M : Machine σ ι} {ok ok' : σ → ι → Prop}

theorem Path.mono {ls : List ι} (hok : ∀ s, ∀ l ∈ ls, ok s l → ok' s l) :
    ∀ {s : σ}, M.Path ok s ls → M.Path ok' s ls := by
  induction ls with
  | nil => exact fun _ => trivial
  | cons l ls ih =>
      intro s h
      exact ⟨⟨h.1.1, hok s l (List.mem_cons_self ..) h.1.2⟩,
        ih (fun s l hl => hok s l (List.mem_cons_of_mem _ hl)) h.2⟩

/-- The labels a party keeps are a run of their own, and it ends in the party's view. -/
theorem path_filter {J : σ → Prop} (view : σ → σ) (keep : ι → Bool)
    (hJ : ∀ s l, J s → M.enabled s l → ok s l → J (M.next s l))
    (hother : ∀ s l, J s → M.enabled s l → ok s l → keep l = false →
      view (M.next s l) = view s)
    (hown : ∀ s l, J s → M.enabled s l → ok s l → keep l = true →
      M.enabled (view s) l ∧ M.next (view s) l = view (M.next s l)) {ls : List ι} :
    ∀ s, J s → M.Path ok s ls →
      M.Path (fun _ _ => True) (view s) (ls.filter keep) ∧
        (ls.filter keep).foldl M.next (view s) = view (ls.foldl M.next s) := by
  induction ls with
  | nil => exact fun s _ _ => ⟨trivial, rfl⟩
  | cons l ls ih =>
      intro s hs h
      have hrest := ih _ (hJ s l hs h.1.1 h.1.2) h.2
      cases hkeep : keep l with
      | false =>
          rw [List.filter_cons_of_neg (by simp [hkeep])]
          rw [hother s l hs h.1.1 h.1.2 hkeep] at hrest
          exact hrest
      | true =>
          obtain ⟨hen, hnext⟩ := hown s l hs h.1.1 h.1.2 hkeep
          rw [List.filter_cons_of_pos hkeep, List.foldl_cons, hnext]
          refine ⟨⟨⟨hen, trivial⟩, ?_⟩, hrest.2⟩
          rw [hnext]
          exact hrest.1

/-- A label that is impossible once it has been taken gives its name to the whole run. -/
theorem findSome?_of_path {α : Type*} {f : ι → Option α} {P : σ → Prop}
    (hkeep : ∀ s l, M.enabled s l → P s → P (M.next s l))
    (htakes : ∀ s l a, M.enabled s l → f l = some a → ¬ P s ∧ P (M.next s l)) {ls : List ι} :
    ∀ {s : σ}, M.Path ok s ls → ∀ l ∈ ls, ∀ a, f l = some a → ls.findSome? f = some a := by
  have hnever : ∀ (ls : List ι) s, P s → M.Path ok s ls → ∀ l ∈ ls, f l = none := by
    intro ls
    induction ls with
    | nil => exact fun s _ _ l hl => absurd hl List.not_mem_nil
    | cons m ls ih =>
        intro s hs h l hl
        rcases List.mem_cons.mp hl with rfl | hl
        · cases hf : f l with
          | none => rfl
          | some a => exact absurd hs (htakes s l a h.1.1 hf).1
        · exact ih _ (hkeep s m h.1.1 hs) h.2 l hl
  induction ls with
  | nil => exact fun _ l hl => absurd hl List.not_mem_nil
  | cons m ls ih =>
      intro s h l hl a ha
      rw [List.findSome?_cons]
      cases hm : f m with
      | none =>
          rcases List.mem_cons.mp hl with rfl | hl
          · exact absurd (hm.symm.trans ha) (by simp)
          · exact ih h.2 l hl a ha
      | some b =>
          rcases List.mem_cons.mp hl with rfl | hl
          · exact hm.symm.trans ha
          · have hnone := hnever ls _ (htakes s m b h.1.1 hm).2 h.2 l hl
            exact absurd (hnone.symm.trans ha) (by simp)

end WebSshTool.Machine
