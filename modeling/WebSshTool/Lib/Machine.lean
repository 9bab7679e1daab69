import Mathlib.Logic.Function.Basic
import Mathlib.Logic.Relation
import Mathlib.Tactic.Common

/-!
# Labelled machines and their runs

A machine is an initial state, a guard for each label and the state the
label leads to. Nondeterminism lives entirely in the choice of the label, so
a guard and a successor are ordinary functions of the state, and a schedule
is a list of labels.

Every result about "any interleaving" is a result about `Reaches`, the
states a machine gets to when each step it takes also meets a side condition
`ok`. With the condition that is always true this is plain reachability; with
a narrower one it is the reachability of the runs that avoid some step, and
one induction rule serves both.

`Path` reads a schedule off as the conjunction of its guards. On a concrete
schedule that conjunction is decided, which is how a single run is exhibited
without unfolding the machine.
-/

namespace WebSshTool

/-- A labelled machine over states `σ` and labels `ι`. -/
structure Machine (σ ι : Type*) where
  init : σ
  enabled : σ → ι → Prop
  next : σ → ι → σ

namespace Machine

variable {σ ι : Type*} {M : Machine σ ι} {ok ok' : σ → ι → Prop}

/-- The states reached by the runs whose every step meets `ok`. -/
inductive Reaches (M : Machine σ ι) (ok : σ → ι → Prop) : σ → Prop
  | init : Reaches M ok M.init
  | step {s : σ} {l : ι} : Reaches M ok s → M.enabled s l → ok s l →
      Reaches M ok (M.next s l)

/-- The states reached by any run at all. -/
abbrev Reachable (M : Machine σ ι) : σ → Prop := M.Reaches fun _ _ => True

theorem Reaches.mono (h : ∀ s l, ok s l → ok' s l) {s : σ}
    (hs : M.Reaches ok s) : M.Reaches ok' s := by
  induction hs with
  | init => exact .init
  | step _ hen hok ih => exact .step ih hen (h _ _ hok)

theorem Reaches.reachable {s : σ} (hs : M.Reaches ok s) : M.Reachable s :=
  hs.mono fun _ _ _ => trivial

/-- The induction every invariant goes through: it holds at the start, and a
step that is enabled and meets the condition keeps it. The step may use that
its source is itself reached, so an invariant can lean on earlier ones. -/
theorem Reaches.invariant {I : σ → Prop} (hinit : I M.init)
    (hstep : ∀ s l, M.Reaches ok s → I s → M.enabled s l → ok s l →
      I (M.next s l)) {s : σ} (hs : M.Reaches ok s) : I s := by
  induction hs with
  | init => exact hinit
  | step hs hen hok ih => exact hstep _ _ hs ih hen hok

/-- A schedule as the conjunction of its guards and side conditions. -/
def Path (M : Machine σ ι) (ok : σ → ι → Prop) : σ → List ι → Prop
  | _, [] => True
  | s, l :: ls => (M.enabled s l ∧ ok s l) ∧ Path M ok (M.next s l) ls

instance Path.decidable (M : Machine σ ι) (ok : σ → ι → Prop)
    [∀ s l, Decidable (M.enabled s l)] [∀ s l, Decidable (ok s l)] :
    ∀ (s : σ) (ls : List ι), Decidable (M.Path ok s ls)
  | _, [] => isTrue trivial
  | s, l :: ls =>
      have := Path.decidable M ok (M.next s l) ls
      inferInstanceAs (Decidable ((M.enabled s l ∧ ok s l) ∧ _))

theorem path_append {s : σ} {ls ls' : List ι} :
    M.Path ok s (ls ++ ls') ↔ M.Path ok s ls ∧ M.Path ok (ls.foldl M.next s) ls' := by
  induction ls generalizing s with
  | nil => simp only [List.nil_append, Path, true_and, List.foldl_nil]
  | cons l ls ih => exact (and_congr_right fun _ => ih).trans and_assoc.symm

theorem Reaches.path {s : σ} (hs : M.Reaches ok s) {ls : List ι}
    (h : M.Path ok s ls) : M.Reaches ok (ls.foldl M.next s) := by
  induction ls generalizing s with
  | nil => exact hs
  | cons l ls ih => exact ih (.step hs h.1.1 h.1.2) h.2

/-- A schedule that runs from the start reaches the state it folds to. -/
theorem reaches_of_path {ls : List ι} (h : M.Path ok M.init ls) :
    M.Reaches ok (ls.foldl M.next M.init) :=
  Reaches.init.path h

/-- Runs that end well are exactly the runs that meet `ok` where `ok` is what
keeps `I`, and where the first step against it leads to `D`, which no step
leads out of. -/
theorem path_or_doomed {I D : σ → Prop}
    (hkeep : ∀ s l, I s → M.enabled s l → ok s l → I (M.next s l))
    (hbreak : ∀ s l, I s → M.enabled s l → ¬ ok s l → D (M.next s l))
    (hdoomed : ∀ s l, D s → M.enabled s l → D (M.next s l)) {ls : List ι} :
    ∀ s, I s → M.Path (fun _ _ => True) s ls →
      M.Path ok s ls ∧ I (ls.foldl M.next s) ∨
        ¬ M.Path ok s ls ∧ D (ls.foldl M.next s) := by
  have hrun : ∀ (ls : List ι) s, D s → M.Path (fun _ _ => True) s ls →
      D (ls.foldl M.next s) := by
    intro ls
    induction ls with
    | nil => exact fun s hs _ => hs
    | cons l ls ih => exact fun s hs h => ih _ (hdoomed s l hs h.1.1) h.2
  induction ls with
  | nil => exact fun s hs _ => .inl ⟨trivial, hs⟩
  | cons l ls ih =>
      intro s hs h
      by_cases hok : ok s l
      · rcases ih _ (hkeep s l hs h.1.1 hok) h.2 with ⟨hpath, hI⟩ | ⟨hpath, hD⟩
        · exact .inl ⟨⟨⟨h.1.1, hok⟩, hpath⟩, hI⟩
        · exact .inr ⟨fun hp => hpath hp.2, hD⟩
      · exact .inr ⟨fun hp => hok hp.1.2, hrun ls _ (hbreak s l hs h.1.1 hok) h.2⟩

/-- Where a step keeps `I` exactly if it meets `ok`, a run has `I` all along
exactly if its steps meet `ok`. `J` is what every step keeps anyway. -/
theorem kept_iff_path {I J : σ → Prop} (hJ : ∀ s l, J s → J (M.next s l))
    (hstep : ∀ s l, J s → I s → (I (M.next s l) ↔ ok s l)) {ls : List ι} :
    ∀ s, J s → I s → M.Path (fun _ _ => True) s ls →
      ((∀ ls', ls' <+: ls → I (ls'.foldl M.next s)) ↔ M.Path ok s ls) := by
  induction ls with
  | nil =>
      intro s _ hs _
      refine iff_of_true (fun ls' h => ?_) trivial
      rwa [List.prefix_nil.mp h]
  | cons l ls ih =>
      intro s hs hI hpath
      constructor
      · intro h
        have hnext : I (M.next s l) := h [l] ⟨ls, rfl⟩
        refine ⟨⟨hpath.1.1, (hstep s l hs hI).mp hnext⟩, ?_⟩
        refine (ih _ (hJ s l hs) hnext hpath.2).mp fun ls' hls' => ?_
        exact h (l :: ls') (List.cons_prefix_cons.mpr ⟨rfl, hls'⟩)
      · intro h ls' hls'
        rcases List.prefix_cons_iff.mp hls' with rfl | ⟨rest, rfl, hrest⟩
        · exact hI
        · exact (ih _ (hJ s l hs) ((hstep s l hs hI).mpr h.1.2) hpath.2).mpr h.2 rest hrest

/-! ## Continuations

What can still happen from a state that is already there. -/

/-- One step that meets `ok`. -/
def Step (M : Machine σ ι) (ok : σ → ι → Prop) (s t : σ) : Prop :=
  ∃ l, M.enabled s l ∧ ok s l ∧ M.next s l = t

/-- Some steps, each of which meets `ok`. -/
abbrev Leads (M : Machine σ ι) (ok : σ → ι → Prop) : σ → σ → Prop :=
  Relation.ReflTransGen (M.Step ok)

theorem Leads.step {s : σ} {l : ι} (hen : M.enabled s l) (hok : ok s l) :
    M.Leads ok s (M.next s l) :=
  .single ⟨l, hen, hok, rfl⟩

/-- A run that goes on. -/
theorem Reaches.leads {s t : σ} (hs : M.Reaches ok s) (h : M.Leads ok s t) :
    M.Reaches ok t := by
  induction h with
  | refl => exact hs
  | tail _ hlast ih =>
      obtain ⟨l, hen, hok, rfl⟩ := hlast
      exact ih.step hen hok

/-- What every step keeps holds wherever a run leads. -/
theorem Leads.invariant {I : σ → Prop}
    (hstep : ∀ s l, I s → M.enabled s l → ok s l → I (M.next s l)) {s t : σ}
    (h : M.Leads ok s t) (hs : I s) : I t := by
  induction h with
  | refl => exact hs
  | tail _ hlast ih =>
      obtain ⟨l, hen, hok, rfl⟩ := hlast
      exact hstep _ l ih hen hok

/-! ## Histories

A property of a run that no single state shows, such as how often something
has happened, is a property of the history `note` writes of it. The history
is for the statement alone: no guard reads it, so a recorded run is a run. -/

/-- The machine that also appends what `note` says of each step. -/
def record {ε : Type*} (M : Machine σ ι) (note : σ → ι → List ε) :
    Machine (σ × List ε) ι where
  init := (M.init, [])
  enabled p := M.enabled p.1
  next p l := (M.next p.1 l, p.2 ++ note p.1 l)

/-- Where an entry stands in a history with one more at its end. -/
theorem concat_eq_append_cons {ε : Type*} {h before after : List ε} {x y : ε} :
    h ++ [x] = before ++ y :: after ↔ before = h ∧ y = x ∧ after = [] ∨
      ∃ rest, after = rest ++ [x] ∧ h = before ++ y :: rest := by
  constructor
  · intro heq
    rcases List.eq_nil_or_concat after with rfl | ⟨rest, z, rfl⟩
    · obtain ⟨rfl, hlast⟩ := List.append_inj' heq rfl
      exact .inl ⟨rfl, (List.singleton_inj.mp hlast).symm, rfl⟩
    · rw [List.concat_eq_append, ← List.cons_append, ← List.append_assoc] at heq
      obtain ⟨rfl, hlast⟩ := List.append_inj' heq rfl
      rw [List.singleton_inj.mp hlast]
      exact .inr ⟨rest, List.concat_eq_append, rfl⟩
  · rintro (⟨rfl, rfl, rfl⟩ | ⟨rest, rfl, rfl⟩)
    · rfl
    · simp

theorem Reaches.of_record {ε : Type*} {note : σ → ι → List ε}
    {p : σ × List ε} (hp : (M.record note).Reachable p) : M.Reachable p.1 := by
  induction hp with
  | init => exact .init
  | step _ hen _ ih => exact .step ih hen trivial

end Machine

end WebSshTool
