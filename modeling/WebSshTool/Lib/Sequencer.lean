import Mathlib.Data.List.Perm.Basic
import Mathlib.Data.List.Range
import WebSshTool.Lib.Machine

/-!
# Jobs that are served one at a time

Jobs are posted, wait in a queue, and are started at its front when the one
before is finished. A job that waits can be cleared, the last one first. The
labels are what happens, so a run of the machine is a history, and what holds
of a history can be said of any system whose history is such a run.

Jobs are numbered as they are posted. None of them is lost: what has been
posted has been started, waits or has been cleared, and no job is two of that.
-/

namespace WebSshTool.Sequencer

open scoped List

abbrev JobId := Nat

structure State where
  waiting : List JobId
  serving : Option JobId
  posted : Nat
  deriving DecidableEq, Repr

inductive Event where
  | posted (n : JobId)
  | started (n : JobId)
  | finished (n : JobId)
  | cleared (n : JobId)
  deriving DecidableEq, Repr

def init : State := ⟨[], none, 0⟩

def enabled (s : State) : Event → Prop
  | .posted n => n = s.posted
  | .started n => s.waiting.head? = some n ∧ s.serving = none
  | .finished n => s.serving = some n
  | .cleared n => s.waiting.getLast? = some n

def next (s : State) : Event → State
  | .posted n => { s with waiting := s.waiting ++ [n], posted := s.posted + 1 }
  | .started n => { s with waiting := s.waiting.tail, serving := some n }
  | .finished _ => { s with serving := none }
  | .cleared _ => { s with waiting := s.waiting.dropLast }

def machine : Machine State Event := ⟨init, enabled, next⟩

/-! ## Histories -/

/-- A history of the machine. -/
def Run (h : List Event) : Prop := machine.Path (fun _ _ => True) init h

/-- The state that a history leads to. -/
def stateOf (h : List Event) : State := h.foldl next init

def postedIn (h : List Event) : List JobId :=
  h.filterMap fun | .posted n => some n | _ => none

def startedIn (h : List Event) : List JobId :=
  h.filterMap fun | .started n => some n | _ => none

def clearedIn (h : List Event) : List JobId :=
  h.filterMap fun | .cleared n => some n | _ => none

theorem mem_startedIn {h : List Event} {n : JobId} : n ∈ startedIn h ↔ .started n ∈ h := by
  rw [startedIn, List.mem_filterMap]
  constructor
  · rintro ⟨e, he, hn⟩
    cases e with
    | started m => exact Option.some.inj hn ▸ he
    | posted | finished | cleared => cases hn
  · exact fun hn => ⟨_, hn, rfl⟩

theorem mem_clearedIn {h : List Event} {n : JobId} : n ∈ clearedIn h ↔ .cleared n ∈ h := by
  rw [clearedIn, List.mem_filterMap]
  constructor
  · rintro ⟨e, he, hn⟩
    cases e with
    | cleared m => exact Option.some.inj hn ▸ he
    | posted | started | finished => cases hn
  · exact fun hn => ⟨_, hn, rfl⟩

theorem postedIn_concat (h : List Event) (e : Event) :
    postedIn (h ++ [e]) = postedIn h ++ postedIn [e] := List.filterMap_append

theorem startedIn_concat (h : List Event) (e : Event) :
    startedIn (h ++ [e]) = startedIn h ++ startedIn [e] := List.filterMap_append

theorem clearedIn_concat (h : List Event) (e : Event) :
    clearedIn (h ++ [e]) = clearedIn h ++ clearedIn [e] := List.filterMap_append

theorem run_concat {h : List Event} {e : Event} :
    Run (h ++ [e]) ↔ Run h ∧ enabled (stateOf h) e := by
  rw [Run, Machine.path_append]
  exact and_congr_right fun _ => ⟨fun hp => hp.1.1, fun hen => ⟨⟨hen, trivial⟩, trivial⟩⟩

theorem stateOf_concat (h : List Event) (e : Event) :
    stateOf (h ++ [e]) = next (stateOf h) e := by
  rw [stateOf, List.foldl_append]
  rfl

/-- What has happened before belongs to a history of its own. -/
theorem Run.of_append {h h' : List Event} (hp : Run (h ++ h')) : Run h :=
  (Machine.path_append.mp hp).1

/-- The jobs are all there and in order. -/
structure Inv (s : State) (h : List Event) : Prop where
  numbered : postedIn h = List.range s.posted
  all : startedIn h ++ s.waiting ++ clearedIn h ~ List.range s.posted
  inOrder : (startedIn h ++ s.waiting).Sublist (List.range s.posted)
  finished : ∀ n, .finished n ∈ h → .started n ∈ h
  serving : ∀ n, s.serving = some n ↔ .started n ∈ h ∧ .finished n ∉ h

theorem init_inv : Inv init [] where
  numbered := rfl
  all := .refl _
  inOrder := List.nil_sublist _
  finished n hn := absurd hn (by simp)
  serving n := iff_of_false (by simp [init]) (by simp)

variable {s : State} {h : List Event}

theorem Inv.lt_posted (hi : Inv s h) {n : JobId}
    (hn : n ∈ startedIn h ++ s.waiting ++ clearedIn h) : n < s.posted :=
  List.mem_range.mp (hi.all.mem_iff.mp hn)

theorem Inv.nodup (hi : Inv s h) : (startedIn h ++ s.waiting ++ clearedIn h).Nodup :=
  hi.all.nodup_iff.mpr List.nodup_range

/-- A job that waits has not been started. -/
theorem Inv.not_started (hi : Inv s h) {n : JobId} (hn : n ∈ s.waiting) : .started n ∉ h := by
  intro hstarted
  have hdisjoint := (List.nodup_append.mp (List.nodup_append.mp hi.nodup).1).2.2
  exact hdisjoint n (mem_startedIn.mpr hstarted) n hn rfl

/-- What is no post numbers nothing. -/
theorem Inv.numbered_concat (hi : Inv s h) {e : Event} (he : postedIn [e] = []) :
    postedIn (h ++ [e]) = List.range s.posted := by
  rw [postedIn_concat, he, List.append_nil, hi.numbered]

theorem Inv.posted (hi : Inv s h) : Inv (next s (.posted s.posted)) (h ++ [.posted s.posted]) where
  numbered := by
    rw [postedIn_concat, hi.numbered]
    exact List.range_succ.symm
  all := by
    rw [startedIn_concat, clearedIn_concat]
    calc startedIn h ++ [] ++ (s.waiting ++ [s.posted]) ++ (clearedIn h ++ [])
        = startedIn h ++ s.waiting ++ ([s.posted] ++ clearedIn h) := by simp
      _ ~ startedIn h ++ s.waiting ++ (clearedIn h ++ [s.posted]) :=
          List.perm_append_comm.append_left _
      _ = startedIn h ++ s.waiting ++ clearedIn h ++ [s.posted] := by simp
      _ ~ List.range s.posted ++ [s.posted] := hi.all.append_right _
      _ = List.range (s.posted + 1) := List.range_succ.symm
  inOrder := by
    rw [startedIn_concat]
    change (startedIn h ++ [] ++ (s.waiting ++ [s.posted])).Sublist (List.range (s.posted + 1))
    rw [List.append_nil, ← List.append_assoc, List.range_succ]
    exact hi.inOrder.append (List.Sublist.refl _)
  finished n hn := by simpa using hi.finished n (by simpa using hn)
  serving n := by simpa [next] using hi.serving n

theorem Inv.started (hi : Inv s h) {n : JobId} (hen : enabled s (.started n)) :
    Inv (next s (.started n)) (h ++ [.started n]) := by
  obtain ⟨rest, hwaiting⟩ := List.head?_eq_some_iff.mp hen.1
  have hnew : .started n ∉ h := hi.not_started (by simp [hwaiting])
  have hnext : next s (.started n) = { s with waiting := rest, serving := some n } := by
    simp [next, hwaiting]
  have hline : startedIn h ++ [n] ++ rest = startedIn h ++ s.waiting := by simp [hwaiting]
  rw [hnext]
  exact {
    numbered := hi.numbered_concat rfl
    all := by
      rw [startedIn_concat, clearedIn_concat]
      change startedIn h ++ [n] ++ rest ++ (clearedIn h ++ []) ~ _
      rw [hline, List.append_nil]
      exact hi.all
    inOrder := by
      rw [startedIn_concat]
      change (startedIn h ++ [n] ++ rest).Sublist _
      rw [hline]
      exact hi.inOrder
    finished := by
      intro m hm
      exact List.mem_append_left _ (hi.finished m (by simpa using hm))
    serving := by
      intro m
      have hfinished : .finished n ∉ h := fun hn => hnew (hi.finished n hn)
      constructor
      · intro hm
        obtain rfl := Option.some.inj hm
        exact ⟨by simp, by simpa using hfinished⟩
      · rintro ⟨hstarted, hnot⟩
        rcases List.mem_append.mp hstarted with hold | hlast
        · have := (hi.serving m).mpr ⟨hold, by simpa using hnot⟩
          exact absurd (hen.2.symm.trans this) (by simp)
        · rw [Event.started.inj (List.mem_singleton.mp hlast)] }

theorem Inv.finishes (hi : Inv s h) {n : JobId} (hen : enabled s (.finished n)) :
    Inv (next s (.finished n)) (h ++ [.finished n]) where
  numbered := hi.numbered_concat rfl
  all := by
    rw [startedIn_concat, clearedIn_concat]
    change startedIn h ++ [] ++ s.waiting ++ (clearedIn h ++ []) ~ _
    rw [List.append_nil, List.append_nil]
    exact hi.all
  inOrder := by
    rw [startedIn_concat]
    change (startedIn h ++ [] ++ s.waiting).Sublist _
    rw [List.append_nil]
    exact hi.inOrder
  finished m hm := by
    refine List.mem_append_left _ ?_
    rcases List.mem_append.mp hm with hold | hlast
    · exact hi.finished m hold
    · rw [Event.finished.inj (List.mem_singleton.mp hlast)]
      exact ((hi.serving n).mp hen).1
  serving m := by
    refine iff_of_false (by simp [next]) ?_
    rintro ⟨hstarted, hnot⟩
    rw [List.mem_append, not_or] at hnot
    have hserving := (hi.serving m).mpr ⟨by simpa using hstarted, hnot.1⟩
    obtain rfl : n = m := Option.some.inj (Eq.trans (Eq.symm hen) hserving)
    exact hnot.2 (List.mem_singleton.mpr rfl)

theorem Inv.cleared (hi : Inv s h) {n : JobId} (hen : enabled s (.cleared n)) :
    Inv (next s (.cleared n)) (h ++ [.cleared n]) := by
  obtain ⟨rest, hwaiting⟩ := List.getLast?_eq_some_iff.mp hen
  have hnext : next s (.cleared n) = { s with waiting := rest } := by simp [next, hwaiting]
  rw [hnext]
  exact {
    numbered := hi.numbered_concat rfl
    all := by
      rw [startedIn_concat, clearedIn_concat]
      calc startedIn h ++ [] ++ rest ++ (clearedIn h ++ [n])
          = startedIn h ++ rest ++ (clearedIn h ++ [n]) := by simp
        _ ~ startedIn h ++ rest ++ ([n] ++ clearedIn h) :=
            List.perm_append_comm.append_left _
        _ = startedIn h ++ s.waiting ++ clearedIn h := by simp [hwaiting]
        _ ~ List.range s.posted := hi.all
    inOrder := by
      rw [startedIn_concat]
      change (startedIn h ++ [] ++ rest).Sublist _
      rw [List.append_nil]
      refine List.Sublist.trans ?_ hi.inOrder
      rw [hwaiting, ← List.append_assoc]
      exact List.sublist_append_left _ _
    finished := by
      intro m hm
      exact List.mem_append_left _ (hi.finished m (by simpa using hm))
    serving := by
      intro m
      simpa using hi.serving m }

theorem inv_of_run (hp : Run h) : Inv (stateOf h) h := by
  induction h using List.reverseRecOn with
  | nil => exact init_inv
  | append_singleton h e ih =>
      obtain ⟨hrun, hen⟩ := run_concat.mp hp
      rw [stateOf_concat]
      cases e with
      | posted n =>
          obtain rfl : n = _ := hen
          exact (ih hrun).posted
      | started n => exact (ih hrun).started hen
      | finished n => exact (ih hrun).finishes hen
      | cleared n => exact (ih hrun).cleared hen

/-! ## What a history says -/

/-- One job at a time. -/
theorem Run.oneAtATime (hp : Run h) {n m : JobId} (hn : .started n ∈ h) (hn' : .finished n ∉ h)
    (hm : .started m ∈ h) (hm' : .finished m ∉ h) : n = m := by
  have hserving := ((inv_of_run hp).serving n).mpr ⟨hn, hn'⟩
  have hserving' := ((inv_of_run hp).serving m).mpr ⟨hm, hm'⟩
  exact Option.some.inj (hserving.symm.trans hserving')

theorem Run.posted_nodup (hp : Run h) : (postedIn h).Nodup := by
  rw [(inv_of_run hp).numbered]
  exact List.nodup_range

/-- Jobs are started in the order in which they were posted. -/
theorem Run.inOrder (hp : Run h) : (startedIn h).Sublist (postedIn h) := by
  have hi := inv_of_run hp
  rw [hi.numbered]
  exact (List.sublist_append_left _ _).trans hi.inOrder

/-- A job is posted before anything else happens to it. -/
theorem Run.not_before (hp : Run h) {a b : List Event} {n : JobId} (heq : h = a ++ .posted n :: b) :
    n ∉ startedIn a ++ (stateOf a).waiting ++ clearedIn a := by
  have hposted : Run (a ++ [.posted n]) := by
    rw [heq, List.append_cons] at hp
    exact hp.of_append
  obtain ⟨hrun, hn⟩ := run_concat.mp hposted
  intro hmem
  have hlt := (inv_of_run hrun).lt_posted hmem
  rw [show n = _ from hn] at hlt
  exact absurd hlt (Nat.lt_irrefl _)

/-- What has been posted is started, cleared or waits. -/
theorem Run.kept (hp : Run h) {a b : List Event} {n : JobId} (heq : h = a ++ .posted n :: b) :
    .started n ∈ b ∨ .cleared n ∈ b ∨ n ∈ (stateOf h).waiting := by
  have hi := inv_of_run hp
  have hbefore := hp.not_before heq
  rw [List.mem_append, List.mem_append, not_or, not_or, mem_startedIn, mem_clearedIn] at hbefore
  have hposted : n ∈ postedIn h := List.mem_filterMap.mpr ⟨.posted n, by simp [heq], rfl⟩
  rw [hi.numbered, ← hi.all.mem_iff, List.mem_append, List.mem_append, mem_startedIn,
    mem_clearedIn, heq] at hposted
  rcases hposted with (hstarted | hwaiting) | hcleared
  · rcases List.mem_append.mp hstarted with hold | hnew
    · exact absurd hold hbefore.1.1
    · exact .inl (by simpa using hnew)
  · exact .inr (.inr (heq ▸ hwaiting))
  · rcases List.mem_append.mp hcleared with hold | hnew
    · exact absurd hold hbefore.2
    · exact .inr (.inl (by simpa using hnew))

/-- Jobs are numbered in the order in which they are posted. -/
theorem Run.lt_of_posted (hp : Run h) {a b : List Event} {n m : JobId}
    (heq : h = a ++ .posted n :: b) (hm : .posted m ∈ b) : n < m := by
  obtain ⟨between, later, rfl⟩ := List.append_of_mem hm
  have hposted : Run (a ++ .posted n :: between ++ [.posted m]) := by
    rw [heq, ← List.cons_append, ← List.append_assoc, List.append_cons] at hp
    exact hp.of_append
  obtain ⟨hrun, hnumber⟩ := run_concat.mp hposted
  have hmem : n ∈ postedIn (a ++ .posted n :: between) :=
    List.mem_filterMap.mpr ⟨.posted n, by simp, rfl⟩
  rw [(inv_of_run hrun).numbered, List.mem_range] at hmem
  rwa [show m = _ from hnumber]

/-- A job is passed over only if it has been cleared. -/
theorem Run.skipped (hp : Run h) {a b c : List Event} {n m : JobId}
    (heq : h = a ++ .posted n :: b ++ .started m :: c) (hm : .posted m ∈ b) :
    .started n ∈ b ∨ .cleared n ∈ b := by
  have hstarted : Run (a ++ .posted n :: b ++ [.started m]) := by
    rw [heq, List.append_cons] at hp
    exact hp.of_append
  obtain ⟨hrun, hen⟩ := run_concat.mp hstarted
  rcases hrun.kept rfl with hn | hn | hn
  · exact .inl hn
  · exact .inr hn
  · -- It would be in front of the one that is started.
    obtain ⟨rest, hwaiting⟩ := List.head?_eq_some_iff.mp hen.1
    have hsorted : (m :: rest).Pairwise (· < ·) := by
      rw [← hwaiting]
      exact List.pairwise_lt_range.sublist
        ((List.sublist_append_right _ _).trans (inv_of_run hrun).inOrder)
    have hlt := hrun.lt_of_posted rfl hm
    rw [hwaiting] at hn
    rcases List.mem_cons.mp hn with rfl | hn
    · exact absurd hlt (Nat.lt_irrefl _)
    · exact absurd (hlt.trans (List.rel_of_pairwise_cons hsorted hn)) (Nat.lt_irrefl _)

end WebSshTool.Sequencer
