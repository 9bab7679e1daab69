import Mathlib.Data.Set.Finite.Basic
import WebSshTool.Lib.Inodes

/-!
# Directory trees

What is found from a directory on, name by name, without going on through
links. Everything a directory tree is asked about is read off `find`: what is
below a directory, how deep it goes, and what a reader gets to see of it.

`Posix` is an `Os` of which more is known: what a path leads to, what a path
with one more name leads to, and that the entries of a directory can be listed.
-/

namespace WebSshTool.Inodes

open Files (Bytes)

variable {π ν : Type*}

/-! ## Names after names -/

/-- What is found from an entry on. -/
def find (es : Entries ν) : Entry → List ν → Option Entry
  | e, [] => some e
  | .directory d, name :: names => (es (d, name)).bind fun e => find es e names
  | .file _, _ :: _ | .special _, _ :: _ => none

/-- Nothing that was there is gone. -/
def Extends (es es' : Entries ν) : Prop := ∀ x e, es x = some e → es' x = some e

/-- The root is number 0. -/
def IsDirectory (es : Entries ν) (d : Nat) : Prop :=
  d = 0 ∨ ∃ x, es x = some (.directory d)

/-- A directory is found from another one on, or is the same. -/
def Below (es : Entries ν) (d c : Nat) : Prop :=
  ∃ names, find es (.directory d) names = some (.directory c)

section

variable {es es' : Entries ν}

theorem find_cons (d : Nat) (name : ν) (names : List ν) :
    find es (.directory d) (name :: names) =
      (es (d, name)).bind fun e => find es e names := rfl

theorem find_cons_of_entry {d : Nat} {name : ν} {e : Entry} (h : es (d, name) = some e)
    (names : List ν) : find es (.directory d) (name :: names) = find es e names := by
  rw [find_cons, h, Option.bind_some]

theorem find_cons_of_free {d : Nat} {name : ν} (h : es (d, name) = none) (names : List ν) :
    find es (.directory d) (name :: names) = none := by
  rw [find_cons, h, Option.bind_none]

theorem find_append (e : Entry) (names more : List ν) :
    find es e (names ++ more) = (find es e names).bind fun e => find es e more := by
  fun_induction find es e names with
  | case1 => rfl
  | case2 d name names ih =>
      rw [List.cons_append, find_cons]
      cases h : es (d, name) with
      | none => rfl
      | some e => simpa [h] using ih e
  | case3 => rfl
  | case4 => rfl

theorem find_mono (h : Extends es es') {e e' : Entry} {names : List ν}
    (hfind : find es e names = some e') : find es' e names = some e' := by
  fun_induction find es e names with
  | case1 => exact hfind
  | case2 d name names ih =>
      obtain ⟨f, hf, hrest⟩ := Option.bind_eq_some_iff.mp hfind
      rw [find_cons_of_entry (h _ _ hf)]
      exact ih f hrest
  | case3 => exact absurd hfind (by simp)
  | case4 => exact absurd hfind (by simp)

theorem find_last {e e' : Entry} {names : List ν}
    (h : find es e names = some e') : e' = e ∨ ∃ x, es x = some e' := by
  fun_induction find es e names with
  | case1 => exact .inl (Option.some.inj h).symm
  | case2 d name names ih =>
      obtain ⟨f, hf, hrest⟩ := Option.bind_eq_some_iff.mp h
      rcases ih f hrest with rfl | hx
      · exact .inr ⟨_, hf⟩
      · exact .inr hx
  | case3 => exact absurd h (by simp)
  | case4 => exact absurd h (by simp)

/-- What is found is decided by the directories on the way. -/
theorem find_congr {P : Nat → Prop}
    (hclosed : ∀ d name c, P d → es (d, name) = some (.directory c) → P c)
    (hagree : ∀ d name, P d → es' (d, name) = es (d, name)) {e : Entry}
    (he : ∀ d, e = .directory d → P d) (names : List ν) :
    find es' e names = find es e names := by
  fun_induction find es e names with
  | case1 => rfl
  | case2 d name names ih =>
      have hd := he d rfl
      rw [find_cons, hagree d name hd]
      cases h : es (d, name) with
      | none => rfl
      | some e =>
          rw [Option.bind_some, Option.bind_some]
          refine ih e fun c hc => ?_
          exact hclosed d name c hd (hc ▸ h)
  | case3 => rfl
  | case4 => rfl

theorem IsDirectory.mono (h : Extends es es') {d : Nat} (hd : IsDirectory es d) :
    IsDirectory es' d := by
  rcases hd with h0 | ⟨x, hx⟩
  · exact .inl h0
  · exact .inr ⟨x, h x _ hx⟩

theorem Below.refl (d : Nat) : Below es d d := ⟨[], rfl⟩

theorem Below.head {d c x : Nat} {name : ν} (h : es (d, name) = some (.directory c))
    (hx : Below es c x) : Below es d x := by
  obtain ⟨names, hnames⟩ := hx
  exact ⟨name :: names, by rw [find_cons_of_entry h, hnames]⟩

theorem Below.tail {d p c : Nat} {name : ν} (hp : Below es d p)
    (h : es (p, name) = some (.directory c)) : Below es d c := by
  obtain ⟨names, hnames⟩ := hp
  refine ⟨names ++ [name], ?_⟩
  rw [find_append, hnames, Option.bind_some, find_cons_of_entry h]
  rfl

theorem Below.mono (h : Extends es es') {d c : Nat} (hc : Below es d c) : Below es' d c := by
  obtain ⟨names, hnames⟩ := hc
  exact ⟨names, find_mono h hnames⟩

/-- The first step of a way down. -/
theorem Below.cases_head {d x : Nat} (h : Below es d x) :
    x = d ∨ ∃ name c, es (d, name) = some (.directory c) ∧ Below es c x := by
  obtain ⟨names, hnames⟩ := h
  cases names with
  | nil =>
      obtain rfl : d = x := by simpa [find] using hnames
      exact .inl rfl
  | cons name names =>
      obtain ⟨e, he, hrest⟩ := Option.bind_eq_some_iff.mp hnames
      refine .inr ⟨name, ?_⟩
      cases e with
      | directory c => exact ⟨c, he, names, hrest⟩
      | file i => cases names <;> exact absurd hrest (by simp [find])
      | special i => cases names <;> exact absurd hrest (by simp [find])

end

/-! ## Volumes -/

namespace Volume

/-- Names are found in directories there are, and finitely many in each. -/
structure Sound (v : Volume ν) : Prop where
  root : 0 < v.count
  inside : ∀ x e, v.entry x = some e → IsDirectory v.entry x.1
  finite : ∀ d, {name | v.entry (d, name) ≠ none}.Finite

/-- What a reader gets to see of an entry: not where it is kept. -/
def node (v : Volume ν) : Entry → Option Files.Node
  | .file i => some (.file (v.content i))
  | .directory _ => some .directory
  | .special _ => none

def seen (v : Volume ν) (e : Entry) (names : List ν) : Option Files.Node :=
  (find v.entry e names).bind v.node

/-- The tree below a directory is finite. -/
def FiniteTree (v : Volume ν) (d : Nat) : Prop :=
  {names | (find v.entry (.directory d) names).isSome = true}.Finite

/-- No way down is longer. -/
def Height (v : Volume ν) (e : Entry) (h : Nat) : Prop :=
  ∀ names, (find v.entry e names).isSome = true → names.length ≤ h

variable {v w : Volume ν}

theorem Sound.lt (hv : v.Sound) {d : Nat} (hd : IsDirectory v.entry d) : d < v.count := by
  rcases hd with h0 | ⟨x, hx⟩
  · rw [h0]
    exact hv.root
  · exact v.bounded x _ hx

theorem Sound.inside_lt (hv : v.Sound) {x : Slot ν} {e : Entry} (h : v.entry x = some e) :
    x.1 < v.count :=
  hv.lt (hv.inside x e h)

theorem Sound.new_free (hv : v.Sound) (name : ν) : v.entry (v.count, name) = none := by
  cases h : v.entry (v.count, name) with
  | none => rfl
  | some e => exact absurd (hv.inside_lt h) (Nat.lt_irrefl _)

theorem FiniteTree.height {d : Nat} (h : v.FiniteTree d) : ∃ n, v.Height (.directory d) n := by
  obtain ⟨n, hn⟩ := (h.image List.length).bddAbove
  exact ⟨n, fun names hnames => hn ⟨names, hnames, rfl⟩⟩

theorem Height.child {d h : Nat} {name : ν} {e : Entry} (hh : v.Height (.directory d) (h + 1))
    (he : v.entry (d, name) = some e) : v.Height e h := by
  intro names hnames
  have hlong := hh (name :: names) (by rw [find_cons_of_entry he]; exact hnames)
  exact Nat.le_of_succ_le_succ hlong

theorem Height.pos {d h : Nat} {name : ν} {e : Entry} (hh : v.Height (.directory d) h)
    (he : v.entry (d, name) = some e) : 0 < h :=
  hh [name] (by rw [find_cons_of_entry he]; rfl)

theorem find_bounded {e e' : Entry} (he : e.ino < v.count) {names : List ν}
    (h : find v.entry e names = some e') : e'.ino < v.count := by
  fun_induction find v.entry e names with
  | case1 =>
      obtain rfl := Option.some.inj h
      exact he
  | case2 d name names ih =>
      obtain ⟨f, hf, hrest⟩ := Option.bind_eq_some_iff.mp h
      exact ih f (v.bounded _ _ hf) hrest
  | case3 => exact absurd h (by simp)
  | case4 => exact absurd h (by simp)

theorem file_bounded {e : Entry} (he : e.ino < v.count) {names : List ν} {i : Nat}
    (h : find v.entry e names = some (.file i)) : i < v.count :=
  find_bounded he h

theorem seen_cons {d : Nat} {name : ν} {e : Entry} (h : v.entry (d, name) = some e)
    (names : List ν) : v.seen (.directory d) (name :: names) = v.seen e names := by
  rw [seen, find_cons_of_entry h, seen]

theorem seen_cons_of_free {d : Nat} {name : ν} (h : v.entry (d, name) = none)
    (names : List ν) : v.seen (.directory d) (name :: names) = none := by
  rw [seen, find_cons_of_free h, Option.bind_none]

theorem seen_nil (e : Entry) : v.seen e [] = v.node e := by
  rw [seen, find, Option.bind_some]

/-- What is found in the same place with the same contents looks the same. -/
theorem seen_congr {e : Entry} {names : List ν}
    (hfind : find w.entry e names = find v.entry e names)
    (hcontent : ∀ i, find v.entry e names = some (.file i) → w.content i = v.content i) :
    w.seen e names = v.seen e names := by
  rw [seen, seen, hfind]
  cases h : find v.entry e names with
  | none => rfl
  | some f =>
      cases f with
      | file i => simp only [Option.bind_some, node, hcontent i h]
      | directory d => rfl
      | special i => rfl

end Volume

/-! ## Systems -/

/-- A system in which a path is a path and a name. `stat` is what a path leads
to; the root is a directory without a slot. `list` is a directory in the order
in which it is read. -/
structure Posix (π ν : Type*) extends Os π ν where
  stat : Entries ν → π → Option Entry
  list : Entries ν → Nat → List ν
  stat_mono : ∀ es es' p e, Extends es es' → stat es p = some e → stat es' p = some e
  stat_entry : ∀ es p e, stat es p = some e → e = .directory 0 ∨ ∃ x, es x = some e
  slot_parent : ∀ es p x, slot es p = some x → IsDirectory es x.1
  slot_join : ∀ es p d name, stat es p = some (.directory d) →
    slot es (join p name) = some (d, name)
  stat_slot : ∀ es p x e, slot es p = some x → es x = some e →
    (∀ i, e ≠ .special i) → stat es p = some e
  follow_slot : ∀ es p x, slot es p = some x → (∀ i, es x ≠ some (.special i)) →
    follow es p = some x
  list_nodup : ∀ es d, (list es d).Nodup
  mem_list : ∀ es d, {name | es (d, name) ≠ none}.Finite →
    ∀ name, name ∈ list es d ↔ es (d, name) ≠ none

namespace Posix

/-- A directory as it is read: its names, and what each stands for. -/
def entries (os : Posix π ν) (es : Entries ν) (d : Nat) : List (ν × Entry) :=
  (os.list es d).filterMap fun name => (es (d, name)).map fun e => (name, e)

variable {os : Posix π ν} {v : Volume ν}

theorem entry_of_mem {es : Entries ν} {d : Nat} {p : ν × Entry} (h : p ∈ os.entries es d) :
    es (d, p.1) = some p.2 := by
  obtain ⟨name, -, hname⟩ := List.mem_filterMap.mp h
  obtain ⟨e, he, rfl⟩ := Option.map_eq_some_iff.mp hname
  exact he

theorem mem_entries (hv : v.Sound) {d : Nat} {name : ν} {e : Entry}
    (h : v.entry (d, name) = some e) : (name, e) ∈ os.entries v.entry d := by
  refine List.mem_filterMap.mpr ⟨name, ?_, by rw [h]; rfl⟩
  rw [os.mem_list _ _ (hv.finite d), h]
  simp

theorem entries_nodup (os : Posix π ν) (es : Entries ν) (d : Nat) :
    ((os.entries es d).map Prod.fst).Nodup := by
  have hsub : ∀ names : List ν,
      ((names.filterMap fun name => (es (d, name)).map fun e => (name, e)).map
        Prod.fst).Sublist names := by
    intro names
    induction names with
    | nil => exact .slnil
    | cons name names ih =>
        cases h : es (d, name) with
        | none => simpa [h] using ih.cons name
        | some e => simpa [h] using ih.cons_cons name
  exact (os.list_nodup es d).sublist (hsub _)

theorem parent_lt (hv : v.Sound) {p : π} {x : Slot ν} (h : os.slot v.entry p = some x) :
    x.1 < v.count :=
  hv.lt (os.slot_parent _ _ _ h)

theorem stat_directory {es : Entries ν} {p : π} {d : Nat}
    (h : os.stat es p = some (.directory d)) : IsDirectory es d := by
  rcases os.stat_entry _ _ _ h with heq | hx
  · exact .inl (Entry.directory.inj heq)
  · exact .inr hx

theorem stat_lt (hv : v.Sound) {p : π} {d : Nat}
    (h : os.stat v.entry p = some (.directory d)) : d < v.count :=
  hv.lt (stat_directory h)

theorem slot_mono {es es' : Entries ν} (h : Extends es es') {p : π} {x : Slot ν}
    (hx : os.slot es p = some x) : os.slot es' p = some x :=
  (Os.slot_of_agree hx fun y e hy _ _ => h y e hy).1

/-! ### Without links -/

theorem walk_snoc (es : Entries ν) (d : Nat) (names : List ν) (c : Nat) (name : ν)
    (h : find es (.directory d) names = some (.directory c)) :
    Os.walk es d (names ++ [name]) = some (c, name) := by
  induction names generalizing d with
  | nil =>
      obtain rfl : d = c := by simpa [find] using h
      rfl
  | cons first names ih =>
      obtain ⟨e, he, hrest⟩ := Option.bind_eq_some_iff.mp h
      cases e with
      | directory d' =>
          cases names with
          | nil =>
              obtain rfl : d' = c := by simpa [find] using hrest
              simp [Os.walk, he]
          | cons second names =>
              rw [List.cons_append, List.cons_append, Os.walk.eq_def]
              simp only [he]
              exact ih d' hrest
      | file i => cases names <;> exact absurd hrest (by simp [find])
      | special i => cases names <;> exact absurd hrest (by simp [find])

/-- Where a walk ends, one name is left to be looked up. -/
theorem walk_find (es : Entries ν) (d : Nat) (p : List ν) (x : Slot ν)
    (h : Os.walk es d p = some x) :
    ∃ names, p = names ++ [x.2] ∧ find es (.directory d) names = some (.directory x.1) := by
  fun_induction Os.walk es d p with
  | case1 => exact absurd h (by simp)
  | case2 d name =>
      obtain rfl := Option.some.inj h
      exact ⟨[], rfl, rfl⟩
  | case3 d name names _ d' hd' ih =>
      obtain ⟨rest, rfl, hrest⟩ := ih h
      exact ⟨name :: rest, rfl, by rw [find_cons_of_entry hd', hrest]⟩
  | case4 => exact absurd h (by simp)

/-- Paths are names from the root, of an alphabet that can be gone through. -/
def plain (names : List ν) (hnodup : names.Nodup) (hall : ∀ name, name ∈ names) :
    Posix (List ν) ν where
  toOs := Os.plain ν
  stat es p := find es (.directory 0) p
  list es d := names.filter fun name => (es (d, name)).isSome
  stat_mono _ _ _ _ h hfind := find_mono h hfind
  stat_entry _ _ _ h := find_last h
  slot_parent es p x h := by
    obtain ⟨names, -, hfind⟩ := walk_find es 0 p x h
    rcases find_last hfind with heq | hy
    · exact .inl (Entry.directory.inj heq)
    · exact .inr hy
  slot_join es p d name h := walk_snoc es 0 p d name h
  stat_slot es p x e h he _ := by
    obtain ⟨names, rfl, hfind⟩ := walk_find es 0 p x h
    rw [find_append, hfind, Option.bind_some, find_cons_of_entry he]
    rfl
  follow_slot _ _ _ h _ := h
  list_nodup es d := hnodup.filter _
  mem_list es d _ name := by simp [hall, Option.isSome_iff_ne_none]

end Posix

end WebSshTool.Inodes
