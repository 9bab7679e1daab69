import WebSshTool.FsApi.Clobber

/-!
# One request with nobody else around

What the documentation of a file operation says of it is said of a request
that has the file system to itself: its operations, one after the other, each
of which the system may refuse. That is a run of the requests of the internal
client in which only one has come.

Two things go wrong even so. `fs_rename` has to take its destination before it
can move anything there, and what it takes it with is a file, over which no
directory can be moved. And whatever a request has created stays when a later
operation fails.
-/

namespace WebSshTool.FsApi

open Files (Bytes Error)
open Inodes

variable {π ν : Type*}

namespace Alone

/-- An operation is carried out as far as it goes, or refused. -/
inductive Label (ν : Type*) where
  | perform (op : Op ν)
  | refuse (op : Op ν) (e : Error)
  deriving DecidableEq, Repr

def Label.op : Label ν → Op ν
  | .perform op | .refuse op _ => op

variable [DecidableEq ν] (os : Os π ν) (request : Request π)

def next (s : Volume ν × Phase π) : Label ν → Volume ν × Phase π
  | .perform op =>
      match perform os s.1 request s.2 op with
      | some (.ok s) => s
      | some (.error e) => (s.1, failed e s.2 op)
      | none => s
  | .refuse op e => (s.1, failed e s.2 op)

/-- The request from its call on. -/
def machine (v : Volume ν) : Machine (Volume ν × Phase π) (Label ν) where
  init := (v, .called)
  enabled s l := (perform os s.1 request s.2 l.op).isSome = true
  next := next os request

instance (v : Volume ν) (s : Volume ν × Phase π) (l : Label ν) :
    Decidable ((machine os request v).enabled s l) :=
  inferInstanceAs (Decidable ((perform os s.1 request s.2 l.op).isSome = true))

/-- The system refuses nothing. -/
def Willing (_ : Volume ν × Phase π) : Label ν → Prop
  | .perform _ => True
  | .refuse _ _ => False

instance (s : Volume ν × Phase π) (l : Label ν) : Decidable (Willing s l) := by
  cases l <;> unfold Willing <;> infer_instance

/-- Where a schedule leads. -/
abbrev after (v : Volume ν) (ls : List (Label ν)) : Volume ν × Phase π :=
  ls.foldl (next os request) (v, .called)

end Alone

/-! ## Among the others -/

section

variable [DecidableEq ν] {os : Os π ν} {request : Request π}

theorem attempt_alone {s : Volume ν × Phase π} (creator : Nat → Option Nat) (op : Op ν) :
    State.attempt os ⟨s.1, [(request, s.2)], creator⟩ 0 op = perform os s.1 request s.2 op :=
  rfl

/-- What a request does on its own it does as the only one of many. -/
theorem Alone.reachable {v : Volume ν} {s : Volume ν × Phase π}
    (hs : (Alone.machine os request v).Reachable s) :
    ∃ creator, (FsApi.machine os v).Reachable ⟨s.1, [(request, s.2)], creator⟩ := by
  induction hs with
  | init => exact ⟨_, Machine.Reaches.init.step (l := FsApi.Label.arrive request) trivial trivial⟩
  | @step s l hs hen _ ih =>
      obtain ⟨creator, hreach⟩ := ih
      cases l with
      | perform op =>
          have hstep := hreach.step (l := FsApi.Label.perform 0 op) hen trivial
          cases hperform : perform os s.1 request s.2 op with
          | none =>
              have hsome : (perform os s.1 request s.2 op).isSome = true := hen
              rw [hperform] at hsome
              exact absurd hsome (by simp)
          | some r =>
              cases r with
              | error e =>
                  refine ⟨creator, ?_⟩
                  have hattempt := (attempt_alone creator op).trans hperform
                  simpa [FsApi.machine, FsApi.next, hattempt, Alone.machine, Alone.next, hperform,
                    State.fail] using hstep
              | ok s' =>
                  have hattempt := (attempt_alone creator op).trans hperform
                  refine ⟨(State.setVolume ⟨s.1, [(request, s.2)], creator⟩ 0 s'.1).creator, ?_⟩
                  simpa [FsApi.machine, FsApi.next, hattempt, Alone.machine, Alone.next, hperform,
                    State.setVolume, State.setPhase] using hstep
      | refuse op e =>
          have hstep := hreach.step (l := FsApi.Label.refuse 0 op e) hen trivial
          exact ⟨creator, hstep⟩

end

/-! ## `fs.rename` -/

/-- What was in slot `x` is in slot `y`, and whatever else there was is what it
was. A directory is its number, so all that is below it has come along. -/
structure Moved (v : Volume ν) (x y : Slot ν) (v' : Volume ν) : Prop where
  gone : v'.entry x = none
  there : v'.entry y = v.entry x
  others : ∀ z, z ≠ x → z ≠ y → v'.entry z = v.entry z
  content : ∀ ino < v.count, v'.content ino = v.content ino

section

variable [DecidableEq ν] {os : Os π ν} {v : Volume ν} {src dest : π} {x y : Slot ν}

/-- `fs_rename` of what is in slot `x` into slot `y` returns, and with `Ok`, and
the paths lead where they led, to what they should. -/
structure Renames (os : Os π ν) (v : Volume ν) (src dest : π) (x y : Slot ν) : Prop where
  returns : ∃ ls r, (Alone.machine os (.rename src dest) v).Path Alone.Willing (v, .called) ls ∧
    (Alone.after os (.rename src dest) v ls).2 = .done r
  moves : ∀ ls r, (Alone.machine os (.rename src dest) v).Path Alone.Willing (v, .called) ls →
    (Alone.after os (.rename src dest) v ls).2 = .done r →
      r = .ok () ∧ Moved v x y (Alone.after os (.rename src dest) v ls).1 ∧
        os.slot (Alone.after os (.rename src dest) v ls).1.entry src = some x ∧
        os.slot (Alone.after os (.rename src dest) v ls).1.entry dest = some y

theorem perform_done (w : Volume ν) (request : Request π) (r : Except Error Unit) (op : Op ν) :
    perform os w request (.done r) op = none := by
  cases op <;> rfl

/-- A request that has returned does nothing more. -/
theorem Alone.path_of_done {request : Request π} {w : Volume ν}
    {ok : Volume ν × Phase π → Alone.Label ν → Prop} {r : Except Error Unit}
    {ls : List (Alone.Label ν)}
    (hrun : (Alone.machine os request v).Path ok (w, .done r) ls) : ls = [] := by
  cases ls with
  | nil => rfl
  | cons l ls =>
      have hen := hrun.1.1
      simp [Alone.machine, perform_done] at hen

variable (src) in
theorem createNew_free (hdest : os.slot v.entry dest = some y) (hfree : v.entry y = none) :
    Alone.next os (.rename src dest) (v, .called) (.perform .createNew) =
      (v.addFile y, .claimed v.count) := by
  simp [Alone.next, perform, atSlot, hdest, Volume.createNew, hfree, Except.map]

theorem perform_called_rename {w : Volume ν} {op : Op ν}
    (h : (perform os w (.rename src dest) .called op).isSome = true) : op = .createNew := by
  cases op <;> first | rfl | exact absurd h Bool.false_ne_true

theorem perform_claimed {w : Volume ν} {placeholder : Nat} {op : Op ν}
    (h : (perform os w (.rename src dest) (.claimed placeholder) op).isSome = true) :
    op = .rename := by
  cases op <;> first | rfl | exact absurd h Bool.false_ne_true

variable (os src dest) in
theorem next_claimed (w : Volume ν) (placeholder : Nat) :
    ∃ r, (Alone.next os (.rename src dest) (w, .claimed placeholder) (.perform .rename)).2 =
      .done r := by
  simp only [Alone.next, perform]
  cases atSlot os.slot w src fun x => atSlot os.slot w dest fun y => w.rename x y with
  | error e => exact ⟨.error e, rfl⟩
  | ok w' => exact ⟨.ok (), rfl⟩

/-- The two operations of `fs_rename`, when the first finds its slot free. -/
theorem rename_run (hdest : os.slot v.entry dest = some y) (hfree : v.entry y = none)
    {ls : List (Alone.Label ν)} {r : Except Error Unit}
    (hrun : (Alone.machine os (.rename src dest) v).Path Alone.Willing (v, .called) ls)
    (hdone : (Alone.after os (.rename src dest) v ls).2 = .done r) :
    ls = [.perform .createNew, .perform .rename] := by
  cases ls with
  | nil => exact absurd hdone (by simp [Alone.after])
  | cons l ls =>
      obtain ⟨⟨hen, hok⟩, hrest⟩ := hrun
      cases l with
      | refuse op e => exact absurd hok id
      | perform op =>
          obtain rfl := perform_called_rename hen
          have hclaimed := createNew_free src hdest hfree
          change (Alone.machine os (.rename src dest) v).Path Alone.Willing
            (Alone.next os (.rename src dest) (v, .called) (.perform .createNew)) ls at hrest
          rw [hclaimed] at hrest
          simp only [Alone.after, List.foldl_cons, hclaimed] at hdone
          cases ls with
          | nil => exact absurd hdone (by simp)
          | cons l ls =>
              obtain ⟨⟨hen, hok⟩, hrest⟩ := hrest
              cases l with
              | refuse op e => exact absurd hok id
              | perform op =>
                  obtain rfl := perform_claimed hen
                  obtain ⟨r', hr'⟩ := next_claimed os src dest (v.addFile y) v.count
                  change (Alone.machine os (.rename src dest) v).Path Alone.Willing
                    (Alone.next os (.rename src dest) (v.addFile y, .claimed v.count)
                      (.perform .rename)) ls at hrest
                  generalize hs : Alone.next os (.rename src dest) (v.addFile y, .claimed v.count)
                    (.perform .rename) = s at hrest hr'
                  obtain ⟨w, phase⟩ := s
                  obtain rfl : phase = .done r' := hr'
                  obtain rfl := Alone.path_of_done hrest
                  rfl

/-- The placeholder is a file: nothing but a file can be moved over it. -/
theorem rename_over_placeholder (hsrc : os.slot v.entry src = some x)
    (hdest : os.slot v.entry dest = some y) (hfree : v.entry y = none) {e : Entry}
    (he : v.entry x = some e) :
    Alone.next os (.rename src dest) (v.addFile y, .claimed v.count) (.perform .rename) =
      if e.isDirectory then (v.addFile y, .done (.error (.other 20)))
      else ((v.addFile y).move x y, .done (.ok ())) := by
  have hkept : ∀ z e, v.entry z = some e → (v.addFile y).entry z = some e :=
    fun z e hz => Volume.add_entry hfree hz
  have hsrc' := (Os.slot_of_agree hsrc fun z e hz _ _ => hkept z e hz).1
  have hdest' := (Os.slot_of_agree hdest fun z e hz _ _ => hkept z e hz).1
  have hplaceholder : (v.addFile y).entry y = some (.file v.count) :=
    (Volume.Opened.addFile hfree).entry
  have hne : e ≠ .file v.count := by
    intro heq
    have := v.bounded x e he
    rw [heq] at this
    exact absurd this (Nat.lt_irrefl _)
  have hrename : (v.addFile y).rename x y =
      if e.isDirectory then .error (.other 20) else .ok ((v.addFile y).move x y) := by
    simp only [Volume.rename, hkept x e he, hplaceholder, if_neg hne]
    cases e <;> simp [Entry.isDirectory]
  simp only [Alone.next, perform, atSlot, hsrc', hdest', hrename]
  cases e <;> simp [Entry.isDirectory, Except.map, failed]

/-- Both paths still lead to their slots once a file has been moved. -/
theorem slot_moved {p : π} {z : Slot ν} (hp : os.slot v.entry p = some z)
    (hfree : v.entry y = none) {ino : Nat} (hfile : v.entry x = some (.file ino)) :
    os.slot ((v.addFile y).move x y).entry p = some z := by
  refine (Os.slot_of_agree hp fun w e hw hdir _ => ?_).1
  have hwx : w ≠ x := by
    intro heq
    rw [heq, hfile] at hw
    obtain rfl := Option.some.inj hw
    exact absurd hdir (by simp [Entry.isFile])
  have hwy : w ≠ y := by
    intro heq
    rw [heq, hfree] at hw
    exact absurd hw (by simp)
  rw [Volume.move_entry_of_ne _ hwx hwy]
  exact Volume.add_entry hfree hw

theorem Moved.of_file (hfree : v.entry y = none) {ino : Nat}
    (hfile : v.entry x = some (.file ino)) : Moved v x y ((v.addFile y).move x y) := by
  have hxy : x ≠ y := by
    intro heq
    rw [heq, hfree] at hfile
    exact absurd hfile (by simp)
  exact {
    gone := Volume.move_entry_src _ hxy
    there := by
      rw [Volume.move_entry_dst, hfile]
      exact Volume.add_entry hfree hfile
    others := by
      intro z hzx hzy
      rw [Volume.move_entry_of_ne _ hzx hzy]
      exact (Volume.Opened.addFile hfree).others z hzy
    content := fun i hi => (Volume.Opened.addFile hfree).content i hi (Nat.ne_of_lt hi) }

/-- A rename to a free name succeeds for a file and fails for a directory,
behind which the placeholder stays. -/
theorem rename_moves_iff (hsrc : os.slot v.entry src = some x) {e : Entry}
    (he : v.entry x = some e) (hkind : ∀ ino, e ≠ .special ino)
    (hdest : os.slot v.entry dest = some y) (hfree : v.entry y = none) :
    Renames os v src dest x y ↔ e.isFile = true := by
  have hfirst := createNew_free src hdest hfree
  have hsecond := rename_over_placeholder hsrc hdest hfree he
  have hafter : Alone.after os (.rename src dest) v [.perform .createNew, .perform .rename] =
      if e.isDirectory then (v.addFile y, .done (.error (.other 20)))
      else ((v.addFile y).move x y, .done (.ok ())) := by
    simp only [Alone.after, List.foldl_cons, List.foldl_nil, hfirst, hsecond]
  have hpath : (Alone.machine os (.rename src dest) v).Path Alone.Willing (v, .called)
      [.perform .createNew, .perform .rename] := by
    refine ⟨⟨rfl, trivial⟩, ⟨?_, trivial⟩, trivial⟩
    simp only [Alone.machine, hfirst]
    rfl
  constructor
  · intro h
    cases e with
    | file ino => rfl
    | directory ino =>
        have hok := (h.moves _ (.error (.other 20)) hpath (by rw [hafter]; rfl)).1
        exact absurd hok (by simp)
    | special ino => exact absurd rfl (hkind ino)
  · intro hfile
    cases e with
    | file ino =>
        refine ⟨⟨_, .ok (), hpath, by rw [hafter]; rfl⟩, ?_⟩
        intro ls r hrun hdone
        obtain rfl := rename_run hdest hfree hrun hdone
        rw [hafter] at hdone ⊢
        exact ⟨(Phase.done.inj hdone).symm, .of_file hfree he, slot_moved hsrc hfree he,
          slot_moved hdest hfree he⟩
    | directory ino => exact absurd hfile (by simp [Entry.isFile])
    | special ino => exact absurd hfile (by simp [Entry.isFile])

end

/-- The rename of a file to a new name. -/
theorem rename_moves_iff_file :
    Renames (Os.plain Char) smallVolume ['a'] ['c'] (0, 'a') (0, 'c') ↔ true = true :=
  rename_moves_iff (e := .file 1) rfl rfl (fun _ h => by simp at h) rfl rfl

/-- The rename of a directory to a new name. -/
theorem rename_directory_stays :
    (Os.plain Char).slot smallVolume.entry ['s'] = some (0, 's') ∧
      smallVolume.entry (0, 's') = some (.directory 2) ∧
      (Os.plain Char).slot smallVolume.entry ['c'] = some (0, 'c') ∧
      smallVolume.entry (0, 'c') = none ∧
      ¬ Renames (Os.plain Char) smallVolume ['s'] ['c'] (0, 's') (0, 'c') := by
  refine ⟨rfl, rfl, rfl, rfl, fun h => ?_⟩
  have hpath : (Alone.machine (Os.plain Char) (.rename ['s'] ['c']) smallVolume).Path
      Alone.Willing (smallVolume, .called) [.perform .createNew, .perform .rename] := by
    decide
  have hok := (h.moves _ (.error (.other 20)) hpath rfl).1
  exact absurd hok (by simp)

/-! ## What a failed request leaves behind

Nothing removes a file again. A request that fails has left the volume alone if
and only if it has not come to create its destination. -/

/-- Where a request on files creates one. -/
def Request.dest : Request π → π
  | .writeFile path _ => path
  | .cp _ dest | .rename _ dest => dest

/-- `fs_cp` ends up in `copy_file`. -/
def Request.OfFile (os : Os π ν) (v : Volume ν) (request : Request π) : Prop :=
  ∀ src dest, request = .cp src dest →
    ∀ e, metadata os v src = .ok e → e.isDirectory = false

section

variable [DecidableEq ν] (os : Os π ν) (request : Request π)

/-- The operation is one that creates the destination, and nothing is there. -/
def Alone.Creates (s : Volume ν × Phase π) : Alone.Label ν → Prop
  | .perform .createNew | .perform .openDst =>
      ∃ y, os.slot s.1.entry request.dest = some y ∧ s.1.entry y = none
  | _ => False

/-- The destination has not been created. -/
def Phase.Uncreated : Phase π → Prop
  | .called | .opening none _ | .opening (some (.error _)) _ | .done _ => True
  | _ => False

end

section

variable [DecidableEq ν] {os : Os π ν} {request : Request π} {v : Volume ν}

/-- Who creates a file, and when. -/
theorem performs_createNew {w : Volume ν} {phase : Phase π}
    (h : (perform os w request phase .createNew).isSome = true) :
    phase = .called ∧ ((∃ path content, request = .writeFile path content) ∨
      ∃ src dest, request = .rename src dest) := by
  cases phase with
  | called =>
      cases request with
      | writeFile path content => exact ⟨rfl, .inl ⟨path, content, rfl⟩⟩
      | rename src dest => exact ⟨rfl, .inr ⟨src, dest, rfl⟩⟩
      | cp src dest => exact absurd h Bool.false_ne_true
  | _ => exact absurd h (by simp [perform])

theorem performs_openDst {w : Volume ν} {phase : Phase π}
    (h : (perform os w request phase .openDst).isSome = true) :
    ∃ source dest src, request = .cp source dest ∧ phase = .opening none src := by
  cases phase with
  | opening dst src =>
      cases dst with
      | some d => exact absurd h (by simp [perform])
      | none =>
          cases request with
          | cp source dest => exact ⟨source, dest, src, rfl, rfl⟩
          | writeFile path content => exact absurd h (by simp [perform])
          | rename source dest => exact absurd h (by simp [perform])
  | _ => exact absurd h (by simp [perform])

theorem createNew_isOk {w : Volume ν} {p : π} {r : Volume ν × Nat}
    (h : atSlot os.slot w p w.createNew = .ok r) :
    ∃ y, os.slot w.entry p = some y ∧ w.entry y = none := by
  obtain ⟨y, hy, hnew⟩ := atSlot_ok h
  exact ⟨y, hy, (createNew_ok hnew).1⟩

theorem createNew_isError {w : Volume ν} {p : π}
    (h : ¬ ∃ y, os.slot w.entry p = some y ∧ w.entry y = none) :
    ∃ e, atSlot os.slot w p w.createNew = .error e := by
  cases hr : atSlot os.slot w p w.createNew with
  | error e => exact ⟨e, rfl⟩
  | ok r => exact absurd (createNew_isOk hr) h

theorem uncreated_opened (e : Error) (src : Option (Except Error Nat)) :
    (opened (some (.error e)) src : Phase π).Uncreated := by
  cases src <;> trivial

theorem uncreated_openSrc {dst : Option (Except Error Nat)}
    (h : (Phase.opening dst none : Phase π).Uncreated) (r : Except Error Nat) :
    (opened dst (some r) : Phase π).Uncreated := by
  cases dst with
  | none => trivial
  | some d =>
      cases d with
      | error e => trivial
      | ok ino => exact h.elim

omit [DecidableEq ν] in
theorem uncreated_failed (e : Error) {phase : Phase π} (h : phase.Uncreated) (op : Op ν) :
    (failed e phase op).Uncreated := by
  unfold failed
  split
  · exact uncreated_opened e _
  · exact uncreated_openSrc h _
  · trivial

/-- Up to the creation of the destination an operation changes nothing. -/
theorem perform_uncreated (hfile : request.OfFile os v) {phase : Phase π}
    (h : phase.Uncreated) {op : Op ν}
    (hcreates : ¬ Alone.Creates os request (v, phase) (.perform op))
    {w : Volume ν} {phase' : Phase π}
    (hperform : perform os v request phase op = some (.ok (w, phase'))) :
    w = v ∧ phase'.Uncreated := by
  have hsome : (perform os v request phase op).isSome = true := by rw [hperform]; rfl
  cases op with
  | createNew =>
      obtain ⟨e, he⟩ := createNew_isError hcreates
      obtain ⟨rfl, ⟨path, content, rfl⟩ | ⟨src, dest, rfl⟩⟩ := performs_createNew hsome
      · have he : atSlot os.slot v path v.createNew = .error e := he
        exact absurd hperform (by simp [perform, he, Except.map])
      · have he : atSlot os.slot v dest v.createNew = .error e := he
        exact absurd hperform (by simp [perform, he, Except.map])
  | openDst =>
      obtain ⟨e, he⟩ := createNew_isError hcreates
      obtain ⟨source, dest, src, rfl, rfl⟩ := performs_openDst hsome
      have he : atSlot os.slot v dest v.createNew = .error e := he
      simp only [perform, he] at hperform
      obtain ⟨rfl, rfl⟩ := Prod.mk.inj (Except.ok.inj (Option.some.inj hperform))
      exact ⟨rfl, uncreated_opened e src⟩
  | metadata =>
      cases phase with
      | called =>
          cases request with
          | cp src dest =>
              obtain ⟨e, he, heq⟩ := map_ok (Option.some.inj hperform)
              obtain ⟨rfl, rfl⟩ := Prod.mk.inj heq
              have hkind := hfile src dest rfl e he
              refine ⟨rfl, ?_⟩
              cases e with
              | file ino => trivial
              | directory ino => exact absurd hkind (by simp [Entry.isDirectory])
              | special ino => trivial
          | writeFile path content => exact absurd hperform (by simp [perform])
          | rename src dest => exact absurd hperform (by simp [perform])
      | _ => exact absurd hperform (by simp [perform])
  | openSrc =>
      cases phase with
      | opening dst src =>
          cases src with
          | some r => exact absurd hperform (by simp [perform])
          | none =>
              cases request with
              | cp source dest =>
                  simp only [perform] at hperform
                  obtain ⟨rfl, rfl⟩ := Prod.mk.inj (Except.ok.inj (Option.some.inj hperform))
                  exact ⟨rfl, uncreated_openSrc h _⟩
              | writeFile path content => exact absurd hperform (by simp [perform])
              | rename source dest => exact absurd hperform (by simp [perform])
      | _ => exact absurd hperform (by simp [perform])
  | _ =>
      cases phase with
      | called => exact absurd hperform (by simp [perform])
      | opening dst src => exact absurd hperform (by simp [perform])
      | done r => exact absurd hperform (by simp [perform])
      | _ => exact h.elim

theorem perform_rename_ok {w w' : Volume ν} {phase phase' : Phase π}
    (h : perform os w request phase .rename = some (.ok (w', phase'))) :
    phase' = .done (.ok ()) := by
  cases phase with
  | claimed placeholder =>
      cases request with
      | rename src dest =>
          obtain ⟨_, -, heq⟩ := map_ok (Option.some.inj h)
          exact (Prod.mk.inj heq).2.symm
      | writeFile path content => exact absurd h (by simp [perform])
      | cp src dest => exact absurd h (by simp [perform])
  | _ => exact absurd h (by simp [perform])

/-- Apart from a rename no operation takes a name away. -/
theorem perform_keeps_entry {w w' : Volume ν} {phase phase' : Phase π} {op : Op ν}
    (hop : op ≠ .rename) (h : perform os w request phase op = some (.ok (w', phase')))
    {y : Slot ν} {e : Entry} (hy : w.entry y = some e) : w'.entry y = some e := by
  cases perform_change h with
  | still => exact hy
  | file slot hfree => exact Volume.add_entry hfree hy
  | directory hfree => exact Volume.add_entry hfree hy
  | truncated => exact hy
  | written => exact hy
  | renamed x y hrename => exact absurd hrename hop

/-- The request has succeeded, or something is there that was not. -/
def Alone.Marked (v : Volume ν) (s : Volume ν × Phase π) : Prop :=
  s.2 = .done (.ok ()) ∨ ∃ y e, v.entry y = none ∧ s.1.entry y = some e

theorem marked_next {s : Volume ν × Phase π} (h : Alone.Marked v s) {l : Alone.Label ν}
    (hen : (perform os s.1 request s.2 l.op).isSome = true) :
    Alone.Marked v (Alone.next os request s l) := by
  rcases h with hdone | ⟨y, e, hfree, hy⟩
  · rw [hdone, perform_done] at hen
    exact absurd hen (by simp)
  · cases l with
    | refuse op error => exact .inr ⟨y, e, hfree, hy⟩
    | perform op =>
        simp only [Alone.next]
        split
        · next t hperform =>
            obtain ⟨w, phase⟩ := t
            by_cases hop : op = .rename
            · subst hop
              exact .inl (perform_rename_ok hperform)
            · exact .inr ⟨y, e, hfree, perform_keeps_entry hop hperform hy⟩
        · exact .inr ⟨y, e, hfree, hy⟩
        · exact .inr ⟨y, e, hfree, hy⟩

theorem createNew_of_free {p : π} {y : Slot ν} (hy : os.slot v.entry p = some y)
    (hfree : v.entry y = none) :
    atSlot os.slot v p v.createNew = .ok (v.addFile y, v.count) := by
  simp only [atSlot, hy, Volume.createNew, hfree]

theorem marked_addFile {y : Slot ν} (hfree : v.entry y = none) (phase : Phase π) :
    Alone.Marked v (v.addFile y, phase) :=
  .inr ⟨y, _, hfree, (Volume.Opened.addFile hfree).entry⟩

theorem creates_marked {phase : Phase π} {l : Alone.Label ν}
    (hen : (perform os v request phase l.op).isSome = true)
    (h : Alone.Creates os request (v, phase) l) :
    Alone.Marked v (Alone.next os request (v, phase) l) := by
  cases l with
  | refuse op e => exact h.elim
  | perform op =>
      cases op with
      | createNew =>
          obtain ⟨y, hy, hfree⟩ := h
          obtain ⟨rfl, ⟨path, content, rfl⟩ | ⟨src, dest, rfl⟩⟩ := performs_createNew hen
          · have hnew := createNew_of_free (p := path) hy hfree
            simp only [Alone.next, perform, hnew, Except.map]
            exact marked_addFile hfree _
          · have hnew := createNew_of_free (p := dest) hy hfree
            simp only [Alone.next, perform, hnew, Except.map]
            exact marked_addFile hfree _
      | openDst =>
          obtain ⟨y, hy, hfree⟩ := h
          obtain ⟨source, dest, src, rfl, rfl⟩ := performs_openDst hen
          have hnew := createNew_of_free (p := dest) hy hfree
          simp only [Alone.next, perform, hnew]
          exact marked_addFile hfree _
      | _ => exact h.elim

/-- A request that has failed has left no trace if and only if it has not
created its destination before. -/
theorem failed_untouched_iff (hfile : request.OfFile os v) {ls : List (Alone.Label ν)}
    {e : Error}
    (hrun : (Alone.machine os request v).Path (fun _ _ => True) (v, .called) ls)
    (herror : (Alone.after os request v ls).2 = .done (.error e)) :
    (Alone.after os request v ls).1 = v ↔
      (Alone.machine os request v).Path (fun s l => ¬ Alone.Creates os request s l)
        (v, .called) ls := by
  have hkeep : ∀ (s : Volume ν × Phase π) l, s.1 = v ∧ s.2.Uncreated →
      (Alone.machine os request v).enabled s l → ¬ Alone.Creates os request s l →
        (Alone.next os request s l).1 = v ∧ (Alone.next os request s l).2.Uncreated := by
    rintro ⟨w, phase⟩ l ⟨rfl, huncreated⟩ _ hcreates
    cases l with
    | refuse op error => exact ⟨rfl, uncreated_failed error huncreated op⟩
    | perform op =>
        simp only [Alone.next]
        split
        · next t hperform => exact perform_uncreated hfile huncreated hcreates hperform
        · exact ⟨rfl, uncreated_failed _ huncreated op⟩
        · exact ⟨rfl, huncreated⟩
  have hbreak : ∀ (s : Volume ν × Phase π) l, s.1 = v ∧ s.2.Uncreated →
      (Alone.machine os request v).enabled s l → ¬ ¬ Alone.Creates os request s l →
        Alone.Marked v (Alone.next os request s l) := by
    rintro ⟨w, phase⟩ l ⟨rfl, _⟩ hen hcreates
    exact creates_marked hen (not_not.mp hcreates)
  rcases (Alone.machine os request v).path_or_doomed hkeep hbreak
    (fun s l h hen => marked_next h hen) (v, .called) ⟨rfl, trivial⟩ hrun with
    ⟨hpath, hvolume, -⟩ | ⟨hpath, hmarked⟩
  · exact ⟨fun _ => hpath, fun _ => hvolume⟩
  · refine ⟨fun hvolume => ?_, fun h => absurd h hpath⟩
    change Alone.Marked v (Alone.after os request v ls) at hmarked
    rcases hmarked with hdone | ⟨y, entry, hfree, hy⟩
    · rw [herror] at hdone
      exact absurd hdone (by simp)
    · rw [hvolume, hfree] at hy
      exact absurd hy (by simp)

end

/-- What would be written is there already. -/
theorem failed_untouched_iff_exists :
    (Alone.after (Os.plain Char) (.writeFile ['a'] [0x78]) smallVolume
        [.perform .createNew]).1 = smallVolume ↔
      (Alone.machine (Os.plain Char) (.writeFile ['a'] [0x78]) smallVolume).Path
        (fun s l => ¬ Alone.Creates (Os.plain Char) (.writeFile ['a'] [0x78]) s l)
        (smallVolume, .called) [.perform .createNew] :=
  failed_untouched_iff (e := .exists) (fun _ _ h => by simp at h) (by decide) rfl

/-- A rename of nothing, a copy of what may not be read and a write without
space for it. -/
theorem failed_leaves :
    (∃ ls, (Alone.machine (Os.plain Char) (.rename ['x'] ['c']) smallVolume).Path
        (fun _ _ => True) (smallVolume, .called) ls ∧
      (Alone.after (Os.plain Char) (.rename ['x'] ['c']) smallVolume ls).2 =
        .done (.error .notFound) ∧
      (Alone.after (Os.plain Char) (.rename ['x'] ['c']) smallVolume ls).1 ≠ smallVolume) ∧
    (∃ ls, (Alone.machine (Os.plain Char) (.cp ['a'] ['c']) smallVolume).Path
        (fun _ _ => True) (smallVolume, .called) ls ∧
      (Alone.after (Os.plain Char) (.cp ['a'] ['c']) smallVolume ls).2 =
        .done (.error (.other 13)) ∧
      (Alone.after (Os.plain Char) (.cp ['a'] ['c']) smallVolume ls).1 ≠ smallVolume) ∧
    ∃ ls, (Alone.machine (Os.plain Char) (.writeFile ['c'] [0x78]) smallVolume).Path
        (fun _ _ => True) (smallVolume, .called) ls ∧
      (Alone.after (Os.plain Char) (.writeFile ['c'] [0x78]) smallVolume ls).2 =
        .done (.error (.other 28)) ∧
      (Alone.after (Os.plain Char) (.writeFile ['c'] [0x78]) smallVolume ls).1 ≠
        smallVolume := by
  have hne : ∀ w : Volume Char, w.entry (0, 'c') ≠ none → w ≠ smallVolume := by
    intro w hw heq
    exact hw (heq ▸ rfl)
  refine ⟨⟨[.perform .createNew, .perform .rename], by decide, rfl, hne _ (by decide)⟩,
    ⟨[.perform .metadata, .perform .openDst, .refuse .openSrc (.other 13)], by decide, rfl,
      hne _ (by decide)⟩,
    ⟨[.perform .createNew, .refuse (.write 1) (.other 28)], by decide, rfl,
      hne _ (by decide)⟩⟩

end WebSshTool.FsApi
