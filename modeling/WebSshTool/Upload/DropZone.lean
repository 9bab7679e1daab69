import WebSshTool.Lib.Machine
import Mathlib.Algebra.GroupWithZero.Nat
import Mathlib.Data.List.Perm.Subperm

/-!
# Directories that are dropped

`uploadItem` is a task for each entry. A file is uploaded when it has been got
hold of; a directory is made and read at the same time, and when both is done
there is a task for each of the entries that have been read. All tasks run side
by side, and what they wait for comes in any order.

A reader delivers the children of a directory in batches, and is asked for one.
`drop_complete_iff` says what comes of that: all files are uploaded, each once
and behind its directory, if and only if none of them, and none of the
directories above them, is in a batch that was not asked for.
-/

namespace WebSshTool.Upload.DropZone

/-- The children of a directory, in the order in which a reader delivers them. -/
inductive Entries (ν φ : Type*) where
  | nil
  | file (f : φ) (rest : Entries ν φ)
  | directory (name : ν) (children rest : Entries ν φ)
  /-- A batch ends, and another follows. -/
  | more (rest : Entries ν φ)
  deriving DecidableEq, Repr

/-- `MAX_DEPTH`. -/
def maxDepth : Nat := 2

/-- A call of `uploadItem` that has not returned. -/
inductive Task (ν φ : Type*) where
  /-- In `file`. -/
  | file (dest : List ν) (f : φ)
  /-- In `Promise.all`: what `fs.mkdir` has returned, if it has, whether it was
  no error, and whether `readEntries` has returned. -/
  | directory (newDest : List ν) (entries : Entries ν φ) (depth : Nat) (result : Option Bool)
      (read : Bool)
  deriving DecidableEq, Repr

inductive Event (ν φ : Type*) where
  | mkdir (dest : List ν)
  | upload (f : φ) (dest : List ν)
  deriving DecidableEq, Repr

structure State (ν φ : Type*) where
  tasks : List (Task ν φ)
  log : List (Event ν φ)
  deriving Repr

inductive Label where
  | file (i : Nat)
  | mkdir (i : Nat) (ok : Bool)
  | entries (i : Nat)
  /-- Something is rejected, and with it the task. -/
  | reject (i : Nat)
  deriving DecidableEq, Repr

variable {ν φ : Type*}

/-- The calls of `uploadItem` for what one call of `readEntries` delivers, each
up to where it waits. -/
def uploadItems (depth : Nat) (dest : List ν) : Entries ν φ → List (Task ν φ)
  | .nil => []
  | .file f rest => .file dest f :: uploadItems depth dest rest
  | .directory name children rest =>
      if maxDepth ≤ depth then uploadItems depth dest rest
      else .directory (dest ++ [name]) children depth none false :: uploadItems depth dest rest
  | .more _ => []

/-- Where a directory goes on when both promises are kept. -/
def Task.resume : Task ν φ → List (Task ν φ)
  | .directory newDest entries depth (some true) true => uploadItems (depth + 1) newDest entries
  | .directory _ _ _ (some false) true => []
  | t => [t]

def Label.index : Label → Nat
  | .file i | .mkdir i _ | .entries i | .reject i => i

/-- The task waits for this. -/
def Task.awaits : Task ν φ → Label → Bool
  | .file _ _, .file _ => true
  | .directory _ _ _ none _, .mkdir _ _ => true
  | .directory _ _ _ _ false, .entries _ => true
  | _, .reject _ => true
  | _, _ => false

/-- What becomes of the task, and what it does. -/
def Task.go : Task ν φ → Label → List (Task ν φ) × List (Event ν φ)
  | .file dest f, .file _ => ([], [.upload f dest])
  | .directory newDest entries depth none read, .mkdir _ ok =>
      ((Task.directory newDest entries depth (some ok) read).resume,
        if ok then [.mkdir newDest] else [])
  | .directory newDest entries depth result false, .entries _ =>
      ((Task.directory newDest entries depth result true).resume, [])
  | _, .reject _ => ([], [])
  | t, _ => ([t], [])

def enabled (s : State ν φ) (l : Label) : Prop :=
  ∃ t ∈ s.tasks[l.index]?, t.awaits l = true

instance (s : State ν φ) (l : Label) : Decidable (enabled s l) := by
  unfold enabled
  infer_instance

def next (s : State ν φ) (l : Label) : State ν φ :=
  match s.tasks[l.index]? with
  | some t =>
      ⟨s.tasks.take l.index ++ (t.go l).1 ++ s.tasks.drop (l.index + 1), s.log ++ (t.go l).2⟩
  | none => s

/-- What is dropped onto a directory. -/
def machine (dest : List ν) (entries : Entries ν φ) : Machine (State ν φ) Label :=
  ⟨⟨uploadItems 0 dest entries, []⟩, enabled, next⟩

instance (dest : List ν) (entries : Entries ν φ) (s : State ν φ) (l : Label) :
    Decidable ((machine dest entries).enabled s l) :=
  inferInstanceAs (Decidable (enabled s l))

/-! ## What is to come of it -/

/-- The files, each with the directory it belongs to. -/
def filesOf (dest : List ν) : Entries ν φ → List (φ × List ν)
  | .nil => []
  | .file f rest => (f, dest) :: filesOf dest rest
  | .directory name children rest => filesOf (dest ++ [name]) children ++ filesOf dest rest
  | .more rest => filesOf dest rest

/-- No directory is more than `depth` directories deep. -/
def Entries.Within : Nat → Entries ν φ → Prop
  | _, .nil => True
  | depth, .file _ rest => Within depth rest
  | depth, .directory _ children rest =>
      (∃ d, depth = d + 1 ∧ Within d children) ∧ Within depth rest
  | depth, .more rest => Within depth rest

def uploads (log : List (Event ν φ)) : List (φ × List ν) :=
  log.filterMap fun e =>
    match e with
    | .upload f dest => some (f, dest)
    | .mkdir _ => none

/-- Nothing is uploaded to a directory that is not there. -/
def Ordered (base : List ν) (log : List (Event ν φ)) : Prop :=
  ∀ before f dest after, log = before ++ .upload f dest :: after →
    dest = base ∨ .mkdir dest ∈ before

/-- Nothing fails. -/
def Succeeds (_ : State ν φ) : Label → Prop
  | .file _ | .mkdir _ true | .entries _ => True
  | .mkdir _ false | .reject _ => False

instance (s : State ν φ) (l : Label) : Decidable (Succeeds s l) := by
  unfold Succeeds
  split <;> infer_instance

/-- All files are uploaded, each once and behind its directory, in every run in
which nothing fails; and every such run comes to an end. -/
structure Complete (base : List ν) (entries : Entries ν φ) : Prop where
  ordered : ∀ s, (machine base entries).Reaches Succeeds s → Ordered base s.log
  once : ∀ s, (machine base entries).Reaches Succeeds s →
    (uploads s.log).Subperm (filesOf base entries)
  all : ∀ s, (machine base entries).Reaches Succeeds s → s.tasks = [] →
    (uploads s.log).Perm (filesOf base entries)
  ends : ∃ n, ∀ ls, (machine base entries).Path Succeeds (machine base entries).init ls →
    ls.length ≤ n
  goesOn : ∀ s, (machine base entries).Reaches Succeeds s → s.tasks ≠ [] →
    ∃ l, enabled s l ∧ Succeeds s l

/-- There is no file. -/
def Entries.Fileless : Entries ν φ → Prop
  | .nil => True
  | .file _ _ => False
  | .directory _ children rest => Fileless children ∧ Fileless rest
  | .more rest => Fileless rest

/-- All files and the directories above them are in first batches. -/
def Entries.Delivered : Entries ν φ → Prop
  | .nil => True
  | .file _ rest => Delivered rest
  | .directory _ children rest => Delivered children ∧ Delivered rest
  | .more rest => Fileless rest

/-! ## Tasks -/

/-- What is uploaded of the entries one call of `readEntries` delivers. -/
def uploadsOf (depth : Nat) (dest : List ν) : Entries ν φ → List (φ × List ν)
  | .nil => []
  | .file f rest => (f, dest) :: uploadsOf depth dest rest
  | .directory name children rest =>
      if maxDepth ≤ depth then uploadsOf depth dest rest
      else uploadsOf (depth + 1) (dest ++ [name]) children ++ uploadsOf depth dest rest
  | .more _ => []

/-- How many things they wait for. -/
def weightOf (depth : Nat) : Entries ν φ → Nat
  | .nil => 0
  | .file _ rest => 1 + weightOf depth rest
  | .directory _ children rest =>
      if maxDepth ≤ depth then weightOf depth rest
      else 2 + weightOf (depth + 1) children + weightOf depth rest
  | .more _ => 0

def Task.pending : Task ν φ → List (φ × List ν)
  | .file dest f => [(f, dest)]
  | .directory newDest entries depth _ _ => uploadsOf (depth + 1) newDest entries

def Task.weight : Task ν φ → Nat
  | .file _ _ => 1
  | .directory _ entries depth result read =>
      (if result = none then 1 else 0) + (if read then 0 else 1) + weightOf (depth + 1) entries

/-- It has not been refused its directory, and there is something it waits for. -/
def Task.Waits : Task ν φ → Prop
  | .file _ _ => True
  | .directory _ _ _ result read => result ≠ some false ∧ (result = none ∨ read = false)

/-- There is the directory it is for, or the one it has made. -/
def Task.Placed (base : List ν) (log : List (Event ν φ)) : Task ν φ → Prop
  | .file dest _ => dest = base ∨ .mkdir dest ∈ log
  | .directory newDest _ _ result _ => result = some true → .mkdir newDest ∈ log

theorem uploadItems_pending (depth : Nat) (dest : List ν) (entries : Entries ν φ) :
    (uploadItems depth dest entries).flatMap Task.pending = uploadsOf depth dest entries := by
  induction entries with
  | nil | more => rfl
  | file f rest ih => exact congrArg ((f, dest) :: ·) ih
  | directory name children rest _ ih =>
      unfold uploadItems uploadsOf
      split
      · exact ih
      · rw [List.flatMap_cons, ih]
        rfl

theorem uploadItems_weight (depth : Nat) (dest : List ν) (entries : Entries ν φ) :
    ((uploadItems depth dest entries).map Task.weight).sum = weightOf depth entries := by
  induction entries with
  | nil | more => rfl
  | file f rest ih =>
      rw [uploadItems, List.map_cons, List.sum_cons, ih]
      rfl
  | directory name children rest _ ih =>
      unfold uploadItems weightOf
      split
      · exact ih
      · rw [List.map_cons, List.sum_cons, ih]
        rfl

theorem uploadItems_waits {depth : Nat} {dest : List ν} {entries : Entries ν φ} {t : Task ν φ}
    (ht : t ∈ uploadItems depth dest entries) : t.Waits := by
  induction entries with
  | nil | more => cases ht
  | file f rest ih =>
      rcases List.mem_cons.mp ht with rfl | ht
      · trivial
      · exact ih ht
  | directory name children rest _ ih =>
      unfold uploadItems at ht
      split at ht
      · exact ih ht
      · rcases List.mem_cons.mp ht with rfl | ht
        · exact ⟨nofun, .inl rfl⟩
        · exact ih ht

theorem uploadItems_placed {base dest : List ν} {log : List (Event ν φ)}
    (hdest : dest = base ∨ .mkdir dest ∈ log) {depth : Nat} {entries : Entries ν φ}
    {t : Task ν φ} (ht : t ∈ uploadItems depth dest entries) : t.Placed base log := by
  induction entries with
  | nil | more => cases ht
  | file f rest ih =>
      rcases List.mem_cons.mp ht with rfl | ht
      · exact hdest
      · exact ih ht
  | directory name children rest _ ih =>
      unfold uploadItems at ht
      split at ht
      · exact ih ht
      · rcases List.mem_cons.mp ht with rfl | ht
        · exact nofun
        · exact ih ht

theorem Task.Placed.mono {base : List ν} {log : List (Event ν φ)} {t : Task ν φ}
    (h : t.Placed base log) (more : List (Event ν φ)) : t.Placed base (log ++ more) := by
  cases t with
  | file dest f => exact h.imp_right fun hm => List.mem_append_left more hm
  | directory => exact fun hr => List.mem_append_left more (h hr)

/-! ## One step of a task -/

/-- A task that waits and whose turn it is: a file, or a directory with one of
two things to come, of which the other has come or not. -/
theorem awaits_cases {s : State ν φ} {t : Task ν φ} {l : Label} (hw : t.Waits)
    (ha : t.awaits l = true) (hs : Succeeds s l) :
    (∃ dest f, t = .file dest f ∧ t.go l = ([], [.upload f dest])) ∨
    ∃ newDest entries depth,
      (t = .directory newDest entries depth none false ∧
        (t.go l = ([.directory newDest entries depth (some true) false], [.mkdir newDest]) ∨
          t.go l = ([.directory newDest entries depth none true], []))) ∨
      (t = .directory newDest entries depth none true ∧
        t.go l = (uploadItems (depth + 1) newDest entries, [.mkdir newDest])) ∨
      (t = .directory newDest entries depth (some true) false ∧
        t.go l = (uploadItems (depth + 1) newDest entries, [])) := by
  match t, l, hw, ha, hs with
  | .file dest f, .file i, _, _, _ => exact .inl ⟨dest, f, rfl, rfl⟩
  | .directory newDest entries depth none false, .mkdir i true, _, _, _ =>
      exact .inr ⟨newDest, entries, depth, .inl ⟨rfl, .inl rfl⟩⟩
  | .directory newDest entries depth none true, .mkdir i true, _, _, _ =>
      exact .inr ⟨newDest, entries, depth, .inr (.inl ⟨rfl, rfl⟩)⟩
  | .directory newDest entries depth none false, .entries i, _, _, _ =>
      exact .inr ⟨newDest, entries, depth, .inl ⟨rfl, .inr rfl⟩⟩
  | .directory newDest entries depth (some true) false, .entries i, _, _, _ =>
      exact .inr ⟨newDest, entries, depth, .inr (.inr ⟨rfl, rfl⟩)⟩
  | .directory newDest entries depth (some false) _, _, hw, _, _ => exact absurd rfl hw.1

theorem go_pending {s : State ν φ} {t : Task ν φ} {l : Label} (hw : t.Waits)
    (ha : t.awaits l = true) (hs : Succeeds s l) :
    uploads (t.go l).2 ++ (t.go l).1.flatMap Task.pending = t.pending := by
  obtain ⟨dest, f, rfl, hgo⟩ | ⟨newDest, entries, depth, ⟨rfl, hgo | hgo⟩ | ⟨rfl, hgo⟩ |
    ⟨rfl, hgo⟩⟩ := awaits_cases hw ha hs <;> rw [hgo]
  · rfl
  · exact List.append_nil _
  · exact List.append_nil _
  · exact uploadItems_pending _ _ _
  · exact uploadItems_pending _ _ _

theorem go_weight {s : State ν φ} {t : Task ν φ} {l : Label} (hw : t.Waits)
    (ha : t.awaits l = true) (hs : Succeeds s l) :
    ((t.go l).1.map Task.weight).sum + 1 = t.weight := by
  obtain ⟨dest, f, rfl, hgo⟩ | ⟨newDest, entries, depth, ⟨rfl, hgo | hgo⟩ | ⟨rfl, hgo⟩ |
    ⟨rfl, hgo⟩⟩ := awaits_cases hw ha hs <;> rw [hgo]
  · rfl
  · simp [Task.weight]
    omega
  · simp [Task.weight]
    omega
  · rw [uploadItems_weight]
    simp [Task.weight]
    omega
  · rw [uploadItems_weight]
    simp [Task.weight]
    omega

theorem go_waits {s : State ν φ} {t : Task ν φ} {l : Label} (hw : t.Waits)
    (ha : t.awaits l = true) (hs : Succeeds s l) {t' : Task ν φ} (ht' : t' ∈ (t.go l).1) :
    t'.Waits := by
  obtain ⟨dest, f, rfl, hgo⟩ | ⟨newDest, entries, depth, ⟨rfl, hgo | hgo⟩ | ⟨rfl, hgo⟩ |
    ⟨rfl, hgo⟩⟩ := awaits_cases hw ha hs <;> rw [hgo] at ht'
  · cases ht'
  · obtain rfl := List.mem_singleton.mp ht'
    exact ⟨nofun, .inr rfl⟩
  · obtain rfl := List.mem_singleton.mp ht'
    exact ⟨nofun, .inl rfl⟩
  · exact uploadItems_waits ht'
  · exact uploadItems_waits ht'

theorem go_placed {s : State ν φ} {t : Task ν φ} {l : Label} (hw : t.Waits)
    (ha : t.awaits l = true) (hs : Succeeds s l) {base : List ν} {log : List (Event ν φ)}
    (hp : t.Placed base log) :
    (∀ t' ∈ (t.go l).1, t'.Placed base (log ++ (t.go l).2)) ∧
      ∀ f dest, .upload f dest ∈ (t.go l).2 → dest = base ∨ .mkdir dest ∈ log := by
  obtain ⟨dest, f, rfl, hgo⟩ | ⟨newDest, entries, depth, ⟨rfl, hgo | hgo⟩ | ⟨rfl, hgo⟩ |
    ⟨rfl, hgo⟩⟩ := awaits_cases hw ha hs <;> rw [hgo]
  · refine ⟨nofun, fun f' dest' hm => ?_⟩
    obtain ⟨rfl, rfl⟩ := Event.upload.inj (List.mem_singleton.mp hm)
    exact hp
  · refine ⟨fun t' ht' => ?_, fun _ _ hm => by cases List.mem_singleton.mp hm⟩
    obtain rfl := List.mem_singleton.mp ht'
    exact fun _ => List.mem_append_right log (.head _)
  · refine ⟨fun t' ht' => ?_, nofun⟩
    obtain rfl := List.mem_singleton.mp ht'
    exact nofun
  · refine ⟨fun t' ht' => ?_, fun _ _ hm => by cases List.mem_singleton.mp hm⟩
    exact uploadItems_placed (.inr (List.mem_append_right log (.head _))) ht'
  · refine ⟨fun t' ht' => ?_, nofun⟩
    exact uploadItems_placed (.inr (List.mem_append_left _ (hp rfl))) ht'

/-! ## A whole run -/

structure Inv (base : List ν) (entries : Entries ν φ) (s : State ν φ) : Prop where
  perm : (uploads s.log ++ s.tasks.flatMap Task.pending).Perm (uploadsOf 0 base entries)
  waits : ∀ t ∈ s.tasks, t.Waits
  placed : ∀ t ∈ s.tasks, t.Placed base s.log
  ordered : Ordered base s.log

/-- All that is still waited for. -/
def State.weight (s : State ν φ) : Nat := (s.tasks.map Task.weight).sum

@[simp] theorem uploads_append (log log' : List (Event ν φ)) :
    uploads (log ++ log') = uploads log ++ uploads log' :=
  List.filterMap_append ..

/-- A step is one of a task among the others. -/
theorem next_cases {s : State ν φ} {l : Label} (hen : enabled s l) :
    ∃ before t after, s.tasks = before ++ t :: after ∧ t.awaits l = true ∧
      next s l = ⟨before ++ (t.go l).1 ++ after, s.log ++ (t.go l).2⟩ := by
  obtain ⟨t, ht, ha⟩ := hen
  obtain ⟨hi, hti⟩ := List.getElem?_eq_some_iff.mp ht
  have hsplit : s.tasks = s.tasks.take l.index ++ t :: s.tasks.drop (l.index + 1) := by
    rw [← hti, List.getElem_cons_drop, List.take_append_drop]
  refine ⟨_, t, _, hsplit, ha, ?_⟩
  have ht' : s.tasks[l.index]? = some t := ht
  simp only [next, ht']

theorem Ordered.append {base : List ν} {log more : List (Event ν φ)} (h : Ordered base log)
    (hmore : ∀ f dest, .upload f dest ∈ more → dest = base ∨ .mkdir dest ∈ log) :
    Ordered base (log ++ more) := by
  intro before f dest after heq
  rcases List.append_eq_append_iff.mp heq with ⟨between, rfl, hrest⟩ | ⟨between, rfl, hrest⟩
  · have hmem : Event.upload f dest ∈ more := by
      rw [hrest]
      simp
    exact (hmore f dest hmem).imp_right fun hm => List.mem_append_left _ hm
  · cases between with
    | nil =>
        have hmem : Event.upload f dest ∈ more := by
          rw [List.nil_append] at hrest
          rw [← hrest]
          exact .head _
        exact (hmore f dest hmem).imp_right fun hm => by simpa using hm
    | cons e between =>
        obtain ⟨rfl, -⟩ := List.cons.inj hrest
        exact h before f dest between rfl

theorem inv_next {base : List ν} {entries : Entries ν φ} {s : State ν φ} {l : Label}
    (h : Inv base entries s) (hen : enabled s l) (hs : Succeeds s l) :
    Inv base entries (next s l) := by
  obtain ⟨before, t, after, htasks, ha, hnext⟩ := next_cases hen
  have hmem : t ∈ s.tasks := by simp [htasks]
  have hw := h.waits t hmem
  obtain ⟨hplaced, hlog⟩ := go_placed hw ha hs (h.placed t hmem)
  rw [hnext]
  refine ⟨?_, ?_, ?_, h.ordered.append hlog⟩
  · have hpending := go_pending hw ha hs
    refine List.Perm.trans ?_ h.perm
    simp only [uploads_append, List.flatMap_append, htasks, List.flatMap_cons, ← hpending,
      List.append_assoc]
    refine List.Perm.append_left _ ?_
    exact List.perm_append_comm_assoc _ _ _
  · intro t' ht'
    simp only [List.mem_append] at ht'
    rcases ht' with (ht' | ht') | ht'
    · exact h.waits t' (by simp [htasks, ht'])
    · exact go_waits hw ha hs ht'
    · exact h.waits t' (by simp [htasks, ht'])
  · intro t' ht'
    simp only [List.mem_append] at ht'
    rcases ht' with (ht' | ht') | ht'
    · exact (h.placed t' (by simp [htasks, ht'])).mono _
    · exact hplaced t' ht'
    · exact (h.placed t' (by simp [htasks, ht'])).mono _

theorem weight_next {base : List ν} {entries : Entries ν φ} {s : State ν φ} {l : Label}
    (h : Inv base entries s) (hen : enabled s l) (hs : Succeeds s l) :
    (next s l).weight + 1 = s.weight := by
  obtain ⟨before, t, after, htasks, ha, hnext⟩ := next_cases hen
  have hgo := go_weight (h.waits t (by simp [htasks])) ha hs
  rw [hnext, State.weight, State.weight, htasks]
  simp only [List.map_append, List.sum_append, List.map_cons, List.sum_cons, ← hgo]
  omega

theorem inv_init (base : List ν) (entries : Entries ν φ) :
    Inv base entries (machine base entries).init where
  perm := by
    rw [← uploadItems_pending]
    exact List.Perm.refl _
  waits _ ht := uploadItems_waits ht
  placed _ ht := uploadItems_placed (.inl rfl) ht
  ordered before f dest after heq := by simp [machine] at heq

theorem inv_of_reaches {base : List ν} {entries : Entries ν φ} {s : State ν φ}
    (hs : (machine base entries).Reaches Succeeds s) : Inv base entries s :=
  hs.invariant (inv_init base entries) fun _ _ _ h hen hok => inv_next h hen hok

theorem length_path {base : List ν} {entries : Entries ν φ} {ls : List Label} :
    ∀ {s : State ν φ}, Inv base entries s → (machine base entries).Path Succeeds s ls →
      ls.length ≤ s.weight := by
  induction ls with
  | nil => exact fun _ _ => Nat.zero_le _
  | cons l ls ih =>
      intro s h hpath
      have hrest := ih (inv_next h hpath.1.1 hpath.1.2) hpath.2
      have hweight := weight_next h hpath.1.1 hpath.1.2
      rw [List.length_cons]
      omega

theorem exists_step {base : List ν} {entries : Entries ν φ} {s : State ν φ}
    (h : Inv base entries s) (hne : s.tasks ≠ []) : ∃ l, enabled s l ∧ Succeeds s l := by
  obtain ⟨t, rest, htasks⟩ := List.exists_cons_of_ne_nil hne
  have hw := h.waits t (by simp [htasks])
  have hhead : s.tasks[0]? = some t := by rw [htasks]; rfl
  match t, hw with
  | .file _ _, _ => exact ⟨.file 0, ⟨_, hhead, rfl⟩, trivial⟩
  | .directory _ _ _ none _, _ => exact ⟨.mkdir 0 true, ⟨_, hhead, rfl⟩, trivial⟩
  | .directory _ _ _ (some true) false, _ => exact ⟨.entries 0, ⟨_, hhead, rfl⟩, trivial⟩
  | .directory _ _ _ (some true) true, hw => exact absurd hw.2 (by simp)
  | .directory _ _ _ (some false) _, hw => exact absurd rfl hw.1

/-- Every run can be carried to its end. -/
theorem exists_end {base : List ν} {entries : Entries ν φ} :
    ∀ (n : Nat) (s : State ν φ), s.weight ≤ n → (machine base entries).Reaches Succeeds s →
      ∃ t, (machine base entries).Reaches Succeeds t ∧ t.tasks = [] := by
  intro n
  induction n with
  | zero =>
      intro s hn hs
      by_cases hne : s.tasks = []
      · exact ⟨s, hs, hne⟩
      · obtain ⟨l, hen, hok⟩ := exists_step (inv_of_reaches hs) hne
        have := weight_next (inv_of_reaches hs) hen hok
        omega
  | succ n ih =>
      intro s hn hs
      by_cases hne : s.tasks = []
      · exact ⟨s, hs, hne⟩
      · obtain ⟨l, hen, hok⟩ := exists_step (inv_of_reaches hs) hne
        have hweight := weight_next (inv_of_reaches hs) hen hok
        exact ih (next s l) (by omega) (hs.step hen hok)

/-! ## What is left out -/

theorem filesOf_eq_nil_iff {dest : List ν} {entries : Entries ν φ} :
    filesOf dest entries = [] ↔ entries.Fileless := by
  induction entries generalizing dest with
  | nil => exact iff_of_true rfl trivial
  | file f rest => exact iff_of_false nofun id
  | directory name children rest ih ih' =>
      rw [filesOf, List.append_eq_nil_iff, ih, ih']
      exact Iff.rfl
  | more rest ih => exact ih

theorem uploadsOf_sublist (depth : Nat) (dest : List ν) (entries : Entries ν φ) :
    (uploadsOf depth dest entries).Sublist (filesOf dest entries) := by
  induction entries generalizing depth dest with
  | nil => exact .slnil
  | file f rest ih => exact (ih depth dest).cons_cons _
  | directory name children rest ih ih' =>
      unfold uploadsOf filesOf
      split
      · exact (ih' depth dest).trans (List.sublist_append_right _ _)
      · exact (ih _ _).append (ih' _ _)
  | more rest => exact List.nil_sublist _

/-- Nothing is left out if and only if there is no file in a later batch. -/
theorem uploadsOf_eq_iff {depth d : Nat} (hd : depth + d = maxDepth) {dest : List ν}
    {entries : Entries ν φ} (hwithin : entries.Within d) :
    uploadsOf depth dest entries = filesOf dest entries ↔ entries.Delivered := by
  induction entries generalizing depth d dest with
  | nil => exact iff_of_true rfl trivial
  | file f rest ih =>
      rw [uploadsOf, filesOf, List.cons_inj_right, ih hd hwithin]
      exact Iff.rfl
  | directory name children rest ih ih' =>
      obtain ⟨⟨d, rfl, hchildren⟩, hrest⟩ := hwithin
      rw [uploadsOf, filesOf, if_neg (by omega)]
      have hsub := uploadsOf_sublist (depth + 1) (dest ++ [name]) children
      have hsub' := uploadsOf_sublist depth dest rest
      constructor
      · intro h
        have hlen := congrArg List.length h
        simp only [List.length_append] at hlen
        have hle := hsub.length_le
        have hle' := hsub'.length_le
        exact ⟨(ih (by omega) hchildren).mp (hsub.eq_of_length (by omega)),
          (ih' hd hrest).mp (hsub'.eq_of_length (by omega))⟩
      · rintro ⟨h, h'⟩
        rw [(ih (by omega) hchildren).mpr h, (ih' hd hrest).mpr h']
  | more rest =>
      rw [uploadsOf, eq_comm]
      exact filesOf_eq_nil_iff

/-- What is dropped and not too deep is uploaded completely if and only if no
file, and no directory with one, is in a batch that was not asked for. -/
theorem drop_complete_iff (base : List ν) {entries : Entries ν φ}
    (hwithin : entries.Within maxDepth) : Complete base entries ↔ entries.Delivered := by
  have hall : uploadsOf 0 base entries = filesOf base entries ↔ entries.Delivered :=
    uploadsOf_eq_iff (Nat.zero_add _) hwithin
  rw [← hall]
  constructor
  · intro h
    obtain ⟨s, hs, hend⟩ := exists_end _ _ (Nat.le_refl _)
      (.init : (machine base entries).Reaches Succeeds _)
    have hperm := (inv_of_reaches hs).perm
    rw [hend, List.flatMap_nil, List.append_nil] at hperm
    exact (uploadsOf_sublist 0 base entries).eq_of_length
      (hperm.symm.trans (h.all s hs hend)).length_eq
  · intro h
    refine ⟨fun s hs => (inv_of_reaches hs).ordered, fun s hs => ?_, fun s hs hend => ?_,
      ⟨_, fun ls hpath => length_path (inv_init base entries) hpath⟩,
      fun s hs hne => exists_step (inv_of_reaches hs) hne⟩
    · have hperm := (inv_of_reaches hs).perm
      rw [h] at hperm
      exact (List.sublist_append_left _ _).subperm.trans hperm.subperm
    · have hperm := (inv_of_reaches hs).perm
      rwa [h, hend, List.flatMap_nil, List.append_nil] at hperm

/-- A directory of two files, in one batch or in two. -/
def oneBatch : Entries Nat Nat := .directory 1 (.file 2 (.file 3 .nil)) .nil

def twoBatches : Entries Nat Nat := .directory 1 (.file 2 (.more (.file 3 .nil))) .nil

theorem drop_complete_iff_one : Complete [0] oneBatch :=
  (drop_complete_iff [0] (by simp [oneBatch, Entries.Within, maxDepth])).mpr
    (by simp [oneBatch, Entries.Delivered])

/-- Of the second batch nothing is uploaded. -/
theorem drop_loses :
    ¬ ∀ entries : Entries Nat Nat, entries.Within maxDepth → Complete [0] entries := by
  intro h
  have hs : (machine [0] twoBatches).Reaches Succeeds
      ([Label.mkdir 0 true, .entries 0, .file 0].foldl next (machine [0] twoBatches).init) :=
    Machine.reaches_of_path (by decide)
  have hwithin : twoBatches.Within maxDepth := by simp [twoBatches, Entries.Within, maxDepth]
  have hperm := (h twoBatches hwithin).all _ hs rfl
  exact absurd hperm.length_eq (by decide)

end WebSshTool.Upload.DropZone
