import WebSshTool.Lib.Files

/-!
# Files by number

A volume in which a file is what its number says and a name is only where it
is found: a slot is a name in a directory, and an entry is what the slot holds.
A file keeps its number when it is moved, and a handle on it goes on working
wherever it is, so who made a file and who may write to it can be said of the
number.

How a path comes to a slot is the business of an operating system. `Os` asks
little of it: where a walk that succeeds ends is decided by the directories
and links it reads on the way, and by nothing else on the volume.
-/

namespace WebSshTool.Inodes

open Files (Bytes Error writeAt)

/-- What a name stands for. A special entry is a link or a device. -/
inductive Entry where
  | file (ino : Nat)
  | directory (ino : Nat)
  | special (ino : Nat)
  deriving DecidableEq, Repr

def Entry.ino : Entry → Nat
  | .file ino | .directory ino | .special ino => ino

def Entry.isFile : Entry → Bool
  | .file _ => true
  | .directory _ | .special _ => false

def Entry.isDirectory : Entry → Bool
  | .directory _ => true
  | .file _ | .special _ => false

/-- The number of a directory and a name in it. -/
abbrev Slot (ν : Type*) := Nat × ν

abbrev Entries (ν : Type*) := Slot ν → Option Entry

/-- Numbers from `count` on are free. -/
structure Volume (ν : Type*) where
  entry : Entries ν
  content : Nat → Bytes
  count : Nat
  bounded : ∀ slot e, entry slot = some e → e.ino < count

/-- How paths `π` are joined to names and what they lead to. `slot` is where
the last name of a path is looked up and `follow` goes on through links there.
`via` is what `slot` reads on the way. -/
structure Os (π ν : Type*) where
  join : π → ν → π
  slot : Entries ν → π → Option (Slot ν)
  follow : Entries ν → π → Option (Slot ν)
  via : Entries ν → π → List (Slot ν)
  via_entry : ∀ es p x, x ∈ via es p → ∃ e, es x = some e ∧ e.isFile = false
  slot_congr : ∀ es es' p x, slot es p = some x → (∀ y ∈ via es p, es' y = es y) →
    slot es' p = some x ∧ via es' p = via es p

namespace Volume

variable {ν : Type*}

/-- The file has a name. -/
def Linked (v : Volume ν) (ino : Nat) : Prop := ∃ slot, v.entry slot = some (.file ino)

theorem Linked.lt {v : Volume ν} {ino : Nat} (h : v.Linked ino) : ino < v.count := by
  obtain ⟨x, hx⟩ := h
  exact v.bounded x _ hx

/-- A root directory, number 0, with nothing in it. -/
def empty (ν : Type*) : Volume ν where
  entry _ := none
  content _ := []
  count := 1
  bounded := by simp

/-! ## Contents -/

/-- Write `bytes` at `offset`, through a handle. -/
def write (v : Volume ν) (ino offset : Nat) (bytes : Bytes) : Volume ν :=
  { v with
    content := Function.update v.content ino (writeAt (v.content ino) offset bytes) }

def truncate (v : Volume ν) (ino : Nat) : Volume ν :=
  { v with content := Function.update v.content ino [] }

theorem write_content_of_ne (v : Volume ν) {ino i : Nat} (h : i ≠ ino) (offset : Nat)
    (bytes : Bytes) : (v.write ino offset bytes).content i = v.content i :=
  Function.update_of_ne h ..

theorem write_content_self (v : Volume ν) (ino offset : Nat) (bytes : Bytes) :
    (v.write ino offset bytes).content ino = writeAt (v.content ino) offset bytes :=
  Function.update_self ..

theorem truncate_content_of_ne (v : Volume ν) {ino i : Nat} (h : i ≠ ino) :
    (v.truncate ino).content i = v.content i :=
  Function.update_of_ne h ..

/-! ## Operations -/

def openRead (v : Volume ν) (slot : Slot ν) : Except Error Nat :=
  match v.entry slot with
  | some (.file ino) => .ok ino
  | some (.directory _) => .error .isDirectory
  | some (.special _) => .error (.other 6)
  | none => .error .notFound

variable [DecidableEq ν]

/-- A new entry in a free slot; a file is empty. -/
def add (v : Volume ν) (slot : Slot ν) (kind : Nat → Entry)
    (hkind : ∀ n, (kind n).ino = n) : Volume ν where
  entry := Function.update v.entry slot (some (kind v.count))
  content := Function.update v.content v.count []
  count := v.count + 1
  bounded := by
    intro x e h
    by_cases hx : x = slot
    · rw [hx, Function.update_self] at h
      obtain rfl := Option.some.inj h
      rw [hkind]
      omega
    · rw [Function.update_of_ne hx] at h
      have := v.bounded x e h
      omega

abbrev addFile (v : Volume ν) (slot : Slot ν) : Volume ν := v.add slot .file fun _ => rfl

abbrev addDirectory (v : Volume ν) (slot : Slot ν) : Volume ν :=
  v.add slot .directory fun _ => rfl

/-- The entry of one slot becomes that of another. -/
def move (v : Volume ν) (src dst : Slot ν) : Volume ν :=
  { v with
    entry := Function.update (Function.update v.entry src none) dst (v.entry src)
    bounded := by
      intro x e h
      by_cases hdst : x = dst
      · rw [hdst, Function.update_self] at h
        exact v.bounded src e h
      · rw [Function.update_of_ne hdst] at h
        by_cases hsrc : x = src
        · rw [hsrc, Function.update_self] at h
          exact absurd h (by simp)
        · rw [Function.update_of_ne hsrc] at h
          exact v.bounded x e h }

/-- Open for writing, with `O_CREAT` and `O_EXCL`. -/
def createNew (v : Volume ν) (slot : Slot ν) : Except Error (Volume ν × Nat) :=
  match v.entry slot with
  | some _ => .error .exists
  | none => .ok (v.addFile slot, v.count)

/-- Open for writing, with `O_CREAT` and `O_TRUNC`. -/
def create (v : Volume ν) (slot : Slot ν) : Except Error (Volume ν × Nat) :=
  match v.entry slot with
  | some (.file ino) => .ok (v.truncate ino, ino)
  | some (.directory _) => .error .isDirectory
  | some (.special _) => .error (.other 6)
  | none => .ok (v.addFile slot, v.count)

/-- Open for writing, with `O_CREAT` alone: what is in the file stays. -/
def openWrite (v : Volume ν) (slot : Slot ν) : Except Error (Volume ν × Nat) :=
  match v.entry slot with
  | some (.file ino) => .ok (v, ino)
  | some (.directory _) => .error .isDirectory
  | some (.special _) => .error (.other 6)
  | none => .ok (v.addFile slot, v.count)

/-- A slot without its entry. What it stood for keeps its content, and handles
on it go on working. -/
def remove (v : Volume ν) (slot : Slot ν) : Volume ν :=
  { v with
    entry := Function.update v.entry slot none
    bounded := by
      intro x e h
      by_cases hx : x = slot
      · rw [hx, Function.update_self] at h
        exact absurd h (by simp)
      · rw [Function.update_of_ne hx] at h
        exact v.bounded x e h }

def removeFile (v : Volume ν) (slot : Slot ν) : Except Error (Volume ν) :=
  match v.entry slot with
  | some (.directory _) => .error .isDirectory
  | some _ => .ok (v.remove slot)
  | none => .error .notFound

def createDir (v : Volume ν) (slot : Slot ν) : Except Error (Volume ν) :=
  match v.entry slot with
  | some _ => .error .exists
  | none => .ok (v.addDirectory slot)

/-- A name is moved over whatever the other one stands for, unless one of the
two is a directory and the other is none. Two names of one thing are left
alone. -/
def rename (v : Volume ν) (src dst : Slot ν) : Except Error (Volume ν) :=
  match v.entry src, v.entry dst with
  | none, _ => .error .notFound
  | some _, none => .ok (v.move src dst)
  | some e, some e' =>
      if e = e' then .ok v
      else if e.isDirectory = e'.isDirectory then .ok (v.move src dst)
      else if e'.isDirectory then .error .isDirectory
      else .error (.other 20)

/-! ## What they leave alone -/

section

variable {v : Volume ν} {slot : Slot ν} {kind : Nat → Entry}
  {hkind : ∀ n, (kind n).ino = n}

theorem add_entry (hfree : v.entry slot = none) {x : Slot ν} {e : Entry}
    (h : v.entry x = some e) : (v.add slot kind hkind).entry x = some e := by
  have hne : x ≠ slot := by
    intro heq
    rw [heq, hfree] at h
    exact absurd h (by simp)
  show Function.update v.entry slot _ x = _
  rw [Function.update_of_ne hne, h]

theorem add_entry_self : (v.add slot kind hkind).entry slot = some (kind v.count) :=
  Function.update_self ..

theorem add_entry_of_ne {x : Slot ν} (h : x ≠ slot) :
    (v.add slot kind hkind).entry x = v.entry x :=
  Function.update_of_ne h ..

theorem add_content {ino : Nat} (h : ino < v.count) :
    (v.add slot kind hkind).content ino = v.content ino :=
  Function.update_of_ne (by omega) ..

theorem Linked.add (hfree : v.entry slot = none) {ino : Nat} (h : v.Linked ino) :
    (v.add slot kind hkind).Linked ino := by
  obtain ⟨x, hx⟩ := h
  exact ⟨x, add_entry hfree hx⟩

end

/-- What an open for writing comes to, whichever flags it has: the slot stands
for the file the handle is on, which was there or is new, and nothing else has
changed. -/
structure Opened (v : Volume ν) (slot : Slot ν) (v' : Volume ν) (ino : Nat) : Prop where
  entry : v'.entry slot = some (.file ino)
  others : ∀ x, x ≠ slot → v'.entry x = v.entry x
  origin : v.entry slot = some (.file ino) ∨ v.entry slot = none ∧ ino = v.count
  content : ∀ i, i < v.count → i ≠ ino → v'.content i = v.content i

theorem Opened.addFile {v : Volume ν} {slot : Slot ν} (h : v.entry slot = none) :
    Opened v slot (v.addFile slot) v.count where
  entry := Function.update_self ..
  others _ hx := Function.update_of_ne hx ..
  origin := .inr ⟨h, rfl⟩
  content _ _ hne := Function.update_of_ne hne ..

theorem createNew_opened {v v' : Volume ν} {slot : Slot ν} {ino : Nat}
    (h : v.createNew slot = .ok (v', ino)) : Opened v slot v' ino ∧ v'.content ino = [] := by
  unfold createNew at h
  split at h
  · exact absurd h (by simp)
  · next hfree =>
      obtain ⟨rfl, rfl⟩ := Prod.mk.inj (Except.ok.inj h)
      exact ⟨.addFile hfree, Function.update_self ..⟩

theorem create_opened {v v' : Volume ν} {slot : Slot ν} {ino : Nat}
    (h : v.create slot = .ok (v', ino)) : Opened v slot v' ino ∧ v'.content ino = [] := by
  unfold create at h
  split at h
  · next i hfile =>
      obtain ⟨rfl, rfl⟩ := Prod.mk.inj (Except.ok.inj h)
      exact ⟨⟨hfile, fun _ _ => rfl, .inl hfile, fun _ _ hne => truncate_content_of_ne v hne⟩,
        Function.update_self ..⟩
  · exact absurd h (by simp)
  · exact absurd h (by simp)
  · next hfree =>
      obtain ⟨rfl, rfl⟩ := Prod.mk.inj (Except.ok.inj h)
      exact ⟨.addFile hfree, Function.update_self ..⟩

theorem openWrite_opened {v v' : Volume ν} {slot : Slot ν} {ino : Nat}
    (h : v.openWrite slot = .ok (v', ino)) :
    Opened v slot v' ino ∧ (v.entry slot = some (.file ino) → v' = v) := by
  unfold openWrite at h
  split at h
  · next i hfile =>
      obtain ⟨rfl, rfl⟩ := Prod.mk.inj (Except.ok.inj h)
      exact ⟨⟨hfile, fun _ _ => rfl, .inl hfile, fun _ _ _ => rfl⟩, fun _ => rfl⟩
  · exact absurd h (by simp)
  · exact absurd h (by simp)
  · next hfree =>
      obtain ⟨rfl, rfl⟩ := Prod.mk.inj (Except.ok.inj h)
      refine ⟨.addFile hfree, fun hfile => ?_⟩
      rw [hfree] at hfile
      exact absurd hfile (by simp)

theorem move_entry_dst (v : Volume ν) (src dst : Slot ν) :
    (v.move src dst).entry dst = v.entry src :=
  Function.update_self ..

theorem move_entry_src (v : Volume ν) {src dst : Slot ν} (h : src ≠ dst) :
    (v.move src dst).entry src = none := by
  show Function.update (Function.update v.entry src none) dst _ src = none
  rw [Function.update_of_ne h, Function.update_self]

theorem move_entry_of_ne (v : Volume ν) {src dst x : Slot ν} (hsrc : x ≠ src)
    (hdst : x ≠ dst) : (v.move src dst).entry x = v.entry x := by
  show Function.update (Function.update v.entry src none) dst _ x = _
  rw [Function.update_of_ne hdst, Function.update_of_ne hsrc]

/-- A file keeps a name unless the move goes over its last one. -/
theorem Linked.move {v : Volume ν} {src dst : Slot ν} {ino : Nat} (h : v.Linked ino)
    (hdst : v.entry dst ≠ some (.file ino)) : (v.move src dst).Linked ino := by
  obtain ⟨x, hx⟩ := h
  by_cases hxs : x = src
  · refine ⟨dst, ?_⟩
    rw [move_entry_dst, ← hxs, hx]
  · refine ⟨x, ?_⟩
    rw [move_entry_of_ne v hxs (by
      intro hxd
      exact hdst (hxd ▸ hx)), hx]

/-- What a move that succeeds has done. -/
theorem rename_ok {v v' : Volume ν} {src dst : Slot ν} (h : v.rename src dst = .ok v') :
    ∃ e, v.entry src = some e ∧
      (v' = v ∧ v.entry dst = some e ∨
        v' = v.move src dst ∧ v.entry dst ≠ some e ∧
          ∀ e', v.entry dst = some e' → e.isDirectory = e'.isDirectory) := by
  unfold rename at h
  split at h
  · exact absurd h (by simp)
  · next e hsrc hdst =>
      obtain rfl := Except.ok.inj h
      refine ⟨e, hsrc, .inr ⟨rfl, ?_, ?_⟩⟩
      · rw [hdst]
        simp
      · intro e' he'
        rw [hdst] at he'
        exact absurd he' (by simp)
  · next e e' hsrc hdst =>
      split at h
      · next heq =>
          obtain rfl := Except.ok.inj h
          exact ⟨e, hsrc, .inl ⟨rfl, by rw [hdst, heq]⟩⟩
      · next hne =>
          split at h
          · next hdir =>
              obtain rfl := Except.ok.inj h
              refine ⟨e, hsrc, .inr ⟨rfl, ?_, ?_⟩⟩
              · rw [hdst]
                intro heq
                exact hne (Option.some.inj heq).symm
              · intro f hf
                rw [hdst] at hf
                exact Option.some.inj hf ▸ hdir
          · split at h
            · exact absurd h (by simp)
            · exact absurd h (by simp)

end Volume

namespace Os

variable {π ν : Type*} (os : Os π ν)

/-- A change of the volume that leaves what a walk reads alone leaves its end
where it is. -/
theorem slot_of_agree {os : Os π ν} {es es' : Entries ν} {p : π} {x : Slot ν}
    (hx : os.slot es p = some x)
    (h : ∀ y e, es y = some e → e.isFile = false → y ∈ os.via es p → es' y = some e) :
    os.slot es' p = some x ∧ os.via es' p = os.via es p := by
  refine os.slot_congr es es' p x hx ?_
  intro y hy
  obtain ⟨e, he, hfile⟩ := os.via_entry es p y hy
  rw [h y e he hfile hy, he]

/-! ## A system without links

Paths are the names from the root, which is directory 0. -/

def walk (es : Entries ν) : Nat → List ν → Option (Slot ν)
  | _, [] => none
  | dir, [name] => some (dir, name)
  | dir, name :: names =>
      match es (dir, name) with
      | some (.directory dir) => walk es dir names
      | _ => none

def walked (es : Entries ν) : Nat → List ν → List (Slot ν)
  | _, [] | _, [_] => []
  | dir, name :: names =>
      match es (dir, name) with
      | some (.directory dir') => (dir, name) :: walked es dir' names
      | _ => []

theorem walked_entry (es : Entries ν) (dir : Nat) (p : List ν) (x : Slot ν)
    (h : x ∈ walked es dir p) : ∃ e, es x = some e ∧ e.isFile = false := by
  fun_induction walked es dir p with
  | case1 => exact absurd h (by simp)
  | case2 => exact absurd h (by simp)
  | case3 dir name names _ dir' hdir ih =>
      rcases List.mem_cons.mp h with rfl | h
      · exact ⟨_, hdir, rfl⟩
      · exact ih h
  | case4 => exact absurd h (by simp)

theorem walk_congr {es es' : Entries ν} (dir : Nat) (p : List ν) (x : Slot ν)
    (hx : walk es dir p = some x) (h : ∀ y ∈ walked es dir p, es' y = es y) :
    walk es' dir p = some x ∧ walked es' dir p = walked es dir p := by
  fun_induction walk es dir p with
  | case1 => exact absurd hx (by simp)
  | case2 dir name => exact ⟨by rwa [walk], by rw [walked, walked]⟩
  | case3 dir name names hne dir' hdir ih =>
      have hwalked : walked es dir (name :: names) =
          (dir, name) :: walked es dir' names := by
        rw [walked.eq_def]
        cases names with
        | nil => exact absurd rfl hne
        | cons m ms => simp only [hdir]
      rw [hwalked] at h ⊢
      have hdir' : es' (dir, name) = some (.directory dir') := by
        rw [h _ (.head _), hdir]
      obtain ⟨hwalk, hvia⟩ := ih hx fun y hy => h y (.tail _ hy)
      cases names with
      | nil => exact absurd rfl hne
      | cons m ms =>
          refine ⟨?_, ?_⟩
          · rw [walk.eq_def]
            simp only [hdir']
            exact hwalk
          · rw [walked.eq_def]
            simp only [hdir', hvia]
  | case4 => exact absurd hx (by simp)

def plain (ν : Type*) : Os (List ν) ν where
  join p name := p ++ [name]
  slot es := walk es 0
  follow es := walk es 0
  via es := walked es 0
  via_entry es := walked_entry es 0
  slot_congr _ _ p x hx h := walk_congr 0 p x hx h

end Os

end WebSshTool.Inodes
