import WebSshTool.FsApi.Requests

/-!
# What concurrent requests do to each other's files

`create_new` never opens what is there already, so a request only ever writes
to files it has made. Two operations do not go through it. The rename of
`fs_rename` replaces what its destination leads to, which is the placeholder
as long as nobody has moved that away, nor a link on the way to it; a directory
cannot be moved over a placeholder, so the directories on the way stay where
they are. And `std::fs::copy` truncates what its target leads to, which may be
a file that another request has put into the new directory.

`Undisturbed` leaves out these steps: moving the placeholder of another rename,
or a link on the way to it, and opening the target of a copy where there is
somebody else's file. In the runs that remain no step does any harm.
-/

namespace WebSshTool.FsApi

open Files (Bytes Error)
open Inodes

variable {π ν : Type*}

/-- The file a request has open for writing. -/
def Phase.handle? : Phase π → Option Nat
  | .writing ino _ _ => some ino
  | .opening (some (.ok ino)) _ => some ino
  | .copying _ ino _ _ _ => some ino
  | _ => none

def Phase.placeholder? : Phase π → Option Nat
  | .claimed ino => some ino
  | _ => none

section

variable [DecidableEq ν] (os : Os π ν)

/-! ## The property and the condition -/

/-- The files that request `r` has not made keep a name and their content. -/
def State.Keeps (s t : State π ν) (r : Nat) : Prop :=
  ∀ ino, s.volume.Linked ino → s.creator ino ≠ some r →
    t.volume.Linked ino ∧ t.volume.content ino = s.volume.content ino

/-- What a rename of request `r` takes the place of at its destination is its
own placeholder, and empty. -/
def State.Replaces (s t : State π ν) (r : Nat) : Prop :=
  ∀ src dest placeholder slot e,
    s.requests[r]? = some (.rename src dest, .claimed placeholder) →
    os.slot s.volume.entry dest = some slot → s.volume.entry slot = some e →
    t.volume.entry slot ≠ some e →
      e = .file placeholder ∧ s.creator placeholder = some r ∧
        s.volume.content placeholder = []

/-- A step clobbers nothing. -/
def Safe (s : State π ν) : Label π ν → Prop
  | .perform r op =>
      s.Keeps (next os s (.perform r op)) r ∧
        (op = .rename → s.Replaces os (next os s (.perform r op)) r)
  | .arrive request => (next os s (.arrive request)).volume = s.volume
  | .refuse r op e => (next os s (.refuse r op e)).volume = s.volume

/-- The destination of request `r`, between the two steps of its rename. -/
def State.claim (s : State π ν) (r : Nat) : Option π :=
  match s.requests[r]? with
  | some (.rename _ dest, .claimed _) => some dest
  | _ => none

/-- What a rename that is about to happen would move. -/
def State.source (s : State π ν) (r : Nat) : Option (Slot ν × Entry) :=
  match s.requests[r]? with
  | some (.rename src _, .claimed _) =>
      (os.slot s.volume.entry src).bind fun x => (s.volume.entry x).map fun e => (x, e)
  | _ => none

/-- The file that `std::fs::copy` is about to truncate. -/
def State.target (s : State π ν) (r : Nat) : Option Nat :=
  match s.requests[r]? with
  | some (_, .openingTarget _ dst _) =>
      (os.follow s.volume.entry dst).bind fun slot =>
        match s.volume.entry slot with
        | some (.file ino) => some ino
        | _ => none
  | _ => none

/-- A slot does not matter to where the destination of request `r` leads. -/
def State.Clear (s : State π ν) (r : Nat) (x : Slot ν) : Prop :=
  ∀ dest ∈ s.claim r,
    os.slot s.volume.entry dest ≠ some x ∧ x ∉ os.via s.volume.entry dest

instance (s : State π ν) (r : Nat) (x : Slot ν) : Decidable (s.Clear os r x) :=
  inferInstanceAs (Decidable (∀ dest ∈ s.claim r, _))

/-- No placeholder of another rename is moved, nor a link on the way to it, and
no file of another request is opened with truncation. -/
def Undisturbed (s : State π ν) : Label π ν → Prop
  | .perform r .rename =>
      ∀ x ∈ s.source os r, x.2.isDirectory = false →
        ∀ r' < s.requests.length, r' ≠ r → s.Clear os r' x.1
  | .perform r .openTarget => ∀ ino ∈ s.target os r, s.creator ino = some r
  | _ => True

instance (s : State π ν) (l : Label π ν) : Decidable (Undisturbed os s l) := by
  induction l using Label.casesOn with
  | perform r op => induction op using Op.casesOn <;> unfold Undisturbed <;> infer_instance
  | _ => unfold Undisturbed; infer_instance

/-! ## What an operation can do -/

/-- The changes an operation of a request makes. -/
inductive Change (v : Volume ν) (request : Request π) (phase : Phase π) (op : Op ν) :
    Volume ν → Phase π → Prop
  | still {phase' : Phase π} (hhandle : ∀ i ∈ phase'.handle?, i ∈ phase.handle?)
      (hplaceholder : phase'.placeholder? = .none) : Change v request phase op v phase'
  | file (slot : Slot ν) {phase' : Phase π} (hfree : v.entry slot = .none)
      (hhandle : ∀ i ∈ phase'.handle?, i = v.count)
      (hplaceholder : ∀ i ∈ phase'.placeholder?, i = v.count ∧
        ∃ src dest, request = .rename src dest ∧ os.slot v.entry dest = some slot) :
      Change v request phase op (v.addFile slot) phase'
  | directory {slot : Slot ν} {phase' : Phase π} (hfree : v.entry slot = .none)
      (hhandle : phase'.handle? = .none) (hplaceholder : phase'.placeholder? = .none) :
      Change v request phase op (v.addDirectory slot) phase'
  | truncated {src ino : Nat} {dst : π} {stack : Stack π} {slot : Slot ν} {phase' : Phase π}
      (hop : op = .openTarget) (hphase : phase = .openingTarget src dst stack)
      (hslot : os.follow v.entry dst = some slot) (hfile : v.entry slot = some (.file ino))
      (hhandle : phase'.handle? = some ino) (hplaceholder : phase'.placeholder? = .none) :
      Change v request phase op (v.truncate ino) phase'
  | written {ino offset : Nat} {bytes : Bytes} {phase' : Phase π}
      (hino : ino ∈ phase.handle?) (hhandle : phase'.handle? = some ino)
      (hplaceholder : phase'.placeholder? = .none) :
      Change v request phase op (v.write ino offset bytes) phase'
  | renamed {src dest : π} (x y : Slot ν) {placeholder : Nat} {v' : Volume ν}
      {phase' : Phase π} (hop : op = .rename) (hrequest : request = .rename src dest)
      (hphase : phase = .claimed placeholder) (hx : os.slot v.entry src = some x)
      (hy : os.slot v.entry dest = some y) (hrename : v.rename x y = .ok v')
      (hhandle : phase'.handle? = .none) (hplaceholder : phase'.placeholder? = .none) :
      Change v request phase op v' phase'

end

section

variable [DecidableEq ν] {os : Os π ν}

theorem map_ok {α β : Type*} {f : α → β} {x : Except Error α} {b : β}
    (h : x.map f = .ok b) : ∃ a, x = .ok a ∧ f a = b := by
  cases x with
  | error e => exact absurd h (by simp [Except.map])
  | ok a => exact ⟨a, rfl, Except.ok.inj h⟩

omit [DecidableEq ν] in
theorem atSlot_ok {α : Type*} {walk : Entries ν → π → Option (Slot ν)} {v : Volume ν}
    {p : π} {f : Slot ν → Except Error α} {a : α} (h : atSlot walk v p f = .ok a) :
    ∃ slot, walk v.entry p = some slot ∧ f slot = .ok a := by
  unfold atSlot at h
  split at h
  · exact absurd h (by simp)
  · next slot hslot => exact ⟨slot, hslot, h⟩

theorem createNew_ok {v : Volume ν} {slot : Slot ν} {r : Volume ν × Nat}
    (h : v.createNew slot = .ok r) : v.entry slot = none ∧ r = (v.addFile slot, v.count) := by
  unfold Volume.createNew at h
  split at h
  · exact absurd h (by simp)
  · next hfree => exact ⟨hfree, (Except.ok.inj h).symm⟩

theorem create_ok {v : Volume ν} {slot : Slot ν} {r : Volume ν × Nat}
    (h : v.create slot = .ok r) :
    (∃ ino, v.entry slot = some (.file ino) ∧ r = (v.truncate ino, ino)) ∨
    (v.entry slot = none ∧ r = (v.addFile slot, v.count)) := by
  unfold Volume.create at h
  split at h
  · next ino hfile => exact .inl ⟨ino, hfile, (Except.ok.inj h).symm⟩
  · exact absurd h (by simp)
  · exact absurd h (by simp)
  · next hfree => exact .inr ⟨hfree, (Except.ok.inj h).symm⟩

theorem createDir_ok {v v' : Volume ν} {slot : Slot ν} (h : v.createDir slot = .ok v') :
    v.entry slot = none ∧ v' = v.addDirectory slot := by
  unfold Volume.createDir at h
  split at h
  · exact absurd h (by simp)
  · next hfree => exact ⟨hfree, (Except.ok.inj h).symm⟩

theorem handle_opened {dst src : Option (Except Error Nat)} {i : Nat}
    (h : i ∈ (opened dst src : Phase π).handle?) : dst = some (.ok i) := by
  unfold opened at h
  split at h
  · exact absurd h (by simp [Phase.handle?])
  · exact absurd h (by simp [Phase.handle?])
  · next d _ =>
      obtain rfl : d = i := by simpa [Phase.handle?] using h
      rfl
  · unfold Phase.handle? at h
    split at h
    · next heq => exact absurd heq (by simp)
    · next d _ heq =>
        obtain ⟨rfl, -⟩ : _ = some (Except.ok d) ∧ _ := by simpa using heq
        rw [show d = i by simpa using h]
    · next heq => exact absurd heq (by simp)
    · exact absurd h (by simp)

theorem placeholder_opened (dst src : Option (Except Error Nat)) :
    (opened dst src : Phase π).placeholder? = none := by
  unfold opened
  split <;> rfl

theorem handle_copied (stack : Stack π) : (copied stack).handle? = none := by
  cases stack <;> rfl

theorem placeholder_copied (stack : Stack π) : (copied stack).placeholder? = none := by
  cases stack <;> rfl

/-- Every operation makes one of these changes. -/
theorem perform_change {v v' : Volume ν} {request : Request π} {phase phase' : Phase π}
    {op : Op ν} (h : perform os v request phase op = some (.ok (v', phase'))) :
    Change os v request phase op v' phase' := by
  unfold perform at h
  split at h
  · -- `create_new`, of `fs_write_file` and of `fs_rename`
    split at h
    · obtain ⟨r, hr, heq⟩ := map_ok (Option.some.inj h)
      obtain ⟨slot, -, hnew⟩ := atSlot_ok hr
      obtain ⟨hfree, rfl⟩ := createNew_ok hnew
      obtain ⟨rfl, rfl⟩ := Prod.mk.inj heq
      exact .file _ hfree (by simp [Phase.handle?]) (by simp [Phase.placeholder?])
    · obtain ⟨r, hr, heq⟩ := map_ok (Option.some.inj h)
      obtain ⟨slot, hslot, hnew⟩ := atSlot_ok hr
      obtain ⟨hfree, rfl⟩ := createNew_ok hnew
      obtain ⟨rfl, rfl⟩ := Prod.mk.inj heq
      refine .file _ hfree (by simp [Phase.handle?]) ?_
      intro i hi
      exact ⟨by simpa [Phase.placeholder?, eq_comm] using hi, _, _, rfl, hslot⟩
    · exact absurd h (by simp)
  · split at h
    · obtain ⟨e, -, heq⟩ := map_ok (Option.some.inj h)
      obtain ⟨rfl, rfl⟩ := Prod.mk.inj heq
      refine .still ?_ ?_
      · cases e <;> simp [cpOf, Phase.handle?]
      · cases e <;> rfl
    · exact absurd h (by simp)
  · split at h
    · obtain ⟨rfl, rfl⟩ := Prod.mk.inj (Except.ok.inj (Option.some.inj h))
      exact .written rfl rfl rfl
    · exact absurd h (by simp)
  · obtain ⟨rfl, rfl⟩ := Prod.mk.inj (Except.ok.inj (Option.some.inj h))
    exact .still (by simp [Phase.handle?]) rfl
  · split at h
    · obtain ⟨w, hw, heq⟩ := map_ok (Option.some.inj h)
      obtain ⟨rfl, rfl⟩ := Prod.mk.inj heq
      obtain ⟨x, hx, hw⟩ := atSlot_ok hw
      obtain ⟨y, hy, hrename⟩ := atSlot_ok hw
      exact .renamed x y rfl rfl rfl hx hy hrename rfl rfl
    · exact absurd h (by simp)
  · split at h
    · split at h
      · next r hr =>
          obtain ⟨slot, -, hnew⟩ := atSlot_ok hr
          obtain ⟨hfree, rfl⟩ := createNew_ok hnew
          obtain ⟨rfl, rfl⟩ := Prod.mk.inj (Except.ok.inj (Option.some.inj h))
          refine .file _ hfree ?_ ?_
          · intro i hi
            simpa [eq_comm] using handle_opened hi
          · rw [placeholder_opened]
            simp
      · obtain ⟨rfl, rfl⟩ := Prod.mk.inj (Except.ok.inj (Option.some.inj h))
        refine .still ?_ (placeholder_opened _ _)
        intro i hi
        exact absurd (handle_opened hi) (by simp)
    · exact absurd h (by simp)
  · split at h
    · obtain ⟨rfl, rfl⟩ := Prod.mk.inj (Except.ok.inj (Option.some.inj h))
      refine .still ?_ (placeholder_opened _ _)
      intro i hi
      rw [handle_opened hi]
      rfl
    · exact absurd h (by simp)
  · obtain ⟨w, hw, heq⟩ := map_ok (Option.some.inj h)
    obtain ⟨slot, -, hdir⟩ := atSlot_ok hw
    obtain ⟨hfree, rfl⟩ := createDir_ok hdir
    obtain ⟨rfl, rfl⟩ := Prod.mk.inj heq
    exact .directory hfree rfl rfl
  · have hbind := Option.some.inj h
    cases he : metadata os v _ with
    | error e =>
        rw [he] at hbind
        exact absurd hbind (by simp [Except.bind])
    | ok e =>
        rw [he] at hbind
        simp only [Except.bind] at hbind
        split at hbind
        · obtain ⟨rfl, rfl⟩ := Prod.mk.inj (Except.ok.inj hbind)
          exact .still (by simp [Phase.handle?]) rfl
        · exact absurd hbind (by simp)
  · obtain ⟨rfl, rfl⟩ := Prod.mk.inj (Except.ok.inj (Option.some.inj h))
    refine .still ?_ ?_
    · split <;> simp [Phase.handle?]
    · split <;> rfl
  · obtain ⟨rfl, rfl⟩ := Prod.mk.inj (Except.ok.inj (Option.some.inj h))
    refine .still ?_ (placeholder_copied _)
    rw [handle_copied]
    simp
  · obtain ⟨i, -, heq⟩ := map_ok (Option.some.inj h)
    obtain ⟨rfl, rfl⟩ := Prod.mk.inj heq
    exact .still (by simp [Phase.handle?]) rfl
  · -- `std::fs::copy`: what is there is truncated
    obtain ⟨r, hr, heq⟩ := map_ok (Option.some.inj h)
    obtain ⟨slot, hslot, hcreate⟩ := atSlot_ok hr
    rcases create_ok hcreate with ⟨ino, hfile, rfl⟩ | ⟨hfree, rfl⟩
    · obtain ⟨rfl, rfl⟩ := Prod.mk.inj heq
      exact .truncated rfl rfl hslot hfile rfl rfl
    · obtain ⟨rfl, rfl⟩ := Prod.mk.inj heq
      exact .file _ hfree (by simp [Phase.handle?]) (by simp [Phase.placeholder?])
  · split at h
    · split at h
      · obtain ⟨rfl, rfl⟩ := Prod.mk.inj (Except.ok.inj (Option.some.inj h))
        refine .still ?_ (placeholder_copied _)
        rw [handle_copied]
        simp
      · obtain ⟨rfl, rfl⟩ := Prod.mk.inj (Except.ok.inj (Option.some.inj h))
        exact .still (fun _ hi => hi) rfl
    · exact absurd h (by simp)
  · split at h
    · obtain ⟨rfl, rfl⟩ := Prod.mk.inj (Except.ok.inj (Option.some.inj h))
      exact .written rfl rfl rfl
    · exact absurd h (by simp)
  · exact absurd h (by simp)

/-! ## The invariant -/

/-- The destination of a rename leads to its placeholder, and that is empty. -/
def Held (os : Os π ν) (v : Volume ν) (request : Request π) (i : Nat) : Prop :=
  ∃ src dest slot, request = .rename src dest ∧ os.slot v.entry dest = some slot ∧
    v.entry slot = some (.file i) ∧ v.content i = []

/-- A file is only open for writing in the request that has made it, and a
rename still finds its placeholder where it has left it. -/
structure Inv (os : Os π ν) (s : State π ν) : Prop where
  unmade : ∀ i, s.volume.count ≤ i → s.creator i = none
  maker : ∀ i r, s.creator i = some r → r < s.requests.length
  handle : ∀ r p, s.requests[r]? = some p → ∀ i ∈ p.2.handle?, s.creator i = some r
  placeholder : ∀ r p, s.requests[r]? = some p → ∀ i ∈ p.2.placeholder?,
    s.creator i = some r ∧ Held os s.volume p.1 i

omit [DecidableEq ν] in
/-- A change that leaves alone what a rename depends on. -/
theorem Held.of_agree {v v' : Volume ν} {request : Request π} {i : Nat}
    (h : Held os v request i)
    (hentry : ∀ x e, v.entry x = some e → e = .file i ∨ e.isFile = false →
      (∀ src dest, request = .rename src dest →
        os.slot v.entry dest = some x ∨ x ∈ os.via v.entry dest) →
      v'.entry x = some e)
    (hcontent : v'.content i = v.content i) : Held os v' request i := by
  obtain ⟨src, dest, slot, rfl, hslot, hfile, hempty⟩ := h
  have hsame : ∀ src' dest', Request.rename src dest = .rename src' dest' → dest' = dest := by
    intro src' dest' heq
    injection heq with _ heq
    exact heq.symm
  refine ⟨src, dest, slot, rfl, ?_, ?_, hcontent.trans hempty⟩
  · refine (Os.slot_of_agree hslot fun x e he hkind hx => ?_).1
    refine hentry x e he (.inr hkind) fun src' dest' heq => ?_
    rw [hsame src' dest' heq]
    exact .inr hx
  · refine hentry slot _ hfile (.inl rfl) fun src' dest' heq => ?_
    rw [hsame src' dest' heq]
    exact .inl hslot

theorem Held.add {v : Volume ν} {request : Request π} {i : Nat} (h : Held os v request i)
    {slot : Slot ν} {kind : Nat → Entry} {hkind : ∀ n, (kind n).ino = n}
    (hfree : v.entry slot = none) : Held os (v.add slot kind hkind) request i := by
  have hlt : i < v.count := by
    obtain ⟨-, -, x, -, -, hx, -⟩ := h
    exact v.bounded x _ hx
  exact h.of_agree (fun x e he _ _ => Volume.add_entry hfree he) (Volume.add_content hlt)

omit [DecidableEq ν] in
theorem Held.setContent {v v' : Volume ν} {request : Request π} {i : Nat}
    (h : Held os v request i) (hentry : v'.entry = v.entry)
    (hcontent : v'.content i = v.content i) : Held os v' request i :=
  h.of_agree (fun x e he _ _ => by rw [hentry, he]) hcontent

/-- A move over another file, from elsewhere than the way to the placeholder. -/
theorem Held.move {v : Volume ν} {request : Request π} {i j : Nat}
    (h : Held os v request i) {x y : Slot ν} (hy : v.entry y = some (.file j)) (hij : i ≠ j)
    (hx : ∀ src dest, request = .rename src dest →
      os.slot v.entry dest ≠ some x ∧ x ∉ os.via v.entry dest) :
    Held os (v.move x y) request i := by
  refine h.of_agree ?_ rfl
  intro z e hz hkind hpath
  obtain ⟨src, dest, -, hrequest, -, -, -⟩ := h
  have hzx : z ≠ x := by
    intro hzx
    rcases hpath src dest hrequest with hend | hway
    · exact (hx src dest hrequest).1 (hzx ▸ hend)
    · exact (hx src dest hrequest).2 (hzx ▸ hway)
  have hzy : z ≠ y := by
    intro hzy
    rw [hzy, hy] at hz
    obtain rfl := Option.some.inj hz
    rcases hkind with heq | heq
    · injection heq with heq
      exact hij heq.symm
    · exact absurd heq (by simp [Entry.isFile])
  rw [Volume.move_entry_of_ne v hzx hzy, hz]

theorem mem_modify {α : Type*} {l : List α} {f : α → α} {r r' : Nat} {p q : α}
    (hp : l[r]? = some p) (h : (l.modify r f)[r']? = some q) :
    r' = r ∧ q = f p ∨ r' ≠ r ∧ l[r']? = some q := by
  rw [List.getElem?_modify] at h
  by_cases hr : r = r'
  · subst hr
    refine .inl ⟨rfl, ?_⟩
    rw [hp] at h
    simpa using h.symm
  · refine .inr ⟨fun heq => hr heq.symm, ?_⟩
    simpa [hr] using h

theorem Inv.init (volume : Volume ν) : Inv os (machine os volume).init where
  unmade := fun _ _ => rfl
  maker := by simp [machine]
  handle := by simp [machine]
  placeholder := by simp [machine]

omit [DecidableEq ν] in
theorem Inv.arrive {s : State π ν} (h : Inv os s) (request : Request π) :
    Inv os { s with requests := s.requests ++ [(request, Phase.called)] } := by
  have hold : ∀ (r : Nat) (p : Request π × Phase π), (s.requests ++ [(request, Phase.called)])[r]? =
      some p → s.requests[r]? = some p ∨ p = (request, .called) := by
    intro r p hp
    by_cases hr : r < s.requests.length
    · rw [List.getElem?_append_left hr] at hp
      exact .inl hp
    · rw [List.getElem?_append_right (by omega)] at hp
      obtain ⟨_, rfl⟩ := List.getElem?_eq_some_iff.mp hp
      exact .inr (by simp)
  refine ⟨h.unmade, ?_, ?_, ?_⟩
  · intro i r hi
    have := h.maker i r hi
    simp only [List.length_append, List.length_singleton]
    omega
  · intro r p hp i hi
    rcases hold r p hp with hp | rfl
    · exact h.handle r p hp i hi
    · exact absurd hi (by simp [Phase.handle?])
  · intro r p hp i hi
    rcases hold r p hp with hp | rfl
    · exact h.placeholder r p hp i hi
    · exact absurd hi (by simp [Phase.placeholder?])

omit [DecidableEq ν] in
/-- Request `r` moves on to `phase'`, and the volume to `v'`. -/
theorem Inv.update {s t : State π ν} (h : Inv os s) {r : Nat} {p : Request π × Phase π}
    {v' : Volume ν} {phase' : Phase π} (hp : s.requests[r]? = some p)
    (hvolume : t.volume = v') (hlength : t.requests.length = s.requests.length)
    (hrequests : ∀ r' q, t.requests[r']? = some q →
      r' = r ∧ q = (p.1, phase') ∨ r' ≠ r ∧ s.requests[r']? = some q)
    (hcreator : ∀ i, t.creator i =
      if s.volume.count ≤ i ∧ i < v'.count then some r else s.creator i)
    (hcount : s.volume.count ≤ v'.count)
    (hhandle : ∀ i ∈ phase'.handle?,
      s.creator i = some r ∨ s.volume.count ≤ i ∧ i < v'.count)
    (hplaceholder : ∀ i ∈ phase'.placeholder?,
      (s.volume.count ≤ i ∧ i < v'.count) ∧ Held os v' p.1 i)
    (hheld : ∀ r' q i, r' ≠ r → s.requests[r']? = some q → i ∈ q.2.placeholder? →
      Held os s.volume q.1 i → Held os v' q.1 i) : Inv os t := by
  -- Who has made a file does not change.
  have hkept : ∀ i r', s.creator i = some r' → t.creator i = some r' := by
    intro i r' hi
    rw [hcreator, if_neg, hi]
    intro hnew
    rw [h.unmade i hnew.1] at hi
    exact absurd hi (by simp)
  refine ⟨?_, ?_, ?_, ?_⟩
  · intro i hi
    rw [hvolume] at hi
    rw [hcreator, if_neg (by omega)]
    exact h.unmade i (by omega)
  · intro i r' hi
    rw [hlength]
    rw [hcreator] at hi
    split at hi
    · obtain rfl := Option.some.inj hi
      exact (List.getElem?_eq_some_iff.mp hp).1
    · exact h.maker i r' hi
  · intro r' q hq i hi
    rcases hrequests r' q hq with ⟨rfl, rfl⟩ | ⟨-, hq⟩
    · rcases hhandle i hi with hi | hnew
      · exact hkept i r' hi
      · rw [hcreator, if_pos hnew]
    · exact hkept i r' (h.handle r' q hq i hi)
  · intro r' q hq i hi
    rw [hvolume]
    rcases hrequests r' q hq with ⟨rfl, rfl⟩ | ⟨hne, hq⟩
    · obtain ⟨hnew, hheld'⟩ := hplaceholder i hi
      exact ⟨by rw [hcreator, if_pos hnew], hheld'⟩
    · obtain ⟨hmade, hheld'⟩ := h.placeholder r' q hq i hi
      exact ⟨hkept i r' hmade, hheld r' q i hne hq hi hheld'⟩

omit [DecidableEq ν] in
theorem handle_failed {e : Error} {phase : Phase π} {op : Op ν} {i : Nat}
    (h : i ∈ (failed e phase op).handle?) : i ∈ phase.handle? := by
  unfold failed at h
  split at h
  · exact absurd (handle_opened h) (by simp)
  · rw [handle_opened h]
    rfl
  · exact absurd h (by simp [Phase.handle?])

omit [DecidableEq ν] in
theorem placeholder_failed (e : Error) (phase : Phase π) (op : Op ν) :
    (failed e phase op).placeholder? = none := by
  unfold failed
  split
  · exact placeholder_opened _ _
  · exact placeholder_opened _ _
  · rfl

omit [DecidableEq ν] in
theorem Inv.fail {s : State π ν} (h : Inv os s) {r : Nat} {p : Request π × Phase π}
    (hp : s.requests[r]? = some p) (op : Op ν) (e : Error) : Inv os (s.fail r op e) := by
  have hvolume : (s.fail r op e).volume = s.volume := rfl
  refine h.update hp hvolume (by simp [State.fail]) (fun r' q hq => mem_modify hp hq) ?_
    (Nat.le_refl _) ?_ ?_ (fun _ _ _ _ _ _ hq => hq)
  · intro i
    rw [if_neg (by omega)]
    rfl
  · intro i hi
    exact .inl (h.handle r p hp i (handle_failed hi))
  · rw [placeholder_failed]
    simp

omit [DecidableEq ν] in
/-- The placeholder of a request, and where it is. -/
theorem Inv.slot_of_claimed {s : State π ν} (h : Inv os s) {r i : Nat} {src dest : π}
    {y : Slot ν} (hp : s.requests[r]? = some (.rename src dest, .claimed i))
    (hy : os.slot s.volume.entry dest = some y) :
    s.volume.entry y = some (.file i) ∧ s.volume.content i = [] ∧ s.creator i = some r := by
  obtain ⟨hmade, src', dest', slot, heq, hslot, hfile, hempty⟩ := h.placeholder r _ hp i rfl
  injection heq with _ heq
  subst heq
  rw [hy] at hslot
  obtain rfl := Option.some.inj hslot
  exact ⟨hfile, hempty, hmade⟩

/-- Only one's own placeholder is taken the place of. -/
theorem Inv.move_of_rename {s : State π ν} (h : Inv os s) {r i : Nat} {src dest : π}
    {x y : Slot ν} {v' : Volume ν}
    (hp : s.requests[r]? = some (.rename src dest, .claimed i))
    (hy : os.slot s.volume.entry dest = some y) (hv : s.volume.rename x y = .ok v') :
    v' = s.volume ∨ v' = s.volume.move x y ∧
      ∃ e, s.volume.entry x = some e ∧ e.isDirectory = false := by
  obtain ⟨e, hx, ⟨rfl, -⟩ | ⟨rfl, -, hdir⟩⟩ := Volume.rename_ok hv
  · exact .inl rfl
  · have hfile := (h.slot_of_claimed hp hy).1
    exact .inr ⟨rfl, e, hx, hdir _ hfile⟩

omit [DecidableEq ν] in
theorem source_of_claimed {s : State π ν} {r i : Nat} {src dest : π}
    (hp : s.requests[r]? = some (.rename src dest, .claimed i)) {x : Slot ν} {e : Entry}
    (hx : os.slot s.volume.entry src = some x) (he : s.volume.entry x = some e) :
    s.source os r = some (x, e) := by
  simp only [State.source, hp, hx, Option.bind_some, he, Option.map_some]

omit [DecidableEq ν] in
theorem claim_of_placeholder {s : State π ν} {r i : Nat} {p : Request π × Phase π}
    (hp : s.requests[r]? = some p) {src dest : π} (hrequest : p.1 = .rename src dest)
    (hi : i ∈ p.2.placeholder?) : dest ∈ s.claim r := by
  obtain ⟨request, phase⟩ := p
  obtain rfl : request = _ := hrequest
  cases phase with
  | claimed j =>
      simp only [State.claim, hp]
      rfl
  | _ => exact absurd hi (by simp [Phase.placeholder?])

omit [DecidableEq ν] in
theorem target_of_openTarget {s : State π ν} {r : Nat} {p : Request π × Phase π}
    (hp : s.requests[r]? = some p) {src ino : Nat} {dst : π} {stack : Stack π}
    (hphase : p.2 = .openingTarget src dst stack) {slot : Slot ν}
    (hslot : os.follow s.volume.entry dst = some slot)
    (hfile : s.volume.entry slot = some (.file ino)) : s.target os r = some ino := by
  obtain ⟨request, phase⟩ := p
  obtain rfl : phase = _ := hphase
  simp only [State.target, hp, hslot, Option.bind_some, hfile]

theorem Inv.change {s : State π ν} (h : Inv os s) {r : Nat} {p : Request π × Phase π}
    {op : Op ν} {v' : Volume ν} {phase' : Phase π} (hp : s.requests[r]? = some p)
    (hc : Change os s.volume p.1 p.2 op v' phase') (hok : Undisturbed os s (.perform r op)) :
    Inv os ((s.setVolume r v').setPhase r phase') := by
  have hupdate : s.volume.count ≤ v'.count →
      (∀ i ∈ phase'.handle?, s.creator i = some r ∨ s.volume.count ≤ i ∧ i < v'.count) →
      (∀ i ∈ phase'.placeholder?,
        (s.volume.count ≤ i ∧ i < v'.count) ∧ Held os v' p.1 i) →
      (∀ r' q i, r' ≠ r → s.requests[r']? = some q → i ∈ q.2.placeholder? →
        Held os s.volume q.1 i → Held os v' q.1 i) →
      Inv os ((s.setVolume r v').setPhase r phase') :=
    h.update hp rfl (by simp [State.setPhase, State.setVolume])
      (fun r' q hq => mem_modify hp hq) (fun _ => rfl)
  -- A file that `r` has made is not the placeholder of another request.
  have hother : ∀ r' q i j, r' ≠ r → s.requests[r']? = some q → i ∈ q.2.placeholder? →
      s.creator j = some r → i ≠ j := by
    intro r' q i j hne hq hi hj heq
    have hmade := (h.placeholder r' q hq i hi).1
    rw [heq, hj] at hmade
    exact hne (Option.some.inj hmade).symm
  cases hc with
  | still hhandle hplaceholder =>
      refine hupdate (Nat.le_refl _) ?_ ?_ (fun _ _ _ _ _ _ hq => hq)
      · intro i hi
        exact .inl (h.handle r p hp i (hhandle i hi))
      · rw [hplaceholder]
        simp
  | file slot hfree hhandle hplaceholder =>
      refine hupdate (Nat.le_succ _) ?_ ?_ (fun _ _ _ _ _ _ hq => hq.add hfree)
      · intro i hi
        obtain rfl := hhandle i hi
        exact .inr ⟨Nat.le_refl _, Nat.lt_succ_self _⟩
      · intro i hi
        obtain ⟨rfl, src, dest, hrequest, hslot⟩ := hplaceholder i hi
        refine ⟨⟨Nat.le_refl _, Nat.lt_succ_self _⟩, src, dest, slot, hrequest, ?_, ?_, ?_⟩
        · exact (Os.slot_of_agree hslot
            fun y e he _ _ => Volume.add_entry hfree he).1
        · exact Function.update_self ..
        · exact Function.update_self ..
  | directory hfree hhandle hplaceholder =>
      refine hupdate (Nat.le_succ _) ?_ ?_ (fun _ _ _ _ _ _ hq => hq.add hfree)
      · rw [hhandle]
        simp
      · rw [hplaceholder]
        simp
  | truncated hop hphase hslot hfile hhandle hplaceholder =>
      subst hop
      have hmade := hok _ (target_of_openTarget hp hphase hslot hfile)
      refine hupdate (Nat.le_refl _) ?_ ?_ ?_
      · rw [hhandle]
        intro i hi
        obtain rfl := Option.some.inj hi
        exact .inl hmade
      · rw [hplaceholder]
        simp
      · intro r' q i hne hq hi hheld
        exact hheld.setContent rfl
          (Volume.truncate_content_of_ne _ (hother r' q i _ hne hq hi hmade))
  | written hino hhandle hplaceholder =>
      have hmade := h.handle r p hp _ hino
      refine hupdate (Nat.le_refl _) ?_ ?_ ?_
      · rw [hhandle]
        intro i hi
        obtain rfl := Option.some.inj hi
        exact .inl hmade
      · rw [hplaceholder]
        simp
      · intro r' q i hne hq hi hheld
        exact hheld.setContent rfl
          (Volume.write_content_of_ne _ (hother r' q i _ hne hq hi hmade) _ _)
  | renamed x y hop hrequest hphase hx hy hrename hhandle hplaceholder =>
      subst hop
      obtain ⟨request, phase⟩ := p
      obtain rfl : request = _ := hrequest
      obtain rfl : phase = _ := hphase
      obtain ⟨hfile, -, hmade⟩ := h.slot_of_claimed hp hy
      rcases h.move_of_rename hp hy hrename with rfl | ⟨rfl, e, he, hdir⟩
      · refine hupdate (Nat.le_refl _) ?_ ?_ (fun _ _ _ _ _ _ hq => hq)
        · rw [hhandle]
          simp
        · rw [hplaceholder]
          simp
      · refine hupdate (Nat.le_refl _) ?_ ?_ ?_
        · rw [hhandle]
          simp
        · rw [hplaceholder]
          simp
        · intro r' q i hne hq hi hheld
          refine hheld.move hfile (hother r' q i _ hne hq hi hmade) ?_
          intro src' dest' heq
          have hclear := hok _ (source_of_claimed hp hx he) hdir r'
            (List.getElem?_eq_some_iff.mp hq).1 hne
          exact hclear dest' (claim_of_placeholder hq heq hi)

theorem Inv.next {s : State π ν} (h : Inv os s) {l : Label π ν} (hen : enabled os s l)
    (hok : Undisturbed os s l) : Inv os (next os s l) := by
  cases l with
  | arrive request => exact h.arrive request
  | perform r op =>
      obtain ⟨a, ha⟩ := Option.isSome_iff_exists.mp hen
      obtain ⟨p, hp, hperform⟩ := Option.bind_eq_some_iff.mp ha
      cases a with
      | error e =>
          simp only [FsApi.next, ha]
          exact h.fail hp op e
      | ok a =>
          simp only [FsApi.next, ha]
          exact h.change hp (perform_change hperform) hok
  | refuse r op e =>
      obtain ⟨a, ha⟩ := Option.isSome_iff_exists.mp hen
      obtain ⟨p, hp, -⟩ := Option.bind_eq_some_iff.mp ha
      exact h.fail hp op e

/-! ## Nothing is clobbered -/

theorem Change.keeps {s : State π ν} (h : Inv os s) {r : Nat} {p : Request π × Phase π}
    {op : Op ν} {v' : Volume ν} {phase' : Phase π} (hp : s.requests[r]? = some p)
    (hc : Change os s.volume p.1 p.2 op v' phase') (hok : Undisturbed os s (.perform r op))
    {ino : Nat} (hlinked : s.volume.Linked ino) (hmade : s.creator ino ≠ some r) :
    v'.Linked ino ∧ v'.content ino = s.volume.content ino := by
  have hne : ∀ j, s.creator j = some r → ino ≠ j := by
    intro j hj heq
    exact hmade (heq ▸ hj)
  cases hc with
  | still => exact ⟨hlinked, rfl⟩
  | file slot hfree => exact ⟨hlinked.add hfree, Volume.add_content hlinked.lt⟩
  | directory hfree => exact ⟨hlinked.add hfree, Volume.add_content hlinked.lt⟩
  | truncated hop hphase hslot hfile =>
      subst hop
      have hown := hok _ (target_of_openTarget hp hphase hslot hfile)
      exact ⟨hlinked, Volume.truncate_content_of_ne _ (hne _ hown)⟩
  | written hino =>
      exact ⟨hlinked, Volume.write_content_of_ne _ (hne _ (h.handle r p hp _ hino)) _ _⟩
  | renamed x y hop hrequest hphase hx hy hrename =>
      obtain ⟨request, phase⟩ := p
      simp only [] at hrequest hphase
      subst hrequest
      subst hphase
      obtain ⟨hfile, -, hown⟩ := h.slot_of_claimed hp hy
      rcases h.move_of_rename hp hy hrename with rfl | ⟨rfl, -⟩
      · exact ⟨hlinked, rfl⟩
      · refine ⟨hlinked.move ?_, rfl⟩
        rw [hfile]
        intro heq
        injection heq with heq
        injection heq with heq
        exact hne _ hown heq.symm

/-- Neither the steps of the requests nor the refusals of the system clobber
anything, as long as no rename takes another's placeholder, or a link on the
way to it, and no copy opens a file that is there already. -/
theorem requests_safe (volume : Volume ν) {s : State π ν}
    (hs : (machine os volume).Reaches (Undisturbed os) s) {l : Label π ν}
    (hen : enabled os s l) (hok : Undisturbed os s l) : Safe os s l := by
  have h : Inv os s :=
    hs.invariant (Inv.init volume) fun _ _ _ h hen hok => h.next hen hok
  cases l with
  | arrive request => rfl
  | refuse r op e => rfl
  | perform r op =>
      obtain ⟨a, ha⟩ := Option.isSome_iff_exists.mp hen
      obtain ⟨p, hp, hperform⟩ := Option.bind_eq_some_iff.mp ha
      constructor
      · intro ino hlinked hmade
        cases a with
        | error e =>
            simp only [FsApi.next, ha]
            exact ⟨hlinked, rfl⟩
        | ok a =>
            simp only [FsApi.next, ha]
            exact (perform_change hperform).keeps h hp hok hlinked hmade
      · intro _ src dest placeholder slot e hrequest hslot he _
        obtain ⟨hfile, hempty, hmade⟩ := h.slot_of_claimed hrequest hslot
        rw [hfile] at he
        exact ⟨(Option.some.inj he).symm, hmade, hempty⟩

end

/-! ## Three requests, and two -/

/-- A file `a`, and a directory `s` with a file `f`. -/
def smallVolume : Volume Char :=
  ((((Volume.empty Char).addFile (0, 'a')).write 1 0 [0x61]).addDirectory (0, 's')).addFile
    (2, 'f')

abbrev smallMachine : Machine (State (List Char) Char) (Label (List Char) Char) :=
  machine (Os.plain Char) smallVolume

instance (s : State (List Char) Char) (l : Label (List Char) Char) :
    Decidable (smallMachine.enabled s l) :=
  inferInstanceAs (Decidable (enabled (Os.plain Char) s l))

def after (ls : List (Label (List Char) Char)) : State (List Char) Char :=
  ls.foldl (next (Os.plain Char)) smallMachine.init

/-- A rename of `a` to `c`, which another request tries to create meanwhile. -/
def renameRun : List (Label (List Char) Char) :=
  [.arrive (.rename ['a'] ['c']), .arrive (.writeFile ['c'] [0x78]),
    .perform 0 .createNew, .perform 1 .createNew]

theorem requests_safe_rename :
    Safe (Os.plain Char) (after renameRun) (.perform 0 .rename) := by
  have hs : smallMachine.Reaches (Undisturbed (Os.plain Char)) (after renameRun) :=
    Machine.reaches_of_path (M := smallMachine) (by decide)
  exact requests_safe smallVolume hs (by decide) (by decide)

/-- A rename of `a` to `c`. Its placeholder is moved to `d` by a second rename,
and a third request creates `c`. -/
def movedRun : List (Label (List Char) Char) :=
  [.arrive (.rename ['a'] ['c']), .arrive (.rename ['c'] ['d']),
    .arrive (.writeFile ['c'] [0x78]), .perform 0 .createNew, .perform 1 .createNew,
    .perform 1 .rename, .perform 2 .createNew, .perform 2 (.write 1)]

/-- A copy of `s` to `t`. A second request creates `t/f` before the copy does. -/
def copyRun : List (Label (List Char) Char) :=
  [.arrive (.cp ['s'] ['t']), .arrive (.writeFile ['t', 'f'] [0x78]), .perform 0 .metadata,
    .perform 0 .createDir, .perform 0 .readDir, .perform 0 (.entry 'f' false),
    .perform 0 .openEntry, .perform 1 .createNew, .perform 1 (.write 1)]

theorem requests_clobber :
    (∃ s, smallMachine.Reachable s ∧ enabled (Os.plain Char) s (.perform 0 .rename) ∧
      ¬ Safe (Os.plain Char) s (.perform 0 .rename)) ∧
    ∃ s, smallMachine.Reachable s ∧ enabled (Os.plain Char) s (.perform 0 .openTarget) ∧
      ¬ Safe (Os.plain Char) s (.perform 0 .openTarget) := by
  constructor
  · have hs : smallMachine.Reachable (after movedRun) :=
      Machine.reaches_of_path (M := smallMachine) (by decide)
    refine ⟨after movedRun, hs, by decide, fun hsafe => ?_⟩
    have hreplaces := (hsafe.2 rfl ['a'] ['c'] 4 (0, 'c') (.file 6) rfl rfl rfl
      (by decide)).1
    exact absurd hreplaces (by decide)
  · have hs : smallMachine.Reachable (after copyRun) :=
      Machine.reaches_of_path (M := smallMachine) (by decide)
    refine ⟨after copyRun, hs, by decide, fun hsafe => ?_⟩
    have hkeeps := (hsafe.1 5 ⟨(4, 'f'), rfl⟩ (by decide)).2
    exact absurd hkeeps (by decide)

end WebSshTool.FsApi
