import WebSshTool.FsApi.Requests
import WebSshTool.Lib.Trees

/-!
# Copying directories

`fs_cp` with nobody else around and a system that refuses nothing, as one
function from volumes to volumes. `copy_dir_all` calls itself, so its
definition runs on fuel; `none` says that the fuel, which bounds how deep the
calls are nested, has run out.

A directory is listed as it is when `read_dir` opens it, which is after
`create_dir` has made the destination. That a copy never adds to a directory
that is being read is why the moment does not matter later on.
-/

namespace WebSshTool.FsApi

open Files (Bytes Error)
open Inodes

variable {π ν : Type*}

section

variable [DecidableEq ν] (os : Posix π ν)

/-- The names in a directory and what kind of thing each stands for. -/
def readDir (v : Volume ν) (src : π) : Except Error (List (ν × Entry)) :=
  match os.stat v.entry src with
  | none => .error .notFound
  | some (.directory d) => .ok (os.entries v.entry d)
  | some _ => .error (.other 20)

/-- `std::fs::copy`. -/
def copyEntry (v : Volume ν) (src dst : π) : Volume ν × Except Error Unit :=
  match atSlot os.follow v src v.openRead with
  | .error e => (v, .error e)
  | .ok i =>
      match atSlot os.follow v dst v.create with
      | .error e => (v, .error e)
      | .ok (w, j) => (w.write j 0 (w.content i), .ok ())

/-- What `copy_dir_all` does with one entry. -/
def copyOne (recurse : Volume ν → π → π → Option (Volume ν × Except Error Unit))
    (v : Volume ν) (src dst : π) (entry : ν × Entry) :
    Option (Volume ν × Except Error Unit) :=
  if entry.2.isDirectory then recurse v (os.join src entry.1) (os.join dst entry.1)
  else if entry.2.isFile then some (copyEntry os v (os.join src entry.1) (os.join dst entry.1))
  else some (v, .ok ())

/-- The loop of `copy_dir_all`. -/
def copyEntries (recurse : Volume ν → π → π → Option (Volume ν × Except Error Unit)) :
    Volume ν → π → π → List (ν × Entry) → Option (Volume ν × Except Error Unit)
  | v, _, _, [] => some (v, .ok ())
  | v, src, dst, entry :: entries =>
      match copyOne os recurse v src dst entry with
      | some (w, .ok ()) => copyEntries recurse w src dst entries
      | r => r

def copyDirAll : Nat → Volume ν → π → π → Option (Volume ν × Except Error Unit)
  | 0, _, _, _ => none
  | fuel + 1, v, src, dst =>
      match atSlot os.slot v dst v.createDir with
      | .error e => some (v, .error e)
      | .ok w =>
          match readDir os w src with
          | .error e => some (w, .error e)
          | .ok entries => copyEntries os (copyDirAll fuel) w src dst entries

/-- The error of the destination comes first; the other open changes nothing. -/
def copyFile (v : Volume ν) (src dst : π) : Volume ν × Except Error Unit :=
  match atSlot os.slot v dst v.createNew with
  | .error e => (v, .error e)
  | .ok (w, j) =>
      match atSlot os.follow w src w.openRead with
      | .error e => (w, .error e)
      | .ok i => (w.write j 0 (w.content i), .ok ())

/-- Links have been followed when `fs_cp` asks for the kind of its source, so
its branch for them is never taken. -/
def fsCp (fuel : Nat) (v : Volume ν) (src dst : π) : Option (Volume ν × Except Error Unit) :=
  match os.stat v.entry src with
  | none => some (v, .error .notFound)
  | some (.file _) => some (copyFile os v src dst)
  | some (.directory _) => copyDirAll os fuel v src dst
  | some (.special _) => some (v, .ok ())

end

/-! ## What grows

A copy puts something into one free slot, and everything else it adds is below
that. -/

/-- `w` is `v` with something new in slot `y`, and below that. -/
structure Grown (v : Volume ν) (y : Slot ν) (w : Volume ν) : Prop where
  sound : w.Sound
  count : v.count ≤ w.count
  free : v.entry y = none
  parent : y.1 < v.count
  others : ∀ x, x.1 < v.count → x ≠ y → w.entry x = v.entry x
  content : ∀ i < v.count, w.content i = v.content i
  fresh : ∀ x e, w.entry x = some e →
    v.entry x = some e ∨ v.count ≤ e.ino ∧ (x ≠ y → v.count < e.ino)
  below : ∀ x i, w.entry x = some (.directory i) → v.count ≤ i →
    ∃ e names, w.entry y = some e ∧ find w.entry e names = some (.directory i)

section

variable {v w : Volume ν} {y : Slot ν}

theorem Grown.extends (hv : v.Sound) (h : Grown v y w) : Extends v.entry w.entry := by
  intro x e hx
  rw [h.others x (hv.inside_lt hx) ?_, hx]
  intro heq
  rw [heq, h.free] at hx
  exact absurd hx (by simp)

theorem Grown.refl (hv : v.Sound) (hparent : y.1 < v.count) (hfree : v.entry y = none) :
    Grown v y v where
  sound := hv
  count := Nat.le_refl _
  free := hfree
  parent := hparent
  others _ _ _ := rfl
  content _ _ := rfl
  fresh _ _ hx := .inl hx
  below x _ hx hi := absurd (v.bounded x _ hx) (Nat.not_lt.mpr hi)

/-- From directories on that the new slot cannot be reached from, everything is
found where it was. -/
theorem Grown.find_eq (h : Grown v y w) {P : Nat → Prop}
    (hclosed : ∀ d name c, P d → v.entry (d, name) = some (.directory c) → P c)
    (hlt : ∀ d, P d → d < v.count) (hy : ¬ P y.1) {e : Entry}
    (he : ∀ d, e = .directory d → P d) (names : List ν) :
    find w.entry e names = find v.entry e names := by
  refine find_congr hclosed (fun d name hd => ?_) he names
  refine h.others _ (hlt d hd) fun heq => hy ?_
  rw [← heq]
  exact hd

theorem Grown.seen_eq (h : Grown v y w) {e : Entry} (he : e.ino < v.count) {names : List ν}
    (hfind : find w.entry e names = find v.entry e names) : w.seen e names = v.seen e names :=
  Volume.seen_congr hfind fun i hi =>
    h.content i (Volume.file_bounded he hi)

/-- A source that is not around the destination stays what it was. -/
theorem Grown.source_eq (h : Grown v y w) {d : Nat} (hd : d < v.count)
    (hout : ¬ Below v.entry d y.1) (names : List ν) :
    find w.entry (.directory d) names = find v.entry (.directory d) names := by
  refine h.find_eq (P := Below v.entry d) (fun _ _ _ hp hc => hp.tail hc) ?_ hout ?_ names
  · rintro c ⟨way, hway⟩
    have hino : (Entry.directory d).ino < v.count := hd
    exact Volume.find_bounded hino hway
  · intro c heq
    obtain rfl := Entry.directory.inj heq
    exact .refl d

theorem Grown.source_height (h : Grown v y w) {d height : Nat} (hd : d < v.count)
    (hout : ¬ Below v.entry d y.1) (hheight : v.Height (.directory d) height) :
    w.Height (.directory d) height := by
  intro names hnames
  rw [h.source_eq hd hout] at hnames
  exact hheight names hnames

theorem Grown.source_below (h : Grown v y w) {d : Nat} (hd : d < v.count)
    (hout : ¬ Below v.entry d y.1) : ¬ Below w.entry d v.count := by
  rintro ⟨way, hway⟩
  rw [h.source_eq hd hout] at hway
  have hlt := Volume.find_bounded (e := .directory d) hd hway
  exact Nat.lt_irrefl _ hlt

variable [DecidableEq ν]

theorem sound_add (hv : v.Sound) (hparent : IsDirectory v.entry y.1)
    (hfree : v.entry y = none) {kind : Nat → Entry} {hkind : ∀ n, (kind n).ino = n} :
    (v.add y kind hkind).Sound where
  root := Nat.succ_pos _
  inside := by
    have hextends : Extends v.entry (v.add y kind hkind).entry :=
      fun x e hx => Volume.add_entry hfree hx
    intro x e hx
    by_cases hxy : x = y
    · rw [hxy]
      exact hparent.mono hextends
    · rw [Volume.add_entry_of_ne hxy] at hx
      exact (hv.inside x e hx).mono hextends
  finite := by
    intro d
    refine ((hv.finite d).insert y.2).subset ?_
    intro name hname
    by_cases hxy : (d, name) = y
    · exact .inl (by rw [← hxy])
    · refine .inr fun hnone => hname ?_
      rw [Volume.add_entry_of_ne hxy, hnone]

theorem grown_add (hv : v.Sound) (hparent : IsDirectory v.entry y.1)
    (hfree : v.entry y = none) {kind : Nat → Entry} {hkind : ∀ n, (kind n).ino = n} :
    Grown v y (v.add y kind hkind) where
  sound := sound_add hv hparent hfree
  count := Nat.le_succ _
  free := hfree
  parent := hv.lt hparent
  others _ _ hx := Volume.add_entry_of_ne hx
  content _ hi := Volume.add_content hi
  fresh := by
    intro x e hx
    by_cases hxy : x = y
    · rw [hxy, Volume.add_entry_self] at hx
      obtain rfl := Option.some.inj hx
      exact .inr ⟨(hkind _).ge, fun hne => absurd hxy hne⟩
    · rw [Volume.add_entry_of_ne hxy] at hx
      exact .inl hx
  below := by
    intro x i hx hi
    by_cases hxy : x = y
    · exact ⟨_, [], hxy ▸ hx, rfl⟩
    · rw [Volume.add_entry_of_ne hxy] at hx
      exact absurd (v.bounded x _ hx) (Nat.not_lt.mpr hi)

theorem grown_addFile (hv : v.Sound) (hparent : IsDirectory v.entry y.1)
    (hfree : v.entry y = none) : Grown v y (v.addFile y) :=
  grown_add hv hparent hfree

theorem grown_addDirectory (hv : v.Sound) (hparent : IsDirectory v.entry y.1)
    (hfree : v.entry y = none) : Grown v y (v.addDirectory y) :=
  grown_add hv hparent hfree

omit [DecidableEq ν] in
/-- Contents are no matter of growth. -/
theorem Grown.write (h : Grown v y w) {j : Nat} (hj : v.count ≤ j) (bytes : Bytes) :
    Grown v y (w.write j 0 bytes) where
  sound := ⟨h.sound.root, h.sound.inside, h.sound.finite⟩
  count := h.count
  free := h.free
  parent := h.parent
  others := h.others
  content i hi := by
    rw [Volume.write_content_of_ne w (by omega)]
    exact h.content i hi
  fresh := h.fresh
  below := h.below

omit [DecidableEq ν] in
/-- Something more, in the directory that has come first. -/
theorem Grown.trans (h : Grown v y w) (hdir : w.entry y = some (.directory v.count))
    {name : ν} {u : Volume ν} (hu : Grown w (v.count, name) u) : Grown v y u := by
  have hextends := hu.extends h.sound
  have hcount : v.count < w.count := w.bounded y _ hdir
  refine {
    sound := hu.sound
    count := Nat.le_trans h.count hu.count
    free := h.free
    parent := h.parent
    others := ?_
    content := ?_
    fresh := ?_
    below := ?_ }
  · intro x hx hne
    have hxw : x ≠ (v.count, name) := by
      intro heq
      rw [heq] at hx
      exact Nat.lt_irrefl _ hx
    rw [hu.others x (Nat.lt_trans hx hcount) hxw, h.others x hx hne]
  · intro i hi
    rw [hu.content i (Nat.lt_of_lt_of_le hi h.count), h.content i hi]
  · intro x e hx
    rcases hu.fresh x e hx with hw | ⟨hino, -⟩
    · exact h.fresh x e hw
    · exact .inr ⟨by omega, fun _ => by omega⟩
  · intro x i hx hi
    rcases hu.fresh x _ hx with hw | ⟨hino, -⟩
    · obtain ⟨e, names, he, hfind⟩ := h.below x i hw hi
      exact ⟨e, names, hextends _ _ he, find_mono hextends hfind⟩
    · obtain ⟨e, names, he, hfind⟩ := hu.below x i hx hino
      refine ⟨_, name :: names, hextends _ _ hdir, ?_⟩
      rw [find_cons_of_entry he, hfind]

end

/-! ## The loop

Between two entries: what is still to be copied is in the source as it was
listed, and its name is not taken in the new directory. -/

structure Filling (v : Volume ν) (d : Nat) (y : Slot ν) (entries : List (ν × Entry))
    (w : Volume ν) : Prop where
  grown : Grown v y w
  target : w.entry y = some (.directory v.count)
  nodup : (entries.map Prod.fst).Nodup
  source : ∀ p ∈ entries, w.entry (d, p.1) = some p.2
  free : ∀ p ∈ entries, w.entry (v.count, p.1) = none

section

variable {v w u : Volume ν} {d : Nat} {y : Slot ν} {p : ν × Entry}
  {entries : List (ν × Entry)}

theorem Filling.lt (h : Filling v d y entries w) : v.count < w.count :=
  w.bounded y _ h.target

theorem Filling.step (h : Filling v d y (p :: entries) w)
    (hu : Grown w (v.count, p.1) u) : Filling v d y entries u where
  grown := h.grown.trans h.target hu
  target := hu.extends h.grown.sound _ _ h.target
  nodup := (List.nodup_cons.mp h.nodup).2
  source q hq := hu.extends h.grown.sound _ _ (h.source q (.tail _ hq))
  free := by
    intro q hq
    rw [hu.others _ h.lt, h.free q (.tail _ hq)]
    intro heq
    have hname : q.1 = p.1 := (Prod.mk.inj heq).2
    exact (List.nodup_cons.mp h.nodup).1 (hname ▸ List.mem_map_of_mem hq)

end

section

variable [DecidableEq ν] {os : Posix π ν} {v w : Volume ν} {src dst : π} {d : Nat}
  {y : Slot ν} {p : ν × Entry} {entries : List (ν × Entry)}

omit os in
theorem new_directory_empty (hv : v.Sound) (hparent : y.1 < v.count) (name : ν) :
    (v.addDirectory y).entry (v.count, name) = none := by
  have hne : (v.count, name) ≠ y := by
    intro heq
    rw [← heq] at hparent
    exact Nat.lt_irrefl _ hparent
  exact (Volume.add_entry_of_ne hne).trans (hv.new_free name)

/-- The start of a copy to a free slot. -/
theorem filling_start (hv : v.Sound) (hdst : os.slot v.entry dst = some y)
    (hfree : v.entry y = none) (d : Nat) :
    Filling v d y (os.entries (v.addDirectory y).entry d) (v.addDirectory y) where
  grown := grown_addDirectory hv (os.slot_parent _ _ _ hdst) hfree
  target := Volume.add_entry_self
  nodup := os.entries_nodup _ d
  source _ hp := Posix.entry_of_mem hp
  free p _ := new_directory_empty hv (Posix.parent_lt hv hdst) p.1

/-- What is left of a call that finds its source and a free destination. -/
theorem copyDirAll_succ (hv : v.Sound) (hsrc : os.stat v.entry src = some (.directory d))
    (hdst : os.slot v.entry dst = some y) (hfree : v.entry y = none) (fuel : Nat) :
    copyDirAll os (fuel + 1) v src dst =
      copyEntries os (copyDirAll os fuel) (v.addDirectory y) src dst
        (os.entries (v.addDirectory y).entry d) := by
  have hextends :=
    (grown_addDirectory hv (os.slot_parent _ _ _ hdst) hfree).extends hv
  have hcreate : atSlot os.slot v dst v.createDir = .ok (v.addDirectory y) := by
    simp only [atSlot, hdst, Volume.createDir, hfree]
  have hread : readDir os (v.addDirectory y) src =
      .ok (os.entries (v.addDirectory y).entry d) := by
    simp only [readDir, os.stat_mono _ _ _ _ hextends hsrc]
  rw [copyDirAll]
  simp only [hcreate, hread]

end

/-! ## What is copied -/

/-- A reader gets to see in directory `c` of `w` what is in directory `d` of
`v`, which has no place for what a reader does not get to see. -/
def Looks (v : Volume ν) (d : Nat) (w : Volume ν) (c : Nat) (names : List ν) : Prop :=
  w.seen (.directory c) names = v.seen (.directory d) names ∧
    ∀ i, find w.entry (.directory c) names ≠ some (.special i)

/-- Directory `d` has been copied to slot `y`. -/
structure Copied (v : Volume ν) (d : Nat) (y : Slot ν) (w : Volume ν) : Prop where
  grown : Grown v y w
  target : w.entry y = some (.directory v.count)
  image : ¬ Below v.entry d y.1 → ∀ names, Looks v d w v.count names

/-- What comes of a call is a copy. -/
def Copies [DecidableEq ν] (os : Posix π ν)
    (copy : Volume ν → π → π → Option (Volume ν × Except Error Unit)) : Prop :=
  ∀ v src dst d y, v.Sound → os.stat v.entry src = some (.directory d) →
    os.slot v.entry dst = some y → v.entry y = none →
      ∀ w r, copy v src dst = some (w, r) → r = .ok () ∧ Copied v d y w

section

variable [DecidableEq ν] {os : Posix π ν} {v w u : Volume ν} {src dst : π} {d c : Nat}
  {y : Slot ν} {p : ν × Entry} {entries : List (ν × Entry)}
  {recurse : Volume ν → π → π → Option (Volume ν × Except Error Unit)}
  {r : Except Error Unit}

theorem copyEntry_file (hsrc : os.stat w.entry src = some (.directory d))
    (hdst : os.stat w.entry dst = some (.directory c)) {name : ν} {i : Nat}
    (hfile : w.entry (d, name) = some (.file i)) (hfree : w.entry (c, name) = none) :
    copyEntry os w (os.join src name) (os.join dst name) =
      ((w.addFile (c, name)).write w.count 0 (w.content i), .ok ()) := by
  have hfrom : os.follow w.entry (os.join src name) = some (d, name) :=
    os.follow_slot _ _ _ (os.slot_join _ _ _ _ hsrc) (by simp [hfile])
  have hto : os.follow w.entry (os.join dst name) = some (c, name) :=
    os.follow_slot _ _ _ (os.slot_join _ _ _ _ hdst) (by simp [hfree])
  have hi : i < w.count := w.bounded _ _ hfile
  have hcontent : (w.addFile (c, name)).content i = w.content i := Volume.add_content hi
  simp only [copyEntry, atSlot, hfrom, hto, Volume.openRead, hfile, Volume.create, hfree,
    hcontent]

/-- One entry more. -/
theorem copyOne_copied (hrecurse : Copies os recurse) (hw : w.Sound)
    (hsrc : os.stat w.entry src = some (.directory d))
    (hdst : os.stat w.entry dst = some (.directory c))
    (hp : w.entry (d, p.1) = some p.2) (hfree : w.entry (c, p.1) = none)
    (h : copyOne os recurse w src dst p = some (u, r)) :
    r = .ok () ∧ Grown w (c, p.1) u ∧
      (¬ Below w.entry d c → ∀ names, Looks w d u c (p.1 :: names)) := by
  obtain ⟨name, e⟩ := p
  have hc : c < w.count := Posix.stat_lt hw hdst
  cases e with
  | directory x =>
      have hslot := os.slot_join _ _ _ name hsrc
      have hstat := os.stat_slot _ _ _ _ hslot hp (by simp)
      obtain ⟨rfl, hcopied⟩ := hrecurse w _ _ x (c, name) hw hstat
        (os.slot_join _ _ _ name hdst) hfree u r h
      refine ⟨rfl, hcopied.grown, fun hout names => ?_⟩
      have hlooks := hcopied.image (fun hx => hout (hx.head hp)) names
      exact ⟨by rw [Volume.seen_cons hcopied.target, Volume.seen_cons hp, hlooks.1],
        by rw [find_cons_of_entry hcopied.target]; exact hlooks.2⟩
  | file i =>
      obtain ⟨rfl, rfl⟩ := Prod.mk.inj (Option.some.inj
        ((congrArg some (copyEntry_file hsrc hdst hp hfree)).symm.trans h))
      refine ⟨rfl, (grown_addFile hw (Posix.stat_directory hdst) hfree).write (Nat.le_refl _) _,
        fun _ names => ?_⟩
      have hnew : ((w.addFile (c, name)).write w.count 0 (w.content i)).entry (c, name) =
          some (.file w.count) := (Volume.Opened.addFile hfree).entry
      refine ⟨?_, by rw [find_cons_of_entry hnew]; cases names <;> simp [find]⟩
      rw [Volume.seen_cons hnew, Volume.seen_cons hp]
      cases names with
      | nil =>
          have hempty : (w.addFile (c, name)).content w.count = [] := Function.update_self ..
          rw [Volume.seen_nil, Volume.seen_nil, Volume.node, Volume.node,
            Volume.write_content_self, hempty, Files.writeAt_zero, List.drop_nil,
            List.append_nil]
      | cons => rfl
  | special i =>
      obtain ⟨rfl, rfl⟩ := Prod.mk.inj (Option.some.inj h)
      refine ⟨rfl, .refl hw hc hfree, fun _ names => ⟨?_, ?_⟩⟩
      · rw [Volume.seen_cons_of_free hfree, Volume.seen_cons hp]
        cases names <;> rfl
      · rw [find_cons_of_free hfree]
        simp

omit [DecidableEq ν] in
/-- What has been copied before stays as it is. -/
theorem Filling.done_eq (h : Filling v d y (p :: entries) w) (hv : v.Sound)
    (hu : Grown w (v.count, p.1) u) {name : ν} (hne : name ≠ p.1) (names : List ν) :
    find u.entry (.directory v.count) (name :: names) =
      find w.entry (.directory v.count) (name :: names) := by
  have hfresh : ∀ x e, w.entry x = some e → v.count ≤ x.1 → v.count < e.ino := by
    intro x e hx hlt
    rcases h.grown.fresh x e hx with hold | ⟨-, hnew⟩
    · exact absurd (hv.inside_lt hold) (Nat.not_lt.mpr hlt)
    · refine hnew fun heq => ?_
      have hparent := h.grown.parent
      rw [← heq] at hparent
      exact Nat.not_lt.mpr hlt hparent
  have hslot : u.entry (v.count, name) = w.entry (v.count, name) :=
    hu.others _ h.lt fun heq => hne (Prod.mk.inj heq).2
  rw [find_cons, find_cons, hslot]
  cases he : w.entry (v.count, name) with
  | none => rfl
  | some e =>
      refine hu.find_eq (P := fun c => v.count < c ∧ c < w.count) ?_ (fun _ hc => hc.2)
        (fun hc => Nat.lt_irrefl _ hc.1) ?_ names
      · intro c name c' hc hentry
        exact ⟨hfresh _ _ hentry (Nat.le_of_lt hc.1), w.bounded _ _ hentry⟩
      · rintro c rfl
        exact ⟨hfresh _ _ he (Nat.le_refl _), w.bounded _ _ he⟩

omit [DecidableEq ν] in
theorem Looks.step (h : Filling v d y (p :: entries) w) (hv : v.Sound)
    (hd : d < w.count) (hout : ¬ Below w.entry d v.count)
    (hu : Grown w (v.count, p.1) u) {name : ν} (hne : name ≠ p.1) {names : List ν}
    (hlooks : Looks w d w v.count (name :: names)) :
    Looks u d u v.count (name :: names) := by
  have hcopy := h.done_eq hv hu hne names
  have hcopy' := hu.seen_eq (e := .directory v.count) h.lt hcopy
  have hsource := hu.seen_eq (e := .directory d) hd (hu.source_eq hd hout (name :: names))
  exact ⟨by rw [hcopy', hsource, hlooks.1], by rw [hcopy]; exact hlooks.2⟩

/-- Between two entries: what has been copied looks as it should. -/
structure Filled (v : Volume ν) (d : Nat) (y : Slot ν) (entries : List (ν × Entry))
    (w : Volume ν) : Prop where
  filling : Filling v d y entries w
  image : ¬ Below v.entry d y.1 → ∀ name, name ∉ entries.map Prod.fst →
    ∀ names, Looks w d w v.count (name :: names)

omit [DecidableEq ν] in
theorem Filling.stats (h : Filling v d y entries w) (hv : v.Sound)
    (hsrc : os.stat v.entry src = some (.directory d)) (hdst : os.slot v.entry dst = some y) :
    os.stat w.entry src = some (.directory d) ∧
      os.stat w.entry dst = some (.directory v.count) := by
  have hextends := h.grown.extends hv
  exact ⟨os.stat_mono _ _ _ _ hextends hsrc,
    os.stat_slot _ _ _ _ (Posix.slot_mono hextends hdst) h.target (by simp)⟩

theorem Filled.step (h : Filled v d y (p :: entries) w) (hv : v.Sound)
    (hsrc : os.stat v.entry src = some (.directory d)) (hdst : os.slot v.entry dst = some y)
    (hrecurse : Copies os recurse)
    (hone : copyOne os recurse w src dst p = some (u, r)) :
    r = .ok () ∧ Filled v d y entries u := by
  obtain ⟨hsrc', hdst'⟩ := h.filling.stats hv hsrc hdst
  obtain ⟨hr, hu, himage⟩ := copyOne_copied hrecurse h.filling.grown.sound hsrc' hdst'
    (h.filling.source p (.head _)) (h.filling.free p (.head _)) hone
  have hd : d < v.count := Posix.stat_lt hv hsrc
  have hdw : d < w.count := Nat.lt_of_lt_of_le hd h.filling.grown.count
  refine ⟨hr, h.filling.step hu, fun hout name hname names => ?_⟩
  have hout' := h.filling.grown.source_below hd hout
  by_cases hp : name = p.1
  · subst hp
    have hsource := hu.seen_eq (e := .directory d) hdw
      (hu.source_eq hdw hout' (p.1 :: names))
    have hlooks := himage hout' names
    exact ⟨by rw [hsource, hlooks.1], hlooks.2⟩
  · refine Looks.step h.filling hv hdw hout' hu hp (h.image hout name ?_ names)
    intro hmem
    rcases List.mem_cons.mp hmem with heq | hmem
    · exact hp heq
    · exact hname hmem

theorem Filled.start (hv : v.Sound) (hdst : os.slot v.entry dst = some y)
    (hfree : v.entry y = none) (d : Nat) :
    Filled v d y (os.entries (v.addDirectory y).entry d) (v.addDirectory y) where
  filling := filling_start hv hdst hfree d
  image := by
    intro _ name hname names
    have hsound := (grown_addDirectory hv (os.slot_parent _ _ _ hdst) hfree).sound
    have hsource : (v.addDirectory y).entry (d, name) = none := by
      cases he : (v.addDirectory y).entry (d, name) with
      | none => rfl
      | some e =>
          exact absurd (List.mem_map_of_mem (f := Prod.fst) (Posix.mem_entries hsound he)) hname
    have hcopy := new_directory_empty hv (Posix.parent_lt hv hdst) name
    exact ⟨by rw [Volume.seen_cons_of_free hcopy, Volume.seen_cons_of_free hsource],
      by rw [find_cons_of_free hcopy]; simp⟩

omit [DecidableEq ν] in
/-- At the end of the loop. -/
theorem Filled.copied (h : Filled v d y [] w) (hd : d < v.count) : Copied v d y w where
  grown := h.filling.grown
  target := h.filling.target
  image := by
    intro hout names
    cases names with
    | nil => exact ⟨by rw [Volume.seen_nil, Volume.seen_nil]; rfl, by simp [find]⟩
    | cons name names =>
        have hlooks := h.image hout name (by simp) names
        have hsource := h.filling.grown.seen_eq (e := .directory d) hd
          (h.filling.grown.source_eq hd hout (name :: names))
        exact ⟨by rw [hlooks.1, hsource], hlooks.2⟩

/-- The loop goes through what each of its steps keeps. -/
theorem copyEntries_copied (hrecurse : Copies os recurse) (hv : v.Sound)
    (hsrc : os.stat v.entry src = some (.directory d)) (hdst : os.slot v.entry dst = some y) :
    ∀ entries w, Filled v d y entries w →
      ∀ u r, copyEntries os recurse w src dst entries = some (u, r) →
        r = .ok () ∧ Filled v d y [] u := by
  intro entries
  induction entries with
  | nil =>
      intro w h u r hcopy
      obtain ⟨rfl, rfl⟩ := Prod.mk.inj (Option.some.inj hcopy)
      exact ⟨rfl, h⟩
  | cons p entries ih =>
      intro w h u r hcopy
      rw [copyEntries] at hcopy
      split at hcopy
      · next w' hone =>
          exact ih w' (h.step hv hsrc hdst hrecurse hone).2 u r hcopy
      · next hne =>
          obtain ⟨rfl, -⟩ := h.step hv hsrc hdst hrecurse hcopy
          exact absurd hcopy (hne u)

/-- Whatever a call returns: it has made a copy. -/
theorem copyDirAll_copies (fuel : Nat) : Copies os (copyDirAll os fuel) := by
  induction fuel with
  | zero => exact fun v src dst d y _ _ _ _ w r h => absurd h (by simp [copyDirAll])
  | succ fuel ih =>
      intro v src dst d y hv hsrc hdst hfree w r h
      rw [copyDirAll_succ hv hsrc hdst hfree] at h
      obtain ⟨hr, hfilled⟩ := copyEntries_copied ih hv hsrc hdst _ _
        (Filled.start hv hdst hfree d) w r h
      exact ⟨hr, hfilled.copied (Posix.stat_lt hv hsrc)⟩

end

end WebSshTool.FsApi
