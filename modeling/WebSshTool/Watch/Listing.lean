import WebSshTool.Lib.JsonMaps
import WebSshTool.Watch.Timestamps

/-!
# What a watcher reports

The events `MyWatcher` sends about the path it watches, made of what the file
system answers. An answer is read as if nothing changed in between. The file
system, and how paths are put together and written as texts, are parameters: a
name or a path need not be a text. `metadata` follows links, so it never comes
to one, and this is where the event and the directory part: a branch for links
is never entered.

`event_faithful_iff` has the exact condition: no child with a name in UTF-8 is a
link, and the system lets each of them be read.
-/

namespace WebSshTool.Watch

open Json

/-- What `std::fs::FileType` tells. -/
inductive Kind where
  | symlink
  | directory
  | file
  | other
  deriving DecidableEq, Repr

/-- `std::fs::Metadata`; a time may not be available. -/
structure Metadata where
  kind : Kind
  len : Nat
  created : Option SystemTime
  accessed : Option SystemTime
  modified : Option SystemTime
  deriving DecidableEq

def Metadata.isSymlink (data : Metadata) : Bool := data.kind = .symlink

def Metadata.isDir (data : Metadata) : Bool := data.kind = .directory

def Metadata.isFile (data : Metadata) : Bool := data.kind = .file

/-- The names a directory holds and what each is, and what the calls on paths
`π` and names `ν` answer. An error is its message; a name that could not be
read from the directory is none. Its times are written by `chrono`. -/
structure FileSystem (π ν : Type*) where
  chrono : Chrono
  children : π → List (ν × Kind)
  join : π → ν → π
  fileName : π → Option ν
  parent : π → Option π
  toStr : ν → Option Text
  pathToStr : π → Option Text
  ofStr : Text → π
  metadata : π → Except Text Metadata
  readLink : π → Except Text π
  readDir : π → Except Text (List (Option ν))
  toStr_inj : ∀ {a b s}, toStr a = some s → toStr b = some s → a = b
  /-- Links are followed, and the last of them leads to something else. -/
  metadata_kind : ∀ {p data}, metadata p = .ok data → data.kind ≠ .symlink
  metadata_child : ∀ {p name kind data}, (name, kind) ∈ children p → kind ≠ .symlink →
    metadata (join p name) = .ok data → data.kind = kind
  children_nodup : ∀ p, ((children p).map Prod.fst).Nodup
  readDir_mem : ∀ {p items name}, readDir p = .ok items → some name ∈ items →
    name ∈ (children p).map Prod.fst

structure MyWatcher (π : Type*) where
  id : Text
  currentPath : π

/-! ## One object -/

def Kind.toString : Kind → Option Text
  | .symlink => some (ofString "symbolic link")
  | .directory => some (ofString "directory")
  | .file => some (ofString "file")
  | .other => none

/-- `file_type_to_string`. -/
def fileTypeToString (data : Metadata) : Option Text :=
  if data.isSymlink then Kind.symlink.toString
  else if data.isDir then Kind.directory.toString
  else if data.isFile then Kind.file.toString
  else none

/-- A time that is available, as a text; `none` where writing it panics. -/
def stamp (chrono : Chrono) : Option SystemTime → Option (Option Text)
  | some time => (systemTimeToString chrono time).map some
  | none => some none

section

variable {π ν : Type*} (fs : FileSystem π ν)

def realPath (path : π) (data : Metadata) : Option Text :=
  if data.isSymlink then
    match fs.readLink path with
    | .ok target => fs.pathToStr target
    | .error _ => none
  else none

def realType (realPath : Option Text) : Option Text :=
  realPath.bind fun s =>
    match fs.metadata (fs.ofStr s) with
    | .ok data => fileTypeToString data
    | .error _ => none

/-- The members `object_to_json` inserts. -/
def fields (fileName : Option Text) (path : π) (entries : Option (List (Text × Value)))
    (includeParent : Bool) (data : Metadata) (created accessed modified : Option Text) :
    List (Text × Option Value) :=
  let parent := if includeParent then (fs.parent path).bind fs.pathToStr else none
  [(ofString "basename", fileName.map .str),
    (ofString "path", (fs.pathToStr path).map .str),
    (ofString "type", (fileTypeToString data).map .str),
    (ofString "realPath", (realPath fs path data).map .str),
    (ofString "realType", (realType fs (realPath fs path data)).map .str),
    (ofString "createdTime", created.map .str),
    (ofString "accessedTime", accessed.map .str),
    (ofString "modifiedTime", modified.map .str),
    (ofString "parent", parent.map .str),
    (ofString "entries", entries.map .obj),
    (ofString "size", some (.num data.len 0))]

/-- `object_to_json`; `none` where it panics. -/
def objectToJson (fileName : Option Text) (path : π) (entries : Option (List (Text × Value)))
    (includeParent : Bool) : Option (Except Text Value) :=
  match fs.metadata path with
  | .error err => some (.error err)
  | .ok data => do
      let created ← stamp fs.chrono data.created
      let accessed ← stamp fs.chrono data.accessed
      let modified ← stamp fs.chrono data.modified
      pure (.ok (object
        (fields fs fileName path entries includeParent data created accessed modified)))

/-! ## Events -/

/-- `send_json`. -/
def sendJson (w : MyWatcher π) (data : Value) : Value :=
  object [(ofString "id", some (.str w.id)), (ofString "data", some data)]

/-- `send_error`. -/
def sendError (w : MyWatcher π) (err : Text) : Value :=
  object [(ofString "id", some (.str w.id)),
    (ofString "data", some (object [
      (ofString "path", some ((fs.pathToStr w.currentPath).elim .null .str)),
      (ofString "error", some (.str err))]))]

def send (w : MyWatcher π) : Except Text Value → Value
  | .ok json => sendJson w json
  | .error err => sendError fs w err

def basename (w : MyWatcher π) : Option Text := (fs.fileName w.currentPath).bind fs.toStr

/-- The loop of `handle_dir_on_change` from some members on. It ends at the
first name that could not be read. -/
def listEntries (dir : π) : List (Option ν) → List (Text × Value) →
    Option (List (Text × Value))
  | [], m => some m
  | none :: _, m => some m
  | some name :: items, m =>
      match fs.toStr name with
      | none => listEntries dir items m
      | some fileName =>
          (objectToJson fs (some fileName) (fs.join dir name) none false).bind fun
            | .ok json => listEntries dir items (insertMember fileName json m)
            | .error _ => listEntries dir items m

def handleDirOnChange (w : MyWatcher π) : Option Value :=
  match fs.readDir w.currentPath with
  | .error err => some (sendError fs w err)
  | .ok items => do
      let m ← listEntries fs w.currentPath items []
      (objectToJson fs (basename fs w) w.currentPath (some m) true).map (send fs w)

def handleFileOnChange (w : MyWatcher π) : Option Value :=
  (objectToJson fs (basename fs w) w.currentPath none true).map (send fs w)

def handleLinkOnChange (w : MyWatcher π) : Option Value :=
  match fs.readLink w.currentPath with
  | .error err => some (sendError fs w err)
  | .ok real =>
      match fs.metadata real with
      | .error err => some (sendError fs w err)
      | .ok data =>
          if data.isDir then handleDirOnChange fs w
          else if data.isFile then handleFileOnChange fs w
          else some (sendError fs w (ofString "UnsupportedFileType"))

/-- `handle_on_change`: the event that is sent; `none` where the task panics. -/
def handleOnChange (w : MyWatcher π) : Option Value :=
  match fs.metadata w.currentPath with
  | .error err => some (sendError fs w err)
  | .ok data =>
      if data.isDir then handleDirOnChange fs w
      else if data.isFile then handleFileOnChange fs w
      else if data.isSymlink then handleLinkOnChange fs w
      else some (sendError fs w (ofString "UnsupportedMultiNestSymlink"))

/-! ## What an event should say -/

/-- A link is described by where it leads, anything else by what it is. -/
def Described (dir : π) (child : ν × Kind) (v : Value) : Prop :=
  v.get? (ofString "type") = child.2.toString.map .str ∧
    (child.2 = .symlink →
      (∀ target, fs.readLink (fs.join dir child.1) = .ok target →
        v.get? (ofString "realPath") = (fs.pathToStr target).map .str) ∧
      ∀ data, fs.metadata (fs.join dir child.1) = .ok data →
        v.get? (ofString "realType") = data.kind.toString.map .str)

/-- One entry for each child that has a text for a name, and no other. -/
def Faithful (dir : π) (event : Value) : Prop :=
  ∃ ms, (event.get? (ofString "data")).bind (·.get? (ofString "entries")) = some (.obj ms) ∧
    (ms.map Prod.fst).Nodup ∧
    (∀ key v, (key, v) ∈ ms →
      ∃ child ∈ fs.children dir, fs.toStr child.1 = some key ∧ Described fs dir child v) ∧
    ∀ child ∈ fs.children dir, ∀ key, fs.toStr child.1 = some key → ∃ v, (key, v) ∈ ms

/-- The names the loop comes to. -/
def readNames : List (Option ν) → List ν
  | some name :: items => name :: readNames items
  | none :: _ | [] => []

/-- Every time that is available can be written. -/
def Metadata.Dated (chrono : Chrono) (data : Metadata) : Prop :=
  (stamp chrono data.created).isSome ∧ (stamp chrono data.accessed).isSome ∧
    (stamp chrono data.modified).isSome

/-- No child is a link, and the system lets each be read. -/
structure Plain (dir : π) (items : List (Option ν)) : Prop where
  not_link : ∀ child ∈ fs.children dir, ∀ key, fs.toStr child.1 = some key →
    child.2 ≠ .symlink
  read : ∀ child ∈ fs.children dir, ∀ key, fs.toStr child.1 = some key →
    child.1 ∈ readNames items ∧ ∃ data, fs.metadata (fs.join dir child.1) = .ok data
  dated : ∀ name ∈ readNames items, ∀ key, fs.toStr name = some key →
    ∀ data, fs.metadata (fs.join dir name) = .ok data → data.Dated fs.chrono
  dated_dir : ∀ data, fs.metadata dir = .ok data → data.Dated fs.chrono

/-! ## One object, as it is -/

variable {fs}

theorem fileTypeToString_eq (data : Metadata) : fileTypeToString data = data.kind.toString := by
  unfold fileTypeToString Metadata.isSymlink Metadata.isDir Metadata.isFile
  cases data.kind <;> rfl

theorem Kind.toString_eq_symlink {kind : Kind} :
    kind.toString = Kind.symlink.toString ↔ kind = .symlink := by
  cases kind <;> decide

variable (fs) in
theorem nodup_fields (fileName : Option Text) (path : π)
    (entries : Option (List (Text × Value))) (includeParent : Bool) (data : Metadata)
    (created accessed modified : Option Text) :
    ((fields fs fileName path entries includeParent data created accessed modified).map
      Prod.fst).Nodup := by
  simp only [fields, List.map_cons, List.map_nil]
  decide

theorem objectToJson_eq {fileName : Option Text} {path : π}
    {entries : Option (List (Text × Value))} {includeParent : Bool} {v : Value}
    (h : objectToJson fs fileName path entries includeParent = some (.ok v)) :
    ∃ data created accessed modified, fs.metadata path = .ok data ∧
      stamp fs.chrono data.created = some created ∧
      stamp fs.chrono data.accessed = some accessed ∧
      stamp fs.chrono data.modified = some modified ∧
      v = object
        (fields fs fileName path entries includeParent data created accessed modified) := by
  unfold objectToJson at h
  split at h
  · cases h
  · next data hdata =>
      simp only [Option.bind_eq_bind, Option.bind_eq_some_iff, Option.pure_def,
        Option.some.injEq, Except.ok.injEq] at h
      obtain ⟨created, hcreated, accessed, haccessed, modified, hmodified, rfl⟩ := h
      exact ⟨data, created, accessed, modified, hdata, hcreated, haccessed, hmodified, rfl⟩

theorem objectToJson_ok {fileName : Option Text} {path : π}
    {entries : Option (List (Text × Value))} {includeParent : Bool} {v : Value}
    (h : objectToJson fs fileName path entries includeParent = some (.ok v)) :
    ∃ data, fs.metadata path = .ok data ∧
      v.get? (ofString "type") = data.kind.toString.map .str ∧
      v.get? (ofString "entries") = entries.map .obj := by
  obtain ⟨data, created, accessed, modified, hdata, -, -, -, rfl⟩ := objectToJson_eq h
  have hnodup := nodup_fields fs fileName path entries includeParent data
    created accessed modified
  have htype := get?_object hnodup (f := (ofString "type", (fileTypeToString data).map .str))
    (by simp [fields])
  have hentries := get?_object hnodup (f := (ofString "entries", entries.map .obj))
    (by simp [fields])
  exact ⟨data, hdata, by rw [htype, fileTypeToString_eq], hentries⟩

variable (fs) in
theorem objectToJson_isSome_iff (fileName : Option Text) (path : π)
    (entries : Option (List (Text × Value))) (includeParent : Bool) :
    (objectToJson fs fileName path entries includeParent).isSome ↔
      ∀ data, fs.metadata path = .ok data → data.Dated fs.chrono := by
  unfold objectToJson Metadata.Dated
  split
  · next err herr => simp [herr]
  · next data hdata =>
      simp only [hdata, Except.ok.injEq, forall_eq']
      cases stamp fs.chrono data.created <;> cases stamp fs.chrono data.accessed <;>
        cases stamp fs.chrono data.modified <;> simp

/-- It fails where `metadata` does, and nowhere else. -/
theorem objectToJson_error {fileName : Option Text} {path : π}
    {entries : Option (List (Text × Value))} {includeParent : Bool} {err : Text}
    (h : objectToJson fs fileName path entries includeParent = some (.error err)) :
    fs.metadata path = .error err := by
  unfold objectToJson at h
  split at h
  · next e he =>
      obtain rfl := Except.error.inj (Option.some.inj h)
      exact he
  · simp [Option.bind_eq_some_iff] at h

/-! ## The loop -/

theorem mem_of_mem_readNames {items : List (Option ν)} {name : ν}
    (h : name ∈ readNames items) : some name ∈ items := by
  fun_induction readNames items with
  | case1 first items ih =>
      rcases List.mem_cons.mp h with rfl | h
      · exact .head _
      · exact .tail _ (ih h)
  | case2 => cases h
  | case3 => cases h

variable (fs) in
/-- A member the loop makes of one of these names. -/
def Entry (dir : π) (names : List ν) (key : Text) (v : Value) : Prop :=
  ∃ name ∈ names, fs.toStr name = some key ∧
    objectToJson fs (some key) (fs.join dir name) none false = some (.ok v)

theorem entry_append_singleton {dir : π} {names : List ν} {name : ν} {key : Text} {v : Value} :
    Entry fs dir (names ++ [name]) key v ↔ Entry fs dir names key v ∨
      (fs.toStr name = some key ∧
        objectToJson fs (some key) (fs.join dir name) none false = some (.ok v)) := by
  simp [Entry, or_and_right, exists_or]

theorem listEntries_spec {dir : π} {items : List (Option ν)} {m m' : List (Text × Value)}
    (seen : List ν) (hordered : Ordered m)
    (hm : ∀ key v, (key, v) ∈ m ↔ Entry fs dir seen key v)
    (h : listEntries fs dir items m = some m') :
    Ordered m' ∧ ∀ key v, (key, v) ∈ m' ↔ Entry fs dir (seen ++ readNames items) key v := by
  fun_induction listEntries fs dir items m generalizing seen with
  | case1 m =>
      obtain rfl := Option.some.inj h
      simpa [readNames] using ⟨hordered, hm⟩
  | case2 items m =>
      obtain rfl := Option.some.inj h
      simpa [readNames] using ⟨hordered, hm⟩
  | case3 name items m hname ih =>
      have hstep : ∀ key v, (key, v) ∈ m ↔ Entry fs dir (seen ++ [name]) key v := fun key v => by
        rw [entry_append_singleton, hm, hname]
        simp
      simpa [readNames] using ih _ hordered hstep h
  | case4 name items m fileName hname ih₁ ih₂ =>
      obtain ⟨r, hr, hrest⟩ := Option.bind_eq_some_iff.mp h
      cases r with
      | ok json =>
          have hstep : ∀ key v, (key, v) ∈ insertMember fileName json m ↔
              Entry fs dir (seen ++ [name]) key v := fun key v => by
            rw [mem_insertMember_iff hordered, entry_append_singleton, hm, hname]
            constructor
            · rintro (⟨rfl, rfl⟩ | ⟨-, hentry⟩)
              · exact .inr ⟨rfl, hr⟩
              · exact .inl hentry
            · rintro (hentry | ⟨hkey, hjson⟩)
              · by_cases hkey : key = fileName
                · -- The same name again is described the same way again.
                  obtain ⟨name', -, hname', hjson⟩ := hentry
                  subst hkey
                  obtain rfl := fs.toStr_inj hname' hname
                  rw [hr, Option.some.injEq, Except.ok.injEq] at hjson
                  exact .inl ⟨rfl, hjson.symm⟩
                · exact .inr ⟨hkey, hentry⟩
              · obtain rfl := Option.some.inj hkey
                rw [hr, Option.some.injEq, Except.ok.injEq] at hjson
                exact .inl ⟨rfl, hjson.symm⟩
          simpa [readNames] using ih₁ json _ (ordered_insertMember hordered) hstep hrest
      | error err =>
          have hstep : ∀ key v, (key, v) ∈ m ↔ Entry fs dir (seen ++ [name]) key v :=
            fun key v => by
              rw [entry_append_singleton, hm, hname]
              refine ⟨.inl, ?_⟩
              rintro (hentry | ⟨hkey, hjson⟩)
              · exact hentry
              · obtain rfl := Option.some.inj hkey
                rw [hr] at hjson
                cases hjson
          simpa [readNames] using ih₂ _ hordered hstep hrest

theorem listEntries_isSome_iff {dir : π} {items : List (Option ν)} {m : List (Text × Value)} :
    (listEntries fs dir items m).isSome ↔
      ∀ name ∈ readNames items, ∀ key, fs.toStr name = some key →
        ∀ data, fs.metadata (fs.join dir name) = .ok data → data.Dated fs.chrono := by
  fun_induction listEntries fs dir items m with
  | case1 m => simp [readNames]
  | case2 items m => simp [readNames]
  | case3 name items m hname ih =>
      rw [ih]
      simp [readNames, hname]
  | case4 name items m fileName hname ih₁ ih₂ =>
      have hhead := objectToJson_isSome_iff fs (some fileName) (fs.join dir name) none false
      simp only [readNames, List.forall_mem_cons, hname, Option.some.injEq, forall_eq', ← hhead]
      cases h : objectToJson fs (some fileName) (fs.join dir name) none false with
      | none => simp
      | some r =>
          cases r with
          | ok json => simp [ih₁ json]
          | error err => simp [ih₂]

/-! ## The event -/

variable (fs) in
/-- The branch for links is never entered; what is neither a directory nor a
file gets the last one. -/
theorem handleOnChange_eq (w : MyWatcher π) :
    handleOnChange fs w = match fs.metadata w.currentPath with
      | .error err => some (sendError fs w err)
      | .ok data =>
          if data.isDir then handleDirOnChange fs w
          else if data.isFile then handleFileOnChange fs w
          else some (sendError fs w (ofString "UnsupportedMultiNestSymlink")) := by
  unfold handleOnChange
  cases h : fs.metadata w.currentPath with
  | error err => rfl
  | ok data =>
      have hlink : data.isSymlink = false := by
        simp [Metadata.isSymlink, fs.metadata_kind h]
      simp [hlink]

variable (fs) in
theorem handleOnChange_directory (w : MyWatcher π) {here : Metadata}
    (hdir : fs.metadata w.currentPath = .ok here) (hkind : here.kind = .directory) :
    handleOnChange fs w = handleDirOnChange fs w := by
  have hisDir : here.isDir = true := by simp [Metadata.isDir, hkind]
  rw [handleOnChange_eq, hdir]
  exact if_pos hisDir

theorem data_sendJson (w : MyWatcher π) (v : Value) :
    (sendJson w v).get? (ofString "data") = some v :=
  get?_object (by simp only [List.map_cons, List.map_nil]; decide)
    (f := (ofString "data", some v)) (by simp)

/-- An error has no entries. -/
theorem not_faithful_sendError (w : MyWatcher π) (err : Text) (dir : π) :
    ¬ Faithful fs dir (sendError fs w err) := by
  rintro ⟨ms, hms, -⟩
  obtain ⟨data, hdata, hentries⟩ := Option.bind_eq_some_iff.mp hms
  have hdata' := (get?_object_iff (by simp only [List.map_cons, List.map_nil]; decide)).mp hdata
  have hne : ofString "data" ≠ ofString "id" := by decide
  simp only [List.mem_cons, Prod.mk.injEq, hne, false_and, true_and, Option.some.injEq,
    false_or, List.not_mem_nil, or_false] at hdata'
  subst hdata'
  have hentries' :=
    (get?_object_iff (by simp only [List.map_cons, List.map_nil]; decide)).mp hentries
  have hne : ofString "entries" ≠ ofString "path" ∧ ofString "entries" ≠ ofString "error" := by
    decide
  simp [hne.1, hne.2] at hentries'

/-- An event with entries has those the loop made. -/
theorem handleDirOnChange_faithful {w : MyWatcher π} {event : Value}
    (h : handleDirOnChange fs w = some event) (hfaithful : Faithful fs w.currentPath event) :
    ∃ items ms v, fs.readDir w.currentPath = .ok items ∧
      listEntries fs w.currentPath items [] = some ms ∧
      objectToJson fs (basename fs w) w.currentPath (some ms) true = some (.ok v) ∧
      event = sendJson w v := by
  unfold handleDirOnChange at h
  split at h
  · obtain rfl := Option.some.inj h
    exact absurd hfaithful (not_faithful_sendError w _ _)
  · next items hitems =>
      obtain ⟨ms, hms, hrest⟩ := Option.bind_eq_some_iff.mp h
      obtain ⟨r, hr, rfl⟩ := Option.map_eq_some_iff.mp hrest
      cases r with
      | ok v => exact ⟨items, ms, v, hitems, hms, hr, rfl⟩
      | error err => exact absurd hfaithful (not_faithful_sendError w _ _)

theorem described_of_plain {dir : π} {items : List (Option ν)} (h : Plain fs dir items)
    {child : ν × Kind} (hchild : child ∈ fs.children dir) {key : Text}
    (hkey : fs.toStr child.1 = some key) {v : Value}
    (hv : objectToJson fs (some key) (fs.join dir child.1) none false = some (.ok v)) :
    Described fs dir child v := by
  have hlink := h.not_link child hchild key hkey
  obtain ⟨data, hdata, htype, -⟩ := objectToJson_ok hv
  refine ⟨?_, fun heq => absurd heq hlink⟩
  rw [htype, fs.metadata_child hchild hlink hdata]

theorem faithful_of_plain {w : MyWatcher π} {here : Metadata}
    (hdir : fs.metadata w.currentPath = .ok here) {items : List (Option ν)}
    (hitems : fs.readDir w.currentPath = .ok items) (h : Plain fs w.currentPath items) :
    ∃ event, handleDirOnChange fs w = some event ∧ Faithful fs w.currentPath event := by
  obtain ⟨ms, hms⟩ := Option.isSome_iff_exists.mp
    (listEntries_isSome_iff (m := []).mpr h.dated)
  obtain ⟨r, hr⟩ := Option.isSome_iff_exists.mp
    ((objectToJson_isSome_iff fs (basename fs w) w.currentPath (some ms) true).mpr h.dated_dir)
  obtain ⟨hordered, hentries⟩ := listEntries_spec [] List.Pairwise.nil
    (by simp [Entry]) hms
  cases r with
  | error err => exact absurd (hdir.symm.trans (objectToJson_error hr)) (by simp)
  | ok v =>
      obtain ⟨-, -, -, hv⟩ := objectToJson_ok hr
      refine ⟨sendJson w v, by simp [handleDirOnChange, hitems, hms, hr, send], ms, ?_,
        hordered.nodup, ?_, ?_⟩
      · rw [data_sendJson, Option.bind_some, hv]
        rfl
      · intro key json hmem
        obtain ⟨name, hname, hkey, hjson⟩ := (hentries key json).mp hmem
        obtain ⟨child, hchild, rfl⟩ : ∃ child ∈ fs.children w.currentPath, child.1 = name := by
          simpa using fs.readDir_mem hitems (mem_of_mem_readNames (by simpa using hname))
        exact ⟨child, hchild, hkey, described_of_plain h hchild hkey hjson⟩
      · intro child hchild key hkey
        obtain ⟨hread, data, hdata⟩ := h.read child hchild key hkey
        have hdated := h.dated child.1 hread key hkey
        obtain ⟨r, hr⟩ := Option.isSome_iff_exists.mp
          ((objectToJson_isSome_iff fs (some key) (fs.join w.currentPath child.1) none false).mpr
            hdated)
        cases r with
        | error err => exact absurd (hdata.symm.trans (objectToJson_error hr)) (by simp)
        | ok json => exact ⟨json, (hentries key json).mpr ⟨child.1, hread, hkey, hr⟩⟩

theorem plain_of_faithful {w : MyWatcher π} {event : Value}
    (hevent : handleDirOnChange fs w = some event)
    (hfaithful : Faithful fs w.currentPath event) :
    ∃ items, fs.readDir w.currentPath = .ok items ∧ Plain fs w.currentPath items := by
  obtain ⟨items, made, v, hitems, hmade, hv, rfl⟩ := handleDirOnChange_faithful hevent hfaithful
  obtain ⟨ms, hms, -, hsound, hcomplete⟩ := hfaithful
  obtain ⟨-, -, -, hentries⟩ := objectToJson_ok hv
  rw [data_sendJson, Option.bind_some, hentries, Option.map_some, Option.some.injEq,
    Value.obj.injEq] at hms
  subst hms
  obtain ⟨-, hmem⟩ := listEntries_spec [] List.Pairwise.nil (by simp [Entry]) hmade
  have hread : ∀ child ∈ fs.children w.currentPath, ∀ key, fs.toStr child.1 = some key →
      child.1 ∈ readNames items ∧ ∃ json, (key, json) ∈ made ∧
        objectToJson fs (some key) (fs.join w.currentPath child.1) none false =
          some (.ok json) := by
    intro child hchild key hkey
    obtain ⟨json, hjson⟩ := hcomplete child hchild key hkey
    obtain ⟨name, hname, hkey', hobject⟩ := (hmem key json).mp hjson
    obtain rfl := fs.toStr_inj hkey' hkey
    exact ⟨by simpa using hname, json, hjson, hobject⟩
  refine ⟨items, hitems, ?_, ?_, ?_, ?_⟩
  · intro child hchild key hkey hlink
    obtain ⟨-, json, hjson, hobject⟩ := hread child hchild key hkey
    obtain ⟨child', hchild', hkey', htype, -⟩ := hsound key json hjson
    have hname := fs.toStr_inj hkey' hkey
    obtain rfl := List.inj_on_of_nodup_map (fs.children_nodup _) hchild' hchild hname
    obtain ⟨data, hdata, htype', -⟩ := objectToJson_ok hobject
    -- What `metadata` came to is not a link, and no other kind has that text.
    rw [htype', hlink] at htype
    exact fs.metadata_kind hdata (Kind.toString_eq_symlink.mp
      (Option.map_injective (fun _ _ heq => Value.str.inj heq) htype))
  · intro child hchild key hkey
    obtain ⟨hname, json, -, hobject⟩ := hread child hchild key hkey
    obtain ⟨data, hdata, -⟩ := objectToJson_ok hobject
    exact ⟨hname, data, hdata⟩
  · exact listEntries_isSome_iff.mp (Option.isSome_of_eq_some hmade)
  · exact (objectToJson_isSome_iff ..).mp (Option.isSome_of_eq_some hv)

end

/-! ## A directory on its own -/

/-- A child; a link leads to another name in the directory. -/
structure Item where
  name : Text
  kind : Kind
  target : Text := []

/-- What is at the end of the links that begin at a name, `n` steps at most. -/
def lead (items : List Item) : Nat → Text → Option Kind
  | 0, _ => none
  | n + 1, name =>
      (items.find? fun item => item.name == name).bind fun item =>
        if item.kind = .symlink then lead items n item.target else some item.kind

theorem lead_ne_symlink {items : List Item} {n : Nat} {name : Text} {kind : Kind}
    (h : lead items n name = some kind) : kind ≠ .symlink := by
  induction n generalizing name with
  | zero => cases h
  | succ n ih =>
      obtain ⟨item, -, hitem⟩ := Option.bind_eq_some_iff.mp h
      split at hitem
      · exact ih hitem
      · next hne =>
          obtain rfl := Option.some.inj hitem
          exact hne

theorem lead_of_mem {items : List Item} (hnodup : (items.map Item.name).Nodup) {item : Item}
    (hitem : item ∈ items) (hkind : item.kind ≠ .symlink) (n : Nat) :
    lead items (n + 1) item.name = some item.kind := by
  have hfind : (items.find? fun other => other.name == item.name) = some item := by
    cases hfind : items.find? fun other => other.name == item.name with
    | none => exact absurd (List.find?_eq_none.mp hfind item hitem) (by simp)
    | some other =>
        have hname := List.find?_some hfind
        rw [beq_iff_eq] at hname
        rw [List.inj_on_of_nodup_map hnodup (List.mem_of_find?_eq_some hfind) hitem hname]
  rw [lead, hfind, Option.bind_some, if_neg hkind]

/-- Empty, and last modified in 1970. -/
def described (kind : Kind) : Metadata := ⟨kind, 0, none, none, some ⟨0, 0, by decide⟩⟩

theorem dated_described (kind : Kind) : (described kind).Dated utc := by
  have hmodified : (stamp utc (some ⟨0, 0, by decide⟩)).isSome = true := by decide +kernel
  exact ⟨rfl, rfl, hmodified⟩

/-- The root directory, which is `none`, with some children in it. -/
def ofItems (items : List Item) (hnodup : (items.map Item.name).Nodup) :
    FileSystem (Option Text) Text where
  chrono := utc
  children dir := if dir = none then items.map fun item => (item.name, item.kind) else []
  join dir name := some (dir.elim name fun dir => dir ++ 0x2f :: name)
  fileName := id
  parent p := p.map fun _ => none
  toStr := some
  pathToStr p := some (0x2f :: p.getD [])
  ofStr s := if s = [0x2f] then none else some (s.dropWhile (· = 0x2f))
  metadata p :=
    match p with
    | none => .ok (described .directory)
    | some name =>
        match lead items 41 name with
        | none => .error (ofString "No such file or directory (os error 2)")
        | some kind => .ok (described kind)
  readLink p :=
    ((items.find? fun item => some item.name = p).filter fun item => item.kind = .symlink).elim
      (.error (ofString "Invalid argument (os error 22)")) fun item => .ok (some item.target)
  readDir dir :=
    if dir = none then .ok (items.map fun item => some item.name)
    else .error (ofString "Not a directory (os error 20)")
  toStr_inj ha hb := Option.some.inj (ha.trans hb.symm)
  metadata_kind {p data} h := by
    split at h
    · obtain rfl := Except.ok.inj h
      decide
    · split at h
      · cases h
      · next kind hlead =>
          obtain rfl := Except.ok.inj h
          exact lead_ne_symlink hlead
  metadata_child {p name kind data} hmem hkind h := by
    split at hmem
    · next hroot =>
        obtain ⟨item, hitem, heq⟩ := List.mem_map.mp hmem
        obtain ⟨rfl, rfl⟩ := Prod.mk.inj heq
        subst hroot
        simp only [Option.elim_none, lead_of_mem hnodup hitem hkind, Except.ok.injEq] at h
        rw [← h]
        rfl
    · cases hmem
  children_nodup p := by
    split
    · simpa [Function.comp_def] using hnodup
    · exact List.nodup_nil
  readDir_mem {p items' name} h hmem := by
    split at h
    · next hroot =>
        obtain rfl := Except.ok.inj h
        obtain ⟨item, hitem, hname⟩ := List.mem_map.mp hmem
        obtain rfl := Option.some.inj hname
        rw [if_pos hroot, List.map_map]
        exact List.mem_map.mpr ⟨item, hitem, rfl⟩
    · cases h

theorem readNames_map_some {ν : Type*} (names : List ν) :
    readNames (names.map some) = names := by
  induction names with
  | nil => rfl
  | cons name names ih => rw [List.map_cons, readNames, ih]

theorem plain_ofItems {items : List Item} (hnodup : (items.map Item.name).Nodup)
    (hlinks : ∀ item ∈ items, item.kind ≠ .symlink) :
    Plain (ofItems items hnodup) none ((items.map Item.name).map some) where
  not_link child hchild key _ := by
    obtain ⟨item, hitem, rfl⟩ := List.mem_map.mp hchild
    exact hlinks item hitem
  read child hchild key _ := by
    obtain ⟨item, hitem, rfl⟩ := List.mem_map.mp hchild
    rw [readNames_map_some]
    refine ⟨List.mem_map_of_mem hitem, described item.kind, ?_⟩
    simp [ofItems, lead_of_mem hnodup hitem (hlinks item hitem)]
  dated name _ key _ data hdata := by
    simp only [ofItems, Option.elim_none] at hdata
    split at hdata
    · cases hdata
    · obtain rfl := Except.ok.inj hdata
      exact dated_described _
  dated_dir data hdata := by
    obtain rfl := Except.ok.inj hdata
    exact dated_described _

/-! ## Which directories are reported as they are -/

/-- The event of a directory is sent and describes its children as they are if
and only if none of those with a text for a name is a link, and the system lets
each of them be read. -/
theorem event_faithful_iff {π ν : Type*} (fs : FileSystem π ν) (w : MyWatcher π)
    {here : Metadata}
    (hdir : fs.metadata w.currentPath = .ok here) (hkind : here.kind = .directory) :
    (∃ event, handleOnChange fs w = some event ∧ Faithful fs w.currentPath event) ↔
      ∃ items, fs.readDir w.currentPath = .ok items ∧ Plain fs w.currentPath items := by
  rw [handleOnChange_directory fs w hdir hkind]
  constructor
  · rintro ⟨event, hevent, hfaithful⟩
    exact plain_of_faithful hevent hfaithful
  · rintro ⟨items, hitems, hplain⟩
    exact faithful_of_plain hdir hitems hplain

/-- A file and a named pipe, which has no type. -/
theorem event_faithful_iff_pipe :
    ∃ event, handleOnChange (ofItems [⟨[0x61], .file, []⟩, ⟨[0x70], .other, []⟩] (by decide))
        ⟨[0x77], none⟩ = some event ∧
      Faithful (ofItems [⟨[0x61], .file, []⟩, ⟨[0x70], .other, []⟩] (by decide)) none event :=
  (event_faithful_iff _ ⟨[0x77], none⟩ rfl rfl).mpr
    ⟨_, rfl, plain_ofItems (by decide) (by decide)⟩

/-- A directory and a link to it. -/
theorem event_unfaithful :
    ¬ ∀ (items : List Item) (hnodup : (items.map Item.name).Nodup),
      ∃ event, handleOnChange (ofItems items hnodup) ⟨[0x77], none⟩ = some event ∧
        Faithful (ofItems items hnodup) none event := by
  intro h
  obtain ⟨event, hevent, hfaithful⟩ :=
    h [⟨[0x64], .directory, []⟩, ⟨[0x6c], .symlink, [0x64]⟩] (by decide)
  rw [handleOnChange_directory _ _ rfl rfl] at hevent
  obtain ⟨items, -, hplain⟩ := plain_of_faithful hevent hfaithful
  exact hplain.not_link ([0x6c], .symlink) (by decide) [0x6c] rfl rfl

end WebSshTool.Watch
