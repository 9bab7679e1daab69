import WebSshTool.Watch.Listing

/-!
# Entries in the browser

What the file explorer reads of the entries of an event, and what its dialog
for deleting makes of their types. The internal client sends three types and
never that of a link, so a link is deleted as what it leads to would be.
-/

namespace WebSshTool.Explorer

open Json (Text)
open Watch (FileSystem objectToJson objectToJson_ok)

inductive FileType where
  | file
  | directory
  | blockDevice
  | characterDevice
  | symbolicLink
  | fifo
  | socket
  deriving DecidableEq, Repr

def FileType.text : FileType → Text
  | .file => "file".toList.map Char.toNat
  | .directory => "directory".toList.map Char.toNat
  | .blockDevice => "block device".toList.map Char.toNat
  | .characterDevice => "character device".toList.map Char.toNat
  | .symbolicLink => "symbolic link".toList.map Char.toNat
  | .fifo => "fifo".toList.map Char.toNat
  | .socket => "socket".toList.map Char.toNat

/-- The value of the enumeration that has a text. -/
def FileType.ofText (s : Text) : Option FileType :=
  [file, directory, blockDevice, characterDevice, symbolicLink, fifo, socket].find?
    fun type => type.text = s

/-- What is sorted by; `none` is `undefined`. -/
structure Lstat where
  type : Option FileType
  modifiedTime : Option Text
  deriving DecidableEq

/-- `[key, stats]`, as `Object.entries` lists them. -/
abbrev Entry := Text × Lstat

/-- The entries of a directory: no name is there twice. -/
structure Listing where
  entries : List Entry
  nodup : (entries.map Prod.fst).Nodup

def textOf (v : Json.Value) (name : Text) : Option Text :=
  match v.get? name with
  | some (.str s) => some s
  | _ => none

/-- What the browser reads of an entry. -/
def lstatOf (v : Json.Value) : Lstat where
  type := (textOf v (Json.ofString "type")).bind FileType.ofText
  modifiedTime := textOf v (Json.ofString "modifiedTime")

/-- A request of the dialog for deleting. -/
inductive DeleteCall where
  | unlink (path : Text)
  | rm (path : Text)
  deriving DecidableEq, Repr

/-- What `DeleteDialog` asks for an object. -/
def deleteCall (type : Option FileType) (path : Option Text) : Option DeleteCall :=
  path.bind fun path =>
    match type with
    | some .file => some (.unlink path)
    | some .symbolicLink | some .directory => some (.rm path)
    | _ => none

theorem ofText_toString (kind : Watch.Kind) : kind.toString.bind FileType.ofText =
    match kind with
    | .symlink => some .symbolicLink
    | .directory => some .directory
    | .file => some .file
    | .other => none := by
  cases kind <;> decide

section

variable {π ν : Type*} {fs : FileSystem π ν} {fileName : Option Text} {path : π}
  {entries : Option (List (Text × Json.Value))} {includeParent : Bool} {v : Json.Value}

/-- The type of an entry is that of what `metadata` came to. -/
theorem type_lstatOf (h : objectToJson fs fileName path entries includeParent = some (.ok v)) :
    ∃ data, fs.metadata path = .ok data ∧
      (lstatOf v).type = data.kind.toString.bind FileType.ofText := by
  obtain ⟨data, hdata, htype, -⟩ := objectToJson_ok h
  refine ⟨data, hdata, ?_⟩
  unfold lstatOf textOf
  rw [htype]
  cases data.kind.toString <;> rfl

/-- Nothing is deleted as a link. -/
theorem deleteCall_lstatOf
    (h : objectToJson fs fileName path entries includeParent = some (.ok v)) (s : Text) :
    ∃ data, fs.metadata path = .ok data ∧ deleteCall (lstatOf v).type (some s) =
      if data.isDir then some (.rm s) else if data.isFile then some (.unlink s) else none := by
  obtain ⟨data, hdata, htype⟩ := type_lstatOf h
  refine ⟨data, hdata, ?_⟩
  have hkind := fs.metadata_kind hdata
  rw [htype, ofText_toString]
  unfold Watch.Metadata.isDir Watch.Metadata.isFile
  cases hcase : data.kind with
  | symlink => exact absurd hcase hkind
  | directory => rfl
  | file => rfl
  | other => rfl

end

end WebSshTool.Explorer
