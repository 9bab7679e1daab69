import WebSshTool.Lib.Files

/-!
# `MultiFileExplorer._upload`

The browser's side of an upload without a cancel, as one function of the
server's disk, with the calls of the internal client it makes:
`fs.writeFile` for the placeholder, `Auth.upload` for the file itself, and in
compress mode `unzip` and `fs.unlink` for the temp file. The four differ in
how they open a file: `create_new`, create and truncate, create and keep.

What the POST of `Auth.upload` does and is answered is a parameter here; its
promise resolves with whatever `JSON.parse` makes of the answer's text, and
the temp file's path is read off that.
-/

namespace WebSshTool.Upload

open Json Files

abbrev slash : Nat := 0x2f

/-- `PathBuf::push`. -/
def push (buf path : Text) : Text :=
  if path.head? = some slash then path
  else if buf = [] ∨ buf.getLast? = some slash then buf ++ path
  else buf ++ slash :: path

/-! ## The calls -/

/-- `path_like_to_path`. -/
def pathLikeToPath (pathLike : List Value) : Option Text :=
  pathLike.foldl (fun buf clip =>
    match buf, clip with
    | some buf, .str s => some (push buf s)
    | _, _ => none) (some [])

section

variable {π : Type*} [DecidableEq π] (locate : Text → π)

/-- `fs.writeFile`. -/
def fsWriteFile (argument : Value) (disk : Disk π) : Except Unit (Disk π) :=
  match argument with
  | .arr [.arr pathLike, .str content] =>
      match pathLikeToPath pathLike with
      | some path =>
          match createNew disk (locate path) with
          | .ok disk => .ok (write disk (locate path) 0 (utf8 content))
          | .error _ => .error ()
      | none => .error ()
  | _ => .error ()

/-- `fs.unlink`. -/
def fsUnlink (argument : Value) (disk : Disk π) : Except Unit (Disk π) :=
  match argument with
  | .arr [.arr pathLike] =>
      match pathLikeToPath pathLike with
      | some path =>
          match unlink disk (locate path) with
          | .ok disk => .ok disk
          | .error _ => .error ()
      | none => .error ()
  | _ => .error ()

/-- `gunzip` is the decoder: the chunks it writes and whether it gets to the
end of its input without an error. -/
def internalUnzip (gunzip : Bytes → List Bytes × Bool) (src dest : π) (disk : Disk π) :
    Except Unit Unit × Disk π :=
  match Files.read disk src with
  | .error _ => (.error (), disk)
  | .ok bytes =>
      match openCreate disk dest with
      | .error _ => (.error (), disk)
      | .ok disk =>
          let disk := writeAll disk dest 0 (gunzip bytes).1
          if (gunzip bytes).2 then (.ok (), disk) else (.error (), disk)

/-- `unzip`. -/
def unzip (gunzip : Bytes → List Bytes × Bool) (argument : Value) (disk : Disk π) :
    Except Unit Unit × Disk π :=
  match argument with
  | .arr [.str src, .arr pathLike] =>
      match pathLikeToPath pathLike with
      | some dest => internalUnzip gunzip (locate src) (locate dest) disk
      | none => (.error (), disk)
  | _ => (.error (), disk)

end

/-! ## The upload -/

/-- Where the file goes: a directory and the names below it. -/
structure Dest where
  dir : Text
  below : List Text

def Dest.toList (dest : Dest) : List Text := dest.dir :: dest.below

def placeholder : Text :=
  ofString "# Web-ssh-tool try to create file here. Don't edit/move/delete this file"

inductive UploadState where
  | completed
  | error
  deriving DecidableEq, Repr

/-- What became of the placeholder: `fileGuard` was never set, is still set,
was cleared because the file is in place, or was cleared with an `fs.unlink`. -/
inductive FileGuard where
  | absent
  | held
  | dropped
  | released
  deriving DecidableEq, Repr

structure Run (π : Type*) where
  disk : Disk π
  state : UploadState
  fileGuard : FileGuard

/-- `value.path`: `none` where reading a property throws, and null, which is
what an undefined becomes inside a message, where there is no such property. -/
def pathOf : Value → Option Value
  | .null => none
  | v => some ((v.get? (ofString "path")).getD .null)

section

variable {π : Type*} [DecidableEq π]

/-- `post` sends a file under a name or without one; it yields the text of the
answer, if there is one. -/
abbrev Post (π : Type*) := Option Text → Bytes → Disk π → Option Text × Disk π

/-- `Auth.upload`: what the promise resolves with, if it does. -/
def authUpload (post : Post π) (filename : Option Text) (data : Bytes) (disk : Disk π) :
    Option Value × Disk π :=
  match post filename data disk with
  | (some responseText, disk) => (parse responseText, disk)
  | (none, disk) => (none, disk)

variable (locate : Text → π) (compress : Bytes → Option Bytes)
  (gunzip : Bytes → List Bytes × Bool) (post : Post π)

/-- The target as the calls get it: `[...dest, file.name]`. -/
def targetLike (dest : Dest) (name : Text) : List Value :=
  (dest.toList ++ [name]).map .str

/-- `releaseFileGuard`, on the way to an error. -/
def releaseFileGuard (target : List Value) (disk : Disk π) : Run π :=
  match fsUnlink locate (.arr [.arr target]) disk with
  | .ok disk => ⟨disk, .error, .released⟩
  | .error _ => ⟨disk, .error, .released⟩

def uploadDirect (dest : Dest) (name : Text) (content : Bytes) (disk : Disk π) : Run π :=
  match authUpload post (some name) content disk with
  | (none, disk) => releaseFileGuard locate (targetLike dest name) disk
  | (some _, disk) => ⟨disk, .completed, .dropped⟩

def uploadCompressed (dest : Dest) (name : Text) (content : Bytes) (disk : Disk π) :
    Run π :=
  let target := targetLike dest name
  match compress content with
  | none => releaseFileGuard locate target disk
  | some compressed =>
      match authUpload post none compressed disk with
      | (none, disk) => releaseFileGuard locate target disk
      | (some multer, disk) =>
          match pathOf multer with
          | none => ⟨disk, .error, .held⟩
          | some path =>
              let (unzipResult, disk) := unzip locate gunzip (.arr [path, .arr target]) disk
              let disk := match fsUnlink locate (.arr [.arr [path]]) disk with
                | .ok disk => disk
                | .error _ => disk
              match unzipResult with
              | .error _ => releaseFileGuard locate target disk
              | .ok _ => ⟨disk, .completed, .dropped⟩

/-- `_upload`, with `uploadCompress` from the explorer's configuration. -/
def upload (uploadCompress : Bool) (dest : Dest) (name : Text) (content : Bytes)
    (disk : Disk π) : Run π :=
  match fsWriteFile locate (.arr [.arr (targetLike dest name), .str placeholder]) disk with
  | .error _ => ⟨disk, .error, .absent⟩
  | .ok disk =>
      if uploadCompress then
        uploadCompressed locate compress gunzip post dest name content disk
      else uploadDirect locate post dest name content disk

end

/-! ## What the calls do -/

section

variable {π : Type*} [DecidableEq π]

theorem pathLikeToPath_map (texts : List Text) :
    pathLikeToPath (texts.map .str) = some (texts.foldl push []) := by
  have hfold : ∀ buf, (texts.map Value.str).foldl (fun buf clip =>
      match buf, clip with
      | some buf, .str s => some (push buf s)
      | _, _ => none) (some buf) = some (texts.foldl push buf) := by
    induction texts with
    | nil => exact fun _ => rfl
    | cons s texts ih => exact fun buf => ih (push buf s)
  exact hfold []

/-- The directory part of a destination, as `on_http` collects it. -/
def Dest.path (dest : Dest) : Text := dest.toList.foldl push []

theorem pathLikeToPath_targetLike (dest : Dest) (name : Text) :
    pathLikeToPath (targetLike dest name) = some (push dest.path name) := by
  rw [targetLike, pathLikeToPath_map, List.foldl_append]
  rfl

theorem fsWriteFile_fresh {locate : Text → π} {pathLike : List Value} {path : Text}
    (content : Text) {disk : Disk π} (hp : pathLikeToPath pathLike = some path)
    (hfree : disk (locate path) = none) :
    fsWriteFile locate (.arr [.arr pathLike, .str content]) disk =
      .ok (Function.update disk (locate path) (some (.file (utf8 content)))) := by
  have hwrite : write (Function.update disk (locate path) (some (.file []))) (locate path) 0
      (utf8 content) = Function.update disk (locate path) (some (.file (utf8 content))) := by
    rw [write_file (Function.update_self ..), Function.update_idem, writeAt_zero]
    simp
  simp only [fsWriteFile, hp, createNew, hfree, hwrite]

theorem fsUnlink_file {locate : Text → π} {path : Text} {content : Bytes} {disk : Disk π}
    (h : disk (locate path) = some (.file content)) :
    fsUnlink locate (.arr [.arr [.str path]]) disk =
      .ok (Function.update disk (locate path) none) := by
  have hp : pathLikeToPath [.str path] = some path := by
    simp [pathLikeToPath, push]
  simp [fsUnlink, hp, unlink, h]

/-- Unpacking onto a file that is there writes over it from its start. -/
theorem internalUnzip_over {gunzip : Bytes → List Bytes × Bool} {src dest : π}
    {bytes old : Bytes} {disk : Disk π} (hsrc : disk src = some (.file bytes))
    (hdest : disk dest = some (.file old)) (hok : (gunzip bytes).2 = true) :
    ∃ disk', internalUnzip gunzip src dest disk = (.ok (), disk') ∧
      disk' dest = some (.file (writeAt old 0 (gunzip bytes).1.flatten)) ∧
      ∀ p, p ≠ dest → disk' p = disk p := by
  have hopened : Function.update disk dest (some (.file old)) dest = some (.file old) :=
    Function.update_self ..
  refine ⟨_, ?_, writeAll_file (gunzip bytes).1 hopened (Nat.zero_le _), fun p hp => ?_⟩
  · simp [internalUnzip, Files.read, hsrc, openCreate, hdest, hok]
  · rw [writeAll_of_ne _ hp, Function.update_of_ne hp]

end

end WebSshTool.Upload
