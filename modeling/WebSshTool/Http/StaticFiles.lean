import WebSshTool.Lib.Paths

/-!
# Which files a request without a token can read

`on_http` serves whoever knows no token from the assets: the request path,
less its first slash, is the name of a file, and with `--assets-path` given
that name is joined to it and opened. Nothing looks at the name on the way.
A second slash makes it absolute, and then `join` forgets the assets path; a
`..` segment leads out of the directory as it would in a shell.

`static_stays_iff` says which paths stay inside: those that come back through
the directories they left.
-/

namespace WebSshTool.Http

open Paths

inductive Method where
  | get
  | head
  | other (name : String)
  deriving DecidableEq, Repr

/-- The parts of a request `on_http` looks at. `query` holds the pairs that
`form_urlencoded::parse` yields. -/
structure Request where
  method : Method
  path : List Char
  query : Option (List (List Char × List Char))

/-- Why nothing was found, as `not_found` is told. -/
inductive NotFound where
  | unknownRequest
  | authRequestFailed
  | unknownMethod (method : Method) (path : List Char)
  deriving DecidableEq, Repr

/-- The function `on_http` goes on with. -/
inductive Route where
  | download (files : List (List Char))
  | upload (dir : Path) (filename : Option (List Char))
  | preview (path : List Char)
  | client
  | fileSend (filename : List Char)
  | notFound (cause : NotFound)
  deriving DecidableEq, Repr

/-- What the pairs after the token amount to. -/
structure Peers where
  uploadDir : List (List Char) := []
  uploadFilename : Option (List Char) := none
  preview : Option (List Char) := none
  files : List (List Char) := []

def Peers.add (q : Peers) (pair : List Char × List Char) : Peers :=
  if pair.1 = ['p'] then { q with files := q.files ++ [pair.2] }
  else if pair.1 = ['u'] then { q with uploadDir := q.uploadDir ++ [pair.2] }
  else if pair.1 = ['n'] then { q with uploadFilename := some pair.2 }
  else if pair.1 = ['v'] then { q with preview := some pair.2 }
  else q

/-- `peers.find(|(key, _)| key.as_str() == "t")`, with the pairs left over. -/
def findToken : List (List Char × List Char) →
    Option (List Char × List (List Char × List Char))
  | [] => none
  | pair :: pairs => if pair.1 = ['t'] then some (pair.2, pairs) else findToken pairs

/-- `on_http`, where `peerMap` tells the tokens with a peer. -/
def onHttp (peerMap : List Char → Bool) (req : Request) : Route :=
  match req.query.bind findToken with
  | some (token, pairs) =>
      if peerMap token then
        let peers := pairs.foldl Peers.add {}
        if peers.files ≠ [] then .download peers.files
        else if peers.uploadDir ≠ [] then
          .upload (peers.uploadDir.foldl join []) peers.uploadFilename
        else match peers.preview with
          | some preview => .preview preview
          | none => .notFound .unknownRequest
      else .notFound .authRequestFailed
  | none =>
      if req.path = "/client".toList then .client
      else match req.method with
        | .get | .head =>
            if req.path = [] ∨ req.path = ['/'] then .fileSend "index.html".toList
            else .fileSend (req.path.drop 1)
        | .other name => .notFound (.unknownMethod (.other name) req.path)

/-- The file `file_send` opens through `external_file_send`; without an
assets path it opens none and serves the files built into the program. -/
def opened (assetsPath : Option Path) (peerMap : List Char → Bool)
    (req : Request) : Option Path :=
  match onHttp peerMap req with
  | .fileSend filename => assetsPath.map fun assets => join assets filename
  | _ => none

/-- `file` lies in `dir` or below it, with the working directory `cwd`. -/
def Under (cwd : List Name) (dir file : Path) : Prop :=
  resolve cwd dir <+: resolve cwd file

instance (cwd : List Name) (dir file : Path) : Decidable (Under cwd dir file) :=
  inferInstanceAs (Decidable (_ <+: _))

/-- A name that stays in the assets directory: relative, and coming down
through the names it climbed out of, if it climbs out at all; or absolute,
and leading there by itself. -/
def Stays (cwd : List Name) (assets : Path) (filename : List Char) : Prop :=
  if absolute filename then
    resolve cwd assets <+: (segments filename).foldl walk []
  else
    (resolve cwd assets).drop
      ((resolve cwd assets).length - (relative filename).1) <+:
        (relative filename).2

theorem under_join_iff (cwd : List Name) (assets : Path)
    (filename : List Char) :
    Under cwd assets (join assets filename) ↔ Stays cwd assets filename := by
  rw [Under, Stays]
  split
  · next h =>
      rw [resolve_join_absolute h]
      simp only [resolve, if_pos h]
  · next h =>
      rw [resolve_join_relative h]
      exact prefix_walk_iff _ _

/-- For every request, working directory and assets path: the file opened
lies under the assets path exactly when the name stays in it. -/
theorem static_stays_iff (cwd : List Name) (assets : Path)
    (peerMap : List Char → Bool) (req : Request) :
    (∀ file, opened (some assets) peerMap req = some file →
      Under cwd assets file) ↔
    ∀ filename, onHttp peerMap req = .fileSend filename →
      Stays cwd assets filename := by
  constructor
  · intro h filename hroute
    rw [← under_join_iff]
    refine h _ ?_
    rw [opened, hroute]
    rfl
  · intro h file hfile
    rw [opened] at hfile
    split at hfile
    · next filename hroute =>
        cases hfile
        exact (under_join_iff cwd assets filename).mpr (h filename hroute)
    · cases hfile

/-- A second slash reads any file of the system. -/
theorem static_escapes : opened (some "/srv/assets".toList) (fun _ => false)
      ⟨.get, "//etc/passwd".toList, none⟩ = some "/etc/passwd".toList ∧
    ¬ Under [] "/srv/assets".toList "/etc/passwd".toList := by
  decide

end WebSshTool.Http
