import WebSshTool.Lib.Files
import WebSshTool.Lib.Paths

/-!
# The assets that are built in

`build-rust-assets.ts` walks through the built web page and writes a Rust function
with an arm for each file, which is compiled into the server. The text is written
with no regard to what is in the names; what the compiler makes of it is what the
server serves.

The tree is what is in the directory "build" at the time, with the entries of a
directory in the order in which `opendir` gives them. The compiler is modelled for
the text at hand: a match on string literals takes the first arm that is equal, a
raw string ends at the first quote and cannot hold a carriage return, and a file
that is to be included has to be there. The build runs where a slash separates names.
-/

namespace WebSshTool.Site

open Paths
open Files (Bytes)

inductive Entry where
  | file (content : Bytes)
  | directory (entries : List (Name × Entry))
  /-- Neither `isFile` nor `isDirectory`. -/
  | other

abbrev Entries := List (Name × Entry)

/-- What is found name by name. -/
def find : Entries → List Name → Option Entry
  | _, [] => none
  | es, [name] => es.lookup name
  | es, name :: names =>
      match es.lookup name with
      | some (.directory sub) => find sub names
      | _ => none

/-! ## The generator -/

mutual

/-- What `walkDir` makes of one entry. -/
def walkEntry (internalDir : List Name) (name : Name) : Entry → List (List Name)
  | .file _ => [internalDir ++ [name]]
  | .directory entries => walkDir (internalDir ++ [name]) entries
  | .other => []

/-- `walkDir`. -/
def walkDir (internalDir : List Name) : Entries → List (List Name)
  | [] => []
  | (name, entry) :: entries => walkEntry internalDir name entry ++ walkDir internalDir entries

end

def head : List Char :=
  "pub fn assets_map(filename: &str) -> Result<&'static [u8], ()> \x7b
    match filename \x7b
".toList

/-- What stands before, between and behind the two paths of an arm. -/
def armHead : List Char := "        r\"".toList

def armMiddle : List Char := " => Ok(include_bytes!(r\"".toList

def armTail : List Char := ")),
".toList

def quote : Char := Char.ofNat 0x22

def carriageReturn : Char := Char.ofNat 0x0d

/-- The text of an arm. -/
def arm (p0 p1 : Path) : List Char :=
  armHead ++ (p0 ++ quote :: (armMiddle ++ (p1 ++ quote :: armTail)))

/-- `assets_map`. -/
def assetsMap (arms : List (Path × Bytes)) (filename : List Char) : Option Bytes :=
  (arms.find? fun arm => arm.1 == filename).map Prod.snd

end WebSshTool.Site
