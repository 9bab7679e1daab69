import WebSshTool.Download.Complete
import WebSshTool.Lib.Unpack

/-!
# What is in the archive of a directory

`WalkDir` goes through a directory and yields everything below it, a directory
before what is in it, and goes on in no directory that a link leads to. The
archive gets an entry for each file, under the names that lead there, and
nothing for a directory: `internal_zip_dir` has a branch for directories, but
there is nothing in it. So the archive is an image of the files, and of those
directories that have a file somewhere below them.
-/

namespace WebSshTool.Download

open Files (Bytes Extracted unpack)
open Paths (Path Name Proper text segments resolve absolute)

/-! ## Directory trees -/

/-- The entries of a directory in the order in which they are listed, and what
is below each. A file is what `is_file` takes for one, so a link to a file is a
file too, with what is in that. A link to a directory is something other. -/
inductive Tree where
  | nil
  | file (name : Name) (file : Member) (rest : Tree)
  | directory (name : Name) (below : Tree) (rest : Tree)
  | other (name : Name) (rest : Tree)

def Tree.names : Tree → List Name
  | .nil => []
  | .file name _ rest | .directory name _ rest | .other name rest => name :: rest.names

/-- Names are text and no two of one directory are the same. -/
def Tree.Proper : Tree → Prop
  | .nil => True
  | .file name _ rest | .other name rest =>
      Paths.Proper name ∧ name ∉ rest.names ∧ rest.Proper
  | .directory name below rest =>
      Paths.Proper name ∧ name ∉ rest.names ∧ below.Proper ∧ rest.Proper

/-- The files below a directory, and the names that lead to each. -/
def Tree.files : Tree → List (List Name × Member)
  | .nil => []
  | .file name m rest => ([name], m) :: rest.files
  | .directory name below rest =>
      below.files.map (fun f => (name :: f.1, f.2)) ++ rest.files
  | .other _ rest => rest.files

/-- What is where: files and directories. -/
def Tree.look : Tree → List Name → Option Files.Node
  | _, [] => some .directory
  | .nil, _ :: _ => none
  | .file name m rest, x :: xs =>
      if x = name then if xs = [] then some (.file m.source.content) else none
      else rest.look (x :: xs)
  | .directory name below rest, x :: xs =>
      if x = name then below.look xs else rest.look (x :: xs)
  | .other name rest, x :: xs => if x = name then none else rest.look (x :: xs)

/-! ## The walk -/

/-- What the walk yields along with what is not a file; nobody reads it. -/
def Member.none : Member where
  name := []
  source := ⟨[], false, fun _ => .none⟩
  entryFault := .none
  writeFault _ := .none
  flushFault := .none
  finishFault := .none

/-- `WalkDir`, with the paths stripped of that of the directory. -/
def walkFrom (way : List Name) : Tree → List Walked
  | .nil => []
  | .file name m rest => .entry (some (text (way ++ [name]))) true m :: walkFrom way rest
  | .directory name below rest =>
      .entry (some (text (way ++ [name]))) false .none ::
        (walkFrom (way ++ [name]) below ++ walkFrom way rest)
  | .other name rest => .entry (some (text (way ++ [name]))) false .none :: walkFrom way rest

/-- It begins with the directory itself. -/
def walkDir (tree : Tree) : List Walked := .entry (some []) false .none :: walkFrom [] tree

/-- The entries of an archive that is made of these files. -/
def entriesOf (ms : List Member) : List (Path × Bytes) :=
  ms.map fun m => (m.name, m.source.content)

/-- Extraction goes where the name of an entry leads. -/
def extract (entries : List (Path × Bytes)) : Extracted Name :=
  unpack (entries.map fun e => (resolve [] e.1, e.2))

/-- What can go wrong with a file has nothing to do with its name. -/
theorem Member.Sound.rename {m : Member} (h : m.Sound) (name : Path) :
    { m with name }.Sound := by
  obtain ⟨hentry, hopens, ⟨chunks, hchunks, hwritten⟩, hfaults⟩ := h
  have hsame : ∀ chunks k, m.Written k chunks → { m with name }.Written k chunks := by
    intro chunks
    induction chunks with
    | nil => exact fun _ _ => trivial
    | cons chunk chunks ih => exact fun k hk => ⟨hk.1, ih _ hk.2⟩
  exact ⟨hentry, hopens, ⟨chunks, hchunks, hsame chunks 0 hwritten⟩, hfaults⟩

theorem internalZipDir_append (folder : Option Path) (walk walk' : List Walked) :
    internalZipDir folder (walk ++ walk') =
      internalZipDir folder walk ++ internalZipDir folder walk' :=
  List.filterMap_append ..

/-- The name of the entry for a file, below the folder if there is one. -/
def entryName (folder : Option Path) (name : Path) : Path :=
  folder.elim name fun folder => Paths.join folder name

/-- The walk comes to each file once. -/
theorem internalZipDir_walkFrom (folder : Option Path) (way : List Name) (tree : Tree) :
    internalZipDir folder (walkFrom way tree) =
      tree.files.map fun f => { f.2 with name := entryName folder (text (way ++ f.1)) } := by
  induction tree generalizing way with
  | nil => rfl
  | file name m rest ih =>
      rw [walkFrom, Tree.files, List.map_cons, ← ih way]
      rfl
  | directory name below rest ihBelow ihRest =>
      have hskip : internalZipDir folder (walkFrom way (.directory name below rest)) =
          internalZipDir folder (walkFrom (way ++ [name]) below ++ walkFrom way rest) := rfl
      rw [hskip, internalZipDir_append, ihBelow, ihRest, Tree.files, List.map_append,
        List.map_map]
      simp only [List.append_assoc, List.singleton_append, Function.comp_def]
  | other name rest ih =>
      rw [Tree.files, ← ih way]
      rfl

theorem internalZipDir_walkDir (folder : Option Path) (tree : Tree) :
    internalZipDir folder (walkDir tree) =
      tree.files.map fun f => { f.2 with name := entryName folder (text f.1) } :=
  internalZipDir_walkFrom folder [] tree

/-! ## The files of a tree -/

section

variable {tree : Tree} {f : List Name × Member}

/-- The way to a file starts in the directory and goes through proper names. -/
theorem Tree.files_head (hf : f ∈ tree.files) : ∃ name ∈ tree.names, ∃ way, f.1 = name :: way := by
  induction tree with
  | nil => exact absurd hf (by simp [Tree.files])
  | file name m rest ih =>
      rcases List.mem_cons.mp hf with rfl | hf
      · exact ⟨name, .head _, [], rfl⟩
      · obtain ⟨n, hn, way, hway⟩ := ih hf
        exact ⟨n, .tail _ hn, way, hway⟩
  | directory name below rest _ ih =>
      rcases List.mem_append.mp hf with hf | hf
      · obtain ⟨g, -, rfl⟩ := List.mem_map.mp hf
        exact ⟨name, .head _, g.1, rfl⟩
      · obtain ⟨n, hn, way, hway⟩ := ih hf
        exact ⟨n, .tail _ hn, way, hway⟩
  | other name rest ih =>
      obtain ⟨n, hn, way, hway⟩ := ih hf
      exact ⟨n, .tail _ hn, way, hway⟩

theorem Tree.files_ne_nil (hf : f ∈ tree.files) : f.1 ≠ [] := by
  obtain ⟨name, -, way, hway⟩ := tree.files_head hf
  rw [hway]
  simp

theorem Tree.files_proper (h : tree.Proper) (hf : f ∈ tree.files) :
    ∀ name ∈ f.1, Paths.Proper name := by
  induction tree generalizing f with
  | nil => exact absurd hf (by simp [Tree.files])
  | file name m rest ih =>
      rcases List.mem_cons.mp hf with rfl | hf
      · intro n hn
        obtain rfl := List.mem_singleton.mp hn
        exact h.1
      · exact ih h.2.2 hf
  | directory name below rest ihBelow ihRest =>
      rcases List.mem_append.mp hf with hf | hf
      · obtain ⟨g, hg, rfl⟩ := List.mem_map.mp hf
        intro n hn
        rcases List.mem_cons.mp hn with rfl | hn
        · exact h.1
        · exact ihBelow h.2.2.1 hg n hn
      · exact ihRest h.2.2.2 hf
  | other name rest ih => exact ih h.2.2 hf

/-- Files whose ways start with different names. -/
theorem not_prefix_of_head {x y : Name} {xs ys : List Name} (h : x ≠ y) :
    ¬ (x :: xs) <+: (y :: ys) := by
  intro hprefix
  exact h (List.cons_prefix_cons.mp hprefix).1

/-- No file is on the way to another. -/
theorem Tree.files_apart (h : tree.Proper) :
    tree.files.Pairwise fun f g => ¬ f.1 <+: g.1 ∧ ¬ g.1 <+: f.1 := by
  induction tree with
  | nil => exact List.Pairwise.nil
  | file name m rest ih =>
      refine List.pairwise_cons.mpr ⟨fun g hg => ?_, ih h.2.2⟩
      obtain ⟨n, hn, way, hway⟩ := rest.files_head hg
      have hne : name ≠ n := fun heq => h.2.1 (heq ▸ hn)
      rw [hway]
      exact ⟨not_prefix_of_head hne, not_prefix_of_head hne.symm⟩
  | directory name below rest ihBelow ihRest =>
      refine List.pairwise_append.mpr ⟨?_, ihRest h.2.2.2, ?_⟩
      · refine List.pairwise_map.mpr ((ihBelow h.2.2.1).imp ?_)
        intro f g hfg
        exact ⟨fun hp => hfg.1 (List.cons_prefix_cons.mp hp).2,
          fun hp => hfg.2 (List.cons_prefix_cons.mp hp).2⟩
      · intro f hf g hg
        obtain ⟨f, -, rfl⟩ := List.mem_map.mp hf
        obtain ⟨n, hn, way, hway⟩ := rest.files_head hg
        have hne : name ≠ n := fun heq => h.2.1 (heq ▸ hn)
        rw [hway]
        exact ⟨not_prefix_of_head hne, not_prefix_of_head hne.symm⟩
  | other name rest ih => exact ih h.2.2

/-! ### Looking at them -/

theorem Tree.look_nil (tree : Tree) : tree.look [] = some .directory := by
  cases tree <;> rfl

/-- Past an entry of another name. -/
theorem look_past {name x : Name} (hne : x ≠ name) (xs : List Name) (rest : Tree) :
    (∀ m, (Tree.file name m rest).look (x :: xs) = rest.look (x :: xs)) ∧
      (∀ below, (Tree.directory name below rest).look (x :: xs) = rest.look (x :: xs)) ∧
        (Tree.other name rest).look (x :: xs) = rest.look (x :: xs) :=
  ⟨fun _ => if_neg hne, fun _ => if_neg hne, if_neg hne⟩

/-- The way to a file of the rest, and what begins it, leads past the first entry. -/
theorem Tree.head_of_way {rest : Tree} {name : Name} (hname : name ∉ rest.names)
    (hf : f ∈ rest.files) {x : Name} {xs : List Name} (hx : (x :: xs) <+: f.1) : x ≠ name := by
  obtain ⟨n, hn, way, hway⟩ := rest.files_head hf
  rw [hway] at hx
  obtain rfl := (List.cons_prefix_cons.mp hx).1
  exact fun heq => hname (heq ▸ hn)

/-- Along the way to a file: directories, and then the file. -/
theorem Tree.look_prefix (h : tree.Proper) (hf : f ∈ tree.files) {x : List Name}
    (hx : x <+: f.1) :
    tree.look x = if x = f.1 then some (.file f.2.source.content) else some .directory := by
  induction tree generalizing f x with
  | nil => exact absurd hf (by simp [Tree.files])
  | file name m rest ih =>
      cases x with
      | nil => rw [Tree.look_nil, if_neg (Tree.files_ne_nil hf).symm]
      | cons y ys =>
          rcases List.mem_cons.mp hf with rfl | hf
          · obtain ⟨rfl, hys⟩ := List.cons_prefix_cons.mp hx
            obtain rfl := List.prefix_nil.mp hys
            simp [Tree.look]
          · rw [(look_past (head_of_way h.2.1 hf hx) ys rest).1 m]
            exact ih h.2.2 hf hx
  | directory name below rest ihBelow ihRest =>
      cases x with
      | nil => rw [Tree.look_nil, if_neg (Tree.files_ne_nil hf).symm]
      | cons y ys =>
          rcases List.mem_append.mp hf with hf | hf
          · obtain ⟨g, hg, rfl⟩ := List.mem_map.mp hf
            obtain ⟨rfl, hys⟩ := List.cons_prefix_cons.mp hx
            have hlook := ihBelow h.2.2.1 hg hys
            simpa [Tree.look] using hlook
          · rw [(look_past (head_of_way h.2.1 hf hx) ys rest).2.1 below]
            exact ihRest h.2.2.2 hf hx
  | other name rest ih =>
      cases x with
      | nil => rw [Tree.look_nil, if_neg (Tree.files_ne_nil hf).symm]
      | cons y ys =>
          rw [(look_past (head_of_way h.2.1 hf hx) ys rest).2.2]
          exact ih h.2.2 hf hx

/-- What is seen as a file is one. -/
theorem Tree.mem_of_look {x : List Name} {content : Bytes}
    (hx : tree.look x = some (.file content)) :
    ∃ f ∈ tree.files, f.1 = x ∧ f.2.source.content = content := by
  induction tree generalizing x with
  | nil => cases x <;> exact absurd hx (by simp [Tree.look])
  | file name m rest ih =>
      cases x with
      | nil => exact absurd hx (by simp [Tree.look])
      | cons y ys =>
          by_cases hy : y = name
          · subst hy
            rw [Tree.look, if_pos rfl] at hx
            split at hx
            · next hys =>
                subst hys
                injection hx with hx
                injection hx with hx
                exact ⟨_, .head _, rfl, hx⟩
            · exact absurd hx (by simp)
          · rw [(look_past hy ys rest).1 m] at hx
            obtain ⟨f, hf, hfx⟩ := ih hx
            exact ⟨f, .tail _ hf, hfx⟩
  | directory name below rest ihBelow ihRest =>
      cases x with
      | nil => exact absurd hx (by simp [Tree.look])
      | cons y ys =>
          by_cases hy : y = name
          · subst hy
            rw [Tree.look, if_pos rfl] at hx
            obtain ⟨f, hf, rfl, hcontent⟩ := ihBelow hx
            exact ⟨_, List.mem_append_left _ (List.mem_map_of_mem hf), rfl, hcontent⟩
          · rw [(look_past hy ys rest).2.1 below] at hx
            obtain ⟨f, hf, hfx⟩ := ihRest hx
            exact ⟨f, List.mem_append_right _ hf, hfx⟩
  | other name rest ih =>
      cases x with
      | nil => exact absurd hx (by simp [Tree.look])
      | cons y ys =>
          by_cases hy : y = name
          · subst hy
            rw [Tree.look, if_pos rfl] at hx
            exact absurd hx (by simp)
          · rw [(look_past hy ys rest).2.2] at hx
            exact ih hx

end

/-! ## The archive of a directory -/

/-- The entries that `zip_dir` makes of a directory. -/
def folderEntries (tree : Tree) : List (Path × Bytes) :=
  entriesOf (internalZipDir none (walkDir tree))

/-- There is an entry for each file, under its way, and one only; no name leads
out of the directory the archive is extracted to; and there it comes to what
the directory is. -/
structure Image (tree : Tree) (entries : List (Path × Bytes)) : Prop where
  files : entries = tree.files.map fun f => (text f.1, f.2.source.content)
  distinct : (entries.map Prod.fst).Nodup
  relative : ∀ e ∈ entries, ¬ absolute e.1 ∧ ['.', '.'] ∉ segments e.1
  image : ∀ place, extract entries place = tree.look place

/-- Every directory but the one that is archived has a file in or below it. -/
def Tree.Inhabited (tree : Tree) : Prop :=
  ∀ place, place ≠ [] → tree.look place = some .directory → ∃ f ∈ tree.files, place <+: f.1

section

variable {tree : Tree}

theorem folderEntries_eq (tree : Tree) :
    folderEntries tree = tree.files.map fun f => (text f.1, f.2.source.content) := by
  rw [folderEntries, internalZipDir_walkDir, entriesOf, List.map_map]
  rfl

theorem folder_places (h : tree.Proper) :
    (folderEntries tree).map (fun e => (resolve [] e.1, e.2)) =
      tree.files.map fun f => (f.1, f.2.source.content) := by
  rw [folderEntries_eq, List.map_map]
  refine List.map_congr_left fun f hf => ?_
  show (resolve [] (text f.1), _) = _
  rw [Paths.resolve_text (tree.files_proper h hf), List.nil_append]

theorem folder_holds (h : tree.Proper) :
    Files.Holds (tree.files.map fun f => (f.1, f.2.source.content))
      (extract (folderEntries tree)) := by
  rw [extract, folder_places h]
  refine Files.unpack_holds ?_ ?_
  · intro e he
    obtain ⟨f, hf, rfl⟩ := List.mem_map.mp he
    exact Tree.files_ne_nil hf
  · exact List.pairwise_map.mpr ((tree.files_apart h).imp fun hfg => .inl hfg)

theorem folder_distinct (h : tree.Proper) : ((folderEntries tree).map Prod.fst).Nodup := by
  rw [folderEntries_eq, List.map_map]
  refine List.pairwise_map.mpr ((tree.files_apart h).imp_of_mem ?_)
  intro f g hf hg hfg heq
  have hsame := Paths.text_inj (Tree.files_ne_nil hf) (Tree.files_ne_nil hg)
    (tree.files_proper h hf) (tree.files_proper h hg) heq
  exact hfg.1 (hsame ▸ List.prefix_refl _)

theorem folder_relative (h : tree.Proper) :
    ∀ e ∈ folderEntries tree, ¬ absolute e.1 ∧ ['.', '.'] ∉ segments e.1 := by
  intro e he
  rw [folderEntries_eq] at he
  obtain ⟨f, hf, rfl⟩ := List.mem_map.mp he
  have hproper := tree.files_proper h hf
  refine ⟨Paths.not_absolute_text hproper, fun hup => ?_⟩
  rw [Paths.segments_text (Tree.files_ne_nil hf) hproper] at hup
  exact (hproper _ hup).parent rfl

/-- Where there is a directory in every place with nothing but directories,
extraction makes it; elsewhere it makes none. -/
theorem folder_image (h : tree.Proper) (hinhabited : tree.Inhabited) (place : List Name) :
    extract (folderEntries tree) place = tree.look place := by
  have hholds := folder_holds h
  have hlook : ∀ f ∈ tree.files, place <+: f.1 → _ :=
    fun f hf hplace => tree.look_prefix h hf hplace
  cases hnode : tree.look place with
  | none =>
      refine hholds.nothing place ?_ ?_
      · rintro rfl
        rw [Tree.look_nil] at hnode
        exact absurd hnode (by simp)
      · intro e he hplace
        obtain ⟨f, hf, rfl⟩ := List.mem_map.mp he
        rw [hlook f hf hplace] at hnode
        split at hnode <;> exact absurd hnode (by simp)
  | some node =>
      cases node with
      | file content =>
          obtain ⟨f, hf, rfl, rfl⟩ := Tree.mem_of_look hnode
          exact hholds.file _ (List.mem_map_of_mem hf)
      | directory =>
          refine hholds.directory place ?_ ?_
          · rintro e he rfl
            obtain ⟨f, hf, rfl⟩ := List.mem_map.mp he
            rw [tree.look_prefix h hf (List.prefix_refl _), if_pos rfl] at hnode
            exact absurd hnode (by simp)
          · by_cases hplace : place = []
            · exact .inl hplace
            · obtain ⟨f, hf, hprefix⟩ := hinhabited place hplace hnode
              exact .inr ⟨_, List.mem_map_of_mem hf, hprefix⟩

/-- A directory that is not on the way to a file is not made. -/
theorem inhabited_of_image (h : tree.Proper)
    (himage : ∀ place, extract (folderEntries tree) place = tree.look place) :
    tree.Inhabited := by
  intro place hplace hnode
  by_contra hno
  have hnone := (folder_holds h).nothing place hplace (by
    intro e he hprefix
    obtain ⟨f, hf, rfl⟩ := List.mem_map.mp he
    exact hno ⟨f, hf, hprefix⟩)
  rw [himage, hnode] at hnone
  exact absurd hnone (by simp)

/-- The archive of a directory is an image of it if and only if there is a file
below every directory in it. -/
theorem zipDir_image_iff {σ : Type*} (z : Zip σ) (patience : Option Nat) (h : tree.Proper)
    (hsound : ∀ f ∈ tree.files, f.2.Sound)
    (hend : (zipDir z none patience (walkDir tree)).refused = false) :
    z.IsArchive (folderEntries tree) (zipDir z none patience (walkDir tree)).bytes ∧
      (Image tree (folderEntries tree) ↔ tree.Inhabited) := by
  constructor
  · refine zipAll_done (fun m hm => ?_) hend
    rw [internalZipDir_walkDir] at hm
    obtain ⟨f, hf, rfl⟩ := List.mem_map.mp hm
    exact (hsound f hf).rename _
  · constructor
    · exact fun himage => inhabited_of_image h himage.image
    · intro hinhabited
      exact {
        files := folderEntries_eq tree
        distinct := folder_distinct h
        relative := folder_relative h
        image := folder_image h hinhabited }

end

/-! ## Two directories -/

/-- A file of two bytes that can be read. -/
def readable : Member := { damaged 0 with source := ⟨[0x61, 0x62], true, fun _ => some 0⟩ }

theorem readable_sound : readable.Sound :=
  ⟨rfl, rfl, ⟨[[0x61], [0x62]], by decide, rfl, rfl, trivial⟩, rfl, rfl⟩

/-- The file `d/a`. -/
def inhabitedTree : Tree := .directory ['d'] (.file ['a'] readable .nil) .nil

theorem zipDir_image_iff_file :
    headers.IsArchive (folderEntries inhabitedTree)
        (zipDir headers none none (walkDir inhabitedTree)).bytes ∧
      (Image inhabitedTree (folderEntries inhabitedTree) ↔ inhabitedTree.Inhabited) := by
  refine zipDir_image_iff headers none ?_ ?_ rfl
  · exact ⟨by decide, by decide, ⟨by decide, by decide, trivial⟩, trivial⟩
  · intro f hf
    obtain rfl := List.mem_singleton.mp hf
    exact readable_sound

/-- An empty directory `d` is not in the archive. -/
theorem zipDir_empty :
    (Tree.directory ['d'] .nil .nil).Proper ∧
      ¬ Image (.directory ['d'] .nil .nil) (folderEntries (.directory ['d'] .nil .nil)) := by
  refine ⟨⟨by decide, by decide, trivial, trivial⟩, fun h => ?_⟩
  have hplace := h.image [['d']]
  exact absurd hplace (by decide)

end WebSshTool.Download
