import WebSshTool.Download.Folder

/-!
# What is in a bundle

`zip_multi` names its entries in two ways: a selected file by its own name, and
a file in a selected directory by the path of the directory as it was given,
joined to the way from there. So what an entry is called depends on how the
selection was spelled. Absolute paths give absolute names, and two entries can
be for the same place, or one for a place on the way to the other.

Within one directory that does not happen. Between two items of the selection
it is a question of where their files are to go, and how that is spelled.
-/

namespace WebSshTool.Download

open Files (Bytes Extracted unpack)
open Paths (Path Name Proper text segments resolve absolute fileName)

/-- A path of the request, and what it leads to. -/
inductive Item where
  | file (path : Path) (file : Member)
  | directory (path : Path) (tree : Tree)
  | other (path : Path)

/-- As `zip_multi` finds it. -/
def Item.target : Item → Target
  | .file path m => .file (fileName path) m
  | .directory path tree => .directory path (fileName path) (walkDir tree)
  | .other _ => .other

/-- A path to a file ends in its name. The empty path leads nowhere. -/
def Item.WellFormed : Item → Prop
  | .file path _ => (fileName path).isSome = true
  | .directory path tree => path ≠ [] ∧ tree.Proper
  | .other _ => True

/-- The files of an item, and where each is to go. -/
def Item.selected : Item → List (List Name × Bytes)
  | .file path m => (fileName path).toList.map fun name => ([name], m.source.content)
  | .directory path tree =>
      tree.files.map fun f => (resolve [] path ++ f.1, f.2.source.content)
  | .other _ => []

/-- The entries that `zip_multi` makes of a selection. -/
def bundleEntries (items : List Item) : List (Path × Bytes) :=
  entriesOf ((items.map Item.target).flatMap Target.members)

/-! ## The property and the condition -/

/-- Names that differ and lead nowhere else, and all files extracted. -/
structure Intact (items : List Item) (entries : List (Path × Bytes)) : Prop where
  distinct : (entries.map Prod.fst).Nodup
  relative : ∀ e ∈ entries, ¬ absolute e.1 ∧ ['.', '.'] ∉ segments e.1
  files : ∀ i ∈ items, ∀ f ∈ i.selected, extract entries f.1 = some (.file f.2)

/-- A directory with files in it is given by a path that goes down. -/
def Item.Descends : Item → Prop
  | .directory path tree =>
      tree.files ≠ [] → ¬ absolute path ∧ ['.', '.'] ∉ segments path
  | .file _ _ | .other _ => True

/-- No two files of two items are called the same. A selected file and one in a
directory never are. -/
def Item.Spelled : Item → Item → Prop
  | .file path _, .file path' _ => fileName path ≠ fileName path'
  | .directory path tree, .directory path' tree' =>
      ∀ f ∈ tree.files, ∀ g ∈ tree'.files,
        Paths.join path (text f.1) ≠ Paths.join path' (text g.1)
  | _, _ => True

/-- Nor does one go where another does or below it, unless they are equal. -/
def Item.Clear (i j : Item) : Prop :=
  i.Spelled j ∧ ∀ f ∈ i.selected, ∀ g ∈ j.selected, Files.Apart f g

structure Separate (items : List Item) : Prop where
  descends : ∀ i ∈ items, i.Descends
  clear : items.Pairwise Item.Clear

/-! ## One item -/

def Item.entries (i : Item) : List (Path × Bytes) := entriesOf i.target.members

theorem bundleEntries_eq (items : List Item) :
    bundleEntries items = items.flatMap Item.entries := by
  simp only [bundleEntries, entriesOf, List.flatMap_map, List.map_flatMap]
  rfl

section

variable {path : Path} {tree : Tree} {i : Item}

theorem Item.entries_file {name : Name} (h : fileName path = some name) (m : Member) :
    (Item.file path m).entries = [(name, m.source.content)] := by
  simp only [Item.entries, Item.target, Target.members, h]
  rfl

theorem Item.entries_directory (path : Path) (tree : Tree) :
    (Item.directory path tree).entries =
      tree.files.map fun f => (Paths.join path (text f.1), f.2.source.content) := by
  simp only [Item.entries, Item.target, Target.members, internalZipDir_walkDir, entriesOf,
    List.map_map]
  rfl

/-- Each file goes where the name of its entry leads. -/
theorem Item.places (h : i.WellFormed) :
    i.entries.map (fun e => (resolve [] e.1, e.2)) = i.selected := by
  cases i with
  | file path m =>
      obtain ⟨name, hname⟩ := Option.isSome_iff_exists.mp h
      rw [Item.entries_file hname, Item.selected, hname]
      simp only [List.map_cons, List.map_nil, Option.toList_some,
        Paths.resolve_name (Paths.fileName_proper hname), List.nil_append]
  | directory path tree =>
      rw [Item.entries_directory, Item.selected, List.map_map]
      refine List.map_congr_left fun f hf => ?_
      show (resolve [] (Paths.join path (text f.1)), _) = _
      rw [Paths.resolve_join_text (tree.files_proper h.2 hf)]
  | other path => rfl

theorem Item.selected_ne_nil {f : List Name × Bytes} (hf : f ∈ i.selected) : f.1 ≠ [] := by
  cases i with
  | file path m =>
      obtain ⟨name, -, rfl⟩ := List.mem_map.mp hf
      simp
  | directory path tree =>
      obtain ⟨g, hg, rfl⟩ := List.mem_map.mp hf
      simp [Tree.files_ne_nil hg]
  | other path => exact absurd hf (by simp [Item.selected])

/-- The files of one item do not get in each other's way. -/
theorem Item.selected_apart (h : i.WellFormed) : i.selected.Pairwise Files.Apart := by
  cases i with
  | file path m =>
      obtain ⟨name, hname⟩ := Option.isSome_iff_exists.mp h
      simp [Item.selected, hname]
  | directory path tree =>
      refine List.pairwise_map.mpr ((tree.files_apart h.2).imp ?_)
      intro f g hfg
      exact .inl ⟨fun hp => hfg.1 ((List.prefix_append_right_inj _).mp hp),
        fun hp => hfg.2 ((List.prefix_append_right_inj _).mp hp)⟩
  | other path => exact List.Pairwise.nil

theorem Item.entries_distinct (h : i.WellFormed) : (i.entries.map Prod.fst).Nodup := by
  cases i with
  | file path m =>
      obtain ⟨name, hname⟩ := Option.isSome_iff_exists.mp h
      simp [Item.entries_file hname]
  | directory path tree =>
      rw [Item.entries_directory, List.map_map]
      refine List.pairwise_map.mpr ((tree.files_apart h.2).imp_of_mem ?_)
      intro f g hf hg hfg heq
      have hproper := tree.files_proper h.2 hf
      have hproper' := tree.files_proper h.2 hg
      have htext := Paths.join_inj (Paths.not_absolute_text hproper)
        (Paths.not_absolute_text hproper') heq
      have hsame := Paths.text_inj (Tree.files_ne_nil hf) (Tree.files_ne_nil hg) hproper
        hproper' htext
      exact hfg.1 (hsame ▸ List.prefix_refl _)
  | other path => exact List.Pairwise.nil

/-- The names of an item lead nowhere else if and only if it is given by a path
that does not. -/
theorem Item.relative_iff (h : i.WellFormed) :
    (∀ e ∈ i.entries, ¬ absolute e.1 ∧ ['.', '.'] ∉ segments e.1) ↔ i.Descends := by
  cases i with
  | file path m =>
      obtain ⟨name, hname⟩ := Option.isSome_iff_exists.mp h
      have hproper := Paths.fileName_proper hname
      refine iff_of_true ?_ trivial
      intro e he
      rw [Item.entries_file hname, List.mem_singleton] at he
      subst he
      refine ⟨Paths.not_absolute_name hproper, ?_⟩
      rw [Paths.segments_name hproper, List.mem_singleton]
      exact hproper.parent.symm
  | directory path tree =>
      obtain ⟨hpath, htree⟩ := h
      rw [Item.entries_directory]
      constructor
      · intro hrel hfiles
        obtain ⟨f, hf⟩ := List.exists_mem_of_ne_nil _ hfiles
        obtain ⟨habs, hup⟩ := hrel _ (List.mem_map_of_mem hf)
        have hproper := Paths.not_absolute_text (tree.files_proper htree hf)
        refine ⟨fun hno => habs ((Paths.absolute_join hpath hproper).mpr hno), fun hno => hup ?_⟩
        exact (Paths.mem_segments_join hpath hproper (by simp)).mpr (.inl hno)
      · intro hdesc e he
        obtain ⟨f, hf, rfl⟩ := List.mem_map.mp he
        obtain ⟨habs, hup⟩ := hdesc (List.ne_nil_of_mem hf)
        have hproper := tree.files_proper htree hf
        have htext := Paths.not_absolute_text hproper
        refine ⟨fun hno => habs ((Paths.absolute_join hpath htext).mp hno), fun hno => ?_⟩
        rcases (Paths.mem_segments_join hpath htext (by simp)).mp hno with hno | hno
        · exact hup hno
        · rw [Paths.segments_text (Tree.files_ne_nil hf) hproper] at hno
          exact (hproper _ hno).parent rfl
  | other path => exact iff_of_true (fun e he => absurd he (by simp [Item.entries,
      Item.target, Target.members, entriesOf])) trivial

/-- A name is not a path through a directory. -/
theorem name_ne_join {name : Name} (hname : Proper name) {path : Path} (hpath : path ≠ [])
    {f : List Name × Member} (htree : tree.Proper) (hf : f ∈ tree.files) :
    name ≠ Paths.join path (text f.1) := by
  intro heq
  refine hname.slash ?_
  rw [heq]
  exact Paths.slash_mem_join hpath (Paths.not_absolute_text (tree.files_proper htree hf))

theorem Item.entries_other (path : Path) : (Item.other path).entries = [] := rfl

/-- Between two items. -/
theorem Item.spelled_iff {j : Item} (h : i.WellFormed) (h' : j.WellFormed) :
    (∀ e ∈ i.entries, ∀ e' ∈ j.entries, e.1 ≠ e'.1) ↔ i.Spelled j := by
  cases i with
  | other path =>
      refine iff_of_true (fun e he => absurd he (by simp [Item.entries_other])) ?_
      cases j <;> trivial
  | file path m =>
      obtain ⟨name, hname⟩ := Option.isSome_iff_exists.mp h
      have hproper := Paths.fileName_proper hname
      rw [Item.entries_file hname]
      cases j with
      | other path =>
          exact iff_of_true (fun _ _ e he => absurd he (by simp [entries_other])) trivial
      | file path' m' =>
          obtain ⟨name', hname'⟩ := Option.isSome_iff_exists.mp h'
          rw [Item.entries_file hname', Item.Spelled, hname, hname']
          simp
      | directory path' tree' =>
          refine iff_of_true ?_ trivial
          intro e he e' he'
          obtain rfl := List.mem_singleton.mp he
          rw [Item.entries_directory] at he'
          obtain ⟨g, hg, rfl⟩ := List.mem_map.mp he'
          exact name_ne_join hproper h'.1 h'.2 hg
  | directory path tree =>
      rw [Item.entries_directory]
      cases j with
      | other path =>
          exact iff_of_true (fun _ _ e he => absurd he (by simp [entries_other])) trivial
      | file path' m' =>
          obtain ⟨name', hname'⟩ := Option.isSome_iff_exists.mp h'
          rw [Item.entries_file hname']
          refine iff_of_true ?_ trivial
          intro e he e' he'
          obtain rfl := List.mem_singleton.mp he'
          obtain ⟨f, hf, rfl⟩ := List.mem_map.mp he
          exact (name_ne_join (Paths.fileName_proper hname') h.1 h.2 hf).symm
      | directory path' tree' =>
          rw [Item.entries_directory, Item.Spelled]
          constructor
          · intro hne f hf g hg
            exact hne _ (List.mem_map_of_mem hf) _ (List.mem_map_of_mem hg)
          · intro hne e he e' he'
            obtain ⟨f, hf, rfl⟩ := List.mem_map.mp he
            obtain ⟨g, hg, rfl⟩ := List.mem_map.mp he'
            exact hne f hf g hg

end

/-! ## All items -/

section

variable {items : List Item}

theorem extract_bundle (h : ∀ i ∈ items, i.WellFormed) :
    extract (bundleEntries items) = unpack (items.flatMap Item.selected) := by
  rw [extract, bundleEntries_eq, List.map_flatMap]
  congr 1
  exact List.flatMap_congr fun i hi => Item.places (h i hi)

theorem bundle_relative_iff (h : ∀ i ∈ items, i.WellFormed) :
    (∀ e ∈ bundleEntries items, ¬ absolute e.1 ∧ ['.', '.'] ∉ segments e.1) ↔
      ∀ i ∈ items, i.Descends := by
  rw [bundleEntries_eq]
  constructor
  · intro hrel i hi
    exact (Item.relative_iff (h i hi)).mp fun e he => hrel e (List.mem_flatMap.mpr ⟨i, hi, he⟩)
  · intro hdesc e he
    obtain ⟨i, hi, he⟩ := List.mem_flatMap.mp he
    exact (Item.relative_iff (h i hi)).mpr (hdesc i hi) e he

theorem bundle_distinct_iff (h : ∀ i ∈ items, i.WellFormed) :
    ((bundleEntries items).map Prod.fst).Nodup ↔ items.Pairwise Item.Spelled := by
  rw [bundleEntries_eq, List.map_flatMap, List.nodup_flatMap]
  constructor
  · intro hdistinct
    refine hdistinct.2.imp_of_mem fun hi hj hij => ?_
    refine (Item.spelled_iff (h _ hi) (h _ hj)).mp fun e he e' he' heq => ?_
    exact hij (List.mem_map_of_mem he) (heq ▸ List.mem_map_of_mem he')
  · intro hspelled
    refine ⟨fun i hi => Item.entries_distinct (h i hi), hspelled.imp_of_mem fun hi hj hij => ?_⟩
    intro name hname hname'
    obtain ⟨e, he, rfl⟩ := List.mem_map.mp hname
    obtain ⟨e', he', heq⟩ := List.mem_map.mp hname'
    exact (Item.spelled_iff (h _ hi) (h _ hj)).mpr hij e he e' he' heq.symm

theorem bundle_files_iff (h : ∀ i ∈ items, i.WellFormed) :
    (∀ i ∈ items, ∀ f ∈ i.selected,
        extract (bundleEntries items) f.1 = some (.file f.2)) ↔
      items.Pairwise fun i j => ∀ f ∈ i.selected, ∀ g ∈ j.selected, Files.Apart f g := by
  rw [extract_bundle h]
  constructor
  · intro hfiles
    have hall : ∀ f ∈ items.flatMap Item.selected,
        unpack (items.flatMap Item.selected) f.1 = some (.file f.2) := by
      intro f hf
      obtain ⟨i, hi, hf⟩ := List.mem_flatMap.mp hf
      exact hfiles i hi f hf
    refine List.pairwise_of_forall_mem_list fun i hi j hj f hf g hg => ?_
    exact Files.apart_of_unpack hall (List.mem_flatMap.mpr ⟨i, hi, hf⟩)
      (List.mem_flatMap.mpr ⟨j, hj, hg⟩)
  · intro hapart i hi f hf
    have hholds : Files.Holds (items.flatMap Item.selected)
        (unpack (items.flatMap Item.selected)) := by
      refine Files.unpack_holds ?_ (List.pairwise_flatMap.mpr
        ⟨fun i hi => Item.selected_apart (h i hi), hapart⟩)
      intro f hf
      obtain ⟨i, -, hf⟩ := List.mem_flatMap.mp hf
      exact Item.selected_ne_nil hf
    exact hholds.file f (List.mem_flatMap.mpr ⟨i, hi, hf⟩)

/-- A bundle loses nothing if and only if its selection is separate. -/
theorem zipMulti_intact_iff {σ : Type*} (z : Zip σ) (patience : Option Nat)
    (h : ∀ i ∈ items, i.WellFormed)
    (hsound : ∀ m ∈ (items.map Item.target).flatMap Target.members, m.Sound)
    (hend : (zipMulti z none patience (items.map Item.target)).refused = false) :
    z.IsArchive (bundleEntries items)
        (zipMulti z none patience (items.map Item.target)).bytes ∧
      (Intact items (bundleEntries items) ↔ Separate items) := by
  refine ⟨zipAll_done hsound hend, ?_⟩
  constructor
  · intro hintact
    have hspelled := (bundle_distinct_iff h).mp hintact.distinct
    have hfiles := (bundle_files_iff h).mp hintact.files
    exact {
      descends := (bundle_relative_iff h).mp hintact.relative
      clear := List.pairwise_and_iff.mpr ⟨hspelled, hfiles⟩ }
  · intro hseparate
    obtain ⟨hspelled, hfiles⟩ := List.pairwise_and_iff.mp hseparate.clear
    exact {
      distinct := (bundle_distinct_iff h).mpr hspelled
      relative := (bundle_relative_iff h).mpr hseparate.descends
      files := (bundle_files_iff h).mpr hfiles }

end

/-! ## Three selections -/

/-- The file `b`, and a directory `e` with the file `d/a`. -/
def separateItems : List Item := [.file ['b'] readable, .directory ['e'] inhabitedTree]

theorem zipMulti_intact_iff_separate :
    headers.IsArchive (bundleEntries separateItems)
        (zipMulti headers none none (separateItems.map Item.target)).bytes ∧
      (Intact separateItems (bundleEntries separateItems) ↔ Separate separateItems) := by
  refine zipMulti_intact_iff headers none ?_ ?_ rfl
  · intro i hi
    rcases List.mem_cons.mp hi with rfl | hi
    · rfl
    · obtain rfl := List.mem_singleton.mp hi
      exact ⟨by decide, by decide, by decide, ⟨by decide, by decide, trivial⟩, trivial⟩
  · intro m hm
    rcases List.mem_cons.mp hm with rfl | hm
    · exact readable_sound.rename _
    · obtain rfl := List.mem_singleton.mp hm
      exact readable_sound.rename _

/-- Two files of one name, and a directory by its absolute path. -/
theorem zipMulti_loses :
    ((∀ i ∈ [Item.file ['x', '/', 'a'] readable, .file ['y', '/', 'a'] readable],
        i.WellFormed) ∧
      ¬ Intact [.file ['x', '/', 'a'] readable, .file ['y', '/', 'a'] readable]
        (bundleEntries [.file ['x', '/', 'a'] readable, .file ['y', '/', 'a'] readable])) ∧
    (∀ i ∈ [Item.file ['b'] readable, .directory ['/', 'e'] inhabitedTree], i.WellFormed) ∧
      ¬ Intact [.file ['b'] readable, .directory ['/', 'e'] inhabitedTree]
        (bundleEntries [.file ['b'] readable, .directory ['/', 'e'] inhabitedTree]) := by
  refine ⟨⟨?_, fun h => absurd h.distinct (by decide)⟩, ?_, fun h => ?_⟩
  · intro i hi
    rcases List.mem_cons.mp hi with rfl | hi
    · rfl
    · obtain rfl := List.mem_singleton.mp hi
      rfl
  · intro i hi
    rcases List.mem_cons.mp hi with rfl | hi
    · rfl
    · obtain rfl := List.mem_singleton.mp hi
      exact ⟨by decide, by decide, by decide, ⟨by decide, by decide, trivial⟩, trivial⟩
  · have hrelative := h.relative (['/', 'e', '/', 'd', '/', 'a'], [0x61, 0x62]) (by decide)
    exact hrelative.1 rfl

end WebSshTool.Download
