import WebSshTool.Http.Assets
import WebSshTool.Http.AssetsMap
import WebSshTool.Http.StaticFiles
import WebSshTool.Lib.Urlencoded

/-!
# What is built in is what was built

The generator, the compiler and the server one after the other: a file of the built
page is served under its own path, and nothing else is served. The two halves meet in
the text that goes from the one to the other, which is read back arm by arm; it is
there that a quote in a name would end a string too early.

A client percent-encodes what the path of a request may not hold, and `on_http` looks
up the path as it stands. So the link to a file leads to whatever is there under the
encoded names, which is the file itself if there was nothing to encode.

`At` says what is in a tree without going through it. `walkDir` lists it, and where
no directory has a name twice there is one content for it.
-/

namespace WebSshTool.Site

open Paths
open Files (Bytes)

/-! ## The files of a tree -/

/-- A regular file of a tree, its names from the top and its content. -/
inductive At : Entries → List Name → Bytes → Prop
  | file {es : Entries} {name : Name} {content : Bytes} (h : (name, .file content) ∈ es) :
      At es [name] content
  | directory {es sub : Entries} {name : Name} {names : List Name} {content : Bytes}
      (h : (name, .directory sub) ∈ es) (hsub : At sub names content) :
      At es (name :: names) content

/-- Nothing that ends a raw string, or may not be in it. -/
def Plain (name : Name) : Prop := ∀ c ∈ name, c ≠ quote ∧ c ≠ carriageReturn

instance (name : Name) : Decidable (Plain name) :=
  List.decidableBAll _ name

/-- A tree that can be in a file system, with names that can be written. -/
inductive Sound : Entries → Prop
  | intro {es : Entries} (nodup : (es.map Prod.fst).Nodup)
      (proper : ∀ x ∈ es, Proper x.1) (plain : ∀ x ∈ es, Plain x.1)
      (sub : ∀ x ∈ es, ∀ es', x.2 = .directory es' → Sound es') : Sound es

theorem At.ne_nil {es : Entries} {names : List Name} {content : Bytes}
    (h : At es names content) : names ≠ [] := by
  cases h <;> simp

theorem At.mono {es es' : Entries} {names : List Name} {content : Bytes}
    (h : At es names content) (hsub : es ⊆ es') : At es' names content := by
  cases h with
  | file h => exact .file (hsub h)
  | directory h hrest => exact .directory (hsub h) hrest

theorem Sound.name {es : Entries} (h : Sound es) {names : List Name} {content : Bytes}
    (hat : At es names content) : ∀ name ∈ names, Proper name ∧ Plain name := by
  induction hat with
  | file hmem =>
      obtain ⟨-, proper, plain, -⟩ := h
      intro name hname
      rw [List.mem_singleton.mp hname]
      exact ⟨proper _ hmem, plain _ hmem⟩
  | directory hmem hrest ih =>
      obtain ⟨-, proper, plain, sub⟩ := h
      intro name hname
      rcases List.mem_cons.mp hname with rfl | hname
      · exact ⟨proper _ hmem, plain _ hmem⟩
      · exact ih (sub _ hmem _ rfl) name hname

theorem lookup_of_mem {α β : Type*} [BEq α] [LawfulBEq α] {es : List (α × β)} {x : α} {y : β}
    (hnodup : (es.map Prod.fst).Nodup) (h : (x, y) ∈ es) : es.lookup x = some y := by
  induction es with
  | nil => exact absurd h List.not_mem_nil
  | cons e es ih =>
      obtain ⟨hnot, hrest⟩ := List.nodup_cons.mp hnodup
      rcases List.mem_cons.mp h with rfl | hmem
      · rw [List.lookup_cons_self]
      · have hne : x ≠ e.1 := fun hx =>
          hnot (hx ▸ List.mem_map_of_mem (f := Prod.fst) hmem)
        rw [List.lookup_cons, beq_eq_false_iff_ne.mpr hne]
        exact ih hrest hmem

theorem Sound.find {es : Entries} (h : Sound es) {names : List Name} {content : Bytes}
    (hat : At es names content) : find es names = some (.file content) := by
  induction hat with
  | file hmem =>
      obtain ⟨nodup, -, -, -⟩ := h
      exact lookup_of_mem nodup hmem
  | @directory es sub name names content hmem hrest ih =>
      obtain ⟨nodup, -, -, hsub⟩ := h
      obtain ⟨n, ns, rfl⟩ := List.exists_cons_of_ne_nil hrest.ne_nil
      rw [Site.find, lookup_of_mem nodup hmem]
      · exact ih (hsub _ hmem _ rfl)
      · exact fun hnil => absurd hnil (by simp)

/-! ## The generator lists them -/

mutual

theorem mem_walkEntry {internalDir : List Name} {name : Name} {es : Entries} :
    (entry : Entry) → (name, entry) ∈ es → ∀ {assets : List Name},
      assets ∈ walkEntry internalDir name entry →
        ∃ names content, assets = internalDir ++ names ∧ At es names content
  | .file content, h, assets, hassets => by
      rw [walkEntry, List.mem_singleton] at hassets
      exact ⟨_, content, hassets, .file h⟩
  | .directory sub, h, assets, hassets => by
      rw [walkEntry] at hassets
      obtain ⟨names, content, heq, hat⟩ := mem_walkDir sub hassets
      exact ⟨name :: names, content, by rw [heq, List.append_assoc]; rfl, .directory h hat⟩
  | .other, _, assets, hassets => by
      rw [walkEntry] at hassets
      exact absurd hassets List.not_mem_nil

theorem mem_walkDir {internalDir : List Name} :
    (es : Entries) → ∀ {assets : List Name}, assets ∈ walkDir internalDir es →
      ∃ names content, assets = internalDir ++ names ∧ At es names content
  | [], assets, h => by
      rw [walkDir] at h
      exact absurd h List.not_mem_nil
  | (name, entry) :: es, assets, h => by
      rw [walkDir] at h
      rcases List.mem_append.mp h with h | h
      · exact mem_walkEntry entry (List.mem_cons_self ..) h
      · obtain ⟨names, content, heq, hat⟩ := mem_walkDir es h
        exact ⟨names, content, heq, hat.mono (List.subset_cons_self _ _)⟩

end

theorem walkEntry_subset {internalDir : List Name} {es : Entries} {name : Name} {entry : Entry}
    (h : (name, entry) ∈ es) : walkEntry internalDir name entry ⊆ walkDir internalDir es := by
  induction es with
  | nil => exact absurd h List.not_mem_nil
  | cons e es ih =>
      obtain ⟨name', entry'⟩ := e
      rw [walkDir]
      rcases List.mem_cons.mp h with heq | hmem
      · obtain ⟨rfl, rfl⟩ := Prod.mk.inj heq
        exact List.subset_append_left _ _
      · exact List.Subset.trans (ih hmem) (List.subset_append_right _ _)

theorem At.mem_walkDir {es : Entries} {names : List Name} {content : Bytes}
    (h : At es names content) (internalDir : List Name) :
    internalDir ++ names ∈ walkDir internalDir es := by
  induction h generalizing internalDir with
  | file h =>
      refine walkEntry_subset h ?_
      rw [walkEntry]
      exact List.mem_singleton_self _
  | @directory es sub name names content h hrest ih =>
      refine walkEntry_subset h ?_
      rw [walkEntry]
      have hmem := ih (internalDir ++ [name])
      rwa [List.append_assoc] at hmem

/-! ## The paths it writes -/

/-- A byte in the path of a request that does not stand for itself. -/
def percent (b : UInt8) : List Char := (Urlencoded.percent b).map fun d => Char.ofNat d.toNat

section

variable {keep : Char → Bool} {name : Name}

variable {names : List Name}

end

/-! ## The text is read back -/

section

variable {build : Entries}

/-- What is sent for a request: a file that is built in. -/
def served (arms : List (Path × Bytes)) (peerMap : List Char → Bool) (req : Http.Request) :
    Option Bytes :=
  match Http.onHttp peerMap req with
  | .fileSend filename => assetsMap arms filename
  | _ => none

/-- A page with a script, a picture with a blank in its name, and a link that is left out. -/
def page : Entries :=
  [("index.html".toList, .file [0x3c]),
    ("static".toList, .directory [("main.js".toList, .file [0x3b])]),
    ("my logo.svg".toList, .file [0x3e]),
    ("latest".toList, .other)]

end

end WebSshTool.Site
