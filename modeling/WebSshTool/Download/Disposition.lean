import WebSshTool.Download.Heads

/-!
# File names in a header

A name is put between quotes as it is. What it may hold is then up to the
grammar of the field: a semicolon, a space or a byte beyond ASCII is nothing
special between quotes, and a quote or a backslash is. `names_survive_iff` says
that these two are all there is to it, at each of the three places.
-/

namespace WebSshTool.Heads

open Paths (Path)
open Download (Channel Source Target Zip Member Walked)
open Fields (ascii)
open Headers

/-- The field has one parameter, the file name, and it is this one. -/
def Survives (disposition : Bytes) (name : List Char) : Prop :=
  ∃ kind, Fields.parameterized disposition =
    some (kind, [(ascii "filename", Utf8.encode name)])

/-- Nothing in the name has to be behind a backslash. -/
def Unquoted (name : List Char) : Prop := '"' ∉ name ∧ '\\' ∉ name

instance (name : List Char) : Decidable (Unquoted name) := by
  unfold Unquoted
  infer_instance

theorem plain_encode {name : List Char} : Fields.Plain (Utf8.encode name) ↔ Unquoted name := by
  have hquote : Fields.quote ∈ Utf8.encode name ↔ '"' ∈ name :=
    Utf8.mem_encode_iff (c := '"') (by decide)
  have hslash : Fields.backslash ∈ Utf8.encode name ↔ '\\' ∈ name :=
    Utf8.mem_encode_iff (c := '\\') (by decide)
  exact and_congr (not_congr hquote) (not_congr hslash)

theorem Place.unquoted_saved (place : Place) (name : List Char) :
    Unquoted (place.saved name) ↔ Unquoted name := by
  cases place with
  | file | preview => exact Iff.rfl
  | directory => simp [Unquoted, Place.saved]

/-- At each place, and for every name that gets its header. -/
theorem Place.survives_iff {h : HeaderValue} (place : Place) {name : List Char} {v : Bytes}
    (hv : h.fromStr (place.format name) = some v) :
    Survives v (place.saved name) ↔ Unquoted name := by
  obtain ⟨rfl, htext⟩ := h.sound _ _ hv
  have hkind : Fields.IsToken (ascii place.disposition) := by cases place <;> decide
  have hform : Utf8.encode (place.format name) =
      ascii place.disposition ++ Fields.semicolon :: 0x20 ::
        (ascii "filename" ++ Fields.equals :: Fields.quote ::
          (Utf8.encode (place.saved name) ++ [Fields.quote, Fields.semicolon])) := by
    have hplace : Utf8.encode place.disposition.toList = ascii place.disposition := by
      cases place <;> rfl
    simp only [Place.format, Utf8.encode_append, hplace, List.append_assoc]
    rfl
  have hsaved : ∀ b ∈ Utf8.encode (place.saved name), Fields.isText b = true := by
    intro b hb
    refine htext b ?_
    rw [hform]
    simp [hb]
  unfold Survives
  rw [hform, Fields.parameterized_iff hkind (by decide) hsaved, plain_encode,
    place.unquoted_saved]

theorem mem_appendDisposition {h : HeaderValue} {place : Place} {name : List Char}
    {headers : HeaderMap} (hnone : valuesOf .contentDisposition headers = []) {v : Bytes}
    (hv : v ∈ valuesOf .contentDisposition (appendDisposition h place name headers)) :
    h.fromStr (place.format name) = some v := by
  rw [dispositions_appendDisposition hnone] at hv
  exact Option.mem_toList.mp hv

/-- A file name survives its header, with `.zip` behind it for a directory, if
and only if there is no quote and no backslash in it. -/
theorem names_survive_iff (h : HeaderValue) {σ : Type*} (z : Zip σ)
    (closeFault patience len : Option Nat) (id : Nat) (token : List Char) :
    (∀ (name : Path) (m : Member) (head : HeaderMap) (c : Channel),
      downloadRequest h z closeFault patience id token len [.file (some name) m] =
        some (head, c) →
      ∀ v ∈ valuesOf .contentDisposition head, Survives v name ↔ Unquoted name) ∧
    (∀ (path name : Path) (walk : List Walked) (head : HeaderMap) (c : Channel),
      downloadRequest h z closeFault patience id token len
        [.directory path (some name) walk] = some (head, c) →
      ∀ v ∈ valuesOf .contentDisposition head,
        Survives v (name ++ ".zip".toList) ↔ Unquoted name) ∧
    ∀ (guess : List Char) (name : Path) (source : Source) (head : HeaderMap) (c : Channel),
      previewRequest h patience id token guess (some name) len source = some (head, c) →
      ∀ v ∈ valuesOf .contentDisposition head, Survives v name ↔ Unquoted name := by
  have hlength (len : Option Nat) : valuesOf .contentDisposition [lengthOf len] = [] := by
    cases len <;> rfl
  refine ⟨?_, ?_, ?_⟩
  · intro name m head c hreq v hv
    obtain ⟨base, hbase, ⟨target, htarget, hsingle⟩ | ⟨htwo, -⟩⟩ := downloadRequest_cases hreq
    · obtain ⟨rfl, -⟩ := List.cons.inj htarget
      rw [(downloadSingle_file hsingle).1, valuesOf_append, hlength, List.append_nil] at hv
      exact Place.survives_iff .file (mem_appendDisposition hbase.disposition hv)
    · exact absurd htwo (by simp)
  · intro path name walk head c hreq v hv
    obtain ⟨base, hbase, ⟨target, htarget, hsingle⟩ | ⟨htwo, -⟩⟩ := downloadRequest_cases hreq
    · obtain ⟨rfl, -⟩ := List.cons.inj htarget
      rw [(downloadSingle_directory hsingle).1, valuesOf_append] at hv
      exact Place.survives_iff .directory
        (mem_appendDisposition hbase.disposition (by simpa [valuesOf, chunked] using hv))
    · exact absurd htwo (by simp)
  · intro guess name source head c hreq v hv
    obtain ⟨base, hbase, rfl, -⟩ := previewRequest_eq hreq
    have hrest : valuesOf .contentDisposition
        (len.elim [chunked, close] fun n => [lengthOf (some n)]) = [] := by
      cases len <;> rfl
    rw [valuesOf_append, hrest, List.append_nil] at hv
    exact Place.survives_iff .preview (mem_appendDisposition hbase.disposition hv)

theorem names_survive_iff_semicolon :
    Survives (Utf8.encode "attachment; filename=\"a;b\";".toList) ['a', ';', 'b'] :=
  ((names_survive_iff headerValue Download.headers none none none 1 ['t']).1 ['a', ';', 'b']
    (Download.damaged 2) _ _ rfl _ (by decide)).mpr (by decide)

/-- With a quote in the name the field is none at all. -/
theorem name_lost :
    ¬ ∀ (name : List Char) (v : Bytes),
      headerValue.fromStr (Place.file.format name) = some v → Survives v name := by
  intro h
  obtain ⟨kind, hparse⟩ := h ['a', '"', 'b'] _ rfl
  exact absurd hparse (by
    have hnone : Fields.parameterized (Utf8.encode (Place.file.format ['a', '"', 'b'])) = none := by
      decide
    rw [hnone]
    nofun)

end WebSshTool.Heads
