import WebSshTool.Download.Complete
import WebSshTool.Http.Headers

/-!
# Requests to the master

A download, a preview and the answer to an upload are each a `PUT /client` of
the internal client. The head is made first, from what is known of the file by
then. The body is what a task of its own puts into a channel; for an archive
and for a file whose size is not known the head leaves its length open.
-/

namespace WebSshTool.Heads

open Files (Disk)
open Paths (Path)
open Upload (Frame)
open Download (Channel Source Target Zip ResponseUnit forwardAsyncReadToSender zipDir zipMulti)
open Fields (ascii)
open Headers

def chunked : HeaderName × Bytes := (.transferEncoding, ascii "chunked")

def close : HeaderName × Bytes := (.connection, ascii "close")

/-! ## The three places of a name -/

/-- Where a `Content-Disposition` is made. -/
inductive Place where
  | file
  | directory
  | preview
  deriving DecidableEq, Repr

def Place.disposition : Place → String
  | .file | .directory => "attachment"
  | .preview => "inline"

/-- The name a file is to have where it is saved. -/
def Place.saved : Place → List Char → List Char
  | .directory, name => name ++ ".zip".toList
  | .file, name | .preview, name => name

/-- `format!("attachment; filename=\"{}\";", name)` and the like. -/
def Place.format (place : Place) (name : List Char) : List Char :=
  place.disposition.toList ++ "; filename=\"".toList ++ place.saved name ++ "\";".toList

section

variable (h : HeaderValue)

/-- A name that is no header value is left out. -/
def appendDisposition (place : Place) (name : List Char) (headers : HeaderMap) : HeaderMap :=
  match h.fromStr (place.format name) with
  | some disposition => headers ++ [(.contentDisposition, disposition)]
  | none => headers

/-! ## Downloads -/

section

variable {σ : Type*} (z : Zip σ) (closeFault patience : Option Nat)

/-- `download_single`. `len` is what the metadata of the file say, when it is
open and they can be had. -/
def downloadSingle (len : Option Nat) (headers : HeaderMap) :
    Target → Option (HeaderMap × Channel)
  | .file (some name) m =>
      if m.source.opens then
        let headers := appendDisposition h .file name headers
        let length := match len with
          | some n =>
              match h.fromStr (decimal n) with
              | some size => (.contentLength, size)
              | none => chunked
          | none => chunked
        some (headers ++ [length], forwardAsyncReadToSender m.source (.new patience))
      else none
  | .directory _ (some name) walk =>
      some (appendDisposition h .directory name headers ++ [chunked],
        zipDir z closeFault patience walk)
  | _ => none

/-- `download_multi`. -/
def downloadMulti (headers : HeaderMap) (list : List Target) : HeaderMap × Channel :=
  let headers := match h.fromStr "attachment; filename=\"bundle.zip\";".toList with
    | some disposition => headers ++ [(.contentDisposition, disposition)]
    | none => headers
  (headers ++ [chunked], zipMulti z closeFault patience list)

/-- `download::handle_request`, if the master can be reached. -/
def downloadRequest (id : Nat) (token : List Char) (len : Option Nat) (list : List Target) :
    Option (HeaderMap × Channel) := do
  let id ← h.fromStr (decimal id)
  let peer ← h.fromStr token
  let headers := [(.id, id), (.peer, peer),
    (.contentType, ascii "application/octet-stream"), close]
  match list with
  | [] => none
  | [target] => downloadSingle h z closeFault patience len headers target
  | list => some (downloadMulti h z closeFault patience headers list)

end

/-! ## Previews -/

/-- `preview::handle_request`, if the master can be reached. `guess` is the
media type that goes with the path. -/
def previewRequest (patience : Option Nat) (id : Nat) (token guess : List Char)
    (name : Option Path) (len : Option Nat) (source : Source) :
    Option (HeaderMap × Channel) := do
  guard source.opens
  let id ← h.fromStr (decimal id)
  let peer ← h.fromStr token
  let contentType ← h.fromStr guess
  let headers := [(.id, id), (.peer, peer), close, (.contentType, contentType)]
  let headers := match name with
    | some name => appendDisposition h .preview name headers
    | none => headers
  let length ← match len with
    | some n => (h.fromStr (decimal n)).map fun size => [(.contentLength, size)]
    | none => some [chunked, close]
  pure (headers ++ length, forwardAsyncReadToSender source (.new patience))

/-! ## Uploads -/

/-- The request of `upload::handle_request`, whose way is that of
`Upload.handleRequest`: its head, and what is sent as its body. -/
def uploadRequest {π : Type*} [DecidableEq π] (locate : Json.Text → π)
    (describe : Files.Error → Json.Text) (uuid : Json.Text) (env : Upload.Env) (id : Nat)
    (token : List Char) (argument : Json.Value) (disk : Disk π) :
    Option (HeaderMap × List ResponseUnit) := do
  let outcome := Upload.handleRequest locate describe uuid env (token.map Char.toNat) id
    argument disk
  let put ← outcome.put
  let id ← h.fromStr (decimal id)
  let peer ← h.fromStr token
  let size ← h.fromStr (decimal put.contentLength)
  pure ([(.id, id), (.peer, peer), (.contentType, ascii "text/plain"),
    (.contentLength, size), close],
    (outcome.sent.map fun message => .ok (.data (Files.utf8 message))).toList)

end

/-! ## Lemmas on heads -/

theorem valuesOf_appendDisposition {h : HeaderValue} {place : Place} {name : List Char}
    {headers : HeaderMap} {other : HeaderName} (hother : other ≠ .contentDisposition) :
    valuesOf other (appendDisposition h place name headers) = valuesOf other headers := by
  unfold appendDisposition
  split
  · simp [valuesOf, hother.symm]
  · rfl

/-- The disposition that a name gets, if it gets one. -/
theorem dispositions_appendDisposition {h : HeaderValue} {place : Place} {name : List Char}
    {headers : HeaderMap} (hnone : valuesOf .contentDisposition headers = []) :
    valuesOf .contentDisposition (appendDisposition h place name headers) =
      (h.fromStr (place.format name)).toList := by
  unfold appendDisposition
  split
  · next disposition heq =>
      rw [valuesOf_append, hnone, heq]
      rfl
  · next heq =>
      rw [hnone, heq]
      rfl

/-- The body of a download is the one the producers make. -/
theorem downloadSingle_body {h : HeaderValue} {σ : Type*} (z : Zip σ)
    (closeFault patience len : Option Nat) (headers : HeaderMap) (target : Target) :
    (downloadSingle h z closeFault patience len headers target).map Prod.snd =
      Download.downloadSingle z closeFault patience target := by
  match target with
  | .file (some name) m =>
      simp only [downloadSingle, Download.downloadSingle]
      split <;> rfl
  | .file none _ | .directory _ (some _) _ | .directory _ none _ | .other => rfl

/-! ## What the heads are made of -/

/-- Nothing of this is about the body or about a name. -/
structure Plain (headers : HeaderMap) : Prop where
  disposition : valuesOf .contentDisposition headers = []
  length : valuesOf .contentLength headers = []
  encoding : valuesOf .transferEncoding headers = []

section

variable {h : HeaderValue} {σ : Type*} {z : Zip σ} {closeFault patience len : Option Nat}
  {id : Nat} {token : List Char} {head : HeaderMap} {c : Channel}

theorem downloadRequest_cases {list : List Target}
    (hreq : downloadRequest h z closeFault patience id token len list = some (head, c)) :
    ∃ base, Plain base ∧
      ((∃ target, list = [target] ∧
        downloadSingle h z closeFault patience len base target = some (head, c)) ∨
      (2 ≤ list.length ∧ downloadMulti h z closeFault patience base list = (head, c))) := by
  obtain ⟨id, -, hreq⟩ := Option.bind_eq_some_iff.mp hreq
  obtain ⟨peer, -, hreq⟩ := Option.bind_eq_some_iff.mp hreq
  refine ⟨[(.id, id), (.peer, peer), (.contentType, ascii "application/octet-stream"), close],
    ⟨rfl, rfl, rfl⟩, ?_⟩
  match list, hreq with
  | [target], hreq => exact .inl ⟨target, rfl, hreq⟩
  | _ :: _ :: _, hreq => exact .inr ⟨by simp, Option.some.inj hreq⟩

/-- The length of a file, or that it is not known. -/
def lengthOf (len : Option Nat) : HeaderName × Bytes :=
  match len with
  | some n => (.contentLength, Utf8.encode (decimal n))
  | none => chunked

theorem downloadSingle_file {base : HeaderMap} {name : Path} {m : Download.Member}
    (hreq : downloadSingle h z closeFault patience len base (.file (some name) m) =
      some (head, c)) :
    head = appendDisposition h .file name base ++ [lengthOf len] ∧
      c = forwardAsyncReadToSender m.source (.new patience) := by
  simp only [downloadSingle, fromStr_decimal] at hreq
  split at hreq
  · obtain ⟨rfl, rfl⟩ := Prod.mk.inj (Option.some.inj hreq)
    cases len <;> exact ⟨rfl, rfl⟩
  · cases hreq

theorem downloadSingle_directory {base : HeaderMap} {path name : Path}
    {walk : List Download.Walked}
    (hreq : downloadSingle h z closeFault patience len base (.directory path (some name) walk) =
      some (head, c)) :
    head = appendDisposition h .directory name base ++ [chunked] ∧
      c = zipDir z closeFault patience walk := by
  obtain ⟨rfl, rfl⟩ := Prod.mk.inj (Option.some.inj hreq)
  exact ⟨rfl, rfl⟩

theorem previewRequest_eq {guess : List Char} {name : Option Path} {source : Source}
    (hreq : previewRequest h patience id token guess name len source = some (head, c)) :
    ∃ base, Plain base ∧
      head = name.elim base (fun name => appendDisposition h .preview name base) ++
        len.elim [chunked, close] (fun n => [lengthOf (some n)]) ∧
      c = forwardAsyncReadToSender source (.new patience) := by
  obtain ⟨-, -, hreq⟩ := Option.bind_eq_some_iff.mp hreq
  obtain ⟨id, -, hreq⟩ := Option.bind_eq_some_iff.mp hreq
  obtain ⟨peer, -, hreq⟩ := Option.bind_eq_some_iff.mp hreq
  obtain ⟨contentType, -, hreq⟩ := Option.bind_eq_some_iff.mp hreq
  refine ⟨[(.id, id), (.peer, peer), close, (.contentType, contentType)],
    ⟨rfl, rfl, rfl⟩, ?_⟩
  cases len with
  | none =>
      obtain ⟨rfl, rfl⟩ := Prod.mk.inj (Option.some.inj hreq)
      cases name <;> exact ⟨rfl, rfl⟩
  | some n =>
      simp only [fromStr_decimal] at hreq
      obtain ⟨rfl, rfl⟩ := Prod.mk.inj (Option.some.inj hreq)
      cases name <;> exact ⟨rfl, rfl⟩

end

end WebSshTool.Heads
