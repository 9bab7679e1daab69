import WebSshTool.Download.Heads

/-!
# What a head promises and a body keeps

The head of a request either leaves the length of the body open or says what it
is, and then the body has to be that long. For a file the length is what its
metadata say, and the body is what reading it yields, which is the same for a
file on a disk. For the answer to an upload it is the length of the message,
which is sent behind the last of the file; but a file that could not be created
has a message too, which is announced and never sent.
-/

namespace WebSshTool.Heads

open Files (Disk)
open Paths (Path)
open Download (Channel Source Target Zip ResponseUnit payload forwardFrom
  forwardAsyncReadToSender)
open Fields (ascii)
open Headers

/-- The length is open, or it is announced, once, and is that of the body. -/
def Announced (head : HeaderMap) (units : List ResponseUnit) : Prop :=
  valuesOf .contentLength head = [] ∧
      valuesOf .transferEncoding head = [ascii "chunked"] ∨
    valuesOf .transferEncoding head = [] ∧
      ∃ n, valuesOf .contentLength head = [Utf8.encode (decimal n)] ∧
        (units.map payload).flatten.length = n

/-- A transfer that is asked for, and all that decides about it. -/
inductive Transfer (σ π : Type*) where
  | download (z : Zip σ) (closeFault len : Option Nat) (list : List Target)
  | preview (guess : List Char) (name : Option Path) (len : Option Nat) (source : Source)
  | upload (locate : Json.Text → π) (describe : Files.Error → Json.Text) (uuid : Json.Text)
      (env : Upload.Env) (argument : Json.Value) (disk : Disk π)

namespace Transfer

variable {σ π : Type*} [DecidableEq π]

/-- The request that is sent to a master who takes all of it: its head, and the
units of its body up to the end of the channel. -/
def request (h : HeaderValue) (id : Nat) (token : List Char) :
    Transfer σ π → Option (HeaderMap × List ResponseUnit)
  | .download z closeFault len list =>
      (downloadRequest h z closeFault none id token len list).map fun r => (r.1, r.2.units)
  | .preview guess name len source =>
      (previewRequest h none id token guess name len source).map fun r => (r.1, r.2.units)
  | .upload locate describe uuid env argument disk =>
      uploadRequest h locate describe uuid env id token argument disk

/-- The request has not failed under way. -/
def Answered : Transfer σ π → Prop
  | .download .. | .preview .. => True
  | .upload _ _ _ env _ _ => env.response ≠ none

/-- There is what the head has promised: the metadata of a file tell its length,
and the file for an upload has been created. -/
def Supplied : Transfer σ π → Prop
  | .download _ _ len [.file _ m] => ∀ n, len = some n → n = m.source.content.length
  | .download .. => True
  | .preview _ _ len source => ∀ n, len = some n → n = source.content.length
  | .upload locate _ uuid env argument disk =>
      ∀ dir filename, Upload.parseArguments argument = some (dir, filename) →
        (Upload.openFile env disk
          (locate (Upload.push dir (filename.getD (Upload.tempName uuid))))).isOk = true

end Transfer

/-! ## Files -/

theorem forwardFrom_open {s : Source} {fuel : Nat} :
    ∀ {k : Nat} {rest : Bytes} {c : Channel}, c.patience = none → c.refused = false →
      (forwardFrom s fuel k rest c).refused = false := by
  have hsend (c : Channel) (u : ResponseUnit) (h : c.patience = none) :
      c.send u = ({ c with units := c.units ++ [u] }, true) :=
    if_neg (by rw [h]; nofun)
  induction fuel with
  | zero => exact fun _ hr => hr
  | succ fuel ih =>
      intro k rest c hp hr
      unfold forwardFrom
      split
      · rw [hsend c _ hp]
        exact hr
      · exact hr
      · rw [hsend c _ hp]
        exact ih hp hr

/-- A file that is read without an error is sent as it is. -/
theorem forward_bytes {s : Source}
    (hread : .error () ∉ (forwardAsyncReadToSender s (.new none)).units) :
    ((forwardAsyncReadToSender s (.new none)).units.map payload).flatten = s.content := by
  have hopen : (forwardAsyncReadToSender s (.new none)).refused = false :=
    forwardFrom_open rfl rfl
  exact (Download.forward_honest hopen).1 fun u hu he => hread (he ▸ hu)

/-- The head of a file's request, whose length is all that is to be looked at. -/
theorem announced_length {head : HeaderMap} {len : Option Nat} {units : List ResponseUnit}
    (hlength : valuesOf .contentLength head = valuesOf .contentLength [lengthOf len])
    (hencoding : valuesOf .transferEncoding head = valuesOf .transferEncoding [lengthOf len]) :
    Announced head units ↔ ∀ n, len = some n → n = (units.map payload).flatten.length := by
  unfold Announced
  rw [hlength, hencoding]
  cases len with
  | none => exact iff_of_true (.inl ⟨rfl, rfl⟩) (by simp)
  | some n =>
      constructor
      · rintro (⟨hnone, -⟩ | ⟨-, m, hm, hunits⟩) n' hn'
        · cases hnone
        · obtain rfl := Option.some.inj hn'
          rw [decimal_inj (List.cons.inj hm).1, hunits]
      · intro h
        exact .inr ⟨rfl, n, rfl, (h n rfl).symm⟩

theorem valuesOf_named {h : HeaderValue} {place : Place} {name : List Char}
    {base : HeaderMap} {entry : HeaderName × Bytes} {other : HeaderName}
    (hother : other ≠ .contentDisposition) (hbase : valuesOf other base = []) :
    valuesOf other (appendDisposition h place name base ++ [entry]) = valuesOf other [entry] := by
  rw [valuesOf_append, valuesOf_appendDisposition hother, hbase, List.nil_append]

/-! ## Messages -/

theorem utf8_ascii_ne_nil {u : Nat} (hu : u < 0x80) (t : Json.Text) :
    Files.utf8 (u :: t) ≠ [] := by
  unfold Files.utf8 Files.utf8From
  rw [if_neg (by omega)]
  simp [Files.utf8Point, hu]

/-- The head of the answer to an upload announces one length. -/
theorem valuesOf_uploadHead (id peer type size : Bytes) :
    valuesOf .contentLength [(.id, id), (.peer, peer), (.contentType, type),
      (.contentLength, size), close] = [size] := rfl

/-- What is announced of the answer to an upload, and what is sent. -/
theorem uploadRequest_cases {π : Type*} [DecidableEq π] {h : HeaderValue}
    {locate : Json.Text → π} {describe : Files.Error → Json.Text} {uuid : Json.Text}
    {env : Upload.Env} {id : Nat} {token : List Char} {argument : Json.Value} {disk : Disk π}
    {head : HeaderMap} {units : List ResponseUnit} (hanswered : env.response ≠ none)
    (hreq : uploadRequest h locate describe uuid env id token argument disk =
      some (head, units)) :
    ∃ dir filename message, Upload.parseArguments argument = some (dir, filename) ∧
      Files.utf8 message ≠ [] ∧
      valuesOf .transferEncoding head = [] ∧
      valuesOf .contentLength head = [Utf8.encode (decimal (Files.utf8 message).length)] ∧
      units = if (Upload.openFile env disk
          (locate (Upload.push dir (filename.getD (Upload.tempName uuid))))).isOk
        then [.ok (.data (Files.utf8 message))] else [] := by
  obtain ⟨put, hput, hreq⟩ := Option.bind_eq_some_iff.mp hreq
  obtain ⟨idValue, -, hreq⟩ := Option.bind_eq_some_iff.mp hreq
  obtain ⟨peer, -, hreq⟩ := Option.bind_eq_some_iff.mp hreq
  rw [fromStr_decimal] at hreq
  obtain ⟨rfl, rfl⟩ := Prod.mk.inj (Option.some.inj hreq)
  unfold Upload.handleRequest at hput ⊢
  cases hargs : Upload.parseArguments argument with
  | none =>
      rw [hargs] at hput
      cases hput
  | some args =>
      obtain ⟨dir, filename⟩ := args
      obtain ⟨body, hbody⟩ := Option.ne_none_iff_exists'.mp hanswered
      simp only [hargs, hbody] at hput ⊢
      cases hconnected : env.connected with
      | false =>
          rw [hconnected] at hput
          cases hput
      | true =>
          rw [hconnected] at hput
          cases hfile : Upload.openFile env disk
              (locate (Upload.push dir (filename.getD (Upload.tempName uuid)))) with
          | ok opened =>
              rw [hfile] at hput
              obtain rfl := Option.some.inj hput
              refine ⟨dir, filename, _, rfl, utf8_ascii_ne_nil (by decide) _, rfl,
                valuesOf_uploadHead .., ?_⟩
              rw [hfile]
              rfl
          | error e =>
              rw [hfile] at hput
              obtain rfl := Option.some.inj hput
              refine ⟨dir, filename, _, rfl, utf8_ascii_ne_nil (by decide) _, rfl,
                valuesOf_uploadHead .., ?_⟩
              rw [hfile]
              rfl

/-! ## Requests -/

/-- Whatever is transferred: if it is read without an error to a master who
takes it, the announced length is right if and only if what was promised is
there. -/
theorem announced_iff {σ π : Type*} [DecidableEq π] (h : HeaderValue) (id : Nat)
    (token : List Char) (t : Transfer σ π) {head : HeaderMap} {units : List ResponseUnit}
    (hreq : t.request h id token = some (head, units)) (hanswered : t.Answered)
    (hread : .error () ∉ units) : Announced head units ↔ t.Supplied := by
  cases t with
  | download z closeFault len list =>
      obtain ⟨⟨head', c⟩, hmade, heq⟩ := Option.map_eq_some_iff.mp hreq
      obtain ⟨rfl, rfl⟩ := Prod.mk.inj heq
      obtain ⟨base, hbase, ⟨target, rfl, hsingle⟩ | ⟨htwo, hmulti⟩⟩ :=
        downloadRequest_cases hmade
      · match target with
        | .file none m | .directory path none walk | .other => cases hsingle
        | .file (some name) m =>
            obtain ⟨rfl, rfl⟩ := downloadSingle_file hsingle
            rw [announced_length (valuesOf_named (by decide) hbase.length)
              (valuesOf_named (by decide) hbase.encoding), forward_bytes hread]
            exact Iff.rfl
        | .directory path (some name) walk =>
            obtain ⟨rfl, rfl⟩ := downloadSingle_directory hsingle
            refine iff_of_true ?_ trivial
            change Announced (appendDisposition h .directory name base ++ [lengthOf none]) _
            exact (announced_length (valuesOf_named (by decide) hbase.length)
              (valuesOf_named (by decide) hbase.encoding)).mpr (by simp)
      · obtain ⟨rfl, rfl⟩ := Prod.mk.inj hmulti
        have hmany : (Transfer.download (π := π) z closeFault len list).Supplied := by
          match list, htwo with
          | a :: _ :: _, _ => cases a <;> trivial
        refine iff_of_true (.inl ?_) hmany
        split <;>
          · simp only [valuesOf_append, hbase.length, hbase.encoding]
            exact ⟨rfl, rfl⟩
  | preview guess name len source =>
      obtain ⟨⟨head', c⟩, hmade, heq⟩ := Option.map_eq_some_iff.mp hreq
      obtain ⟨rfl, rfl⟩ := Prod.mk.inj heq
      obtain ⟨base, hbase, rfl, rfl⟩ := previewRequest_eq hmade
      have hother {other : HeaderName} (ho : other ≠ .contentDisposition)
          (hc : other ≠ .connection) (hb : valuesOf other base = []) :
          valuesOf other (name.elim base (fun name => appendDisposition h .preview name base) ++
            len.elim [chunked, close] fun n => [lengthOf (some n)]) =
            valuesOf other [lengthOf len] := by
        have hbase : valuesOf other
            (name.elim base fun name => appendDisposition h .preview name base) = [] := by
          cases name with
          | none => exact hb
          | some name => exact (valuesOf_appendDisposition ho).trans hb
        rw [valuesOf_append, hbase, List.nil_append]
        cases len with
        | none =>
            have hclose : valuesOf other [close] = [] := by simp [valuesOf, close, hc.symm]
            have hboth := valuesOf_append other [chunked] [close]
            rwa [hclose, List.append_nil] at hboth
        | some n => rfl
      rw [announced_length (hother (by decide) (by decide) hbase.length)
        (hother (by decide) (by decide) hbase.encoding), forward_bytes hread]
      exact Iff.rfl
  | upload locate describe uuid env argument disk =>
      obtain ⟨dir, filename, message, hargs, hne, hencoding, hlength, rfl⟩ :=
        uploadRequest_cases hanswered hreq
      have hsupplied : (Transfer.upload (σ := σ) locate describe uuid env argument disk).Supplied ↔
          (Upload.openFile env disk
            (locate (Upload.push dir (filename.getD (Upload.tempName uuid))))).isOk = true := by
        refine ⟨fun hs => hs dir filename hargs, fun hok dir' filename' hargs' => ?_⟩
        obtain ⟨rfl, rfl⟩ := Prod.mk.inj (Option.some.inj (hargs.symm.trans hargs'))
        exact hok
      rw [hsupplied]
      unfold Announced
      rw [hencoding, hlength]
      split
      · next hok =>
          exact iff_of_true (.inr ⟨rfl, _, rfl, by simp [payload]⟩) hok
      · next hok =>
          refine iff_of_false ?_ hok
          rintro (⟨hnone, -⟩ | ⟨-, n, hn, hsent⟩)
          · cases hnone
          · have hzero := decimal_inj (List.cons.inj hn).1
            rw [← hsent] at hzero
            exact hne (List.length_eq_zero_iff.mp hzero)

/-- An upload into a directory that is not there. -/
def misplaced : Transfer Unit Json.Text :=
  .upload id (fun _ => Json.ofString "Os") [] ⟨some .notFound, true, some [], fun _ => ⟨0, true⟩⟩
    (.arr [.str (Json.ofString "d"), .str (Json.ofString "a")]) (fun _ => none)

theorem announced_iff_misplaced :
    ∃ head, misplaced.request headerValue 1 ['t'] = some (head, []) ∧ ¬ Announced head [] := by
  refine ⟨_, rfl, fun h => ?_⟩
  have hsupplied := (announced_iff headerValue 1 ['t'] misplaced rfl nofun nofun).mp h
  exact absurd (hsupplied (Json.ofString "d") (some (Json.ofString "a")) rfl) nofun

/-- Its message is announced, and the body is empty. -/
theorem announced_not_sent :
    ¬ ∀ (t : Transfer Unit Json.Text) (head : HeaderMap) (units : List ResponseUnit),
      t.request headerValue 1 ['t'] = some (head, units) → t.Answered → .error () ∉ units →
        Announced head units := by
  intro h
  rcases h misplaced _ _ rfl nofun nofun with ⟨hnone, -⟩ | ⟨-, n, hn, rfl⟩
  · cases hnone
  · exact absurd hn (by decide)

end WebSshTool.Heads
