import WebSshTool.Lib.JsonRoundTrip
import WebSshTool.Upload.Handler

/-!
# What the browser makes of the answer to an upload

`Auth.upload` resolves with `JSON.parse` of the answer's text, whatever its
status. The texts come from three places: the messages of the internal
client's handler are JSON; `not_found` sends the `Debug` text of its argument,
which for a string is the string in quotes, and of the strings that come up
here that is JSON again; the `Debug` text of an error of the connection to the
internal client is a bare name and is not.
-/

namespace WebSshTool.Upload

open Json Files

/-! ## Debug texts -/

/-- A unit in the `Debug` text of a string. Beyond ASCII the tables of the
standard library say which units are printable. -/
def escapeDebug (printable : Nat → Bool) (u : Nat) : Text :=
  if u = 0 then [backslash, 0x30]
  else if u = 0x09 then [backslash, 0x74]
  else if u = 0x0a then [backslash, 0x6e]
  else if u = 0x0d then [backslash, 0x72]
  else if u = quote ∨ u = backslash then [backslash, u]
  else if 0x20 ≤ u ∧ u < 0x7f then [u]
  else if 0x80 ≤ u ∧ printable u = true then [u]
  else backslash :: 0x75 :: openBrace ::
    ((Nat.digits 16 u).reverse.map hexDigit ++ [closeBrace])

def debugString (printable : Nat → Bool) (s : Text) : Text :=
  quote :: (s.flatMap (escapeDebug printable) ++ [quote])

/-- Graphic ASCII and the space. -/
def Plain (s : Text) : Prop := ∀ u ∈ s, 0x20 ≤ u ∧ u < 0x7f

instance (s : Text) : Decidable (Plain s) :=
  inferInstanceAs (Decidable (∀ u ∈ s, 0x20 ≤ u ∧ u < 0x7f))

theorem escapeDebug_plain (printable : Nat → Bool) {u : Nat} (h : 0x20 ≤ u ∧ u < 0x7f) :
    escapeDebug printable u = escapeUnit u := by
  have hcontrol : u ≠ 0 ∧ u ≠ 0x08 ∧ u ≠ 0x09 ∧ u ≠ 0x0a ∧ u ≠ 0x0c ∧ u ≠ 0x0d := by omega
  by_cases hq : u = quote
  · subst hq
    rfl
  · by_cases hb : u = backslash
    · subst hb
      rfl
    · have hlow : ¬ u < 0x20 := by omega
      simp only [escapeDebug, escapeUnit, shortEscape?, hcontrol, hq, hb, h, hlow, if_false,
        or_self, and_self, if_true]

/-- Such a string has the same `Debug` text as JSON text. -/
theorem debugString_plain (printable : Nat → Bool) {s : Text} (h : Plain s) :
    debugString printable s = print (.str s) := by
  have hflat : s.flatMap (escapeDebug printable) = s.flatMap escapeUnit :=
    List.flatMap_congr fun u hu => escapeDebug_plain printable (h u hu)
  rw [debugString, hflat, print, printString]

/-- And its own `Debug` text is such a string. -/
theorem debugString_isPlain (printable : Nat → Bool) {s : Text} (h : Plain s) :
    Plain (debugString printable s) := by
  rw [debugString_plain printable h, print, printString]
  intro u hu
  rcases List.mem_cons.mp hu with rfl | hu
  · decide
  · rcases List.mem_append.mp hu with hu | hu
    · obtain ⟨v, hv, huv⟩ := List.mem_flatMap.mp hu
      have hv' := h v hv
      rw [← escapeDebug_plain printable hv', escapeDebug] at huv
      have hcontrol : v ≠ 0 ∧ v ≠ 0x09 ∧ v ≠ 0x0a ∧ v ≠ 0x0d := by omega
      simp only [hcontrol, if_false, hv', and_self, if_true] at huv
      split at huv
      · rcases List.mem_cons.mp huv with rfl | huv
        · decide
        · rw [List.mem_singleton.mp huv]
          exact hv'
      · rw [List.mem_singleton.mp huv]
        exact hv'
    · rw [List.mem_singleton.mp hu]
      decide

/-! ## The answers -/

inductive InternalClientHttpConnectionError where
  | lostInternalClientConnection
  | internalClientRejectConnection
  | unknown
  deriving DecidableEq, Repr

/-- The derived `Debug`. -/
def InternalClientHttpConnectionError.debug : InternalClientHttpConnectionError → Text
  | .lostInternalClientConnection => ofString "LostInternalClientConnection"
  | .internalClientRejectConnection => ofString "InternalClientRejectConnection"
  | .unknown => ofString "Unknown"

/-- The path of a request: a URI has nothing but graphic ASCII in it. -/
structure UriPath where
  text : Text
  graphic : ∀ u ∈ text, 0x21 ≤ u ∧ u < 0x7f

/-- How a POST with an upload is answered: by the handler of the internal
client with one of its two messages, by a connection that breaks off, which is
what becomes of an error message that is announced and not sent, or by
`not_found`. -/
inductive Answer where
  | stored (dir temp path : Text)
  | refused (error : Text)
  | broken
  | authRequestFailed
  | unknownRequest
  | unroutable (path : UriPath)
  | connection (e : InternalClientHttpConnectionError)

variable (printable : Nat → Bool)

/-- The text of the answer, unless the connection breaks off. -/
def Answer.responseText : Answer → Option Text
  | .stored dir temp path => some (successMessage dir temp path)
  | .refused error => some (errorMessage error)
  | .broken => none
  | .authRequestFailed => some (debugString printable (ofString "Auth request failed"))
  | .unknownRequest => some (debugString printable (ofString "Unknown request"))
  | .unroutable path =>
      some (debugString printable
        (ofString "Unknown request POST " ++ debugString printable path.text))
  | .connection e => some e.debug

def Answer.isStored : Answer → Bool
  | .stored _ _ _ => true
  | _ => false

/-- A failure whose text is JSON. -/
def Answer.misread : Answer → Bool
  | .refused _ | .authRequestFailed | .unknownRequest | .unroutable _ => true
  | _ => false

/-- What the promise of `Auth.upload` resolves with. -/
def Answer.resolved (a : Answer) : Option Value :=
  (a.responseText printable).bind parse

theorem UriPath.plain (path : UriPath) : Plain path.text := by
  intro u hu
  have := path.graphic u hu
  omega

theorem parse_debugString {s : Text} (h : Plain s) :
    parse (debugString printable s) = some (.str s) := by
  rw [debugString_plain printable h, parse_print]

theorem parse_connection (e : InternalClientHttpConnectionError) : parse e.debug = none := by
  rw [← Option.isNone_iff_eq_none]
  cases e <;> decide

/-- What each answer is read as: a failure that is read as JSON is a string or
an object without a path. -/
theorem Answer.resolved_misread {a : Answer} (h : a.misread = true) :
    ∃ v, a.resolved printable = some v ∧ pathOf v = some .null := by
  have hstring : ∀ s, Plain s → ∃ v, (some (debugString printable s)).bind parse = some v ∧
      pathOf v = some .null :=
    fun s hs => ⟨.str s, parse_debugString printable hs, rfl⟩
  cases a with
  | refused error =>
      refine ⟨.obj [(ofString "error", .str error)], ?_, rfl⟩
      rw [resolved, responseText, Option.bind_some, errorMessage, parse_print]
  | authRequestFailed =>
      rw [resolved, responseText]
      exact hstring _ (by decide)
  | unknownRequest =>
      rw [resolved, responseText]
      exact hstring _ (by decide)
  | unroutable path =>
      rw [resolved, responseText]
      refine hstring _ fun u hu => ?_
      rcases List.mem_append.mp hu with hu | hu
      · exact (by decide : Plain (ofString "Unknown request POST ")) u hu
      · exact debugString_isPlain printable path.plain u hu
  | stored | broken | connection => simp [Answer.misread] at h

theorem Answer.resolved_stored {a : Answer} (h : a.isStored = true) :
    (a.resolved printable).isSome = true := by
  cases a with
  | stored dir temp path =>
      rw [resolved, responseText, Option.bind_some, successMessage, parse_print]
      rfl
  | _ => simp [Answer.isStored] at h

theorem Answer.resolved_other {a : Answer} (hs : a.isStored = false)
    (hm : a.misread = false) : a.resolved printable = none := by
  cases a with
  | broken => rfl
  | connection e =>
      rw [resolved, responseText, Option.bind_some, parse_connection]
  | stored => simp [Answer.isStored] at hs
  | refused | authRequestFailed | unknownRequest | unroutable =>
      simp [Answer.misread] at hm

/-! ## What `_upload` makes of it -/

section

variable {π : Type*} [DecidableEq π]

/-- A run of `_upload` whose POST gets this answer, whatever the server did. -/
def Answer.run (a : Answer) (locate : Text → π) (compress : Bytes → Option Bytes)
    (gunzip : Bytes → List Bytes × Bool) (effect : Disk π → Disk π) (uploadCompress : Bool)
    (dest : Dest) (name : Text) (content : Bytes) (disk : Disk π) : Run π :=
  upload locate compress gunzip (fun _ _ disk => (a.responseText printable, effect disk))
    uploadCompress dest name content disk

theorem releaseFileGuard_run (locate : Text → π) (target : List Value) (disk : Disk π) :
    (releaseFileGuard locate target disk).state = .error ∧
      (releaseFileGuard locate target disk).fileGuard = .released := by
  rw [releaseFileGuard]
  split <;> exact ⟨rfl, rfl⟩

/-- A rejected promise fails the upload and releases the placeholder. -/
theorem Answer.run_rejected {a : Answer} (h : a.resolved printable = none)
    (locate : Text → π) (compress : Bytes → Option Bytes)
    (gunzip : Bytes → List Bytes × Bool) (effect : Disk π → Disk π) (uploadCompress : Bool)
    (dest : Dest) (name : Text) (content : Bytes) (disk : Disk π) :
    let run := a.run printable locate compress gunzip effect uploadCompress dest name content
      disk
    run.state ≠ .completed ∧ run.fileGuard ≠ .dropped := by
  have hpost : ∀ filename data (disk : Disk π), authUpload
      (fun _ _ disk => (a.responseText printable, effect disk)) filename data disk =
      (none, effect disk) := by
    intro filename data disk
    rw [authUpload]
    cases ht : a.responseText printable with
    | none => rfl
    | some t => simpa [Answer.resolved, ht] using h
  have hrelease : ∀ disk : Disk π,
      (releaseFileGuard locate (targetLike dest name) disk).state ≠ .completed ∧
        (releaseFileGuard locate (targetLike dest name) disk).fileGuard ≠ .dropped := by
    intro disk
    obtain ⟨hstate, hguard⟩ := releaseFileGuard_run locate (targetLike dest name) disk
    simp [hstate, hguard]
  simp only [Answer.run, upload]
  split
  · simp
  · cases uploadCompress with
    | false =>
        simp only [Bool.false_eq_true, if_false, uploadDirect, hpost]
        exact hrelease _
    | true =>
        simp only [if_true, uploadCompressed]
        split
        · exact hrelease _
        · simp only [hpost]
          exact hrelease _

/-- Browser and server agree on an answer: the promise resolves exactly for
the success message, and a failure neither completes the upload nor drops the
guard of its placeholder. -/
def Answer.Agrees (a : Answer) (locate : Text → π) (compress : Bytes → Option Bytes)
    (gunzip : Bytes → List Bytes × Bool) (effect : Disk π → Disk π) (uploadCompress : Bool)
    (dest : Dest) (name : Text) (content : Bytes) (disk : Disk π) : Prop :=
  ((a.resolved printable).isSome = true ↔ a.isStored = true) ∧
    (a.isStored = false →
      let run := a.run printable locate compress gunzip effect uploadCompress dest name
        content disk
      run.state ≠ .completed ∧ run.fileGuard ≠ .dropped)

/-- They agree exactly on the answers that are not failures written in JSON. -/
theorem upload_agrees_iff (a : Answer) (locate : Text → π) (compress : Bytes → Option Bytes)
    (gunzip : Bytes → List Bytes × Bool) (effect : Disk π → Disk π) (uploadCompress : Bool)
    (dest : Dest) (name : Text) (content : Bytes) (disk : Disk π) :
    a.Agrees printable locate compress gunzip effect uploadCompress dest name content disk ↔
      a.misread = false := by
  constructor
  · intro h
    by_contra hm
    obtain ⟨v, hv, -⟩ := a.resolved_misread printable (by simpa using hm)
    have hstored := h.1.mp (by rw [hv]; rfl)
    cases a <;> simp_all [Answer.isStored, Answer.misread]
  · intro hm
    cases hs : a.isStored with
    | true => exact ⟨iff_of_true (a.resolved_stored printable hs) hs, by simp [hs]⟩
    | false =>
        have hnone := a.resolved_other printable hs hm
        refine ⟨iff_of_false (by simp [hnone]) (by simp [hs]), fun _ => ?_⟩
        exact a.run_rejected printable hnone ..

/-- A direct upload takes a failure written in JSON for a success. -/
theorem Answer.run_misread {a : Answer} (h : a.misread = true) (locate : Text → π)
    (compress : Bytes → Option Bytes) (gunzip : Bytes → List Bytes × Bool)
    (effect : Disk π → Disk π) (dest : Dest) (name : Text) (content : Bytes)
    (disk : Disk π) (hfree : disk (locate (push dest.path name)) = none) :
    let run := a.run printable locate compress gunzip effect false dest name content disk
    run.state = .completed ∧ run.fileGuard = .dropped := by
  obtain ⟨v, hv, -⟩ := a.resolved_misread printable h
  have hwritten := fsWriteFile_fresh placeholder (pathLikeToPath_targetLike dest name) hfree
  cases ht : a.responseText printable with
  | none => simp [Answer.resolved, ht] at hv
  | some t =>
      have hparse : parse t = some v := by simpa [Answer.resolved, ht] using hv
      simp [Answer.run, upload, hwritten, uploadDirect, authUpload, ht, hparse]

/-- A compressed upload does not: there is no path to unpack from. -/
theorem Answer.run_misread_compressed {a : Answer} (h : a.misread = true)
    (locate : Text → π) (compress : Bytes → Option Bytes)
    (gunzip : Bytes → List Bytes × Bool) (effect : Disk π → Disk π) (dest : Dest)
    (name : Text) (content : Bytes) (disk : Disk π)
    (hfree : disk (locate (push dest.path name)) = none) :
    let run := a.run printable locate compress gunzip effect true dest name content disk
    run.state = .error ∧ run.fileGuard = .released := by
  obtain ⟨v, hv, hpath⟩ := a.resolved_misread printable h
  have hwritten := fsWriteFile_fresh placeholder (pathLikeToPath_targetLike dest name) hfree
  cases ht : a.responseText printable with
  | none => simp [Answer.resolved, ht] at hv
  | some t =>
      have hparse : parse t = some v := by simpa [Answer.resolved, ht] using hv
      simp only [Answer.run, upload, hwritten, if_true, uploadCompressed]
      split
      · exact releaseFileGuard_run ..
      · simp only [authUpload, ht, hparse, hpath, unzip]
        exact releaseFileGuard_run ..

/-- The token is not known any more: the upload of a file to `/tmp` is marked
completed. -/
theorem upload_disagrees :
    ¬ Answer.authRequestFailed.Agrees (fun _ => false) (fun t : Text => t) some
      (fun b => ([b], true)) (fun disk => disk) false ⟨ofString "/tmp", []⟩ (ofString "f")
      [104, 105] (fun _ => none) := by
  intro h
  have hrun := Answer.run_misread (fun _ => false) (a := .authRequestFailed) rfl
    (fun t : Text => t) some (fun b => ([b], true)) (fun disk => disk)
    ⟨ofString "/tmp", []⟩ (ofString "f") [104, 105] (fun _ => none) rfl
  exact (h.2 rfl).1 hrun.1

end

end WebSshTool.Upload
