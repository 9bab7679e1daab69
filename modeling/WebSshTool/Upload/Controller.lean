import WebSshTool.Lib.Inodes
import WebSshTool.Lib.Machine
import WebSshTool.Upload.Agreement

/-!
# An upload and its `UploadController`

`_upload` as an async function that can be cancelled wherever it waits, the
state of its controller, and the requests it has sent, which the server
executes in any order.

The function and `cancel` share the flag `fileGuard`, which stands for the
duty to remove the placeholder: whoever clears it sends the `fs.unlink`, and
`cancel` does not wait for the answer. `cancel` also fires the abort signal.
`Auth.upload` only listens to it once it has its token, and a signal fires
once, so an abort before that, or a second one, does nothing to the XHR.

On the server a file is created by `fs.writeFile`, by the handler of the POST
and by `unzip`, each in its own way, and written through the handle, so that
an `fs.unlink` in between takes the name and not the file. What the browser
makes of an answer is only whether it is an error; for the POST it is what
`Auth.upload` reads it as, and for `fs.unlink` nothing at all.
-/

namespace WebSshTool.Upload.Controller

open Files (Bytes Error utf8)
open Inodes

variable {ν : Type*}

/-- What is uploaded and where to. The decoder of `unzip` undoes `compress`,
and a file that is cut off is an error to it. The target does not exist, and
neither does a file of the name that is drawn for one without. -/
structure Job (ν : Type*) where
  uploadCompress : Bool
  content : Bytes
  compressed : Bytes
  gunzip : Bytes → List Bytes × Bool
  volume : Volume ν
  target : Slot ν
  temp : Slot ν
  gunzip_compressed : (gunzip compressed).2 = true ∧ (gunzip compressed).1.flatten = content
  gunzip_truncated : ∀ n, n < compressed.length → (gunzip (compressed.take n)).2 = false
  target_free : volume.entry target = none
  temp_free : volume.entry temp = none
  temp_ne : temp ≠ target

/-- The body of the POST. -/
def Job.posted (job : Job ν) : Bytes :=
  if job.uploadCompress then job.compressed else job.content

/-- Where the handler puts it. -/
def Job.stored (job : Job ν) : Slot ν :=
  if job.uploadCompress then job.temp else job.target

/-! ## The state -/

/-- `UploadController.State`. -/
inductive ControllerState where
  | running
  | error
  | completed
  | cancel
  deriving DecidableEq, Repr

/-- Where the function waits. -/
inductive Phase where
  /-- For `createPlaceholderFile`, and in compress mode for the compression at
  the same time: how each has ended. -/
  | starting (compressed placeholder : Option Bool)
  | token
  | posting
  | unzipping
  /-- For the `fs.unlink` of the temp file behind an `unzip`. -/
  | removing (unzipped : Bool)
  /-- For the two in `Promise.all`, behind a POST that has been cancelled. -/
  | discarding (releasing : Bool)
  /-- For `releaseFileGuard`, and then the function returns or throws. -/
  | releasing (returns : Bool)
  | settled
  deriving DecidableEq, Repr

/-- `fs.writeFile`. -/
inductive WriteCall where
  | sent
  | created (ino : Nat)
  | answered (ok : Bool)
  deriving DecidableEq, Repr

/-- `fs.unlink`. -/
inductive UnlinkCall where
  | unsent
  | sent
  | answered
  deriving DecidableEq, Repr

/-- How the answer to the POST is read: as the success message, of a handler
that stored the whole body or not; as a value without a path; or as none. -/
inductive Reply where
  | stored (whole : Bool)
  | misread
  | failed
  deriving DecidableEq, Repr

/-- The POST: on its way, with its handler at `offset` in the body, or with
nothing left to be done but to read the reply. -/
inductive Post where
  | unsent
  | sent
  | created (ino offset : Nat)
  | ended (reply : Reply)
  deriving DecidableEq, Repr

/-- `unzip`: behind the opening of its source, and in its loop. -/
inductive UnzipCall where
  | unsent
  | sent
  | opened (src : Nat)
  | writing (ino offset : Nat) (rest : List Bytes) (ok : Bool)
  | answered (ok : Bool)
  deriving DecidableEq, Repr

structure State (ν : Type*) where
  controller : ControllerState
  fileGuard : Bool
  aborted : Bool
  phase : Phase
  writeFile : WriteCall
  post : Post
  unzip : UnzipCall
  unlinkTemp : UnlinkCall
  unlinkTarget : UnlinkCall
  volume : Volume ν

/-- What an answer is read as. -/
def replyOf (a : Answer) (whole : Bool) : Reply :=
  if a.isStored then .stored whole else if a.misread then .misread else .failed

/-! ## The browser -/

namespace State

@[grind] def isClosed (s : State ν) : Prop := s.controller ≠ .running

instance (s : State ν) : Decidable s.isClosed := by
  unfold isClosed
  infer_instance

/-- What the constructor of `UploadController` hangs on the promise. -/
@[grind] def settle (s : State ν) (returns : Bool) : State ν :=
  { s with
    phase := .settled
    controller :=
      if s.controller = .running then (if returns then .completed else .error)
      else s.controller }

/-- `releaseFileGuard`, up to its `await`. -/
def releaseFileGuard (s : State ν) : State ν :=
  if s.fileGuard then { s with fileGuard := false, unlinkTarget := .sent } else s

/-- `await releaseFileGuard()` and then a return or a throw. -/
def awaitRelease (s : State ν) (returns : Bool) : State ν :=
  if s.fileGuard then { s.releaseFileGuard with phase := .releasing returns }
  else s.settle returns

/-- `cancel`. The XHR that is aborted rejects, and the function goes on with
the guard already released. -/
def cancel (s : State ν) : State ν :=
  let canceled := { s with controller := .cancel, aborted := true }.releaseFileGuard
  if s.phase = .posting ∧ s.aborted = false then canceled.awaitRelease false
  else canceled

def close (s : State ν) : State ν :=
  if s.controller = .completed then s else s.cancel

/-- What the function waits for first has come this far; once both are there
it goes on. -/
def started (s : State ν) (compressed placeholder : Option Bool) : State ν :=
  match compressed, placeholder with
  | some compressed, some placeholder =>
      if placeholder = false then s.settle false
      else if s.isClosed then s.awaitRelease true
      else if compressed = false then s.awaitRelease false
      else { s with phase := .token }
  | _, _ => { s with phase := .starting compressed placeholder }

/-- Behind the promise of `Auth.upload`. -/
def uploaded (job : Job ν) (s : State ν) : Reply → State ν
  | .failed => s.awaitRelease false
  | .stored _ | .misread =>
      if job.uploadCompress then
        if s.isClosed then
          { s.releaseFileGuard with unlinkTemp := .sent, phase := .discarding s.fileGuard }
        else { s with unzip := .sent, phase := .unzipping }
      else { s with fileGuard := false }.settle true

end State

/-! ## The server

An operation is one step of a request; a request of which an operation fails
is answered with the error. -/

inductive Op where
  /-- `fs.writeFile`. -/
  | createPlaceholder
  | writePlaceholder
  /-- The handler of the POST: `File::create`, a write of its loop, and the
  loop's end, for whatever reason. -/
  | createFile
  | copy (n : Nat)
  | leave
  /-- There is another answer, with the file not yet created or created. -/
  | turnDown (misread : Bool)
  | breakOff
  /-- `unzip`. -/
  | openSource
  | openTarget
  | inflate
  /-- `fs.unlink`. -/
  | unlinkTemp
  | unlinkTarget
  deriving DecidableEq, Repr

variable [DecidableEq ν]

/-- The volume after an `fs.unlink`. -/
def unlinked (volume : Volume ν) (slot : Slot ν) : Volume ν :=
  match volume.removeFile slot with
  | .ok volume => volume
  | .error _ => volume

def serve (job : Job ν) (s : State ν) : Op → Option (State ν)
  | .createPlaceholder =>
      match s.writeFile with
      | .sent =>
          match s.volume.createNew job.target with
          | .ok (volume, ino) => some { s with volume, writeFile := .created ino }
          | .error _ => some { s with writeFile := .answered false }
      | _ => none
  | .writePlaceholder =>
      match s.writeFile with
      | .created ino =>
          some { s with
            volume := s.volume.write ino 0 (utf8 placeholder)
            writeFile := .answered true }
      | _ => none
  | .createFile =>
      match s.post with
      | .sent =>
          match s.volume.create job.stored with
          | .ok (volume, ino) => some { s with volume, post := .created ino 0 }
          | .error _ => some { s with post := .ended .failed }
      | _ => none
  | .copy n =>
      match s.post with
      | .created ino offset =>
          if 0 < n ∧ offset + n ≤ job.posted.length then
            some { s with
              volume := s.volume.write ino offset ((job.posted.drop offset).take n)
              post := .created ino (offset + n) }
          else none
      | _ => none
  | .leave =>
      match s.post with
      | .created _ offset =>
          some { s with post := .ended (.stored (offset = job.posted.length)) }
      | _ => none
  | .turnDown misread =>
      match s.post with
      | .sent => some { s with post := .ended (if misread then .misread else .failed) }
      | _ => none
  | .breakOff =>
      match s.post with
      | .created _ _ => some { s with post := .ended .failed }
      | _ => none
  | .openSource =>
      match s.unzip, s.post with
      | .sent, .ended (.stored _) =>
          match s.volume.openRead job.temp with
          | .ok src => some { s with unzip := .opened src }
          | .error _ => some { s with unzip := .answered false }
      -- Without a path in the reply the first argument is null.
      | .sent, _ => some { s with unzip := .answered false }
      | _, _ => none
  | .openTarget =>
      match s.unzip with
      | .opened src =>
          match s.volume.openWrite job.target with
          | .ok (volume, ino) =>
              let (chunks, ok) := job.gunzip (s.volume.content src)
              some { s with volume, unzip := .writing ino 0 chunks ok }
          | .error _ => some { s with unzip := .answered false }
      | _ => none
  | .inflate =>
      match s.unzip with
      | .writing ino offset (chunk :: rest) ok =>
          some { s with
            volume := s.volume.write ino offset chunk
            unzip := .writing ino (offset + chunk.length) rest ok }
      | .writing _ _ [] ok => some { s with unzip := .answered ok }
      | _ => none
  | .unlinkTemp =>
      match s.unlinkTemp, s.post with
      | .sent, .ended (.stored _) =>
          some { s with volume := unlinked s.volume job.temp, unlinkTemp := .answered }
      | .sent, _ => some { s with unlinkTemp := .answered }
      | _, _ => none
  | .unlinkTarget =>
      match s.unlinkTarget with
      | .sent => some { s with volume := unlinked s.volume job.target, unlinkTarget := .answered }
      | _ => none

omit [DecidableEq ν] in
/-- The system has something against the operation. A handler that cannot
create its file breaks off, and one that cannot write to it leaves its loop. -/
def refuse (s : State ν) : Op → Option (State ν)
  | .createPlaceholder =>
      if s.writeFile = .sent then some { s with writeFile := .answered false } else none
  | .writePlaceholder =>
      match s.writeFile with
      | .created _ => some { s with writeFile := .answered false }
      | _ => none
  | .openSource =>
      if s.unzip = .sent then some { s with unzip := .answered false } else none
  | .openTarget =>
      match s.unzip with
      | .opened _ => some { s with unzip := .answered false }
      | _ => none
  | .inflate =>
      match s.unzip with
      | .writing _ _ _ _ => some { s with unzip := .answered false }
      | _ => none
  | .unlinkTemp =>
      if s.unlinkTemp = .sent then some { s with unlinkTemp := .answered } else none
  | .unlinkTarget =>
      if s.unlinkTarget = .sent then some { s with unlinkTarget := .answered } else none
  | _ => none

/-! ## The two together -/

inductive Label where
  | cancel
  | close
  /-- What the function waits for: the compression, the answer to
  `fs.writeFile`, the token or an error for it, the end of the XHR with an
  answer or without, the answers to `unzip` and to each `fs.unlink`. -/
  | compressed (ok : Bool)
  | placed
  | token (ok : Bool)
  | load
  | error
  | unzipped
  | removed
  | discarded
  | released
  | serve (op : Op)
  | refuse (op : Op)
  deriving DecidableEq, Repr

def step (job : Job ν) (s : State ν) : Label → Option (State ν)
  | .cancel => some s.cancel
  | .close => some s.close
  | .compressed ok =>
      match s.phase with
      | .starting none placeholder => some (s.started (some ok) placeholder)
      | _ => none
  | .placed =>
      match s.phase, s.writeFile with
      | .starting compressed none, .answered ok =>
          some ({ s with fileGuard := ok || s.fileGuard }.started compressed (some ok))
      | _, _ => none
  | .token ok =>
      if s.phase = .token then
        some (if ok then { s with phase := .posting, post := .sent } else s.awaitRelease false)
      else none
  | .load =>
      match s.phase, s.post with
      | .posting, .ended reply => some (s.uploaded job reply)
      | _, _ => none
  | .error => if s.phase = .posting then some (s.awaitRelease false) else none
  | .unzipped =>
      match s.phase, s.unzip with
      | .unzipping, .answered ok =>
          some { s with unlinkTemp := .sent, phase := .removing ok }
      | _, _ => none
  | .removed =>
      match s.phase, s.unlinkTemp with
      | .removing true, .answered => some ({ s with fileGuard := false }.settle true)
      | .removing false, .answered => some (s.awaitRelease false)
      | _, _ => none
  | .discarded =>
      match s.phase, s.unlinkTemp with
      | .discarding releasing, .answered =>
          if releasing = true → s.unlinkTarget = .answered then some (s.settle true) else none
      | _, _ => none
  | .released =>
      match s.phase, s.unlinkTarget with
      | .releasing returns, .answered => some (s.settle returns)
      | _, _ => none
  | .serve op => serve job s op
  | .refuse op => refuse s op

/-- An upload from its first call on. -/
def machine (job : Job ν) : Machine (State ν) Label where
  init := {
    controller := .running
    fileGuard := false
    aborted := false
    phase := .starting (if job.uploadCompress then none else some true) none
    writeFile := .sent
    post := .unsent
    unzip := .unsent
    unlinkTemp := .unsent
    unlinkTarget := .unsent
    volume := job.volume }
  enabled s l := (step job s l).isSome = true
  next s l := (step job s l).getD s

/-! ## What the answers are read as -/

/-- The reply says what becomes of the promise of `Auth.upload`: where there was a value
that has no path, `unzip` is called with null. -/
theorem resolved_replyOf (printable : Nat → Bool) (a : Answer) (whole : Bool) :
    match replyOf a whole with
    | .stored _ => (a.resolved printable).isSome = true
    | .misread => ∃ v, a.resolved printable = some v ∧ pathOf v = some .null
    | .failed => a.resolved printable = none := by
  rw [replyOf]
  cases hs : a.isStored with
  | true => exact Answer.resolved_stored printable hs
  | false =>
      cases hm : a.misread with
      | true => exact Answer.resolved_misread printable hm
      | false => exact Answer.resolved_other printable hs hm

end WebSshTool.Upload.Controller
