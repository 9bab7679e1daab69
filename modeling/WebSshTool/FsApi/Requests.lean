import WebSshTool.Lib.Inodes
import WebSshTool.Lib.Machine

/-!
# Requests that create files

The internal client serves every request as it comes, so the steps that
`fs.writeFile`, `fs.cp` and `fs.rename` take on the file system are
interleaved in any way. A step is one operation of the system: looking up its
path anew each time, and carried out as a whole or refused.

Files are created with `create_new`, except in `copy_dir_all`, which leaves
them to `std::fs::copy`. That one opens its target with truncation. The rename
of `fs_rename` would replace what is at its destination, so `fs_rename` first
takes the destination with a file of its own; the handle on it is dropped
unused.
-/

namespace WebSshTool.FsApi

open Files (Bytes Error)
open Inodes

variable {π ν : Type*}

/-- The requests, by the paths of their arguments. -/
inductive Request (π : Type*) where
  | writeFile (path : π) (content : Bytes)
  | cp (src dest : π)
  | rename (src dest : π)

/-- What `copy_dir_all` is in the middle of: the directories it has descended
to, the innermost first. -/
abbrev Stack (π : Type*) := List (π × π)

/-- Where a request is. -/
inductive Phase (π : Type*) where
  | called
  /-- `fs_write_file`: the bytes before `offset` are in the file. -/
  | writing (ino offset : Nat) (rest : Bytes)
  /-- `fs_rename`, behind the creation of its placeholder. -/
  | claimed (placeholder : Nat)
  /-- `copy_file`, in its `join!`: what the two opens have come to. -/
  | opening (dst src : Option (Except Error Nat))
  /-- `copy_dir_all`, at `create_dir`, at `read_dir` and in its loop. -/
  | creatingDir (src dst : π) (stack : Stack π)
  | readingDir (src dst : π) (stack : Stack π)
  | listing (src dst : π) (stack : Stack π)
  /-- `std::fs::copy`, before it opens the source and before it opens the target. -/
  | openingEntry (src dst : π) (stack : Stack π)
  | openingTarget (src : Nat) (dst : π) (stack : Stack π)
  /-- The loop of a copy: `offset` bytes are written, `buffer` has been read. -/
  | copying (src dst offset : Nat) (buffer : Bytes) (stack : Stack π)
  | done (result : Except Error Unit)

/-- The operations. A directory yields its entries one by one; what it yields
may have been there or not by the time. -/
inductive Op (ν : Type*) where
  | createNew
  | rename
  | metadata
  | openDst
  | openSrc
  | createDir
  | readDir
  | entry (name : ν) (isDir : Bool)
  | endOfDir
  | openEntry
  | openTarget
  | read (n : Nat)
  | write (n : Nat)
  | sync
  deriving DecidableEq, Repr

/-- `copy_file` behind its `join!`: the error of the destination comes first. -/
def opened : Option (Except Error Nat) → Option (Except Error Nat) → Phase π
  | some (.error e), some _ => .done (.error e)
  | some (.ok _), some (.error e) => .done (.error e)
  | some (.ok dst), some (.ok src) => .copying src dst 0 [] []
  | dst, src => .opening dst src

/-- A copy that has reached the end of its source. -/
def copied : Stack π → Phase π
  | [] => .done (.ok ())
  | (src, dst) :: stack => .listing src dst stack

section

variable (os : Os π ν)

/-- An operation on the slot a path leads to. -/
def atSlot {α : Type*} (walk : Entries ν → π → Option (Slot ν)) (v : Volume ν) (p : π)
    (f : Slot ν → Except Error α) : Except Error α :=
  match walk v.entry p with
  | none => .error .notFound
  | some slot => f slot

def metadata (v : Volume ν) (p : π) : Except Error Entry :=
  atSlot os.follow v p fun slot => (v.entry slot).elim (.error .notFound) .ok

variable [DecidableEq ν]

/-- What `fs_cp` does with the type of its source. The type of a link is that of
what it points to, so its third branch is never taken. -/
def cpOf (src dest : π) : Entry → Phase π
  | .file _ => .opening none none
  | .directory _ => .creatingDir src dest []
  | .special _ => .done (.ok ())

/-- One operation of a request: `none` where it is not what the request does
next, an error where the operation fails, and otherwise what becomes of the
volume and of the request. -/
def perform (v : Volume ν) (request : Request π) :
    Phase π → Op ν → Option (Except Error (Volume ν × Phase π))
  | .called, .createNew =>
      match request with
      | .writeFile path content =>
          some ((atSlot os.slot v path v.createNew).map fun r => (r.1, .writing r.2 0 content))
      | .rename _ dest =>
          some ((atSlot os.slot v dest v.createNew).map fun r => (r.1, .claimed r.2))
      | .cp _ _ => none
  | .called, .metadata =>
      match request with
      | .cp src dest => some ((metadata os v src).map fun e => (v, cpOf src dest e))
      | _ => none
  | .writing ino offset rest, .write n =>
      if 0 < n ∧ rest ≠ [] then
        some (.ok (v.write ino offset (rest.take n),
          .writing ino (offset + (rest.take n).length) (rest.drop n)))
      else none
  | .writing _ _ [], .sync => some (.ok (v, .done (.ok ())))
  | .claimed _, .rename =>
      match request with
      | .rename src dest =>
          some ((atSlot os.slot v src fun x => atSlot os.slot v dest fun y => v.rename x y).map
            fun v => (v, .done (.ok ())))
      | _ => none
  | .opening none src, .openDst =>
      match request with
      | .cp _ dest =>
          match atSlot os.slot v dest v.createNew with
          | .ok r => some (.ok (r.1, opened (some (.ok r.2)) src))
          | .error e => some (.ok (v, opened (some (.error e)) src))
      | _ => none
  | .opening dst none, .openSrc =>
      match request with
      | .cp src _ => some (.ok (v, opened dst (some (atSlot os.follow v src v.openRead))))
      | _ => none
  | .creatingDir src dst stack, .createDir =>
      some ((atSlot os.slot v dst v.createDir).map fun v => (v, .readingDir src dst stack))
  | .readingDir src dst stack, .readDir =>
      some ((metadata os v src).bind fun e =>
        if e.isDirectory then .ok (v, .listing src dst stack) else .error (.other 20))
  | .listing src dst stack, .entry name isDir =>
      some (.ok (v,
        if isDir then
          .creatingDir (os.join src name) (os.join dst name) ((src, dst) :: stack)
        else .openingEntry (os.join src name) (os.join dst name) ((src, dst) :: stack)))
  | .listing _ _ stack, .endOfDir => some (.ok (v, copied stack))
  | .openingEntry src dst stack, .openEntry =>
      some ((atSlot os.follow v src v.openRead).map fun i => (v, .openingTarget i dst stack))
  | .openingTarget src dst stack, .openTarget =>
      some ((atSlot os.follow v dst v.create).map fun r => (r.1, .copying src r.2 0 [] stack))
  | .copying src dst offset [] stack, .read n =>
      if 0 < n then
        match ((v.content src).drop offset).take n with
        | [] => some (.ok (v, copied stack))
        | b :: bs => some (.ok (v, .copying src dst offset (b :: bs) stack))
      else none
  | .copying src dst offset (b :: bs) stack, .write n =>
      if 0 < n then
        some (.ok (v.write dst offset ((b :: bs).take n),
          .copying src dst (offset + ((b :: bs).take n).length) ((b :: bs).drop n) stack))
      else none
  | _, _ => none

/-- What becomes of a request whose operation fails. In `join!` the other open
is still waited for; anywhere else the error is returned. -/
def failed (e : Error) : Phase π → Op ν → Phase π
  | .opening none src, .openDst => opened (some (.error e)) src
  | .opening dst none, .openSrc => opened dst (some (.error e))
  | _, _ => .done (.error e)

/-! ## Any number of them -/

/-- Requests are numbered as they come. `creator` is who made a file, if it was
one of them; no operation reads it. -/
structure State (π ν : Type*) where
  volume : Volume ν
  requests : List (Request π × Phase π)
  creator : Nat → Option Nat

inductive Label (π ν : Type*) where
  | arrive (request : Request π)
  | perform (r : Nat) (op : Op ν)
  /-- The system has something against the operation. -/
  | refuse (r : Nat) (op : Op ν) (e : Error)

/-- What request `r` would come to by an operation. -/
def State.attempt (s : State π ν) (r : Nat) (op : Op ν) :
    Option (Except Error (Volume ν × Phase π)) :=
  s.requests[r]?.bind fun p => perform os s.volume p.1 p.2 op

def State.setPhase (s : State π ν) (r : Nat) (phase : Phase π) : State π ν :=
  { s with requests := s.requests.modify r fun p => (p.1, phase) }

def State.fail (s : State π ν) (r : Nat) (op : Op ν) (e : Error) : State π ν :=
  { s with requests := s.requests.modify r fun p => (p.1, failed e p.2 op) }

/-- Files that are there now and were not before are of request `r`. -/
def State.setVolume (s : State π ν) (r : Nat) (volume : Volume ν) : State π ν :=
  { s with
    volume
    creator := fun i =>
      if s.volume.count ≤ i ∧ i < volume.count then some r else s.creator i }

def enabled (s : State π ν) : Label π ν → Prop
  | .arrive _ => True
  | .perform r op | .refuse r op _ => (s.attempt os r op).isSome = true

instance (s : State π ν) (l : Label π ν) : Decidable (enabled os s l) := by
  cases l <;> unfold enabled <;> infer_instance

def next (s : State π ν) : Label π ν → State π ν
  | .arrive request => { s with requests := s.requests ++ [(request, .called)] }
  | .perform r op =>
      match s.attempt os r op with
      | some (.ok (volume, phase)) => (s.setVolume r volume).setPhase r phase
      | some (.error e) => s.fail r op e
      | none => s
  | .refuse r op e => s.fail r op e

/-- The client on a volume, with no request yet. -/
def machine (volume : Volume ν) : Machine (State π ν) (Label π ν) where
  init := ⟨volume, [], fun _ => none⟩
  enabled := enabled os
  next := next os

end

end WebSshTool.FsApi
