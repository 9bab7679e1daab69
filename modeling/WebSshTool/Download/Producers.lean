import WebSshTool.Lib.Paths
import WebSshTool.Upload.Handler

/-!
# Where the body of a download comes from

The internal client answers a download with a stream of body units, which a
task of its own produces. A single file is copied to the stream by
`forward_async_read_to_sender`, which sends an error on when it reads one.
Anything else is written to the stream as a zip archive, by a writer from a
library that takes the stream for a file and whose errors end the task.

The stream ends when its sender is dropped. What ends it does not show: a
reader knows of an error only if an error was sent.

`reads` and the faults are what the outside world has in store for a download:
the sizes in which a file is read, and which operation fails, if one does.
-/

namespace WebSshTool.Download

open Files (Bytes)
open Paths (Path)
open Upload (Frame)

/-- `ResponseUnit`. -/
abbrev ResponseUnit := Except Unit Frame

/-- A channel of units: how many its receiver takes before it is dropped, if
it is, what it has taken, and whether a unit was refused. -/
structure Channel where
  patience : Option Nat
  units : List ResponseUnit
  refused : Bool

def Channel.new (patience : Option Nat) : Channel := ⟨patience, [], false⟩

/-- `send`, and whether it returns `Ok`. -/
def Channel.send (c : Channel) (u : ResponseUnit) : Channel × Bool :=
  if c.patience = some c.units.length then ({ c with refused := true }, false)
  else ({ c with units := c.units ++ [u] }, true)

/-! ## Files -/

/-- A file: what is in it, whether it can be opened, and for each read the
number of bytes behind the first that it returns at most, or that it fails. -/
structure Source where
  content : Bytes
  opens : Bool
  reads : Nat → Option Nat

/-- Read number `k`, into a buffer, when `rest` is still to be read. -/
def Source.read (s : Source) (size k : Nat) (rest : Bytes) : Option Bytes :=
  (s.reads k).map fun n => rest.take (min size (n + 1))

/-- The loop of `forward_async_read_to_sender`. -/
def forwardFrom (s : Source) : Nat → Nat → Bytes → Channel → Channel
  | 0, _, _, c => c
  | fuel + 1, k, rest, c =>
      match s.read (1024 * 4) k rest with
      | none => (c.send (.error ())).1
      | some [] => c
      | some (b :: bs) =>
          match c.send (.ok (.data (b :: bs))) with
          | (c, true) => forwardFrom s fuel (k + 1) (rest.drop (b :: bs).length) c
          | (c, false) => c

/-- Every read but the last takes a byte off. -/
def forwardAsyncReadToSender (s : Source) (c : Channel) : Channel :=
  forwardFrom s (s.content.length + 1) 0 s.content c

/-- `forward_body_to_sender`, over what `frame` returns until it returns `None`. -/
def forwardBodyToSender : List ResponseUnit → Channel → Channel
  | [], c => c
  | f :: fs, c =>
      match c.send f with
      | (c, true) => forwardBodyToSender fs c
      | (c, false) => c

/-! ## Archives -/

/-- `ZipFileWriter`: the buffers each of its operations writes, and the state
it goes on in. `entry` is `write_entry_stream`, `write`, `flush` and `finish`
are those of the stream of an entry, and `close` writes the central directory. -/
structure Zip (σ : Type*) where
  new : σ
  entry : σ → Path → List Bytes × σ
  write : σ → Bytes → List Bytes × σ
  flush : σ → List Bytes × σ
  finish : σ → List Bytes × σ
  close : σ → List Bytes

/-- A file to be archived. A fault is the number of buffers after which the
operation fails. -/
structure Member where
  name : Path
  source : Source
  entryFault : Option Nat
  writeFault : Nat → Option Nat
  flushFault : Option Nat
  finishFault : Option Nat

/-- The writer and the `SenderStream` under it. -/
structure Writer (σ : Type*) where
  state : σ
  channel : Channel

section

variable {σ : Type*} (z : Zip σ)

/-- `poll_write` sends a buffer as one unit. -/
def Writer.emit (w : Writer σ) : List Bytes → Writer σ × Bool
  | [] => (w, true)
  | b :: bs =>
      match w.channel.send (.ok (.data b)) with
      | (channel, true) => Writer.emit { w with channel } bs
      | (channel, false) => ({ w with channel }, false)

/-- One operation, and whether it returns `Ok`. -/
def Writer.perform (w : Writer σ) (fault : Option Nat) (out : List Bytes × σ) :
    Writer σ × Bool :=
  match fault with
  | some written => ((w.emit (out.1.take written)).1, false)
  | none =>
      match w.emit out.1 with
      | (w, true) => ({ w with state := out.2 }, true)
      | (w, false) => (w, false)

/-- The loop of `futures::io::copy`, with its buffer of 8 KiB. -/
def copyFrom (m : Member) : Nat → Nat → Bytes → Writer σ → Writer σ × Bool
  | 0, _, _, w => (w, true)
  | fuel + 1, k, rest, w =>
      match m.source.read (1024 * 8) k rest with
      | none => (w, false)
      | some [] => w.perform m.flushFault (z.flush w.state)
      | some (b :: bs) =>
          match w.perform (m.writeFault k) (z.write w.state (b :: bs)) with
          | (w, true) => copyFrom m fuel (k + 1) (rest.drop (b :: bs).length) w
          | (w, false) => (w, false)

/-- The `join!` opens the file and starts the entry whether or not the other
succeeds; nothing is done, and nothing said, if one of the two fails. -/
def internalZipSingle (m : Member) (w : Writer σ) : Writer σ × Bool :=
  match w.perform m.entryFault (z.entry w.state m.name), m.source.opens with
  | (w, true), true =>
      match copyFrom z m (m.source.content.length + 1) 0 m.source.content w with
      | (w, true) => w.perform m.finishFault (z.finish w.state)
      | (w, false) => (w, false)
  | (w, _), _ => (w, true)

/-- Member after member, up to the first error. -/
def zipMembers : List Member → Writer σ → Writer σ × Bool
  | [], w => (w, true)
  | m :: ms, w =>
      match internalZipSingle z m w with
      | (w, true) => zipMembers ms w
      | (w, false) => (w, false)

/-- What `zip_dir` and `zip_multi` have in common. An error is logged by the
task, which then drops the sender. -/
def zipAll (closeFault : Option Nat) (ms : List Member) (c : Channel) : Channel :=
  match zipMembers z ms ⟨z.new, c⟩ with
  | (w, true) => (w.perform closeFault (z.close w.state, w.state)).1.channel
  | (w, false) => w.channel

end

/-! ## Downloads -/

/-- What `WalkDir` yields: an error, or an entry with its path below the
directory, if that is text, and whether it is a file. -/
inductive Walked where
  | error
  | entry (name : Option Path) (isFile : Bool) (file : Member)

/-- What a path of the request leads to. `name` is its last component, if
there is one and it is text. -/
inductive Target where
  | file (name : Option Path) (file : Member)
  | directory (path : Path) (name : Option Path) (walk : List Walked)
  | other

/-- The files `internal_zip_dir` puts into the archive. -/
def internalZipDir (folder : Option Path) (walk : List Walked) : List Member :=
  walk.filterMap fun e =>
    match e with
    | .entry (some name) true file =>
        some { file with name := folder.elim name fun folder => Paths.join folder name }
    | .entry _ _ _ | .error => none

/-- The files `zip_multi` puts into the archive for a path. -/
def Target.members : Target → List Member
  | .file (some name) m => [{ m with name }]
  | .file none _ => []
  | .directory path _ walk => internalZipDir (some path) walk
  | .other => []

section

variable {σ : Type*} (z : Zip σ) (closeFault patience : Option Nat)

def zipDir (walk : List Walked) : Channel :=
  zipAll z closeFault (internalZipDir none walk) (.new patience)

def zipMulti (list : List Target) : Channel :=
  zipAll z closeFault (list.flatMap Target.members) (.new patience)

/-- `download_single`: no stream for what is neither a file that can be opened
nor a directory, or has no name. -/
def downloadSingle : Target → Option Channel
  | .file (some _) m =>
      if m.source.opens then some (forwardAsyncReadToSender m.source (.new patience))
      else none
  | .directory _ (some _) walk => some (zipDir z closeFault patience walk)
  | _ => none

/-- The stream of body units `handle_request` makes of the paths. -/
def handleRequest : List Target → Option Channel
  | [] => none
  | [target] => downloadSingle z closeFault patience target
  | list => some (zipMulti z closeFault patience list)

end

end WebSshTool.Download
