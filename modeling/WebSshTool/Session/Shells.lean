import Mathlib.Data.List.Basic
import WebSshTool.Lib.Machine
import WebSshTool.Session.Request

/-!
# The shells of a signed-in session

The messages of one browser websocket, the handlers `for_each_concurrent` runs
for them, sixteen at a time, and the `poll_channel` task of every shell they
open. A handler of a shell request needs the lock of `shells` and keeps it
until it has nothing more to send: a message it has put into a shell's channel
of capacity zero holds it up until the task has taken the message out.

Handlers start in the order their messages arrive. The lock is a
`futures::lock::Mutex`: whoever waits may get it when it is free. A request
that is not about a shell is served elsewhere, and takes as long as it takes.

What the SSH connection answers, when a shell's channel ends or fails and
whether the browser's event channel still takes an event is the choice of the
label. The locks of the SSH session and of the two websockets are not part of
the state: whoever has one of them here goes on after a while.
-/

namespace WebSshTool.Session

open Json

/-! ## Requests about a shell -/

inductive PollChannelData where
  | string (data : Text)
  | vec (data : List Nat)
  | windowChange (cols rows height width : Nat)
  deriving DecidableEq, Repr

def PollChannelData.isData : PollChannelData → Bool
  | .string _ | .vec _ => true
  | .windowChange .. => false

/-- The four sizes of a resize, each cut down to 32 bits. -/
def parseResize (resize : Value) : Option PollChannelData := do
  let cols ← (← resize.get? (ofString "cols")).asU64?
  let rows ← (← resize.get? (ofString "rows")).asU64?
  let height ← (← resize.get? (ofString "height")).asU64?
  let width ← (← resize.get? (ofString "width")).asU64?
  pure (.windowChange (cols % 2 ^ 32) (rows % 2 ^ 32) (height % 2 ^ 32) (width % 2 ^ 32))

def resizeOf (request : Value) : List PollChannelData :=
  match request.get? (ofString "resize") with
  | some (.obj members) => (parseResize (.obj members)).toList
  | _ => []

def dataOf (request : Value) : List PollChannelData :=
  match request.get? (ofString "data") with
  | some (.str data) => [.string data]
  | some (.arr items) => [.vec ((items.filterMap Value.asU64?).map (· % 256))]
  | _ => []

/-- What a handler does once it has the lock. -/
inductive Command where
  | start (id : Text)
  | close (id : Text)
  | input (id : Text) (messages : List PollChannelData)
  | ignored
  deriving DecidableEq, Repr

def Command.ofValue : Value → Command
  | .str id => .start id
  | .obj members =>
      match (Value.obj members).get? (ofString "id") with
      | some (.str id) =>
          if ((Value.obj members).get? (ofString "close")).isSome then .close id
          else .input id (resizeOf (.obj members) ++ dataOf (.obj members))
      | _ => .ignored
  | _ => .ignored

/-- A message by its place in the stream. The command is absent where the
request is not about a shell. -/
structure Arrival where
  number : Nat
  command : Option Command
  deriving DecidableEq, Repr

def commandOf (request : Option Value) : Option Command :=
  match Call.ofRequest request with
  | .shell argument => some (.ofValue argument)
  | _ => none

/-! ## Handlers and tasks -/

/-- Where the handler that has the lock stands. -/
inductive Holding where
  /-- Opens an SSH channel, with a terminal and a shell in it. -/
  | opening (id : Text)
  /-- Is about to send the first of `messages`. -/
  | sending (shell : Nat) (messages : List PollChannelData)
  /-- Has put one message into the channel; `messages` follow. -/
  | flushing (shell : Nat) (messages : List PollChannelData)
  deriving DecidableEq, Repr

inductive Reply where
  | null
  | internalError
  /-- The response to a request that is not about a shell. -/
  | other
  deriving DecidableEq, Repr

/-- The data a shell printed, or that it is gone. -/
inductive ShellEvent where
  | data (bytes : List Nat)
  | close
  deriving DecidableEq, Repr

inductive PollTask where
  /-- In `select!`. -/
  | selecting
  /-- In `send_to_channel`. -/
  | sending (message : PollChannelData)
  /-- In `forward_event`. -/
  | forwarding (bytes : List Nat)
  /-- In `join!`, after the loop. -/
  | closing
  | ended
  deriving DecidableEq, Repr

/-- A shell and the task that serves it. -/
structure Shell where
  id : Text
  /-- The message that opened it. -/
  openedBy : Nat
  /-- A request took its sender out of `shells` and closed it. -/
  closed : Bool
  /-- The message in its channel. -/
  slot : Option PollChannelData
  task : PollTask
  /-- What the SSH channel has been given. -/
  handed : List PollChannelData
  /-- What the SSH channel gave, and what of it went out as events. -/
  received : List (List Nat)
  emitted : List ShellEvent
  deriving DecidableEq, Repr

structure State where
  /-- Every message so far. -/
  arrived : List Arrival
  /-- Those without a handler. -/
  stream : List Arrival
  /-- Handlers in `shells.lock().await`. -/
  locking : List Arrival
  /-- The handler that has the lock. -/
  holder : Option (Arrival × Holding)
  /-- Handlers of other requests. -/
  serving : List Arrival
  /-- Handlers with a response to write. -/
  replying : List (Arrival × Reply)
  replies : List (Nat × Reply)
  shells : Text → Option Nat
  /-- How many shells there have been, and the shells. -/
  opened : Nat
  channel : Nat → Shell
  /-- The websocket ended and `shells` is gone. -/
  finished : Bool

inductive Label where
  | arrive (request : Option Value)
  | start
  | lock (a : Arrival)
  | opened (a : Arrival) (id : Text) (ok : Bool)
  | put (a : Arrival) (shell : Nat) (messages : List PollChannelData)
  | flushed (a : Arrival) (shell : Nat) (messages : List PollChannelData)
  | served (a : Arrival)
  | replied (a : Arrival) (reply : Reply)
  | finish
  | popped (shell : Nat) (message : PollChannelData)
  | hungUp (shell : Nat)
  | handed (shell : Nat) (message : PollChannelData)
  | sendFailed (shell : Nat) (message : PollChannelData)
  | output (shell : Nat) (bytes : List Nat)
  | channelEnded (shell : Nat)
  | forwarded (shell : Nat) (bytes : List Nat)
  | forwardFailed (shell : Nat) (bytes : List Nat)
  | closeForwarded (shell : Nat) (taken : Bool)

/-! ## The machine -/

/-- A shell that was never opened. -/
def Shell.absent : Shell where
  id := []
  openedBy := 0
  closed := true
  slot := none
  task := .ended
  handed := []
  received := []
  emitted := []

def Shell.fresh (id : Text) (openedBy : Nat) : Shell :=
  { Shell.absent with id, openedBy, closed := false, task := .selecting }

/-- `poll_channel` returns, and its receiver is gone with what was in it. -/
def Shell.ending (c : Shell) : Shell := { c with slot := none, task := .ended }

namespace State

def init : State where
  arrived := []
  stream := []
  locking := []
  holder := none
  serving := []
  replying := []
  replies := []
  shells _ := none
  opened := 0
  channel _ := .absent
  finished := false

def setShell (s : State) (n : Nat) (c : Shell) : State :=
  { s with channel := Function.update s.channel n c }

/-- The handler gives the lock back, if it has it, and has a response. -/
def respond (s : State) (a : Arrival) (reply : Reply) : State :=
  { s with holder := none, replying := s.replying ++ [(a, reply)] }

/-- Handlers that `for_each_concurrent` counts. -/
def inFlight (s : State) : Nat :=
  s.locking.length + s.holder.toList.length + s.serving.length + s.replying.length

/-- The handler has got the lock. -/
def handle (s : State) (a : Arrival) : State :=
  match a.command with
  | some (.start id) =>
      match s.shells id with
      | none => { s with holder := some (a, .opening id) }
      | some _ => s.respond a .null
  | some (.close id) =>
      match s.shells id with
      | some n =>
          ({ s with shells := Function.update s.shells id none }.setShell n
            { s.channel n with closed := true }).respond a .null
      | none => s.respond a .null
  | some (.input id messages) =>
      match s.shells id with
      | some n => { s with holder := some (a, .sending n messages) }
      | none => s.respond a .null
  | some .ignored | none => s.respond a .null

/-- `shells.insert` and the spawn of `poll_channel`. -/
def openShell (s : State) (id : Text) (openedBy : Nat) : State :=
  { s with
    shells := Function.update s.shells id (some s.opened)
    opened := s.opened + 1
    channel := Function.update s.channel s.opened (.fresh id openedBy) }

end State

def enabled (s : State) : Label → Prop
  | .arrive _ => s.finished = false
  | .start => s.stream ≠ [] ∧ s.inFlight < 16
  | .lock a => a ∈ s.locking ∧ s.holder = none
  | .opened a id _ => s.holder = some (a, .opening id)
  | .put a n messages => s.holder = some (a, .sending n messages)
  | .flushed a n messages =>
      s.holder = some (a, .flushing n messages) ∧ (s.channel n).slot = none
  | .served a => a ∈ s.serving
  | .replied a reply => (a, reply) ∈ s.replying
  | .finish => s.finished = false ∧ s.stream = [] ∧ s.inFlight = 0
  | .popped n message =>
      (s.channel n).task = .selecting ∧ (s.channel n).slot = some message
  | .hungUp n =>
      (s.channel n).task = .selecting ∧ (s.channel n).slot = none ∧
        ((s.channel n).closed = true ∨ s.finished = true)
  | .handed n message | .sendFailed n message =>
      (s.channel n).task = .sending message
  | .output n _ | .channelEnded n => (s.channel n).task = .selecting
  | .forwarded n bytes | .forwardFailed n bytes =>
      (s.channel n).task = .forwarding bytes
  | .closeForwarded n _ => (s.channel n).task = .closing

instance (s : State) (l : Label) : Decidable (enabled s l) := by
  cases l <;> unfold enabled <;> infer_instance

def next (s : State) : Label → State
  | .arrive request =>
      { s with
        arrived := s.arrived ++ [⟨s.arrived.length, commandOf request⟩]
        stream := s.stream ++ [⟨s.arrived.length, commandOf request⟩] }
  | .start =>
      match s.stream with
      | [] => s
      | a :: rest =>
          if a.command.isSome then { s with stream := rest, locking := s.locking ++ [a] }
          else { s with stream := rest, serving := s.serving ++ [a] }
  | .lock a => { s with locking := s.locking.erase a }.handle a
  | .opened a id ok =>
      bif ok then (s.openShell id a.number).respond a .null
      else s.respond a .internalError
  | .put a n messages =>
      match messages with
      | [] => s.respond a .null
      | message :: rest =>
          if (s.channel n).task = .ended then s.respond a .internalError
          else
            { s.setShell n { s.channel n with slot := some message } with
              holder := some (a, .flushing n rest) }
  | .flushed a n messages => { s with holder := some (a, .sending n messages) }
  | .served a =>
      { s with serving := s.serving.erase a, replying := s.replying ++ [(a, .other)] }
  | .replied a reply =>
      { s with
        replying := s.replying.erase (a, reply)
        replies := s.replies ++ [(a.number, reply)] }
  | .finish => { s with finished := true, shells := fun _ => none }
  | .popped n message =>
      s.setShell n { s.channel n with slot := none, task := .sending message }
  | .hungUp n | .channelEnded n => s.setShell n { s.channel n with task := .closing }
  | .handed n message =>
      s.setShell n { s.channel n with
        task := .selecting
        handed := (s.channel n).handed ++ [message] }
  | .sendFailed n _ | .forwardFailed n _ => s.setShell n (s.channel n).ending
  | .output n bytes =>
      s.setShell n { s.channel n with
        task := .forwarding bytes
        received := (s.channel n).received ++ [bytes] }
  | .forwarded n bytes =>
      s.setShell n { s.channel n with
        task := .selecting
        emitted := (s.channel n).emitted ++ [.data bytes] }
  | .closeForwarded n taken =>
      s.setShell n { (s.channel n).ending with
        emitted := bif taken then (s.channel n).emitted ++ [.close]
          else (s.channel n).emitted }

def machine : Machine State Label := ⟨State.init, enabled, next⟩

instance (s : State) (l : Label) : Decidable (machine.enabled s l) :=
  inferInstanceAs (Decidable (enabled s l))

end WebSshTool.Session
