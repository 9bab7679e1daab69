import WebSshTool.Rpc.InternalClient
import WebSshTool.Rpc.Wire

/-!
# Calls of the page

`Auth.rest` gives each call a number, encodes the message, leaves the callback
under the number and sends. The messages are encoded at the same time and are
sent in the order in which that is done. On the other side of the socket the
master takes them in the order they were sent and handles them at once; its
replies are sent in the order they were made, and each of them is decoded for
itself before its callback is looked up. What it is decoded to are the `units` of
what the master wrote, with doubles for its numbers.

A message that the master cannot read, because a string in it is no text or
because it is nested too deeply, is answered as well, but without a tag. So the
answer finds no callback, and the promise is never resolved.

The machine is the one of the master and the internal client with the page
around it. A call is known by its place among the calls of `rest`; the number
it is given is the page's own count, which is a float.
-/

namespace WebSshTool.Rpc.Rest

open Json
open Dispatch (key?)
open Wire (ParseFloat deserialize units)

/-- `_tag++`: beyond 2^53 a float has no successor. -/
def increment (tag : Nat) : Nat := if tag < 2 ^ 53 then tag + 1 else tag

inductive Stage where
  /-- In `await encodeMessage`. -/
  | encoding
  /-- `encodeMessage` threw, and so did `rest`. -/
  | rejected
  /-- The callback is there, and the socket discarded the message. -/
  | discarded
  /-- The callback is there and the message is sent. -/
  | sent
  deriving DecidableEq, Repr

/-- A call of `rest`. -/
structure RestCall where
  tag : Nat
  type : Text
  parameter : Value
  stage : Stage
  /-- What its callback was called with; `none` is undefined. -/
  responses : List (Option Value)

def RestCall.request (call : RestCall) : Value := .obj [(call.type, call.parameter)]

def RestCall.message (call : RestCall) : Value :=
  .obj [(ofString "tag", .num call.tag 0), (ofString "request", call.request)]

/-- What is sent. A lone surrogate stands in the text itself, where
`JSON.stringify` writes an escape for it. -/
def RestCall.text (call : RestCall) : Text := print call.message

structure State where
  server : Internal.State
  /-- `_tag`. -/
  tag : Nat
  calls : List RestCall
  /-- `_callbacks`: the call whose promise the callback resolves. -/
  callbacks : Nat → Option Nat
  /-- The calls whose messages were sent, in that order. -/
  sent : List Nat
  /-- The handlers that the messages got, in the order they were sent. A message
  that could not be read got none. -/
  handlers : List (Option CallId)
  /-- The replies that were dispatched, by their place among the replies. -/
  dispatched : List Nat
  /-- How many answers to what could not be read were not dispatched. -/
  errors : Nat

inductive Label where
  | rest (type : Text) (parameter : Value)
  /-- `encodeMessage` is done; `ok` says whether the socket took the message. -/
  | encoded (n : Nat) (ok : Bool)
  | reject (n : Nat)
  | server (l : Internal.Label)
  /-- The master begins to handle the next message. -/
  | deliver (c : CallId)
  /-- A reply is decoded. -/
  | dispatch (j : Nat)
  /-- An answer to what could not be read is decoded. -/
  | dispatchError

def init : State := ⟨Internal.init, 0, [], fun _ => none, [], [], [], 0⟩

def isEncoding (s : State) (n : Nat) : Bool := (s.calls[n]?).any fun call => call.stage == .encoding

/-- A browser's message comes from `deliver`. -/
def isBrowser : Internal.Label → Bool
  | .master (.browser ..) => true
  | _ => false

def enabled (s : State) : Label → Prop
  | .rest .. => True
  | .encoded n _ | .reject n => isEncoding s n = true
  | .server l => Internal.enabled s.server l ∧ isBrowser l = false
  | .deliver c => s.handlers.length < s.sent.length ∧ (s.server.master.phase c).isIdle = true
  | .dispatch j => j < s.server.master.replies.length ∧ j ∉ s.dispatched
  | .dispatchError => 0 < s.errors

instance (s : State) (l : Label) : Decidable (enabled s l) := by
  induction l using Label.casesOn <;> unfold enabled <;> infer_instance

namespace State

def setStage (s : State) (n : Nat) (stage : Stage) : State :=
  { s with calls := s.calls.modify n fun call => { call with stage } }

/-- `callback?.(response)`. -/
def resolve (s : State) (n : Nat) (response : Option Value) : State :=
  { s with calls := s.calls.modify n fun call =>
      { call with responses := call.responses ++ [response] } }

/-- What the listener of the socket does with a message. -/
def dispatch (s : State) (message : Value) : State :=
  match (message.get? (ofString "tag")).bind key? with
  | some tag =>
      match s.callbacks tag with
      | some n =>
          { s with callbacks := Function.update s.callbacks tag none }.resolve n
            (message.get? (ofString "response"))
      | none => s
  | none => s

end State

section

variable (float : ParseFloat) (token : Text)

/-- `handle_request` of the master up to `build_response`. -/
def State.deliver (s : State) (c : CallId) (text : Text) : State :=
  match deserialize float text with
  | some message =>
      { s with
        server := Internal.next token s.server (.master (.browser c
          (message.get? (ofString "tag")) (message.get? (ofString "request"))))
        handlers := s.handlers ++ [some c] }
  | none => { s with handlers := s.handlers ++ [none], errors := s.errors + 1 }

def next (s : State) : Label → State
  | .rest type parameter =>
      { s with
        tag := increment s.tag
        calls := s.calls ++ [⟨s.tag, type, parameter, .encoding, []⟩] }
  | .encoded n ok =>
      match s.calls[n]? with
      | some call =>
          { s.setStage n (bif ok then .sent else .discarded) with
            callbacks := Function.update s.callbacks call.tag (some n)
            sent := bif ok then s.sent ++ [n] else s.sent }
      | none => s
  | .reject n => s.setStage n .rejected
  | .server l => { s with server := Internal.next token s.server l }
  | .deliver c =>
      match (s.sent[s.handlers.length]?).bind fun n => s.calls[n]? with
      | some call => s.deliver float token c call.text
      | none => s
  | .dispatch j =>
      match s.server.master.replies[j]? with
      | some reply => { s.dispatch (units reply.2) with dispatched := s.dispatched ++ [j] }
      | none => s
  | .dispatchError => { s.dispatch (units formatError) with errors := s.errors - 1 }

def machine : Machine State Label := ⟨init, enabled, next float token⟩

instance (s : State) (l : Label) : Decidable ((machine float token).enabled s l) :=
  inferInstanceAs (Decidable (enabled s l))

end

end WebSshTool.Rpc.Rest
