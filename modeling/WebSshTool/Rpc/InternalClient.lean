import WebSshTool.Lib.JsonRoundTrip
import WebSshTool.Rpc.Correlation

/-!
# The internal client behind its socket

The internal client reads the messages of the master in the order they were
sent and handles all of them at once, as many as there are. A handler calls what
it was asked to, waits for the lock of the one writer and sends what the call
came to under the id it was given; a message that is no call is answered with an
error. Events of the watchers go out between the answers. The master reads what
is sent in the order it was sent.

The machine is the one of the calls with the client and the two directions of
the socket around it: what the master is fed is what the client has sent, and
that is the only thing the master's own machine leaves to the label. What
`handle_call` comes to is the choice of the label, and so is whether a message
could be sent. A number is read as it was written, which is so for the integers
of 64 bits, and no message is too deep to be read.

Two sums carry everything. What has been called, or is being called, is what was
read; and what was answered is with a handler, on the socket, in the inbox of
the master, fed or lost.
-/

namespace WebSshTool.Rpc.Internal

open Json

/-! ## Messages -/

/-- What `send_request` puts on the socket. -/
def requestText (id : Nat) (key : Text) (argument : Value) : Text :=
  print (requestMessage id key argument)

/-- `handle_request` up to its first await. -/
def readCall (text : Text) : Option (Value × Text × Value) :=
  (parse text).bind clientCall

def responseText (id result : Value) : Text := print (clientResponse id result)

/-- What a message that is no call is answered with. -/
def parseFailed : Text :=
  print (.obj [(ofString "error", .str (ofString "message parse failed"))])

/-- What `poll_event` sends. -/
def eventText (e : Value) : Text := print (.obj [(ofString "event", e)])

/-- A text as the message that is handled; one that does not parse is unknown,
and so is null. -/
def messageOf (text : Text) : Value := (parse text).getD .null

theorem readCall_requestText (id : Nat) (key : Text) (argument : Value) :
    readCall (requestText id key argument) = some (.num id 0, key, argument) := by
  rw [readCall, requestText, parse_print]
  exact clientCall_requestMessage id key argument

/-! ## The parties -/

/-- A call that is over. -/
structure Run where
  id : Value
  key : Text
  argument : Value
  result : Value

inductive Handler where
  /-- In `handle_call`. -/
  | calling (id : Value) (key : Text) (argument : Value)
  /-- In `write.lock().await`, with what it will send. -/
  | answering (text : Text)

structure State where
  master : Rpc.State
  /-- How many messages of the master the client has read. -/
  taken : Nat
  handlers : List Handler
  /-- What the client has sent and the master has not read. -/
  wire : List Text
  /-- The calls that are over. -/
  ran : List Run
  /-- The responses that the master has handled. -/
  fed : List (Value × Value)
  /-- The responses that could not be sent. -/
  lost : List (Value × Value)

inductive Label where
  | master (l : Rpc.Label)
  | read
  /-- A message of the socket that is no text, or an error of its reader. -/
  | noise
  | finish (i : Nat) (result : Value)
  | send (i : Nat) (ok : Bool)
  | event (e : Value)
  | receive

/-- The response that a message is. -/
def responseIn : Incoming → Option (Value × Value)
  | .response id value => some (id, value)
  | .event _ | .unknown => none

def responseIn? (text : Text) : Option (Value × Value) := responseIn (.ofMessage (messageOf text))

namespace Handler

def ofText (text : Text) : Handler :=
  match readCall text with
  | some (id, key, argument) => .calling id key argument
  | none => .answering parseFailed

def call? : Handler → Option (Value × Text × Value)
  | .calling id key argument => some (id, key, argument)
  | .answering _ => none

def response? : Handler → Option (Value × Value)
  | .calling .. => none
  | .answering text => responseIn? text

end Handler

/-- The response that the step handles. -/
def fedBy (m : Rpc.State) : Rpc.Label → Option (Value × Value)
  | .handle i => (m.inbox[i]?).bind responseIn
  | _ => none

def init : State := ⟨.init, 0, [], [], [], [], []⟩

def isReceive : Rpc.Label → Bool
  | .receive _ => true
  | _ => false

/-- Whether handler `i` is in `handle_call`. -/
def isCalling (s : State) (i : Nat) : Bool :=
  match s.handlers[i]? with
  | some (.calling ..) => true
  | _ => false

def isAnswering (s : State) (i : Nat) : Bool :=
  match s.handlers[i]? with
  | some (.answering _) => true
  | _ => false

def enabled (s : State) : Label → Prop
  | .master l => Rpc.enabled s.master l ∧ isReceive l = false
  | .read => s.taken < s.master.written.length
  | .noise | .event _ => True
  | .finish i _ => isCalling s i = true
  | .send i _ => isAnswering s i = true
  | .receive => s.wire ≠ []

instance (s : State) (l : Label) : Decidable (enabled s l) := by
  induction l using Label.casesOn <;> unfold enabled <;> infer_instance

def next (token : Text) (s : State) : Label → State
  | .master l =>
      { s with
        master := Rpc.next token s.master l
        fed := s.fed ++ (fedBy s.master l).toList }
  | .read =>
      match s.master.written[s.taken]? with
      | some (id, key, argument) =>
          { s with
            taken := s.taken + 1
            handlers := s.handlers ++ [.ofText (requestText id key argument)] }
      | none => s
  | .noise => { s with handlers := s.handlers ++ [.answering parseFailed] }
  | .finish i result =>
      match s.handlers[i]? with
      | some (.calling id key argument) =>
          { s with
            handlers := s.handlers.set i (.answering (responseText id result))
            ran := s.ran ++ [⟨id, key, argument, result⟩] }
      | _ => s
  | .send i ok =>
      match s.handlers[i]? with
      | some (.answering text) =>
          bif ok then
            { s with handlers := s.handlers.eraseIdx i, wire := s.wire ++ [text] }
          else
            { s with
              handlers := s.handlers.eraseIdx i
              lost := s.lost ++ (responseIn? text).toList }
      | _ => s
  | .event e => { s with wire := s.wire ++ [eventText e] }
  | .receive =>
      match s.wire with
      | text :: wire =>
          { s with master := Rpc.next token s.master (.receive (messageOf text)), wire }
      | [] => s

def machine (token : Text) : Machine State Label := ⟨init, enabled, next token⟩

instance (token : Text) (s : State) (l : Label) : Decidable ((machine token).enabled s l) :=
  inferInstanceAs (Decidable (enabled s l))

end WebSshTool.Rpc.Internal
