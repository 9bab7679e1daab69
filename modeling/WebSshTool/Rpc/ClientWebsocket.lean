import WebSshTool.Lib.Machine
import WebSshTool.Session.Request

/-!
# Calls to the internal client

Everybody who talks to the internal client of a session shares its
`ClientWebsocket`: the handlers of the browser's requests, the HTTP transfers
and the handlers of the client's own messages. Each call takes the next id
under the lock, leaves its callback under that id and keeps the lock until its
message is sent. Responses are fed under the lock too, in any order and with
any id, and an event keeps the lock while it is forwarded. A disconnect drops
all callbacks at once.

Whether a message could be sent, and what the client answers, is the choice of
the label. Replies to the browser are kept with the call they belong to; the
tags are the browser's own and nothing is assumed about them. A transfer's
handler may be dropped at any await, which is what happens when the connection
it serves is closed.
-/

namespace WebSshTool.Rpc

open Json Session

abbrev CallId := Nat

inductive RequestError where
  | unknownRequest
  | sshConnectNotEstablish
  | internalError
  deriving DecidableEq, Repr

/-- The error as `{:?}` prints it. -/
def RequestError.debug : RequestError → Text
  | .unknownRequest => ofString "UnknownRequest"
  | .sshConnectNotEstablish => ofString "SshConnectNotEstablish"
  | .internalError => ofString "InternalError"

/-! ## `ClientWebsocket` -/

structure ClientWebsocket where
  requestId : Nat
  callbacks : Nat → Option CallId

inductive FeedResponseError where
  | unknownId (id : Value)
  | noRegisteredCallback (id : Nat)

namespace ClientWebsocket

def new : ClientWebsocket := ⟨0, fun _ => none⟩

def nextId (w : ClientWebsocket) : Nat := (w.requestId + 1) % 2 ^ 64

/-- `send_request` up to the message it sends. -/
def register (w : ClientWebsocket) (c : CallId) : ClientWebsocket where
  requestId := w.nextId
  callbacks := Function.update w.callbacks w.nextId (some c)

/-- `send_request` after its message could not be sent. -/
def forget (w : ClientWebsocket) (id : Nat) : ClientWebsocket :=
  { w with callbacks := Function.update w.callbacks id none }

/-- The callback the response goes to. -/
def feedResponse (w : ClientWebsocket) (id : Value) :
    Except FeedResponseError (CallId × ClientWebsocket) :=
  match id.asU64? with
  | some n =>
      match w.callbacks n with
      | some c => .ok (c, w.forget n)
      | none => .error (.noRegisteredCallback n)
  | none => .error (.unknownId id)

def disconnect (w : ClientWebsocket) : ClientWebsocket :=
  { w with callbacks := fun _ => none }

end ClientWebsocket

/-! ## Messages -/

/-- A message of the internal client, as its handler reads it. -/
inductive Incoming where
  | response (id value : Value)
  | event (value : Value)
  | unknown

def Incoming.ofMessage (message : Value) : Incoming :=
  match message.get? (ofString "id"), message.get? (ofString "response") with
  | some id, some value => .response id value
  | _, _ =>
      match message.get? (ofString "event") with
      | some value => .event value
      | none => .unknown

def responseOf : Except RequestError Value → Value
  | .ok value => value
  | .error e => .obj [(ofString "error", .str (ofString "internal error: " ++ e.debug))]

/-- What the browser is sent back. -/
def replyMessage (tag : Option Value) (result : Except RequestError Value) : Value :=
  .obj [(ofString "tag", tag.getD .null), (ofString "response", responseOf result)]

/-- What the browser is sent back where its message was no request. -/
def formatError : Value :=
  .obj [(ofString "error", .str (ofString "message format error"))]

/-- What `send_request` sends. -/
def requestMessage (id : Nat) (key : Text) (argument : Value) : Value :=
  .obj [(ofString "id", .num id 0), (ofString "request", .obj [(key, argument)])]

/-- `handle_request` of the internal client: the id it echoes and what it calls. -/
def clientCall (message : Value) : Option (Value × Text × Value) :=
  match message.get? (ofString "id"), message.get? (ofString "request") with
  | some id, some (.obj members) =>
      (Value.obj members).entries.head?.map fun member => (id, member.1, member.2)
  | _, _ => none

def clientResponse (id result : Value) : Value :=
  .obj [(ofString "id", id), (ofString "response", result)]

/-- The client calls what it was asked to, and its answer comes back under the id
the call was sent with. -/
theorem clientCall_requestMessage (id : Nat) (key : Text) (argument : Value) :
    clientCall (requestMessage id key argument) = some (.num id 0, key, argument) := by
  have hid : ofString "request" ≠ ofString "id" := by decide
  simp [clientCall, requestMessage, Value.get?, Value.entries, insertMember, hid]

theorem ofMessage_clientResponse (id result : Value) :
    Incoming.ofMessage (clientResponse id result) = .response id result := by
  have hid : ofString "response" ≠ ofString "id" := by decide
  simp [Incoming.ofMessage, clientResponse, Value.get?, hid]

theorem asU64?_id {id : Nat} (h : id < 2 ^ 64) : Value.asU64? (.num id 0) = some id := by
  rw [Value.asU64?, if_pos ⟨rfl, Int.natCast_nonneg id, by omega⟩, Int.toNat_natCast]

/-! ## The parties -/

inductive Origin where
  /-- A handler of a browser message: its members "tag" and "request". -/
  | browser (tag request : Option Value)
  /-- An HTTP transfer, with what stands under "internal" in its call. -/
  | transfer (argument : Value)

inductive Phase where
  | idle
  /-- In `client_connection.lock().await`. -/
  | locking (key : Text) (argument : Value)
  /-- In `send_request`. -/
  | sending (id : Nat) (key : Text) (argument : Value)
  /-- In `rx.await`. -/
  | awaiting (id : Nat)
  /-- In `shell::handle_request`. -/
  | shell
  | resolved (result : Except RequestError Value)
  | replied
  | dropped

structure Call where
  origin : Origin
  phase : Phase
  /-- What its callback was given. -/
  received : List Value

inductive Holder where
  | call (c : CallId)
  /-- A handler that forwards an event. -/
  | event
  | disconnect
  deriving DecidableEq, Repr

structure State where
  socket : ClientWebsocket
  /-- The owner of the lock of `socket`. -/
  holder : Option Holder
  /-- `disconnect` has closed the stream. -/
  closed : Bool
  calls : CallId → Call
  /-- The ids that were taken, each with its call. -/
  issued : List (Nat × CallId)
  /-- What the internal client was sent. -/
  written : List (Nat × Text × Value)
  /-- Its messages whose handlers wait for the lock. -/
  inbox : List Incoming
  replies : List (CallId × Value)

inductive Label where
  | browser (c : CallId) (tag request : Option Value)
  | transfer (c : CallId) (argument : Value)
  | acquire (c : CallId)
  | sent (c : CallId) (ok : Bool)
  | resolve (c : CallId)
  | cancel (c : CallId)
  | shellDone (c : CallId) (ok : Bool)
  | reply (c : CallId)
  | drop (c : CallId) (buffered : Bool)
  | receive (message : Value)
  | handle (i : Nat)
  | forward
  | forwarded
  | disconnect
  | disconnected

namespace Phase

def isIdle : Phase → Bool
  | .idle => true
  | _ => false

def isLocking : Phase → Bool
  | .locking .. => true
  | _ => false

def isSending : Phase → Bool
  | .sending .. => true
  | _ => false

def isAwaiting : Phase → Bool
  | .awaiting _ => true
  | _ => false

def isShell : Phase → Bool
  | .shell => true
  | _ => false

def isResolved : Phase → Bool
  | .resolved _ => true
  | _ => false

theorem eq_idle {p : Phase} (h : p.isIdle = true) : p = .idle := by
  cases p with
  | idle => rfl
  | _ => simp [isIdle] at h

theorem eq_locking {p : Phase} (h : p.isLocking = true) :
    ∃ key argument, p = .locking key argument := by
  cases p with
  | locking key argument => exact ⟨key, argument, rfl⟩
  | _ => simp [isLocking] at h

theorem eq_sending {p : Phase} (h : p.isSending = true) :
    ∃ id key argument, p = .sending id key argument := by
  cases p with
  | sending id key argument => exact ⟨id, key, argument, rfl⟩
  | _ => simp [isSending] at h

theorem eq_awaiting {p : Phase} (h : p.isAwaiting = true) : ∃ id, p = .awaiting id := by
  cases p with
  | awaiting id => exact ⟨id, rfl⟩
  | _ => simp [isAwaiting] at h

theorem eq_resolved {p : Phase} (h : p.isResolved = true) :
    ∃ result, p = .resolved result := by
  cases p with
  | resolved result => exact ⟨result, rfl⟩
  | _ => simp [isResolved] at h

theorem eq_shell {p : Phase} (h : p.isShell = true) : p = .shell := by
  cases p with
  | shell => rfl
  | _ => simp [isShell] at h

/-- How `build_response` begins. -/
def ofRequest (token : Text) (request : Option Value) : Phase :=
  match Session.Call.ofRequest request with
  | .shell _ => .shell
  | .token => .resolved (.ok (.str token))
  | .forward key argument => .locking key argument
  | .unknown => .resolved (.error .unknownRequest)

end Phase

theorem ofRequest_ne_replied {token : Text} (request : Option Value) :
    Phase.ofRequest token request ≠ .replied := by
  unfold Phase.ofRequest
  split <;> simp

def Origin.isBrowser : Origin → Bool
  | .browser .. => true
  | .transfer _ => false

namespace State

def init : State where
  socket := .new
  holder := none
  closed := false
  calls _ := ⟨.transfer .null, .idle, []⟩
  issued := []
  written := []
  inbox := []
  replies := []

def phase (s : State) (c : CallId) : Phase := (s.calls c).phase

def setCall (s : State) (c : CallId) (call : Call) : State :=
  { s with calls := Function.update s.calls c call }

theorem setCall_self (s : State) (c : CallId) (call : Call) : (s.setCall c call).calls c = call :=
  Function.update_self ..

theorem setCall_of_ne (s : State) {c d : CallId} (call : Call) (h : d ≠ c) :
    (s.setCall c call).calls d = s.calls d :=
  Function.update_of_ne h ..

def setPhase (s : State) (c : CallId) (p : Phase) : State :=
  s.setCall c { s.calls c with phase := p }

/-- The sender of the call's callback is gone and has sent nothing. -/
def orphaned (s : State) (c : CallId) : Bool :=
  match s.phase c with
  | .awaiting id => (s.calls c).received.isEmpty && s.socket.callbacks id != some c
  | _ => false

theorem awaiting_of_orphaned {s : State} {c : CallId} (h : s.orphaned c = true) :
    ∃ id, s.phase c = .awaiting id := by
  unfold orphaned at h
  split at h
  · next id hphase => exact ⟨id, hphase⟩
  · simp at h

/-- A handler of the internal client's messages has got the lock. -/
def handle (s : State) : Incoming → State
  | .response id value =>
      match s.socket.feedResponse id with
      | .ok (c, socket) =>
          { s with socket }.setCall c
            { s.calls c with received := (s.calls c).received ++ [value] }
      | .error _ => s
  | .event _ => { s with holder := some .event }
  | .unknown => s

end State

/-! ## The machine -/

def enabled (s : State) : Label → Prop
  | .browser c _ _ | .transfer c _ => (s.phase c).isIdle = true
  | .acquire c => (s.phase c).isLocking = true ∧ s.holder = none
  | .sent c ok => (s.phase c).isSending = true ∧ (ok = true → s.closed = false)
  | .resolve c => (s.phase c).isAwaiting = true ∧ (s.calls c).received.isEmpty = false
  | .cancel c => s.orphaned c = true
  | .shellDone c _ => (s.phase c).isShell = true
  | .reply c => (s.phase c).isResolved = true ∧ (s.calls c).origin.isBrowser = true
  | .drop c _ =>
      (s.calls c).origin.isBrowser = false ∧
        ((s.phase c).isLocking = true ∨ (s.phase c).isAwaiting = true ∨
          -- a closed stream refuses the message at once
          (s.phase c).isSending = true ∧ s.closed = false)
  | .receive _ => True
  | .handle i => i < s.inbox.length ∧ s.holder = none
  | .forward | .disconnect => s.holder = none
  | .forwarded => s.holder = some .event
  | .disconnected => s.holder = some .disconnect

instance (s : State) (l : Label) : Decidable (enabled s l) := by
  cases l <;> unfold enabled <;> infer_instance

def next (token : Text) (s : State) : Label → State
  | .browser c tag request =>
      s.setCall c ⟨.browser tag request, .ofRequest token request, []⟩
  | .transfer c argument =>
      s.setCall c ⟨.transfer argument, .locking (ofString "internal") argument, []⟩
  | .acquire c =>
      match s.phase c with
      | .locking key argument =>
          { s.setPhase c (.sending s.socket.nextId key argument) with
            socket := s.socket.register c
            holder := some (.call c)
            issued := s.issued ++ [(s.socket.nextId, c)] }
      | _ => s
  | .sent c ok =>
      match s.phase c with
      | .sending id key argument =>
          bif ok then
            { s.setPhase c (.awaiting id) with
              holder := none
              written := s.written ++ [(id, key, argument)] }
          else
            { s.setPhase c (.resolved (.error .sshConnectNotEstablish)) with
              holder := none
              socket := s.socket.forget id }
      | _ => s
  | .resolve c =>
      match (s.calls c).received.head? with
      | some value => s.setPhase c (.resolved (.ok value))
      | none => s
  | .cancel c => s.setPhase c (.resolved (.error .internalError))
  | .shellDone c ok =>
      s.setPhase c (.resolved (bif ok then .ok .null else .error .internalError))
  | .reply c =>
      match (s.calls c).origin, s.phase c with
      | .browser tag _, .resolved result =>
          { s.setPhase c .replied with
            replies := s.replies ++ [(c, replyMessage tag result)] }
      | _, _ => s
  | .drop c buffered =>
      { s.setPhase c .dropped with
        holder := if s.holder = some (.call c) then none else s.holder
        written := match s.phase c, buffered with
          -- what is in the buffer of the stream goes out with the next message
          | .sending id key argument, true => s.written ++ [(id, key, argument)]
          | _, _ => s.written }
  | .receive message => { s with inbox := s.inbox ++ [.ofMessage message] }
  | .handle i =>
      match s.inbox[i]? with
      | some incoming => { s with inbox := s.inbox.eraseIdx i }.handle incoming
      | none => s
  | .forward => { s with holder := some .event }
  | .forwarded => { s with holder := none }
  | .disconnect => { s with holder := some .disconnect }
  | .disconnected =>
      { s with holder := none, closed := true, socket := s.socket.disconnect }

def machine (token : Text) : Machine State Label := ⟨State.init, enabled, next token⟩

instance (token : Text) (s : State) (l : Label) : Decidable ((machine token).enabled s l) :=
  inferInstanceAs (Decidable (enabled s l))

end WebSshTool.Rpc
