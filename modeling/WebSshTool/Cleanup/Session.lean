import WebSshTool.Rpc.ClientWebsocket
import WebSshTool.Rpc.Transfers

/-!
# One session, from its sign-in to its end

The calls of `Rpc.machine` with everybody who makes them: the handler of the
browser's websocket, which inserts the peer, sends the token, serves requests
and removes the peer again; `poll_event`, which sends events on to the browser;
`on_client`, which reads the internal client's websocket; the HTTP transfers
and the PUT requests that share the peer's `ClientHttp`.

A websocket has ended when its stream gives no more messages. That may happen
at any moment, and a message may still be sent or fail to be sent afterwards,
as the label has it. The other sessions are left out: whoever else has the lock
of `websocket_peers` gives it back. Whether a request of a shell is ever answered
is up to SSH and the shell's other tasks, and no step of the handler that waits.
-/

namespace WebSshTool.Cleanup

open Json Rpc

/-! ## The parties -/

/-- The handler of the browser's websocket, once the internal client is there. -/
inductive BrowserPhase where
  /-- Has the lock of `websocket_peers` and is to insert the peer. -/
  | inserting
  /-- Sends the token. -/
  | replying
  /-- In `on_authenticate::handle_request`. -/
  | serving
  /-- In `peer_map.lock().await`. -/
  | leaving
  /-- In `disconnect`, with the lock of `websocket_peers`. -/
  | disconnecting
  | gone
  deriving DecidableEq, Repr

/-- The receiver of the event channel. -/
inductive Receiver where
  /-- With the handler of the browser's websocket, which does not poll it. -/
  | kept
  /-- In `event_channel.next().await`. -/
  | polling
  /-- `poll_event` sends an event to the browser. -/
  | sending
  | dropped
  deriving DecidableEq, Repr

/-- The handler of an HTTP transfer. Its call to the internal client is the call
of the same number. -/
inductive HttpPhase where
  | idle
  | lookup (apiCall : Value)
  | registering (apiCall : Value)
  | calling (id : Nat)
  | cancelling (id : Nat)
  | waiting (id : Nat)
  | finished

structure Session where
  rpc : Rpc.State
  browser : BrowserPhase
  browserEnded : Bool
  /-- The handlers of `for_each_concurrent` of the browser's stream. -/
  serving : List CallId
  receiver : Receiver
  clientEnded : Bool
  /-- `on_client` has come to its end. -/
  clientDone : Bool
  /-- The event that is forwarded came from the internal client. -/
  clientEvent : Bool
  /-- `websocket_peers` has the token. -/
  inMap : Bool
  http : ClientHttp
  /-- `disconnect` has cleared the queue of `http`. -/
  cleared : Bool
  transfers : TransferId → HttpPhase
  /-- The PUT requests that have looked up the peer, with the id they feed. -/
  puts : PutId → Option Nat

inductive SessionLabel where
  | rpc (l : Rpc.Label)
  | insert
  | tokenReply (ok : Bool)
  | eventSent (ok : Bool)
  | pollDone
  | browserEnds
  | drained
  | leave
  | clear
  | left
  | clientEnds
  | clientDone
  | request (t : TransferId) (apiCall : Value)
  | lookup (t : TransferId)
  | register (t : TransferId)
  | settle (t : TransferId)
  | cancel (t : TransferId)
  | receive (t : TransferId)
  | drop (t : TransferId)
  | put (u : PutId) (id : Nat)
  | feed (u : PutId)

/-- A step of a task of the server, which nothing from outside has to bring about:
no new request or message, no end of a websocket, no closed connection and no end
of what a handler waits for in `shell::handle_request`. -/
def SessionLabel.isTask : SessionLabel → Bool
  | .rpc (.browser ..) | .rpc (.transfer ..) | .rpc (.shellDone ..) | .rpc (.receive _)
  | .rpc .forward | .rpc (.drop ..) => false
  | .browserEnds | .clientEnds | .request .. | .drop _ | .put .. => false
  | _ => true

namespace HttpPhase

def isIdle : HttpPhase → Bool
  | .idle => true
  | _ => false

def isLookup : HttpPhase → Bool
  | .lookup _ => true
  | _ => false

def isRegistering : HttpPhase → Bool
  | .registering _ => true
  | _ => false

def isCalling : HttpPhase → Bool
  | .calling _ => true
  | _ => false

def isCancelling : HttpPhase → Bool
  | .cancelling _ => true
  | _ => false

def isFinished : HttpPhase → Bool
  | .finished => true
  | _ => false

end HttpPhase

namespace Session

def init : Session where
  rpc := .init
  browser := .inserting
  browserEnded := false
  serving := []
  receiver := .kept
  clientEnded := false
  clientDone := false
  clientEvent := false
  inMap := false
  http := .new
  cleared := false
  transfers _ := .idle
  puts _ := none

def setTransfer (s : Session) (t : TransferId) (phase : HttpPhase) : Session :=
  { s with transfers := Function.update s.transfers t phase }

/-- The lock of `websocket_peers` is free. -/
def peersFree (s : Session) : Bool :=
  s.browser != .inserting && s.browser != .disconnecting

/-- The sender of the registration has sent, or is gone. -/
def released (s : Session) (t : TransferId) : Bool :=
  match s.transfers t with
  | .waiting id => s.http.queue id != some t
  | _ => false

/-- The handler of the transfer is at an await of its own. -/
def canDrop (s : Session) (t : TransferId) : Bool :=
  match s.transfers t with
  | .idle | .finished => false
  | .calling _ => (s.rpc.phase t).isResolved
  | _ => true

/-! ## The machine -/

/-- What the session adds to the guard of a step of the websocket. -/
def admits (s : Session) : Rpc.Label → Prop
  | .browser c _ _ =>
      s.browser = .serving ∧ s.browserEnded = false ∧ s.serving.length < 16 ∧
        (s.transfers c).isIdle = true
  -- a transfer begins its call by `register`
  | .transfer .. => False
  | .receive _ => s.clientEnded = false
  -- only `poll_channel` has events besides those of the internal client
  | .forward => s.receiver ≠ .kept
  | .forwarded =>
      s.receiver = .polling ∨ s.receiver = .dropped ∨ s.rpc.closed = true
  | .disconnect => s.browser = .disconnecting ∧ s.rpc.closed = false
  | .drop c _ => (s.transfers c).isCalling = true
  | _ => True

instance (s : Session) (l : Rpc.Label) : Decidable (s.admits l) := by
  induction l using Rpc.Label.casesOn <;> unfold admits <;> infer_instance

/-- The session's side of a step of the websocket. -/
def follow (token : Text) (s : Session) (l : Rpc.Label) : Session :=
  { s with
    rpc := Rpc.next token s.rpc l
    serving := match l with
      | .browser c _ _ => c :: s.serving
      | .reply c => s.serving.erase c
      | _ => s.serving
    receiver := match l, s.receiver with
      -- a closed channel takes no event
      | .forwarded, .polling => bif s.rpc.closed then .polling else .sending
      | _, receiver => receiver
    clientEvent := match l with
      | .handle _ => true
      | .forward => false
      | _ => s.clientEvent
    transfers := match l with
      | .drop c _ => Function.update s.transfers c .finished
      | _ => s.transfers }

def enabled (s : Session) : SessionLabel → Prop
  | .rpc l => Rpc.enabled s.rpc l ∧ s.admits l
  | .insert => s.browser = .inserting
  | .tokenReply _ => s.browser = .replying
  | .eventSent _ => s.receiver = .sending
  | .pollDone => s.receiver = .polling ∧ s.rpc.closed = true
  | .browserEnds => s.browserEnded = false
  | .drained => s.browser = .serving ∧ s.browserEnded = true ∧ s.serving = []
  | .leave => s.browser = .leaving
  | .clear => s.browser = .disconnecting ∧ s.cleared = false
  | .left => s.browser = .disconnecting ∧ s.rpc.closed = true ∧ s.cleared = true
  | .clientEnds => s.clientEnded = false
  | .clientDone =>
      s.clientEnded = true ∧ s.clientDone = false ∧ s.rpc.inbox.isEmpty = true ∧
        (s.rpc.holder = some .event → s.clientEvent = false)
  | .request t _ => (s.transfers t).isIdle = true ∧ (s.rpc.phase t).isIdle = true
  | .lookup t => (s.transfers t).isLookup = true ∧ s.peersFree = true
  | .register t => (s.transfers t).isRegistering = true
  | .settle t => (s.transfers t).isCalling = true ∧ (s.rpc.phase t).isResolved = true
  | .cancel t => (s.transfers t).isCancelling = true
  | .receive t => s.released t = true
  | .drop t => s.canDrop t = true
  | .put u _ => s.puts u = none ∧ s.inMap = true ∧ s.peersFree = true
  | .feed u => (s.puts u).isSome = true

instance (s : Session) (l : SessionLabel) : Decidable (s.enabled l) := by
  cases l <;> unfold enabled <;> infer_instance

def next (token : Text) (s : Session) : SessionLabel → Session
  | .rpc l => s.follow token l
  | .insert => { s with browser := .replying, inMap := true }
  | .tokenReply ok =>
      bif ok then { s with browser := .serving, receiver := .polling }
      else { s with browser := .leaving }
  | .eventSent ok => { s with receiver := bif ok then .polling else .dropped }
  | .pollDone => { s with receiver := .dropped }
  | .browserEnds => { s with browserEnded := true }
  | .drained => { s with browser := .leaving }
  | .leave => { s with browser := .disconnecting, inMap := false }
  | .clear => { s with cleared := true, http := s.http.disconnect }
  | .left =>
      { s with
        browser := .gone
        receiver := if s.receiver = .kept then .dropped else s.receiver }
  | .clientEnds => { s with clientEnded := true }
  | .clientDone => { s with clientDone := true }
  | .request t apiCall => s.setTransfer t (.lookup apiCall)
  | .lookup t =>
      match s.transfers t with
      | .lookup apiCall => s.setTransfer t (bif s.inMap then .registering apiCall else .finished)
      | _ => s
  | .register t =>
      match s.transfers t with
      | .registering apiCall =>
          { s.setTransfer t (.calling s.http.requestId) with
            http := s.http.register t
            rpc := Rpc.next token s.rpc
              (.transfer t (internalCall s.http.requestId apiCall).2) }
      | _ => s
  | .settle t =>
      match s.transfers t, s.rpc.phase t with
      | .calling id, .resolved (.ok value) =>
          s.setTransfer t (bif value.isNull then .waiting id else .cancelling id)
      | .calling id, .resolved (.error _) => s.setTransfer t (.cancelling id)
      | _, _ => s
  | .cancel t =>
      match s.transfers t with
      | .cancelling id => { s.setTransfer t .finished with http := s.http.remove id }
      | _ => s
  | .receive t | .drop t => s.setTransfer t .finished
  | .put u id => { s with puts := Function.update s.puts u (some id) }
  | .feed u =>
      match s.puts u with
      | some id => { s with http := s.http.remove id, puts := Function.update s.puts u none }
      | none => s

def machine (token : Text) : Machine Session SessionLabel := ⟨init, enabled, next token⟩

instance (token : Text) (s : Session) (l : SessionLabel) :
    Decidable ((machine token).enabled s l) :=
  inferInstanceAs (Decidable (s.enabled l))

end Session

end WebSshTool.Cleanup
