import WebSshTool.Lib.Machine
import WebSshTool.Session.Request

/-!
# HTTP transfers

The server's side of a transfer: a browser's request with a token in its query
looks up the peer, registers in the peer's `ClientHttp`, calls the internal
client with the id it got and waits for the reply, and then for the PUT request
that the internal client sends to "/client" with that id. PUT requests come
from anywhere with any headers, peers sign in and leave, and the lock of
`websocket_peers` is kept for as long as a leaving peer takes to disconnect.

A call is reduced to what a transfer sees of it: its message is sent or not, a
reply is given to its callback, or a disconnect drops the callback. Which reply
a callback gets is the choice of the label. A handler may be dropped at any
await, when its connection is closed.
-/

namespace WebSshTool.Rpc

open Json Session

abbrev PeerId := Nat
abbrev TransferId := Nat
abbrev PutId := Nat

/-! ## `ClientHttp` -/

structure ClientHttp where
  requestId : Nat
  queue : Nat → Option TransferId

namespace ClientHttp

def new : ClientHttp := ⟨0, fun _ => none⟩

/-- The id a registration gets is the `requestId` before it. -/
def register (q : ClientHttp) (t : TransferId) : ClientHttp where
  requestId := (q.requestId + 1) % 2 ^ 64
  queue := Function.update q.queue q.requestId (some t)

/-- `cancel_register`, and what `feed` leaves. -/
def remove (q : ClientHttp) (id : Nat) : ClientHttp :=
  { q with queue := Function.update q.queue id none }

def disconnect (q : ClientHttp) : ClientHttp := { q with queue := fun _ => none }

end ClientHttp

/-- `str::parse::<u64>`. -/
def parseU64 (text : Text) : Option Nat :=
  let digits := if text.head? = some plus then text.tail else text
  let n := digits.foldl (fun n d => n * 10 + (d - 0x30)) 0
  if digits ≠ [] ∧ digits.all isDigit = true ∧ n < 2 ^ 64 then some n else none

/-! ## The parties -/

inductive ConnectionError where
  | lostInternalClientConnection
  | internalClientRejectConnection
  | unknown
  deriving DecidableEq, Repr

inductive TransferPhase where
  | idle
  /-- In `peer_map.lock().await`. -/
  | lookup (token : Text) (apiCall : Value)
  /-- Has the peer's queue and connection and is to register. -/
  | registering (peer : PeerId) (apiCall : Value)
  /-- In `send_request`, or in the lock before it. -/
  | calling (peer : PeerId) (id : Nat) (apiCall : Value)
  /-- In the first `rx.await`. -/
  | awaiting (peer : PeerId) (id : Nat)
  /-- Is to take its registration back. -/
  | cancelling (peer : PeerId) (id : Nat) (error : ConnectionError)
  /-- In the second `rx.await`. -/
  | waiting (peer : PeerId) (id : Nat)
  | finished (result : Except ConnectionError PutId)
  /-- Its token named no peer. -/
  | notFound
  | dropped

structure Transfer where
  phase : TransferPhase
  registered : Option (PeerId × Nat)
  /-- Its call has gone out to the internal client. -/
  called : Bool
  /-- What the callback of its call was given. -/
  reply : Option Value
  /-- The PUT request its registration was fed. -/
  handed : Option PutId

inductive PutPhase where
  | idle
  | lookup
  | feeding (peer : PeerId) (id : Nat)
  | responded
  deriving DecidableEq, Repr

def PutPhase.isFeeding : PutPhase → Bool
  | .feeding .. => true
  | _ => false

structure Put where
  phase : PutPhase
  loopback : Bool
  /-- Its headers. -/
  peer : Option Text
  id : Option Text
  /-- The call it was sent for, where the internal client of that call sent it. -/
  source : Option TransferId
  /-- The registration it was fed to, where its headers named a peer. -/
  target : Option (PeerId × Nat)

inductive PeerPhase where
  | absent
  | live
  /-- In `disconnect`, with the lock of `websocket_peers`. -/
  | disconnecting
  | gone
  deriving DecidableEq, Repr

structure Peer where
  token : Text
  phase : PeerPhase
  http : ClientHttp
  /-- How many transfers have registered. -/
  registrations : Nat
  /-- The two halves of `disconnect`. -/
  closed : Bool
  cleared : Bool
  /-- The calls that went out to its internal client. -/
  written : List (Text × Value)

structure Server where
  /-- `websocket_peers`. -/
  tokens : Text → Option PeerId
  /-- The peer that has its lock. -/
  peersHeld : Option PeerId
  peers : PeerId → Peer
  transfers : TransferId → Transfer
  puts : PutId → Put

inductive ServerLabel where
  | signIn (p : PeerId) (token : Text)
  | leave (p : PeerId)
  | close (p : PeerId)
  | clear (p : PeerId)
  | left (p : PeerId)
  | browser (p : PeerId) (request : Option Value)
  | request (t : TransferId) (token : Text) (apiCall : Value)
  | lookup (t : TransferId)
  | register (t : TransferId)
  | sent (t : TransferId) (ok : Bool)
  | reply (t : TransferId) (value : Value)
  | resume (t : TransferId)
  | canceled (t : TransferId)
  | cancel (t : TransferId)
  | receive (t : TransferId)
  | drop (t : TransferId) (buffered : Bool)
  | put (u : PutId) (loopback : Bool) (peer id : Option Text) (source : Option TransferId)
  | putLookup (u : PutId)
  | feed (u : PutId)

/-- What a transfer calls. -/
def internalCall (id : Nat) (apiCall : Value) : Text × Value :=
  (ofString "internal", .arr [.num id 0, apiCall])

namespace TransferPhase

/-- The handler is gone, and the receiver of its registration with it. -/
def isOver : TransferPhase → Bool
  | .finished _ | .notFound | .dropped => true
  | _ => false

def isIdle : TransferPhase → Bool
  | .idle => true
  | _ => false

end TransferPhase

namespace Server

def init : Server where
  tokens _ := none
  peersHeld := none
  peers _ := ⟨[], .absent, .new, 0, false, false, []⟩
  transfers _ := ⟨.idle, none, false, none, none⟩
  puts _ := ⟨.idle, false, none, none, none, none⟩

def phase (s : Server) (t : TransferId) : TransferPhase := (s.transfers t).phase

def setPeer (s : Server) (p : PeerId) (peer : Peer) : Server :=
  { s with peers := Function.update s.peers p peer }

def setTransfer (s : Server) (t : TransferId) (transfer : Transfer) : Server :=
  { s with transfers := Function.update s.transfers t transfer }

def setPhase (s : Server) (t : TransferId) (phase : TransferPhase) : Server :=
  s.setTransfer t { s.transfers t with phase }

def setPut (s : Server) (u : PutId) (put : Put) : Server :=
  { s with puts := Function.update s.puts u put }

def setHttp (s : Server) (p : PeerId) (http : ClientHttp) : Server :=
  s.setPeer p { s.peers p with http }

def write (s : Server) (p : PeerId) (call : Text × Value) : Server :=
  s.setPeer p { s.peers p with written := (s.peers p).written ++ [call] }

/-- The PUT request that names a call: from loopback, with the token and the id. -/
def names (s : Server) (loopback : Bool) (peer id : Option Text) (t : TransferId) : Bool :=
  match (s.transfers t).registered with
  | some (p, n) =>
      (s.transfers t).called && loopback && peer == some (s.peers p).token &&
        id.bind parseU64 == some n
  | none => false

/-- `peer_map.get(peer)`, and `id.parse()`. -/
def lookUp (s : Server) (put : Put) : Put :=
  match put.peer.bind s.tokens, put.id.bind parseU64 with
  | some p, some id => { put with phase := .feeding p id, target := some (p, id) }
  | _, _ => { put with phase := .responded }

/-- `feed`: the entry goes, and its transfer gets the request if it still waits. -/
def feed (s : Server) (u : PutId) (p : PeerId) (id : Nat) : Server :=
  match (s.peers p).http.queue id with
  | some t =>
      (s.setHttp p ((s.peers p).http.remove id)).setTransfer t
        { s.transfers t with
          handed := if (s.phase t).isOver then (s.transfers t).handed else some u }
  | none => s

end Server

/-! ## The machine -/

namespace Server

/-- The handler of transfer `t` can take this step. -/
def ready (s : Server) (t : TransferId) (l : ServerLabel) : Bool :=
  match l, s.phase t with
  | .request .., .idle => true
  | .lookup _, .lookup .. => s.peersHeld.isNone
  | .register _, .registering .. => true
  | .sent _ ok, .calling p _ _ => !ok || !(s.peers p).closed
  | .reply _ _, .awaiting p _ => !(s.peers p).closed && (s.transfers t).reply.isNone
  | .resume _, .awaiting .. => (s.transfers t).reply.isSome
  | .canceled _, .awaiting p _ => (s.peers p).closed && (s.transfers t).reply.isNone
  | .cancel _, .cancelling .. => true
  -- the sender of the registration has sent, or is gone
  | .receive _, .waiting p id =>
      (s.transfers t).handed.isSome || (s.peers p).http.queue id != some t
  | .drop .., phase => !phase.isIdle && !phase.isOver
  | _, _ => false

def enabled (s : Server) : ServerLabel → Prop
  | .signIn p token =>
      (s.peers p).phase = .absent ∧ s.tokens token = none ∧ s.peersHeld = none
  | .leave p =>
      (s.peers p).phase = .live ∧ s.tokens (s.peers p).token = some p ∧ s.peersHeld = none
  | .close p => (s.peers p).phase = .disconnecting ∧ (s.peers p).closed = false
  | .clear p => (s.peers p).phase = .disconnecting ∧ (s.peers p).cleared = false
  | .left p =>
      (s.peers p).phase = .disconnecting ∧ (s.peers p).closed = true ∧
        (s.peers p).cleared = true
  | .browser p _ => (s.peers p).phase = .live
  | .put u loopback peer id source =>
      (s.puts u).phase = .idle ∧ ∀ t ∈ source, s.names loopback peer id t = true
  | .putLookup u => (s.puts u).phase = .lookup ∧ s.peersHeld = none
  | .feed u => (s.puts u).phase.isFeeding = true
  | .request t token apiCall => s.ready t (.request t token apiCall) = true
  | .lookup t => s.ready t (.lookup t) = true
  | .register t => s.ready t (.register t) = true
  | .sent t ok => s.ready t (.sent t ok) = true
  | .reply t value => s.ready t (.reply t value) = true
  | .resume t => s.ready t (.resume t) = true
  | .canceled t => s.ready t (.canceled t) = true
  | .cancel t => s.ready t (.cancel t) = true
  | .receive t => s.ready t (.receive t) = true
  | .drop t buffered => s.ready t (.drop t buffered) = true

instance (s : Server) (l : ServerLabel) : Decidable (s.enabled l) := by
  cases l <;> unfold enabled <;> infer_instance

def next (s : Server) : ServerLabel → Server
  | .signIn p token =>
      { s with
        tokens := Function.update s.tokens token (some p)
        peers := Function.update s.peers p ⟨token, .live, .new, 0, false, false, []⟩ }
  | .leave p =>
      { s.setPeer p { s.peers p with phase := .disconnecting } with
        tokens := Function.update s.tokens (s.peers p).token none
        peersHeld := some p }
  | .close p => s.setPeer p { s.peers p with closed := true }
  | .clear p =>
      s.setPeer p { s.peers p with cleared := true, http := (s.peers p).http.disconnect }
  | .left p =>
      { s.setPeer p { s.peers p with phase := .gone } with peersHeld := none }
  | .browser p request =>
      match Session.Call.ofRequest request with
      | .forward key argument => s.write p (key, argument)
      | _ => s
  | .request t token apiCall => s.setPhase t (.lookup token apiCall)
  | .lookup t =>
      match s.phase t with
      | .lookup token apiCall =>
          match s.tokens token with
          | some p => s.setPhase t (.registering p apiCall)
          | none => s.setPhase t .notFound
      | _ => s
  | .register t =>
      match s.phase t with
      | .registering p apiCall =>
          (s.setPeer p { s.peers p with
            http := (s.peers p).http.register t
            registrations := (s.peers p).registrations + 1 }).setTransfer t
              { s.transfers t with
                phase := .calling p (s.peers p).http.requestId apiCall
                registered := some (p, (s.peers p).http.requestId) }
      | _ => s
  | .sent t ok =>
      match s.phase t with
      | .calling p id apiCall =>
          bif ok then
            (s.write p (internalCall id apiCall)).setTransfer t
              { s.transfers t with phase := .awaiting p id, called := true }
          else s.setPhase t (.cancelling p id .lostInternalClientConnection)
      | _ => s
  | .reply t value => s.setTransfer t { s.transfers t with reply := some value }
  | .resume t =>
      match s.phase t, (s.transfers t).reply with
      | .awaiting p id, some value =>
          if value.isNull then s.setPhase t (.waiting p id)
          else s.setPhase t (.cancelling p id .internalClientRejectConnection)
      | _, _ => s
  | .canceled t =>
      match s.phase t with
      | .awaiting p id => s.setPhase t (.cancelling p id .internalClientRejectConnection)
      | _ => s
  | .cancel t =>
      match s.phase t with
      | .cancelling p id error =>
          (s.setHttp p ((s.peers p).http.remove id)).setPhase t (.finished (.error error))
      | _ => s
  | .receive t =>
      match (s.transfers t).handed with
      | some u => s.setPhase t (.finished (.ok u))
      | none => s.setPhase t (.finished (.error .unknown))
  | .drop t buffered =>
      match s.phase t, buffered with
      -- what is in the buffer of the stream goes out with the next message
      | .calling p id apiCall, true =>
          if (s.peers p).closed then s.setPhase t .dropped
          else (s.write p (internalCall id apiCall)).setTransfer t
            { s.transfers t with phase := .dropped, called := true }
      | _, _ => s.setPhase t .dropped
  | .put u loopback peer id source =>
      s.setPut u
        { phase := if loopback && peer.isSome && id.isSome then .lookup else .responded
          loopback, peer, id, source
          target := none }
  | .putLookup u => s.setPut u (s.lookUp (s.puts u))
  | .feed u =>
      match (s.puts u).phase with
      | .feeding p id => (s.feed u p id).setPut u { s.puts u with phase := .responded }
      | _ => s

def machine : Machine Server ServerLabel := ⟨init, enabled, next⟩

instance (s : Server) (l : ServerLabel) : Decidable (machine.enabled s l) :=
  inferInstanceAs (Decidable (s.enabled l))

end Server

end WebSshTool.Rpc
