import WebSshTool.Lib.Machine

/-!
# Handing a token over to the internal client

After the password is accepted, `on_request_authenticate::handle_request`
draws a token, parks a oneshot sender for it in `suspended_clients`, starts
the internal client over ssh and waits at most five seconds for it to call
back. `on_client::handle_request` is the other half: a websocket that names
the token takes the parked sender and hands its connection over. Two maps of
`AppContext` carry the exchange, each behind its own `futures::lock::Mutex`,
and this file is the machine of the tasks that lock them.

What a step is follows the `await` points. `futures::join!` polls both lock
futures and keeps a guard it has already got, so an attempt in `locking`
remembers the two guards separately. Code between two awaits that runs under
the guards it needs is one step. The oneshot's receiver lives in the
`Timeout` future, so it is gone as soon as the five seconds are over; a value
sent just before that is dropped with it. Its sender is taken out of the map
either by a handler that goes on to send, or by the attempt that has already
given up, so the arm for a sender dropped unsent is never taken and has no
step here. `peer.disconnect()` waits for the mutex of that one connection and
then for its stream to close, with the guard of `websocket_peers` in hand. Who
else uses a connection is no part of this machine, and any connection may get
stuck at any time: its mutex does not come back, or its stream does not close.
The end of `disconnect` is one step, which a stuck connection never lets happen.

The token generator is the label's choice, so collisions are ordinary runs.
-/

namespace WebSshTool.SignIn

/-- The two mutexes of `AppContext` a sign-in takes. -/
inductive Lock where
  | websocketPeers
  | suspendedClients
  deriving DecidableEq, Repr

abbrev AttemptId := Nat

abbrev ClientId := Nat

/-- The tasks that lock them: a sign-in attempt with what becomes of its
session, and the handler of one internal-client websocket. -/
inductive Task where
  | attempt (a : AttemptId)
  | client (c : ClientId)
  deriving DecidableEq, Repr

/-- Where an attempt stands, from the moment `authenticate_password` has
succeeded. -/
inductive Attempt (τ : Type*) where
  /-- No token drawn yet. -/
  | signingIn
  /-- In `futures::join!`, with the guards it has got so far. -/
  | locking (token : τ) (map clients : Bool)
  /-- In `timeout(Duration::from_secs(5), rx).await`, keeping `map`. -/
  | waiting (token : τ)
  /-- The five seconds are over; in `suspended_clients.lock().await`, still
  keeping `map`. -/
  | timedOut (token : τ)
  /-- Has `suspended_clients` again and is about to remove its entry. -/
  | removing (token : τ)
  /-- About to return an error, still keeping `map`. -/
  | failing
  /-- Received the connection of an internal client. -/
  | adopted (token : τ) (client : ClientId)
  /-- Signed in: `on_authenticate::handle_request` is running. -/
  | session (token : τ)
  /-- The session is over; in `peer_map.lock().await`. -/
  | closing (token : τ)
  /-- In `peer.disconnect().await`, keeping `map`. -/
  | disconnecting (client : ClientId)
  | finished
  | failed
  deriving DecidableEq, Repr

/-- Where the handler of an internal-client websocket stands. -/
inductive Client (τ : Type*) where
  | absent
  /-- In `suspended_clients.lock().await`. -/
  | arrived (token : τ)
  /-- Has the guard and is about to remove the entry. -/
  | removing (token : τ)
  /-- Took the callback of an attempt and released the guard. -/
  | calling (token : τ) (a : AttemptId)
  /-- `callback.send` succeeded: reading messages. -/
  | connected (token : τ)
  /-- Nothing was parked under the token, or the attempt had given up. -/
  | rejected
  deriving DecidableEq, Repr

structure State (τ : Type*) where
  locks : Lock → Option Task
  /-- The peer stored under a token: the attempt that inserted it and the
  client whose connection it holds. -/
  websocketPeers : τ → Option (AttemptId × ClientId)
  /-- The attempt whose callback is parked under a token. -/
  suspendedClients : τ → Option AttemptId
  attempts : AttemptId → Attempt τ
  /-- The value in an attempt's oneshot, once it has been sent. -/
  callbacks : AttemptId → Option ClientId
  clients : ClientId → Client τ
  /-- A `disconnect` of this client's connection does not come back. -/
  stuck : ClientId → Bool

/-- The steps. A label repeats the data of the phase it leaves, so that its
guard can name that phase. -/
inductive Label (τ : Type*) where
  | start (a : AttemptId) (token : τ)
  | lockMap (a : AttemptId) (token : τ) (clients : Bool)
  | lockClients (a : AttemptId) (token : τ) (map : Bool)
  | check (a : AttemptId) (token : τ)
  | timeout (a : AttemptId) (token : τ)
  | relockClients (a : AttemptId) (token : τ)
  | removeClient (a : AttemptId) (token : τ)
  | fail (a : AttemptId)
  | receive (a : AttemptId) (token : τ) (client : ClientId)
  | insertPeer (a : AttemptId) (token : τ) (client : ClientId)
  | leave (a : AttemptId) (token : τ)
  | removePeer (a : AttemptId) (token : τ)
  | disconnected (a : AttemptId) (client : ClientId)
  | arrive (c : ClientId) (token : τ)
  | clientLock (c : ClientId) (token : τ)
  | clientRemove (c : ClientId) (token : τ)
  | clientSend (c : ClientId) (token : τ) (a : AttemptId)
  | stick (c : ClientId)
  deriving DecidableEq, Repr

/-! ## Which phase keeps which guard -/

namespace Attempt

variable {τ : Type*}

def holds : Attempt τ → Lock → Bool
  | .locking _ map _, .websocketPeers => map
  | .locking _ _ clients, .suspendedClients => clients
  | .waiting _, .websocketPeers => true
  | .timedOut _, .websocketPeers => true
  | .removing _, _ => true
  | .failing, .websocketPeers => true
  | .adopted _ _, .websocketPeers => true
  | .disconnecting _, .websocketPeers => true
  | _, _ => false

def waits : Attempt τ → Lock → Bool
  | .locking _ map _, .websocketPeers => !map
  | .locking _ _ clients, .suspendedClients => !clients
  | .timedOut _, .suspendedClients => true
  | .closing _, .websocketPeers => true
  | _, _ => false

/-- An attempt that has drawn its token and neither failed nor signed in, or
a session that is being cleaned up. -/
def unfinished : Attempt τ → Bool
  | .signingIn | .session _ | .finished | .failed => false
  | _ => true

/-- The receiver of the attempt's oneshot is still polled. -/
def listening : Attempt τ → Bool
  | .waiting _ => true
  | _ => false

end Attempt

namespace Client

variable {τ : Type*}

def holds : Client τ → Lock → Bool
  | .removing _, .suspendedClients => true
  | _, _ => false

def waits : Client τ → Lock → Bool
  | .arrived _, .suspendedClients => true
  | _, _ => false

end Client

namespace State

variable {τ : Type*} (s : State τ)

/-- A task keeps a guard at the point where it stands. -/
def holds : Task → Lock → Bool
  | .attempt a, l => (s.attempts a).holds l
  | .client c, l => (s.clients c).holds l

/-- A task stands in the `lock().await` of a mutex. -/
def waits : Task → Lock → Bool
  | .attempt a, l => (s.attempts a).waits l
  | .client c, l => (s.clients c).waits l

def setAttempt (a : AttemptId) (p : Attempt τ) : State τ :=
  { s with attempts := Function.update s.attempts a p }

def setClient (c : ClientId) (p : Client τ) : State τ :=
  { s with clients := Function.update s.clients c p }

def acquire (l : Lock) (t : Task) : State τ :=
  { s with locks := Function.update s.locks l (some t) }

def release (l : Lock) : State τ :=
  { s with locks := Function.update s.locks l none }

end State

/-! ## The machine -/

variable {τ : Type*}

def init : State τ where
  locks _ := none
  websocketPeers _ := none
  suspendedClients _ := none
  attempts _ := .signingIn
  callbacks _ := none
  clients _ := .absent
  stuck _ := false

/-- The guard of each step: the phase it leaves, and the mutex being free
where it takes one. -/
def enabled (s : State τ) : Label τ → Prop
  | .start a _ => s.attempts a = .signingIn
  | .lockMap a t clients =>
      s.attempts a = .locking t false clients ∧ s.locks .websocketPeers = none
  | .lockClients a t map =>
      s.attempts a = .locking t map false ∧ s.locks .suspendedClients = none
  | .check a t => s.attempts a = .locking t true true
  | .timeout a t => s.attempts a = .waiting t
  | .relockClients a t =>
      s.attempts a = .timedOut t ∧ s.locks .suspendedClients = none
  | .removeClient a t => s.attempts a = .removing t
  | .fail a => s.attempts a = .failing
  | .receive a t c => s.attempts a = .waiting t ∧ s.callbacks a = some c
  | .insertPeer a t c => s.attempts a = .adopted t c
  | .leave a t => s.attempts a = .session t
  | .removePeer a t =>
      s.attempts a = .closing t ∧ s.locks .websocketPeers = none
  | .disconnected a c => s.attempts a = .disconnecting c ∧ s.stuck c = false
  | .arrive c _ => s.clients c = .absent
  | .clientLock c t =>
      s.clients c = .arrived t ∧ s.locks .suspendedClients = none
  | .clientRemove c t => s.clients c = .removing t
  | .clientSend c t a => s.clients c = .calling t a
  | .stick c => s.stuck c = false

variable [DecidableEq τ]

instance (s : State τ) (l : Label τ) : Decidable (enabled s l) := by
  cases l <;> unfold enabled <;> infer_instance

def next (s : State τ) : Label τ → State τ
  | .start a t => s.setAttempt a (.locking t false false)
  | .lockMap a t clients =>
      (s.setAttempt a (.locking t true clients)).acquire .websocketPeers (.attempt a)
  | .lockClients a t map =>
      (s.setAttempt a (.locking t map true)).acquire .suspendedClients (.attempt a)
  | .check a t =>
      -- `match (map.get(&token), clients.get(&token))`
      if s.websocketPeers t = none ∧ s.suspendedClients t = none then
        { (s.setAttempt a (.waiting t)).release .suspendedClients with
          suspendedClients := Function.update s.suspendedClients t (some a) }
      else
        ((s.setAttempt a .failed).release .websocketPeers).release .suspendedClients
  | .timeout a t => s.setAttempt a (.timedOut t)
  | .relockClients a t =>
      (s.setAttempt a (.removing t)).acquire .suspendedClients (.attempt a)
  | .removeClient a t =>
      { (s.setAttempt a .failing).release .suspendedClients with
        suspendedClients := Function.update s.suspendedClients t none }
  | .fail a => (s.setAttempt a .failed).release .websocketPeers
  | .receive a t c => s.setAttempt a (.adopted t c)
  | .insertPeer a t c =>
      { (s.setAttempt a (.session t)).release .websocketPeers with
        websocketPeers := Function.update s.websocketPeers t (some (a, c)) }
  | .leave a t => s.setAttempt a (.closing t)
  | .removePeer a t =>
      -- `if let Some(peer) = map.remove(&token)`
      match s.websocketPeers t with
      | some (_, c) =>
          { (s.setAttempt a (.disconnecting c)).acquire .websocketPeers (.attempt a) with
            websocketPeers := Function.update s.websocketPeers t none }
      | none => s.setAttempt a .finished
  | .disconnected a _ => (s.setAttempt a .finished).release .websocketPeers
  | .arrive c t => s.setClient c (.arrived t)
  | .clientLock c t =>
      (s.setClient c (.removing t)).acquire .suspendedClients (.client c)
  | .clientRemove c t =>
      -- `map.remove(token)`, and the guard is dropped with its block
      match s.suspendedClients t with
      | some a =>
          { (s.setClient c (.calling t a)).release .suspendedClients with
            suspendedClients := Function.update s.suspendedClients t none }
      | none => (s.setClient c .rejected).release .suspendedClients
  | .clientSend c t a =>
      if (s.attempts a).listening then
        { s.setClient c (.connected t) with
          callbacks := Function.update s.callbacks a (some c) }
      else s.setClient c .rejected
  | .stick c => { s with stuck := Function.update s.stuck c true }

/-- The sign-ins and internal clients of one server. -/
def machine : Machine (State τ) (Label τ) := ⟨init, enabled, next⟩

instance (s : State τ) (l : Label τ) : Decidable (machine.enabled s l) :=
  inferInstanceAs (Decidable (enabled s l))

end WebSshTool.SignIn
