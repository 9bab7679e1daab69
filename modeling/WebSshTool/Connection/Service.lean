import WebSshTool.Lib.Machine

/-!
# The connection of the page

`Service` keeps the page connected: it opens a websocket when it is mounted, shows
its children for as long as the websocket is open, and opens the next one when it
has closed, at once or after two seconds. The handlers of all its websockets are the
same three functions, and they go by `_ws` and `_mounted` and not by the websocket
that the event is for.

An event of a websocket is one task. The one that closes it fires `error` first if
the connection failed, and by then `readyState` is already CLOSED; a websocket that
is closed while it connects never opens. Whoever has the server may close its
websocket, `signOut` does.
-/

namespace WebSshTool.Connection

/-- `readyState`. -/
inductive ReadyState where
  | connecting | opened | closing | closed
  deriving DecidableEq, Repr

/-- Why a websocket was opened: by `componentDidMount`, by `_onClose` in the task of
the event, or by `_onClose` after its delay. -/
inductive Cause where
  | mount | atOnce | delayed
  deriving DecidableEq, Repr

structure Socket where
  readyState : ReadyState
  cause : Cause
  /-- The id of the `AppServer` that was made when it opened. -/
  server : Option Nat
  deriving DecidableEq, Repr

structure AppServer where
  id : Nat
  ws : Nat
  deriving DecidableEq, Repr

structure State where
  /-- The websockets, in the order they were opened in. -/
  sockets : List Socket
  /-- `_ws`. -/
  ws : Option Nat
  /-- `componentDidMount` has been called. -/
  started : Bool
  /-- `_mounted`. -/
  mounted : Bool
  /-- `_connectionMayBeLost`. -/
  connectionMayBeLost : Bool
  server : Option AppServer
  /-- `AppServer._id`. -/
  nextId : Nat
  /-- The calls of `_onClose` in their `delay`. -/
  delays : Nat
  deriving DecidableEq, Repr

inductive Label where
  | didMount
  | willUnmount
  | opened (i : Nat)
  | closed (i : Nat) (failed : Bool)
  | elapsed
  /-- Someone closes a websocket. -/
  | signOut (i : Nat)
  deriving DecidableEq, Repr

/-- `wsSafeClose`. -/
def Socket.safeClose (x : Socket) : Socket :=
  match x.readyState with
  | .closed | .closing => x
  | .connecting | .opened => { x with readyState := .closing }

namespace State

def init : State := ⟨[], none, false, true, false, none, 0, 0⟩

def readyState (s : State) (i : Nat) : Option ReadyState := s.sockets[i]?.map Socket.readyState

/-- `wsSafeClose` of the websocket with this number, if there is one. -/
def safeClose (s : State) (ws : Option Nat) : State :=
  match ws with
  | some i => { s with sockets := s.sockets.modify i Socket.safeClose }
  | none => s

/-- `_connect`. -/
def connect (s : State) (cause : Cause) : State :=
  { s with sockets := s.sockets ++ [⟨.connecting, cause, none⟩], ws := some s.sockets.length }

/-- `_onOpen`, in the task that opens websocket `i`. -/
def onOpen (s : State) (i : Nat) : State :=
  { s with
    sockets := s.sockets.modify i fun x =>
      { x with readyState := .opened, server := some s.nextId }
    connectionMayBeLost := false
    server := s.ws.map fun ws => ⟨s.nextId, ws⟩
    nextId := s.nextId + 1 }

/-- `_onError`. -/
def onError (s : State) : State := s.safeClose s.ws

/-- `_onClose` up to the end of the task. -/
def onClose (s : State) : State :=
  let s := s.safeClose s.ws
  if s.mounted then
    let s := { s with server := none }
    if s.connectionMayBeLost then { s with delays := s.delays + 1 }
    else { s with connectionMayBeLost := true }.connect .atOnce
  else s

/-- `_onClose` after its delay. -/
def afterDelay (s : State) : State :=
  if s.mounted then { s with connectionMayBeLost := true }.connect .delayed else s

def enabled (s : State) : Label → Prop
  | .didMount => s.started = false
  | .willUnmount => s.started = true ∧ s.mounted = true
  | .opened i => s.readyState i = some .connecting
  | .closed i _ => s.readyState i ≠ none ∧ s.readyState i ≠ some .closed
  | .elapsed => 0 < s.delays
  | .signOut i => i < s.sockets.length

def next (s : State) : Label → State
  | .didMount => { s with started := true }.connect .mount
  | .willUnmount => { s with mounted := false }.safeClose s.ws
  | .opened i => s.onOpen i
  | .closed i failed =>
      let s := { s with
        sockets := s.sockets.modify i fun x => { x with readyState := .closed } }
      (bif failed then s.onError else s).onClose
  | .elapsed => { s with delays := s.delays - 1 }.afterDelay
  | .signOut i => s.safeClose (some i)

/-- What `render` gives to the children. -/
def shown (s : State) : Option AppServer := if s.mounted then s.server else none

end State

def machine : Machine State Label := ⟨State.init, State.enabled, State.next⟩

instance (s : State) (l : Label) : Decidable (machine.enabled s l) := by
  show Decidable (s.enabled l)
  cases l <;> unfold State.enabled <;> infer_instance

end WebSshTool.Connection
