import WebSshTool.Dispatch.Messages
import WebSshTool.Rpc.ClientWebsocket
import WebSshTool.Rpc.Wire
import WebSshTool.Session.Shells
import WebSshTool.Terminal.Output

/-!
# From the shells to the screen

The master, the socket and the page in one machine. The tasks of the shells and the
handlers of the internal client's messages give their events to `forward_event`, and
`poll_event` takes them out one by one, writes each as a message and sends it. Replies
are sent in between. What is sent arrives in the order in which it was sent, as far as
it does, and the page decodes and dispatches it in its own time.

What a terminal or an explorer shows is what its listener makes of the events that
`Auth` has called it for. The request that opens it is a call of `rest`, and an answer
to it that is an error closes it as well.
-/

namespace WebSshTool.Screen

open Json
open Dispatch (Invocation)
open Rpc.Wire (Codecs Message encodeValue Scalars)

/-- What `forward_event` is given. -/
inductive Event where
  /-- By `poll_channel`, the task of shell `n`. -/
  | shell (n : Nat) (id : Text) (event : Session.ShellEvent)
  /-- By the handler of a message of the internal client, whose events are all about
  its watchers. What a watcher sends is an object. -/
  | watch (id : Text) (data : List (Text × Value))

/-- A byte of a shell, which is a `u8`. -/
def byteValue (b : Nat) : Value := .num (b % 256 : Nat) 0

/-- What `json!` makes of an event of a shell. -/
def shellMembers : Session.ShellEvent → Text × Value
  | .data bytes => (ofString "data", .arr (bytes.map byteValue))
  | .close => (ofString "close", .obj [])

def Event.value : Event → Value
  | .shell _ id event =>
      .obj [(ofString "shell", .obj [shellMembers event, (ofString "id", .str id)])]
  | .watch id data =>
      .obj [(ofString "watch", .obj [(ofString "data", .obj data), (ofString "id", .str id)])]

/-- The message `poll_event` makes of it. -/
def Event.message (e : Event) : Value := .obj [(ofString "event", e.value)]

/-- What a step of the session forwards. -/
def eventsOf (s : Session.State) : Session.Label → List Event
  | .forwarded n bytes => [.shell n (s.channel n).id (.data bytes)]
  | .closeForwarded n true => [.shell n (s.channel n).id .close]
  | _ => []

/-! ## The machine -/

structure State where
  master : Session.State
  /-- Every event so far. -/
  forwarded : List Event
  /-- Those that `poll_event` has not sent. -/
  channel : List Event
  /-- What has been sent and has not arrived. -/
  wire : List Message
  page : Dispatch.State

inductive Label where
  | master (l : Session.Label)
  | watch (id : Text) (data : List (Text × Value))
  | poll
  /-- The reply to a request, and the one to what is no request. -/
  | reply (tag : Option Value) (result : Except Rpc.RequestError Value)
  | formatError
  | deliver
  | page (l : Dispatch.Label)

/-- What the master reads out of a message has the strings of Rust. -/
def Readable : Session.Label → Prop
  | .arrive (some request) => Scalars request
  | _ => True

/-- The page takes its messages from the socket. -/
def Internal : Dispatch.Label → Prop
  | .receive _ => False
  | _ => True

namespace State

def init : State where
  master := Session.State.init
  forwarded := []
  channel := []
  wire := []
  page := Dispatch.State.init

/-- `forward_event`. -/
def forward (s : State) (events : List Event) : State :=
  { s with forwarded := s.forwarded ++ events, channel := s.channel ++ events }

def send (s : State) (m : Message) : State := { s with wire := s.wire ++ [m] }

end State

section

variable (p : Codecs)

def enabled (s : State) : Label → Prop
  | .master l => Session.enabled s.master l ∧ Readable l
  | .watch id data => Scalars (Event.watch id data).value
  | .poll => s.channel.isEmpty = false
  | .reply tag result => Scalars (Rpc.replyMessage tag result)
  | .formatError => True
  | .deliver => s.wire.isEmpty = false
  | .page l => Dispatch.enabled s.page l ∧ Internal l

def next (s : State) : Label → State
  | .master l =>
      { s with master := Session.next s.master l }.forward (eventsOf s.master l)
  | .watch id data => s.forward [.watch id data]
  | .poll =>
      match s.channel with
      | [] => s
      | e :: channel => { s with channel }.send (encodeValue p e.message)
  | .reply tag result => s.send (encodeValue p (Rpc.replyMessage tag result))
  | .formatError => s.send (encodeValue p Rpc.formatError)
  | .deliver =>
      match s.wire with
      | [] => s
      | m :: wire => { s with wire, page := Dispatch.next p.ungzip s.page (.receive m.frame) }
  | .page l => { s with page := Dispatch.next p.ungzip s.page l }

def machine : Machine State Label where
  init := State.init
  enabled
  next := next p

end

/-! ## What is shown -/

/-- A whole number as an element of a `Uint8Array`. -/
def toUint8 : Value → Option UInt8
  | .num m 0 => some (UInt8.ofNat (m % 256).toNat)
  | _ => none

/-- `Buffer.from` of an array of whole numbers. -/
def bufferFrom : Value → Option (List UInt8)
  | .arr items => items.mapM toUint8
  | _ => none

/-- The `id` and the rest of what `shell.invoke` is called with. -/
def detailOf (event : Value) : Terminal.Detail where
  close := (event.get? (ofString "close")).isSome
  data := (event.get? (ofString "data")).bind bufferFrom

/-- The name under which the event is dispatched. -/
def nameOf (event : Value) : Option Text :=
  match event.get? (ofString "id") with
  | some (.str id) => some id
  | _ => none

section

variable (iconv : Terminal.Iconv) (textDecoder : String) (id : Text)

/-- The listener of `MultiTerminalView.Controller`, when `Auth` makes a call. -/
def terminalListener (c : Terminal.Controller) : Invocation → Terminal.Controller
  | .shell event =>
      if nameOf event = some id then Terminal.listener iconv textDecoder c (detailOf event) else c
  | _ => c

end

/-- `FileExplorer.Controller`: whether it is closed, and what it shows. -/
structure Explorer where
  closed : Bool
  state : Option Value

/-- What the listener makes of the data of an event. -/
def stateOf (detail : Value) : Value :=
  match detail.get? (ofString "error") with
  | some (.str error) =>
      .obj (((detail.get? (ofString "path")).toList.map fun path => (ofString "path", path)) ++
        [(ofString "error", .str error)])
  | _ => detail

/-- `_listener` of `FileExplorer.Controller`, which closing removes. The operator `in`
throws where there is no object. -/
def Explorer.listen (c : Explorer) (detail : Value) : Explorer :=
  if c.closed then c
  else match detail with
    | .obj _ | .arr _ =>
        if (detail.get? (ofString "close")).isSome then { c with closed := true }
        else { c with state := some (stateOf detail) }
    | _ => c

def explorerListener (id : Text) (c : Explorer) : Invocation → Explorer
  | .watch event =>
      if nameOf event = some id then
        (event.get? (ofString "data")).elim c fun data => c.listen data
      else c
  | _ => c

/-! ## What has been opened -/

/-- `Rest.isError` of what a callback was called with. -/
def isError (response : Option Value) : Bool :=
  (response.bind (Value.get? (ofString "error"))).isSome

/-- What the callback of `tag` is called with. -/
def answer? (tag : Nat) : Invocation → Option (Option Value)
  | .response t response => if Dispatch.key? t = some tag then some response else none
  | _ => none

/-- The call `tag` was answered with an error. -/
def refused (tag : Nat) (invoked : List Invocation) : Bool :=
  (invoked.filterMap (answer? tag)).head?.any isError

/-- A controller, and whether its `open` waits for an answer. -/
structure Opening (γ : Type*) where
  controller : γ
  waiting : Bool

/-- The listener and `open`, when `Auth` makes a call. -/
def Opening.hear {γ : Type*} (listen : γ → Invocation → γ) (close : γ → γ) (tag : Nat)
    (o : Opening γ) (i : Invocation) : Opening γ :=
  match answer? tag i with
  | some response =>
      if o.waiting then ⟨if isError response then close o.controller else o.controller, false⟩
      else o
  | none => { o with controller := listen o.controller i }

section

variable (s : State) (tag : Nat) (id : Text)

def State.invoked : List Invocation := s.page.invoked.map Prod.snd

/-- The request that opens it was answered with an error. -/
def State.refused : Bool := Screen.refused tag s.invoked

/-- The terminal of the shell that the page calls `id`, opened by the call `tag`. -/
def State.terminal (iconv : Terminal.Iconv) (textDecoder : String) : Terminal.Controller :=
  (s.invoked.foldl (Opening.hear (terminalListener iconv textDecoder id)
    (fun c => { c with closed := true }) tag) ⟨⟨false, []⟩, true⟩).controller

/-- The explorer of the watcher that the page calls `id`, opened by the call `tag`. -/
def State.explorer : Explorer :=
  (s.invoked.foldl (Opening.hear (explorerListener id) (fun c => { c with closed := true }) tag)
    ⟨⟨false, none⟩, true⟩).controller

end

end WebSshTool.Screen
