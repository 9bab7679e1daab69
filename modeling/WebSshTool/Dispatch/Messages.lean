import WebSshTool.Lib.Doubles
import WebSshTool.Lib.Machine
import WebSshTool.Lib.Utf8

/-!
# How the browser decodes its messages

`Auth` listens to the websocket with an async function: each message starts a
decoding of its own and is dispatched when that is done. A `Blob` is read
first, its gzip is undone and parsed by the compression worker, or on the page
once the worker has failed, and a text frame is parsed on the spot.

The page runs one task at a time, and with it every continuation the task
releases. So a label is a task: a message event, a read that settles, a reply
or a failure of the worker. The worker takes its requests in the order they
were posted, and its replies arrive in the order it wrote them.

An array buffer posted to the worker is transferred. What the page still holds
is detached, so the attempt on the page that follows a refused request throws,
and its message is not dispatched at all.
-/

namespace WebSshTool.Dispatch

open Json

/-- The data of a message event. -/
inductive Frame where
  | blob (bytes : List UInt8)
  | arrayBuffer (bytes : List UInt8)
  | text (t : Text)
  | other

/-- An `ArrayBuffer` the page holds: its bytes, until it is transferred. -/
abbrev ArrayBuffer := Option (List UInt8)

/-- `pako.ungzip`, which throws on what is no gzip. -/
abbrev Ungzip := List UInt8 → Option (List UInt8)

/-! ## Decoding

`none` is an exception. -/

/-- The UTF-16 units of a character. -/
def utf16Units (c : Char) : Text :=
  if c.toNat < 0x10000 then [c.toNat]
  else [0xd800 + (c.toNat - 0x10000) / 0x400, 0xdc00 + (c.toNat - 0x10000) % 0x400]

/-- `Utf8TextDecoder.decode`, which takes a byte order mark off. -/
def utf8TextDecode (buffer : List UInt8) : Text :=
  (Utf8.stripBom (Utf8.decode buffer)).flatMap utf16Units

/-- `JSON.parse`, whose numbers are doubles. -/
def jsonParse (t : Text) : Option Value := (Json.parse t).map (Value.mapNumbers Doubles.round)

/-- There is no view of a detached buffer. -/
def inflate (ungzip : Ungzip) (arr : ArrayBuffer) : Option (List UInt8) :=
  arr.bind ungzip

def inflateAndJson (ungzip : Ungzip) (arr : ArrayBuffer) : Option Value :=
  (inflate ungzip arr).bind fun buf => jsonParse (utf8TextDecode buf)

/-- What a frame decodes to, wherever that is done. -/
def Frame.content (ungzip : Ungzip) : Frame → Option Value
  | .blob bytes | .arrayBuffer bytes => inflateAndJson ungzip (some bytes)
  | .text t => jsonParse t
  | .other => none

/-! ## Dispatching -/

/-- What `Auth` calls for a message: a callback of `rest` with its response, or
the `invoke` of one of its event targets. -/
inductive Invocation where
  | response (tag : Value) (response : Option Value)
  | shell (event : Value)
  | watch (event : Value)
  | notification (event : Value)

/-- The number that a tag is, which is what `_callbacks` has its keys by. -/
def key? : Value → Option Nat
  | .num m e => if e = 0 ∧ 0 ≤ m then some m.toNat else none
  | _ => none

/-- The rest of the listener, for an object. Destructuring `null` throws, and
so does looking for a member of what is no object. -/
def dispatch (obj : Value) : Option Invocation :=
  match obj.get? (ofString "tag") with
  | some tag => some (.response tag (obj.get? (ofString "response")))
  | none =>
      match obj.get? (ofString "event") with
      | none => none
      | some event =>
          match event.get? (ofString "shell") with
          | some shell => if shell.isNull then none else some (.shell shell)
          | none =>
              match event.get? (ofString "watch") with
              | some watch => if watch.isNull then none else some (.watch watch)
              | none => (event.get? (ofString "notification")).map .notification

/-- Whether the listeners of a shell or of a watch are called. -/
def Invocation.isEvent : Invocation → Bool
  | .shell _ | .watch _ => true
  | .response _ _ | .notification _ => false

/-- What is called for a frame once it is decoded. -/
def Frame.invocation (ungzip : Ungzip) (f : Frame) : Option Invocation :=
  (f.content ungzip).bind dispatch

/-- The frame is an event of a shell or of a watch. -/
def Frame.isEvent (ungzip : Ungzip) (f : Frame) : Bool :=
  (f.invocation ungzip).any Invocation.isEvent

/-! ## The page and its worker -/

/-- What a request asks the worker for: to decode a message, or one of the
things the rest of the page has it do. -/
inductive Order where
  | inflateAndJson (bytes : List UInt8)
  | other

/-- Whose promise an entry of `suspend` settles. -/
inductive Caller where
  | message (number : Nat)
  | other
  deriving DecidableEq

/-- Messages are numbered as they arrive. `reading` holds the blobs that are
being read, `inbox` and `outbox` what is on the way to the worker and back,
`invoked` what each message has led to. -/
structure State where
  arrived : List Frame
  reading : List (Nat × List UInt8)
  tag : Nat
  suspend : List (Nat × Caller)
  closed : Bool
  inbox : List (Nat × Order)
  outbox : List (Nat × Option Value)
  invoked : List (Nat × Invocation)

def State.init : State where
  arrived := []
  reading := []
  tag := 0
  suspend := []
  closed := false
  inbox := []
  outbox := []
  invoked := []

/-- The listener behind its `await`: nothing is dispatched for an exception. -/
def State.resume (s : State) (number : Nat) (obj : Option Value) : State :=
  match obj.bind dispatch with
  | none => s
  | some invocation => { s with invoked := s.invoked ++ [(number, invocation)] }

/-- `request` and the `postMessage` behind it. -/
def State.request (s : State) (caller : Caller) (order : Order) : State :=
  { s with
    tag := s.tag + 1
    suspend := s.suspend ++ [(s.tag, caller)]
    inbox := s.inbox ++ [(s.tag, order)] }

/-- `decompressAndJson`, up to where it waits for the worker. -/
def State.decompressAndJson (ungzip : Ungzip) (s : State) (number : Nat)
    (bytes : List UInt8) : State :=
  if s.closed then s.resume number (inflateAndJson ungzip (some bytes))
  else s.request (.message number) (.inflateAndJson bytes)

/-- Behind a promise that was rejected: the buffer has been transferred. -/
def State.rejected (ungzip : Ungzip) (s : State) : Caller → State
  | .message number => s.resume number (inflateAndJson ungzip none)
  | .other => s

def State.resolved (s : State) (data : Value) : Caller → State
  | .message number => s.resume number (some data)
  | .other => s

/-- `onMessage`. A reply to nobody is dropped. -/
def State.onMessage (ungzip : Ungzip) (s : State) (tag : Nat) (data : Option Value) :
    State :=
  match s.suspend.find? fun c => c.1 == tag with
  | none => s
  | some c =>
      let s := { s with suspend := s.suspend.filter fun c => c.1 != tag }
      match data with
      | some data => s.resolved data c.2
      | none => s.rejected ungzip c.2

/-- `onClose`. -/
def State.onClose (ungzip : Ungzip) (s : State) : State :=
  (s.suspend.map Prod.snd).foldl (State.rejected ungzip)
    { s with closed := true, suspend := [] }

/-- The handler of the worker. What the other requests come to is left out. -/
def Order.handle (ungzip : Ungzip) : Order → Option Value
  | .inflateAndJson bytes => Dispatch.inflateAndJson ungzip (some bytes)
  | .other => none

inductive Label where
  /-- A message event. -/
  | receive (frame : Frame)
  /-- A blob has been read, or could not be. -/
  | read (number : Nat) (bytes : List UInt8)
  | unreadable (number : Nat) (bytes : List UInt8)
  /-- Some other part of the page asks the worker for something. -/
  | request
  /-- The worker handles the request it received first. -/
  | work
  /-- The reply it wrote first arrives. -/
  | reply
  /-- The `error` or `close` event of the worker. -/
  | fail

def enabled (s : State) : Label → Prop
  | .receive _ | .fail => True
  | .read number bytes | .unreadable number bytes => (number, bytes) ∈ s.reading
  | .request => s.closed = false
  | .work => s.inbox.isEmpty = false
  | .reply => s.outbox.isEmpty = false

instance (s : State) (l : Label) : Decidable (enabled s l) := by
  cases l <;> unfold enabled <;> infer_instance

/-- `decodeMessage`, up to its first `await`. -/
def State.decodeMessage (ungzip : Ungzip) (s : State) (number : Nat) : Frame → State
  | .blob bytes => { s with reading := s.reading ++ [(number, bytes)] }
  | .arrayBuffer bytes => s.decompressAndJson ungzip number bytes
  | .text t => s.resume number (jsonParse t)
  | .other => s

def next (ungzip : Ungzip) (s : State) : Label → State
  | .receive frame =>
      { s with arrived := s.arrived ++ [frame] }.decodeMessage ungzip
        s.arrived.length frame
  | .read number bytes =>
      { s with reading := s.reading.erase (number, bytes) }.decompressAndJson ungzip
        number bytes
  | .unreadable number bytes => { s with reading := s.reading.erase (number, bytes) }
  | .request => s.request .other .other
  | .work =>
      match s.inbox with
      | [] => s
      | (tag, order) :: inbox =>
          { s with inbox, outbox := s.outbox ++ [(tag, order.handle ungzip)] }
  | .reply =>
      match s.outbox with
      | [] => s
      | (tag, data) :: outbox => { s with outbox }.onMessage ungzip tag data
  | .fail => s.onClose ungzip

def machine (ungzip : Ungzip) : Machine State Label where
  init := State.init
  enabled
  next := next ungzip

end WebSshTool.Dispatch
