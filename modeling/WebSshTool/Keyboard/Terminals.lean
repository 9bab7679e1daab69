import WebSshTool.Rpc.Rest
import WebSshTool.Rpc.Wire
import WebSshTool.Session.Shells
import WebSshTool.Workers.Compress

/-!
# From the keyboard to the shells

The terminals of the page, the worker that encodes their messages, the socket and the
master in one machine. What is typed is encoded for the shell and goes out as a call
of `Auth.rest`. The call waits for the compression worker, or for what the page makes
of it where the worker has failed, and sends what it got. The master begins with the
messages in the order in which they were sent.

The worker has other calls as well, and the page sends other requests. The strings of a
request are written down as the master has them: on the page they are UTF-16, `units`.
One with a lone surrogate in it is not read by the master and left out. Others that the
master cannot read are answered and have no effect.
-/

namespace WebSshTool.Keyboard

open Json
open Rpc.Wire (Bytes Codecs Message ParseFloat Scalars readMessage stringify units usv)

/-- `iconv.encode` and pako on the page, flate2 and `serde_json` in the master. -/
structure Ends where
  iconvEncode : Text → String → Bytes
  gzip : Bytes → Bytes
  ungzip : Dispatch.Ungzip
  gzDecoder : Bytes → Option Bytes
  float : ParseFloat

/-- What pako compresses flate2 decompresses. -/
def Ends.Agree (e : Ends) : Prop := ∀ bytes, e.gzDecoder (e.gzip bytes) = some bytes

/-- The master's compression is for the other direction. -/
def Ends.codecs (e : Ends) : Codecs where
  gzip bytes := some (e.gzip bytes)
  ungzip := e.ungzip
  gzEncoder _ := none
  gzDecoder := e.gzDecoder
  float := e.float

/-- A value is cloned as it is. -/
def Ends.platform (e : Ends) : Workers.Platform Value where
  gzip := e.gzip
  ungzip := e.ungzip
  stringify v := some (some (stringify v))
  structuredClone := some

/-! ## Terminals -/

/-- The numbers of `resize`, where they are finite. -/
structure Size where
  rows : Option (Int × Int)
  cols : Option (Int × Int)
  height : Option (Int × Int)
  width : Option (Int × Int)
  deriving DecidableEq

/-- A number that is not finite is written as `null`. -/
def numberValue : Option (Int × Int) → Value
  | some (m, e) => .num m e
  | none => .null

def Size.value (size : Size) : Value :=
  .obj [(ofString "rows", numberValue size.rows), (ofString "cols", numberValue size.cols),
    (ofString "height", numberValue size.height), (ofString "width", numberValue size.width)]

/-- A call of `auth.rest` that a terminal makes after the one that opens it. -/
inductive TerminalCall where
  | data (bytes : Bytes)
  | resize (size : Size)
  | close
  deriving DecidableEq

/-- `Array.from` of a buffer. -/
def arrayFrom (bytes : Bytes) : Value := .arr (bytes.map fun b => .num b.toNat 0)

def TerminalCall.parameter (id : Text) : TerminalCall → Value
  | .data bytes => .obj [(ofString "id", .str id), (ofString "data", arrayFrom bytes)]
  | .resize size => .obj [(ofString "id", .str id), (ofString "resize", size.value)]
  | .close => .obj [(ofString "id", .str id), (ofString "close", .obj [])]

def TerminalCall.isClose : TerminalCall → Bool
  | .close => true
  | .data _ | .resize _ => false

def TerminalCall.data? : TerminalCall → Option Bytes
  | .data bytes => some bytes
  | .resize _ | .close => none

/-- `MultiTerminalView.Controller`, with its calls so far. -/
structure Terminal where
  id : Text
  calls : List TerminalCall
  deriving DecidableEq

/-- What was typed until `close` was called. -/
def typedIn (calls : List TerminalCall) : List Bytes :=
  (calls.takeWhile fun c => !c.isClose).filterMap TerminalCall.data?

/-! ## Requests -/

/-- A call of `rest`. It waits for the worker's call of that number. -/
structure Request where
  number : Nat
  tag : Nat
  type : Text
  parameter : Value

def Request.message (r : Request) : Value :=
  .obj [(ofString "tag", .num r.tag 0), (ofString "request", .obj [(r.type, r.parameter)])]

/-- The argument of `encodeMessage`. -/
def Request.obj (r : Request) : Value := units r.message

/-- The rest of `encodeMessage` and `send`, behind what `stringifyAndCompress` came to. -/
def Request.encoded (r : Request) : Option Workers.Result → Option Message
  | some (.buffer arr) => some (.binary arr)
  | some (.json _) => none
  | none => some (.text (usv (stringify r.obj)))

/-! ## The machine -/

structure State where
  /-- `_tag`. -/
  tag : Nat
  terminals : List Terminal
  /-- The calls of `rest` so far. -/
  asked : List Request
  worker : Workers.State Value
  /-- How many of the messages that were sent the master has begun with. -/
  delivered : Nat
  master : Session.State

inductive Label where
  /-- The constructor of a terminal, with `open`. -/
  | construct (id : Text)
  | onData (k : Nat) (data : Text) (textDecoder : String)
  | resize (k : Nat) (size : Size)
  | close (k : Nat)
  /-- A call of `rest` by anything else on the page. -/
  | rest (type : Text) (parameter : Value)
  | worker (l : Workers.Label Value)
  | deliver
  | master (l : Session.Label)

/-- The master takes its messages from the socket. -/
def Internal : Session.Label → Prop
  | .arrive _ => False
  | _ => True

namespace State

def init : State where
  tag := 0
  terminals := []
  asked := []
  worker := Workers.State.init
  delivered := 0
  master := Session.State.init

/-- What was given to the socket, in that order. -/
def sent (s : State) : List Message :=
  s.worker.returned.filterMap fun entry =>
    (s.asked.find? fun r => r.number == entry.1).bind fun r => r.encoded entry.2

end State

section

variable (e : Ends)

/-- `rest`, up to where it waits for its message. -/
def State.rest (s : State) (type : Text) (parameter : Value) : State :=
  let r : Request := ⟨s.worker.calls.length, s.tag, type, parameter⟩
  { s with
    tag := Rpc.Rest.increment s.tag
    asked := s.asked ++ [r]
    worker := Workers.next e.platform s.worker (.call (.stringifyAndCompress r.obj)) }

/-- A terminal calls `rest`. -/
def State.call (s : State) (k : Nat) (c : TerminalCall) : State :=
  match s.terminals[k]? with
  | some t =>
      State.rest e
        { s with terminals := s.terminals.modify k fun t => { t with calls := t.calls ++ [c] } }
        (ofString "shell") (c.parameter t.id)
  | none => s

/-- `handle_request` of the master, up to `build_response`. What cannot be read is
answered with an error. -/
def receive (master : Session.State) : Option Value → Session.State
  | some (.obj members) =>
      Session.next master (.arrive ((Value.obj members).get? (ofString "request")))
  | _ => master

def enabled (s : State) : Label → Prop
  | .construct id => ∀ u ∈ id, u.isValidChar
  | .onData k _ _ | .resize k _ | .close k => k < s.terminals.length
  | .rest type parameter => type ≠ ofString "shell" ∧ Scalars (.obj [(type, parameter)])
  | .worker l => Workers.enabled s.worker l
  | .deliver => s.delivered < s.sent.length ∧ s.master.finished = false
  | .master l => Session.enabled s.master l ∧ Internal l

def next (s : State) : Label → State
  | .construct id =>
      State.rest e { s with terminals := s.terminals ++ [⟨id, []⟩] } (ofString "shell") (.str id)
  | .onData k data textDecoder => s.call e k (.data (e.iconvEncode data textDecoder))
  | .resize k size => s.call e k (.resize size)
  | .close k => s.call e k .close
  | .rest type parameter => s.rest e type parameter
  | .worker l => { s with worker := Workers.next e.platform s.worker l }
  | .deliver =>
      match s.sent[s.delivered]? with
      | some m =>
          { s with
            delivered := s.delivered + 1
            master := receive s.master (readMessage e.codecs m) }
      | none => s
  | .master l => { s with master := Session.next s.master l }

def machine : Machine State Label where
  init := State.init
  enabled
  next := next e

end

end WebSshTool.Keyboard
