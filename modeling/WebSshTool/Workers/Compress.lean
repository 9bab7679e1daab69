import WebSshTool.Dispatch.Messages
import WebSshTool.Lib.Files

/-!
# The compression worker and who asks it

`Compress.ts` has four functions, and `CompressCommon.ts` the four that do the
work. The worker runs them on its own thread; the page runs them itself once
the worker has failed, and whenever a request was refused or could not be
posted. What ties the two together is a table of promises by tag.

A buffer is posted with a transfer, so the page's own `ArrayBuffer` is detached
from then on: the attempt on the page after a refusal finds nothing to read.
An object is posted as a structured clone, and the page keeps it.

The page runs one task at a time, and the continuation of a promise runs
before the next one. `pako.gzip`, `pako.ungzip`, `JSON.stringify` and the
structured clone are given.
-/

namespace WebSshTool.Workers

open Dispatch (ArrayBuffer Ungzip inflate inflateAndJson)
open Json (Text Value)

abbrev Bytes := List UInt8

/-- What the browser and pako do. `none` is an exception; `JSON.stringify` may
also give no string at all. -/
structure Platform (ν : Type*) where
  gzip : Bytes → Bytes
  ungzip : Ungzip
  stringify : ν → Option (Option Text)
  structuredClone : ν → Option ν

inductive Result where
  | buffer (bytes : Bytes)
  | json (v : Value)

variable {ν : Type*} (p : Platform ν)

/-! ## `CompressCommon.ts` -/

/-- There is no view of a detached buffer. -/
def deflate (arr : ArrayBuffer) : Option Bytes := arr.map p.gzip

/-- `encode` takes no string for the empty one. -/
def utf8TextEncode (input : Option Text) : Bytes := Files.utf8 (input.getD [])

def stringifyAndDeflate (obj : ν) : Option Bytes :=
  (p.stringify obj).bind fun str => deflate p (some (utf8TextEncode str))

/-! ## Calls and orders -/

/-- A call of one of the four functions. -/
inductive Call (ν : Type*) where
  | compress (buffer : ArrayBuffer)
  | decompress (buffer : ArrayBuffer)
  | stringifyAndCompress (obj : ν)
  | decompressAndJson (arr : ArrayBuffer)

/-- The message of a request, without its tag. -/
inductive Order (ν : Type*) where
  | requestDeflate (buffer : ArrayBuffer)
  | requestInflate (buffer : ArrayBuffer)
  | stringifyAndDeflate (obj : ν)
  | inflateAndJson (arr : ArrayBuffer)

/-- The function of `CompressCommon.ts` on the argument. -/
def Call.direct : Call ν → Option Result
  | .compress buffer => (deflate p buffer).map .buffer
  | .decompress buffer => (inflate p.ungzip buffer).map .buffer
  | .stringifyAndCompress obj => (stringifyAndDeflate p obj).map .buffer
  | .decompressAndJson arr => (inflateAndJson p.ungzip arr).map .json

/-- `worker.postMessage`, which throws for a buffer that is detached and for
what cannot be cloned. -/
def Call.post : Call ν → Option (Order ν)
  | .compress buffer => buffer.map fun bytes => .requestDeflate (some bytes)
  | .decompress buffer => buffer.map fun bytes => .requestInflate (some bytes)
  | .stringifyAndCompress obj => (p.structuredClone obj).map .stringifyAndDeflate
  | .decompressAndJson arr => arr.map fun bytes => .inflateAndJson (some bytes)

/-- The argument is in the transfer list. -/
def Call.transfers : Call ν → Bool
  | .compress _ | .decompress _ | .decompressAndJson _ => true
  | .stringifyAndCompress _ => false

/-- The call as the page still has it once it was posted. -/
def Call.held : Call ν → Call ν
  | .compress _ => .compress none
  | .decompress _ => .decompress none
  | .stringifyAndCompress obj => .stringifyAndCompress obj
  | .decompressAndJson _ => .decompressAndJson none

/-- `self.onmessage` of the worker, up to the answer: its `data`, unless it
answers with an `error`. -/
def Order.handle : Order ν → Option Result
  | .requestDeflate buffer => (deflate p buffer).map .buffer
  | .requestInflate buffer => (inflate p.ungzip buffer).map .buffer
  | .stringifyAndDeflate obj => (Workers.stringifyAndDeflate p obj).map .buffer
  | .inflateAndJson arr => (Dispatch.inflateAndJson p.ungzip arr).map .json

/-! ## The page -/

/-- A call that waits for the promise of a request. Calls are numbered as they
are made. -/
structure Waiting (ν : Type*) where
  number : Nat
  held : Call ν

/-- A request whose message was not posted stays in `suspend`, but nobody waits
for it. `inbox` and `outbox` is what is on the way to the worker and back,
`returned` what each call has come to, `none` being an exception. -/
structure State (ν : Type*) where
  calls : List (Call ν)
  tag : Nat
  suspend : List (Nat × Option (Waiting ν))
  closed : Bool
  inbox : List (Nat × Order ν)
  outbox : List (Nat × Option Result)
  returned : List (Nat × Option Result)

def State.init : State ν where
  calls := []
  tag := 0
  suspend := []
  closed := false
  inbox := []
  outbox := []
  returned := []

/-- The call behind its `await`: the promise was resolved with `data`, or
rejected, and then it tries with what it holds. -/
def settle (data : Option Result) (waiting : Option (Waiting ν)) : Option (Nat × Option Result) :=
  waiting.map fun w => (w.number, match data with
    | some res => some res
    | none => w.held.direct p)

/-- Any of the four functions, up to where it waits for the worker. -/
def State.call (s : State ν) (c : Call ν) : State ν :=
  let number := s.calls.length
  let s := { s with calls := s.calls ++ [c] }
  if s.closed then { s with returned := s.returned ++ [(number, c.direct p)] }
  else
    match c.post p with
    | some order =>
        { s with
          tag := s.tag + 1
          suspend := s.suspend ++ [(s.tag, some ⟨number, c.held⟩)]
          inbox := s.inbox ++ [(s.tag, order)] }
    | none =>
        { s with
          tag := s.tag + 1
          suspend := s.suspend ++ [(s.tag, none)]
          returned := s.returned ++ [(number, c.direct p)] }

/-- `onMessage`. An answer to nobody is dropped. -/
def State.onMessage (s : State ν) (tag : Nat) (data : Option Result) : State ν :=
  match s.suspend.find? fun entry => entry.1 == tag with
  | none => s
  | some entry =>
      { s with
        suspend := s.suspend.filter fun entry => entry.1 != tag
        returned := s.returned ++ (settle p data entry.2).toList }

/-- `onClose`. -/
def State.onClose (s : State ν) : State ν :=
  { s with
    closed := true
    suspend := []
    returned := s.returned ++ s.suspend.filterMap fun entry => settle p none entry.2 }

inductive Label (ν : Type*) where
  | call (c : Call ν)
  /-- The worker handles the request it received first. Something of its own
  may go wrong with that. -/
  | work (ok : Bool)
  /-- The answer it wrote first arrives. -/
  | answer
  /-- The `error` or `close` event of the worker. -/
  | fail

def enabled (s : State ν) : Label ν → Prop
  | .call _ | .fail => True
  | .work _ => s.inbox ≠ []
  | .answer => s.outbox ≠ []

def next (s : State ν) : Label ν → State ν
  | .call c => s.call p c
  | .work ok =>
      match s.inbox with
      | [] => s
      | (tag, order) :: inbox =>
          { s with
            inbox
            outbox := s.outbox ++ [(tag, if ok then order.handle p else none)] }
  | .answer =>
      match s.outbox with
      | [] => s
      | (tag, data) :: outbox => { s with outbox }.onMessage p tag data
  | .fail => s.onClose p

def machine : Machine (State ν) (Label ν) where
  init := State.init
  enabled
  next := next p

end WebSshTool.Workers
