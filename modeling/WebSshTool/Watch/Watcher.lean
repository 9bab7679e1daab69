import Mathlib.Data.Finset.Basic
import WebSshTool.Lib.Machine

/-!
# A directory watcher

One `MyWatcher` of the internal client and whoever touches it: the event
thread of the file-system watcher, the task `poll_event` and the requests `cd`,
`cdToParent` and `close` of the browser. The thread runs the callback of
`async_watcher`, which blocks it until its event has left a channel of
capacity zero; it is also the one that answers `watch` and `unwatch`, and a
caller of these is blocked until it has. `poll_event` takes an event out of the
channel and then locks the `MyWatcher`, as every request does.

What is reported about a path is read from the file system at that moment;
here it is the label's choice between a description and an error, and whether
the browser's channel still takes it. Once the first path was registered a
notification may come at any time the thread is not busy, also after its path
was unwatched: the operating system's own queue may still hold some. Nothing
else keeps the `MyWatcher` alive than this task and these requests, and the
thread lives as long as it does, so `rx.next()` never ends with `None` and has
no step for it.
-/

namespace WebSshTool.Watch

abbrev RequestId := Nat

/-- What the callback is given: `notify::Result<Event>`. -/
inductive Notification where
  | event
  | error
  deriving DecidableEq, Repr

/-- An event on the browser's channel, with the `current_path` it is about. -/
inductive Report (π : Type*) where
  | data (path : π)
  | error (path : π)
  | close
  deriving DecidableEq, Repr

/-- What a request asks of its watcher. `cd` has no target where its value is
neither a string nor null. -/
inductive Action (π : Type*) where
  | cd (target : Option π)
  | cdToParent
  | close
  deriving DecidableEq, Repr

inductive EventThread where
  /-- In its event loop. -/
  | idle
  /-- In `block_on(tx.send(res))`. -/
  | sending (n : Notification)
  deriving DecidableEq, Repr

inductive PollTask where
  /-- `MyWatcher::new` is in `watcher.watch`. -/
  | starting
  /-- `MyWatcher::new` reports on the path. -/
  | opening (ok : Bool)
  /-- In `select!`. -/
  | selecting
  /-- Took an event; in `watcher.lock().await`. -/
  | locking (n : Notification)
  /-- Has the lock and reports. -/
  | handling (n : Notification)
  | ended
  deriving DecidableEq, Repr

inductive Request (π : Type*) where
  | idle
  /-- In `watcher.lock().await`. -/
  | locking (act : Action π)
  /-- In `watcher.unwatch(..)`, to watch `target` next or to close. -/
  | unwatching (target : Option π)
  /-- In `watcher.watch(..)`. -/
  | watching
  /-- Reports, with the result of `watch`. -/
  | reporting (ok : Bool)
  /-- Sends the close event. -/
  | closing
  | finished
  deriving DecidableEq, Repr

inductive Owner where
  | poll
  | request (r : RequestId)
  deriving DecidableEq, Repr

structure State (π : Type*) where
  thread : EventThread
  /-- The event in the channel of `async_watcher`. -/
  slot : Option Notification
  pollTask : PollTask
  lock : Option Owner
  requests : RequestId → Request π
  /-- The id is still in the map `watchers`. -/
  listed : Bool
  /-- `on_close` has been sent. -/
  closed : Bool
  currentPath : π
  watched : Finset π
  /-- What went out on `event_channel`, in order. -/
  emitted : List (Report π)

/-- The steps. `ok` is the answer of `watch`; a report carries whether the
path could be described and whether the channel took the event. -/
inductive Label (π : Type*) where
  | notify (n : Notification)
  | sent (n : Notification)
  | opened (ok : Bool)
  | introduced (ok described taken : Bool)
  | pop (n : Notification)
  | stop
  | pollLock (n : Notification)
  | handled (n : Notification) (described taken : Bool)
  | request (r : RequestId) (act : Action π)
  | lock (r : RequestId) (act : Action π)
  | unwatched (r : RequestId) (target : Option π)
  | answered (r : RequestId) (ok : Bool)
  | reported (r : RequestId) (ok described taken : Bool)
  | closeSent (r : RequestId) (taken : Bool)
  deriving DecidableEq, Repr

namespace Request

variable {π : Type*}

/-- The request has the lock. -/
def holds : Request π → Bool
  | .unwatching _ | .watching | .reporting _ | .closing => true
  | .idle | .locking _ | .finished => false

/-- The request is blocked in `watch` or `unwatch`. -/
def calling : Request π → Bool
  | .unwatching _ | .watching => true
  | _ => false

def unfinished : Request π → Bool
  | .idle | .finished => false
  | _ => true

end Request

namespace State

variable {π : Type*}

def setRequest (s : State π) (r : RequestId) (p : Request π) : State π :=
  { s with requests := Function.update s.requests r p }

def holds (s : State π) : Owner → Bool
  | .poll => match s.pollTask with
      | .handling _ => true
      | _ => false
  | .request r => (s.requests r).holds

/-- `send_json` or `send_error`, unless the channel is gone. -/
def emit (s : State π) (described taken : Bool) : State π :=
  bif taken then
    { s with emitted := s.emitted ++
        [bif described then .data s.currentPath else .error s.currentPath] }
  else s

end State

/-! ## The machine -/

variable {π : Type*}

/-- `MyWatcher::new` is called with `path`. -/
def init (path : π) : State π where
  thread := .idle
  slot := none
  pollTask := .starting
  lock := none
  requests _ := .idle
  listed := false
  closed := false
  currentPath := path
  watched := ∅
  emitted := []

def enabled (s : State π) : Label π → Prop
  | .notify _ => s.thread = .idle ∧ s.pollTask ≠ .starting
  | .sent n => s.thread = .sending n ∧ (s.slot = none ∨ s.pollTask = .ended)
  | .opened _ => s.pollTask = .starting ∧ s.thread = .idle
  | .introduced ok _ _ => s.pollTask = .opening ok
  | .pop n => s.pollTask = .selecting ∧ s.slot = some n
  | .stop => s.pollTask = .selecting ∧ s.closed = true
  | .pollLock n => s.pollTask = .locking n ∧ s.lock = none
  | .handled n _ _ => s.pollTask = .handling n
  | .request r _ => s.requests r = .idle ∧ s.listed = true
  | .lock r act => s.requests r = .locking act ∧ s.lock = none
  | .unwatched r target => s.requests r = .unwatching target ∧ s.thread = .idle
  | .answered r _ => s.requests r = .watching ∧ s.thread = .idle
  | .reported r ok _ _ => s.requests r = .reporting ok
  | .closeSent r _ => s.requests r = .closing

variable [DecidableEq π]

instance (s : State π) (l : Label π) : Decidable (enabled s l) := by
  cases l <;> unfold enabled <;> infer_instance

/-- `parent` is `Path::parent`. -/
def next (parent : π → Option π) (s : State π) : Label π → State π
  | .notify n => { s with thread := .sending n, slot := some n }
  | .sent _ => { s with thread := .idle, slot := none }
  | .opened ok =>
      { s with
        pollTask := .opening ok
        watched := bif ok then insert s.currentPath s.watched else s.watched }
  | .introduced ok described taken =>
      { s.emit (ok && described) taken with pollTask := .selecting, listed := true }
  | .pop n => { s with pollTask := .locking n, slot := none }
  | .stop => { s with pollTask := .ended }
  | .pollLock n => { s with pollTask := .handling n, lock := some .poll }
  | .handled n described taken =>
      { s.emit (n == .event && described) taken with
        pollTask := bif taken then .selecting else .ended
        lock := none }
  | .request r act =>
      -- `close` takes the entry out of the map, the others copy it
      { s.setRequest r (.locking act) with listed := s.listed && act != .close }
  | .lock r act =>
      match act with
      | .cd none => s.setRequest r .finished
      | .cd (some path) =>
          { s.setRequest r (.unwatching (some path)) with lock := some (.request r) }
      | .cdToParent =>
          match parent s.currentPath with
          | some path =>
              { s.setRequest r (.unwatching (some path)) with lock := some (.request r) }
          | none => { s.setRequest r (.reporting true) with lock := some (.request r) }
      | .close => { s.setRequest r (.unwatching none) with lock := some (.request r) }
  | .unwatched r target =>
      match target with
      | some path =>
          { s.setRequest r .watching with
            watched := s.watched.erase s.currentPath
            currentPath := path }
      | none =>
          { s.setRequest r .closing with
            watched := s.watched.erase s.currentPath
            closed := true }
  | .answered r ok =>
      { s.setRequest r (.reporting ok) with
        watched := bif ok then insert s.currentPath s.watched else s.watched }
  | .reported r ok described taken =>
      { (s.emit (ok && described) taken).setRequest r .finished with lock := none }
  | .closeSent r taken =>
      { s.setRequest r .finished with
        lock := none
        emitted := bif taken then s.emitted ++ [.close] else s.emitted }

def machine (parent : π → Option π) (path : π) : Machine (State π) (Label π) :=
  ⟨init path, enabled, next parent⟩

instance (parent : π → Option π) (path : π) (s : State π) (l : Label π) :
    Decidable ((machine parent path).enabled s l) :=
  inferInstanceAs (Decidable (enabled s l))

end WebSshTool.Watch
