import Mathlib.Logic.Function.Basic
import WebSshTool.Lib.Machine

/-!
# The file logger

`Logger::info` and `Logger::err` are no async functions. With a log file they
send their line with `futures::executor::block_on`, which keeps the thread
until the line is in the channel and the channel is not over its bound. The
one `Sender` is behind a mutex, and whoever has a line to send keeps the guard
for as long. At the other end `run_file_logger` is a task like any other: it
is polled by a worker of the runtime, and it leaves the worker where it waits
for a line, or for the file system, whose work is done on other threads.

The threads here are the workers, and the main thread, which polls the future
of `main` and never a spawned task. A thread calls the logger whenever it
polls something that does. A bounded channel of `futures` takes one line more
than its bound, which parks the sender that sent it; the next line received
unparks it.
-/

namespace WebSshTool.Logging

/-- The bound that `AppConfig::new` gives the channel. -/
def bound : Nat := 64

inductive Level where
  | info
  | err
  deriving DecidableEq, Repr

/-- What is sent for a message at a time. -/
def line (level : Level) (time message : String) : String :=
  match level with
  | .info => time ++ " [INFO]  " ++ message ++ "\n"
  | .err => time ++ " [ERROR] " ++ message ++ "\n"

inductive Thread (n : Nat) where
  | main
  | worker (w : Fin n)
  deriving DecidableEq, Repr

/-- Where a thread stands in `Logger::info` or `Logger::err`. -/
inductive Caller where
  /-- In neither. -/
  | free
  /-- In `tx.lock().await`. -/
  | locking (level : Level) (message : String)
  /-- Has the guard and is about to send. -/
  | holding (line : String)
  /-- Has sent its line and waits until the sender is not parked. -/
  | flushing
  deriving DecidableEq, Repr

/-- Where `run_file_logger` stands. -/
inductive Point where
  | start
  /-- In the first `option.open`. -/
  | opening
  /-- In `rx.next()`. -/
  | receiving
  /-- In one of the writes of a line, or opening the file again for it. -/
  | writing (line : String)
  deriving DecidableEq, Repr

/-- The task `run_file_logger`. -/
inductive Task (n : Nat) where
  /-- Waits for a worker. -/
  | runnable (p : Point)
  | running (w : Fin n) (p : Point)
  /-- Waits for a line. -/
  | waiting
  /-- Waits for the file system. -/
  | offThread (p : Point)
  | ended
  deriving DecidableEq, Repr

structure State (n : Nat) where
  threads : Thread n → Caller
  /-- Who has the guard of the sender. -/
  lock : Option (Thread n)
  queue : List String
  /-- The sender is parked. -/
  parked : Bool
  task : Task n
  /-- What has been written to the log file. -/
  file : List String

inductive Label (n : Nat) where
  | call (t : Thread n) (level : Level) (message : String)
  | acquire (t : Thread n) (level : Level) (message time : String)
  | send (t : Thread n) (line : String)
  | flushed (t : Thread n)
  /-- A worker polls the task. -/
  | run (w : Fin n) (p : Point)
  /-- The task leaves its worker for the file system. -/
  | yield (w : Fin n) (p : Point)
  /-- The file system is done, and the task is woken. -/
  | wake (p : Point)
  | opened (w : Fin n) (ok : Bool)
  | receive (w : Fin n) (line : String)
  | sleep (w : Fin n)
  | written (w : Fin n) (line : String) (ok : Bool)
  deriving DecidableEq, Repr

/-- Where the task goes on after the file system, if it needs it here. -/
def Point.yields : Point → Option Point
  | .start => some .opening
  | .writing line => some (.writing line)
  | .opening | .receiving => none

/-- A line wakes the task that waits for one. -/
def Task.notified {n : Nat} : Task n → Task n
  | .waiting => .runnable .receiving
  | task => task

def Task.isRunnable {n : Nat} : Task n → Bool
  | .runnable _ => true
  | _ => false

def Caller.isLocking : Caller → Bool
  | .locking _ _ => true
  | _ => false

/-- The caller has the guard. -/
def Caller.holds : Caller → Bool
  | .holding _ | .flushing => true
  | .free | .locking _ _ => false

@[simp] theorem Caller.holds_free : Caller.free.holds = false := rfl

@[simp] theorem Caller.holds_locking (level : Level) (message : String) :
    (Caller.locking level message).holds = false := rfl

@[simp] theorem Caller.holds_holding (line : String) : (Caller.holding line).holds = true := rfl

@[simp] theorem Caller.holds_flushing : Caller.flushing.holds = true := rfl

namespace State

variable {n : Nat}

def setThread (s : State n) (t : Thread n) (c : Caller) : State n :=
  { s with threads := Function.update s.threads t c }

/-- The thread polls the task. -/
def polls (s : State n) : Thread n → Bool
  | .main => false
  | .worker w => match s.task with
      | .running w' _ => w' == w
      | _ => false

/-- The thread is in `block_on` and cannot go on: another has the guard, or
the sender is parked. -/
def blocked (s : State n) (t : Thread n) : Bool :=
  match s.threads t with
  | .locking _ _ => s.lock.isSome
  | .flushing => s.parked
  | .free | .holding _ => false

end State

/-! ## The machine -/

def init (n : Nat) : State n where
  threads _ := .free
  lock := none
  queue := []
  parked := false
  task := .runnable .start
  file := []

def enabled {n : Nat} (s : State n) : Label n → Prop
  | .call t _ _ => s.threads t = .free ∧ s.polls t = false
  | .acquire t level message _ => s.threads t = .locking level message ∧ s.lock = none
  | .send t line => s.threads t = .holding line
  | .flushed t => s.threads t = .flushing ∧ s.parked = false
  | .run w p => s.task = .runnable p ∧ s.threads (.worker w) = .free
  | .yield w p => s.task = .running w p ∧ p.yields.isSome = true
  | .wake p => s.task = .offThread p
  | .opened w _ => s.task = .running w .opening
  | .receive w line => s.task = .running w .receiving ∧ s.queue.head? = some line
  | .sleep w => s.task = .running w .receiving ∧ s.queue = []
  | .written w line _ => s.task = .running w (.writing line)

instance {n : Nat} (s : State n) (l : Label n) : Decidable (enabled s l) := by
  cases l <;> unfold enabled <;> infer_instance

def next {n : Nat} (s : State n) : Label n → State n
  | .call t level message => s.setThread t (.locking level message)
  | .acquire t level message time =>
      { s.setThread t (.holding (line level time message)) with lock := some t }
  | .send t line =>
      if s.task = .ended then
        -- The receiver is gone: `send` returns at once.
        { s.setThread t .free with lock := none }
      else
        let s := { s with queue := s.queue ++ [line], task := s.task.notified }
        if bound < s.queue.length then { s.setThread t .flushing with parked := true }
        else { s.setThread t .free with lock := none }
  | .flushed t => { s.setThread t .free with lock := none }
  | .run w p => { s with task := .running w p }
  | .yield _ p =>
      { s with
        task := match p.yields with
          | some p => .offThread p
          | none => s.task }
  | .wake p => { s with task := .runnable p }
  | .opened w ok =>
      if ok then { s with task := .running w .receiving }
      else
        -- The task panics, and the receiver is dropped with it.
        { s with task := .ended, queue := [], parked := false }
  | .receive w line =>
      { s with task := .running w (.writing line), queue := s.queue.tail, parked := false }
  | .sleep _ => { s with task := .waiting }
  | .written w line ok =>
      { s with
        task := .running w .receiving
        file := if ok then s.file ++ [line] else s.file }

def machine (n : Nat) : Machine (State n) (Label n) :=
  ⟨init n, enabled, next⟩

instance {n : Nat} (s : State n) (l : Label n) : Decidable ((machine n).enabled s l) :=
  inferInstanceAs (Decidable (enabled s l))

end WebSshTool.Logging
