import Mathlib.Data.Finset.Basic
import WebSshTool.Lib.Machine

/-!
# One authentication at a time

`on_request_authenticate::handle_request` lets the attempts of one username
through `authenticate_password` one after another. `authenticate_queues` maps
a username to a `Weak` pointer at a shared `mpsc::Sender` with capacity zero;
whoever finds the pointer dead creates a new channel and spawns the task that
reads it. An attempt hands the receiving half of a oneshot to the channel and
goes on once its send completes. The task takes one such receiver at a time
and waits for its sender, `complete_authenticate`, to be used or dropped.

The steps are those of an attempt up to the end of its async block and those
of the queue tasks. The body of `authenticate_queues.lock().await` has no
await in it, so taking a queue and cleaning one up are one step each. A send
on the single sender of a channel of capacity zero stores its item at once and
completes when the receiver has taken it. On an error the block's locals go in
reverse order of declaration: first the attempt's clone of the `Arc`, then
`complete_authenticate`.
-/

namespace WebSshTool.SignIn.Queue

abbrev AttemptId := Nat

abbrev QueueId := Nat

/-- Where an attempt stands. -/
inductive Attempt (υ : Type*) where
  | idle
  /-- Connected to the ssh server; about to lock `authenticate_queues`. -/
  | connected (username : υ)
  /-- Has a queue; in `authenticate_queue.lock().await`. -/
  | queued (username : υ) (q : QueueId)
  /-- Has the sender; in `send(rx).await`. -/
  | sending (username : υ) (q : QueueId)
  /-- In `session.authenticate_password(..).await`. -/
  | authenticating (username : υ) (q : QueueId)
  /-- Wrong password: in `sleep(Duration::from_secs(5)).await`. -/
  | penalized (username : υ) (q : QueueId)
  /-- In `tokio::task::yield_now().await`. -/
  | yielding (username : υ) (q : QueueId)
  /-- Returning an error; its locals are still there. -/
  | returning (username : υ) (q : QueueId)
  /-- Its clone of the `Arc` is gone, `complete_authenticate` is not. -/
  | dropping (username : υ)
  | failed
  /-- `complete_authenticate.send(())` is done; goes on to draw a token. -/
  | accepted (username : υ) (q : QueueId)
  | finished
  deriving DecidableEq, Repr

/-- Where the task of a queue stands. -/
inductive QueueTask (υ : Type*) where
  | absent
  /-- In `r.next().await`. -/
  | receiving (name : υ)
  /-- In `rx.await`, on the receiver an attempt handed over. -/
  | awaiting (name : υ) (a : AttemptId)
  /-- Every sender is gone; about to clean up. -/
  | closing (name : υ)
  | ended (name : υ)
  deriving DecidableEq, Repr

structure State (υ : Type*) where
  attempts : AttemptId → Attempt υ
  authenticateQueues : υ → Option QueueId
  tasks : QueueId → QueueTask υ
  /-- The attempts that keep a clone of the queue's `Arc`. -/
  owners : QueueId → Finset AttemptId
  /-- Who has locked the queue's sender. -/
  senders : QueueId → Option AttemptId
  /-- The item in the queue's channel, named by the attempt that sent it. -/
  slots : QueueId → Option AttemptId

inductive Label (υ : Type*) where
  | connect (a : AttemptId) (username : υ)
  | upgrade (a : AttemptId) (username : υ) (q : QueueId)
  | create (a : AttemptId) (username : υ) (q : QueueId)
  | lockSender (a : AttemptId) (username : υ) (q : QueueId)
  | sent (a : AttemptId) (username : υ) (q : QueueId)
  | accept (a : AttemptId) (username : υ) (q : QueueId)
  | reject (a : AttemptId) (username : υ) (q : QueueId)
  | error (a : AttemptId) (username : υ) (q : QueueId)
  | penaltyOver (a : AttemptId) (username : υ) (q : QueueId)
  | yielded (a : AttemptId) (username : υ) (q : QueueId)
  | dropQueue (a : AttemptId) (username : υ) (q : QueueId)
  | dropComplete (a : AttemptId) (username : υ)
  | leave (a : AttemptId) (username : υ) (q : QueueId)
  | pop (q : QueueId) (name : υ) (a : AttemptId)
  | resolved (q : QueueId) (name : υ) (a : AttemptId)
  | closed (q : QueueId) (name : υ)
  | cleanup (q : QueueId) (name : υ)
  deriving DecidableEq, Repr

namespace Attempt

variable {υ : Type*}

/-- The queue an attempt keeps a clone of, with the username it is for. -/
def queue? : Attempt υ → Option (υ × QueueId)
  | .queued n q | .sending n q | .authenticating n q | .penalized n q
  | .yielding n q | .returning n q | .accepted n q => some (n, q)
  | _ => none

/-- Between the start of `authenticate_password` and the use or the drop of
`complete_authenticate`: the username that is being authenticated. -/
def uncompleted? : Attempt υ → Option υ
  | .authenticating n _ | .penalized n _ | .yielding n _ | .returning n _
  | .dropping n => some n
  | _ => none

/-- The same span, cut off where the attempt, on its way out, lets go of its
queue. -/
def served? : Attempt υ → Option (υ × QueueId)
  | .authenticating n q | .penalized n q | .yielding n q | .returning n q =>
      some (n, q)
  | _ => none

/-- `complete_authenticate` has been used or dropped. -/
def completed : Attempt υ → Bool
  | .accepted _ _ | .finished | .failed => true
  | _ => false

/-- The username of an attempt that has connected and not yet ended. -/
def inProgress? : Attempt υ → Option υ
  | .idle | .failed | .finished => none
  | .connected n | .dropping n => some n
  | .queued n _ | .sending n _ | .authenticating n _ | .penalized n _
  | .yielding n _ | .returning n _ | .accepted n _ => some n

end Attempt

namespace QueueTask

variable {υ : Type*}

/-- The name a queue task was spawned with. -/
def name? : QueueTask υ → Option υ
  | .absent => none
  | .receiving n | .awaiting n _ | .closing n | .ended n => some n

/-- The task still reads its channel. -/
def reading : QueueTask υ → Bool
  | .receiving _ | .awaiting _ _ => true
  | _ => false

end QueueTask

namespace State

variable {υ : Type*}

def setAttempt (s : State υ) (a : AttemptId) (p : Attempt υ) : State υ :=
  { s with attempts := Function.update s.attempts a p }

def setTask (s : State υ) (q : QueueId) (t : QueueTask υ) : State υ :=
  { s with tasks := Function.update s.tasks q t }

/-- `lock.get(&name)` finds nothing, or a pointer that does not upgrade. -/
def dead (s : State υ) (name : υ) : Prop :=
  ∀ q ∈ s.authenticateQueues name, s.owners q = ∅

instance (s : State υ) (name : υ) : Decidable (s.dead name) := by
  unfold dead
  infer_instance

end State

/-! ## The machine -/

variable {υ : Type*}

def init : State υ where
  attempts _ := .idle
  authenticateQueues _ := none
  tasks _ := .absent
  owners _ := ∅
  senders _ := none
  slots _ := none

def enabled (s : State υ) : Label υ → Prop
  | .connect a _ => s.attempts a = .idle
  | .upgrade a n q =>
      s.attempts a = .connected n ∧ s.authenticateQueues n = some q ∧ s.owners q ≠ ∅
  | .create a n q =>
      s.attempts a = .connected n ∧ s.dead n ∧ s.tasks q = .absent
  | .lockSender a n q => s.attempts a = .queued n q ∧ s.senders q = none
  | .sent a n q => s.attempts a = .sending n q ∧ s.slots q ≠ some a
  | .accept a n q | .reject a n q | .error a n q =>
      s.attempts a = .authenticating n q
  | .penaltyOver a n q => s.attempts a = .penalized n q
  | .yielded a n q => s.attempts a = .yielding n q
  | .dropQueue a n q => s.attempts a = .returning n q
  | .dropComplete a n => s.attempts a = .dropping n
  | .leave a n q => s.attempts a = .accepted n q
  | .pop q n a => s.tasks q = .receiving n ∧ s.slots q = some a
  | .resolved q n a => s.tasks q = .awaiting n a ∧ (s.attempts a).completed = true
  | .closed q n => s.tasks q = .receiving n ∧ s.slots q = none ∧ s.owners q = ∅
  | .cleanup q n => s.tasks q = .closing n

variable [DecidableEq υ]

instance (s : State υ) (l : Label υ) : Decidable (enabled s l) := by
  cases l <;> unfold enabled <;> infer_instance

def next (s : State υ) : Label υ → State υ
  | .connect a n => s.setAttempt a (.connected n)
  | .upgrade a n q =>
      { s.setAttempt a (.queued n q) with
        owners := Function.update s.owners q (insert a (s.owners q)) }
  | .create a n q =>
      { (s.setAttempt a (.queued n q)).setTask q (.receiving n) with
        owners := Function.update s.owners q {a}
        authenticateQueues := Function.update s.authenticateQueues n (some q) }
  | .lockSender a n q =>
      { s.setAttempt a (.sending n q) with
        senders := Function.update s.senders q (some a)
        slots := Function.update s.slots q (some a) }
  | .sent a n q =>
      { s.setAttempt a (.authenticating n q) with
        senders := Function.update s.senders q none }
  | .accept a n q => s.setAttempt a (.accepted n q)
  | .reject a n q => s.setAttempt a (.penalized n q)
  | .error a n q => s.setAttempt a (.returning n q)
  | .penaltyOver a n q => s.setAttempt a (.yielding n q)
  | .yielded a n q => s.setAttempt a (.returning n q)
  | .dropQueue a n q =>
      { s.setAttempt a (.dropping n) with
        owners := Function.update s.owners q ((s.owners q).erase a) }
  | .dropComplete a _ => s.setAttempt a .failed
  | .leave a _ q =>
      { s.setAttempt a .finished with
        owners := Function.update s.owners q ((s.owners q).erase a) }
  | .pop q n a =>
      { s.setTask q (.awaiting n a) with slots := Function.update s.slots q none }
  | .resolved q n _ => s.setTask q (.receiving n)
  | .closed q n => s.setTask q (.closing n)
  | .cleanup q n =>
      -- `if let Some(sender) = lock.get(&name)`, removed when it does not upgrade
      if s.dead n then
        { s.setTask q (.ended n) with
          authenticateQueues := Function.update s.authenticateQueues n none }
      else s.setTask q (.ended n)

/-- The attempts of all users and the queue tasks of one server. -/
def machine : Machine (State υ) (Label υ) := ⟨init, enabled, next⟩

instance (s : State υ) (l : Label υ) : Decidable (machine.enabled s l) :=
  inferInstanceAs (Decidable (enabled s l))

end WebSshTool.SignIn.Queue
