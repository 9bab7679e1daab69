import Mathlib.Tactic.Common

/-!
# Bounded channels, as they are polled

A channel with one sender, which may be polled at any time and by anybody. It
takes one item more than its bound. That one parks the sender, and until the
receiver has taken an item again the channel is neither ready nor flushed.

`Send` is the future of a single `send`: it waits for the channel to be ready,
puts its item in, and waits for the channel to be flushed. What matters to its
owner is that the item is either still with the future or in the channel, in
its place, for as long as there is a receiver.
-/

namespace WebSshTool.Mpsc

inductive Poll (α : Type*) where
  | pending
  | ready (a : α)
  deriving DecidableEq, Repr

structure Channel (α : Type*) where
  bound : Nat
  queue : List α
  parked : Bool
  /-- The sender has not been dropped, and neither has the receiver. -/
  sender : Bool
  receiver : Bool
  deriving DecidableEq, Repr

namespace Channel

variable {α : Type*}

def new (bound : Nat) : Channel α := ⟨bound, [], false, true, true⟩

/-- What is ready is said to be `Ok` or not. -/
def pollReady (c : Channel α) : Poll Bool :=
  if c.receiver then if c.parked then .pending else .ready true else .ready false

def startSend (c : Channel α) (a : α) : Channel α × Bool :=
  if c.receiver then
    ({ c with queue := c.queue ++ [a], parked := decide (c.bound ≤ c.queue.length) }, true)
  else (c, false)

/-- Without a receiver there is nothing left to flush. -/
def pollFlush (c : Channel α) : Poll Bool :=
  if c.receiver && c.parked then .pending else .ready true

def pollNext (c : Channel α) : Channel α × Poll (Option α) :=
  match c.queue with
  | a :: rest => ({ c with queue := rest, parked := false }, .ready (some a))
  | [] => (c, if c.sender then .pending else .ready none)

def dropSender (c : Channel α) : Channel α := { c with sender := false }

def dropReceiver (c : Channel α) : Channel α :=
  { c with receiver := false, queue := [], parked := false }

@[simp] theorem dropReceiver_receiver (c : Channel α) : c.dropReceiver.receiver = false := rfl

theorem startSend_open {c : Channel α} (h : c.receiver = true) (a : α) :
    (c.startSend a).1.queue = c.queue ++ [a] ∧ (c.startSend a).1.receiver = true ∧
      (c.startSend a).2 = true := by
  simp [startSend, h]

theorem pollNext_some {c c' : Channel α} {a : α} (h : c.pollNext = (c', .ready (some a))) :
    c.queue = a :: c'.queue ∧ c'.receiver = c.receiver ∧ c'.sender = c.sender := by
  unfold pollNext at h
  split at h
  · next b rest hq =>
      obtain ⟨rfl, hb⟩ := Prod.mk.inj h
      obtain rfl : b = a := by simpa using hb
      exact ⟨hq, rfl, rfl⟩
  · obtain ⟨-, hb⟩ := Prod.mk.inj h
    split at hb <;> cases hb

end Channel

/-- Where a `send` stands. -/
inductive Send (α : Type*) where
  | feeding (a : α)
  | flushing
  deriving DecidableEq, Repr

namespace Send

variable {α : Type*}

/-- The item is still here. -/
def hand : Send α → List α
  | .feeding a => [a]
  | .flushing => []

def poll (c : Channel α) : Send α → Channel α × Send α × Poll Bool
  | .feeding a =>
      match c.pollReady with
      | .pending => (c, .feeding a, .pending)
      | .ready false => (c, .feeding a, .ready false)
      | .ready true =>
          match c.startSend a with
          | (c, true) => (c, .flushing, c.pollFlush)
          | (c, false) => (c, .feeding a, .ready false)
  | .flushing => (c, .flushing, c.pollFlush)

/-- With a receiver there, nothing gets lost or out of place, and a `send` that
is over has done its work. -/
theorem poll_open {c : Channel α} (h : c.receiver = true) (f : Send α) :
    (f.poll c).1.queue ++ (f.poll c).2.1.hand = c.queue ++ f.hand ∧
      (f.poll c).1.receiver = true ∧
      ∀ ok, (f.poll c).2.2 = .ready ok → ok = true ∧ (f.poll c).2.1.hand = [] := by
  cases f with
  | feeding a =>
      unfold poll
      cases hparked : c.parked with
      | true => simp [Channel.pollReady, h, hparked]
      | false =>
          simp only [Channel.pollReady, h, hparked, Channel.startSend, if_true,
            Bool.false_eq_true, if_false]
          refine ⟨by simp [hand], trivial, fun ok hok => ⟨?_, rfl⟩⟩
          unfold Channel.pollFlush at hok
          split at hok
          · cases hok
          · exact (Poll.ready.inj hok).symm
  | flushing =>
      refine ⟨rfl, h, fun ok hok => ⟨?_, rfl⟩⟩
      simp only [poll, Channel.pollFlush] at hok
      split at hok
      · cases hok
      · exact (Poll.ready.inj hok).symm

/-- Without one the channel stays as it is. -/
theorem poll_closed {c : Channel α} (h : c.receiver = false) (f : Send α) :
    (f.poll c).1 = c := by
  cases f with
  | feeding a => simp [poll, Channel.pollReady, h]
  | flushing => rfl

end Send

end WebSshTool.Mpsc
