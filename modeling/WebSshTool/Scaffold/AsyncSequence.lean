import Mathlib.Logic.Function.Basic
import WebSshTool.Lib.Sequencer

/-!
# AsyncSequence

The tasks that are posted go into `_fns`, each in a wrapper that settles the
promise of `post`, or none, and never rejects itself. Every post calls `_run`,
which returns at once where a loop is running and is the loop where none is.
The loop shifts a wrapper, calls it and awaits its promise.

Up to its first `await` a task runs inside the loop's call, and whatever it
posts or clears there happens on top of it: the calls in progress are a stack.
All code of others starts with nothing on it, and so does the loop when it goes
on behind its `await`. A step is one statement, or one event for the promises.
Nothing here says that there is one loop.
-/

namespace WebSshTool.Scaffold

open Sequencer (JobId)

/-- Where `_run` stands. -/
inductive Point where
  /-- Before `if (this._running) return`. -/
  | guard
  /-- Before `this._running = true`. -/
  | set
  /-- Before `this._fns.shift()`. -/
  | shift
  /-- In `p()`, with the code of the task. -/
  | calling (n : JobId)
  /-- `p()` has returned, before the `await`. -/
  | await (n : JobId)
  /-- Behind `break`, before `this._running = false`. -/
  | reset
  deriving DecidableEq, Repr

/-- A synchronous call in progress. -/
inductive Frame where
  /-- The code of somebody: an event handler, or a task behind an `await`. -/
  | code
  /-- `post` or `postRaw` behind `push`, before `this._run()`. -/
  | post
  /-- `post` or `postRaw` in `this._run()`. -/
  | posted
  | run (p : Point)
  /-- `clear`, in its loop. -/
  | clear
  deriving DecidableEq, Repr

/-- How far the wrapper of a task is. -/
inductive Phase where
  | uncalled
  | running
  | settled
  deriving DecidableEq, Repr

/-- `ν` are the values that tasks return and throw. -/
structure State (ν : Type*) where
  fns : List JobId
  running : Bool
  posted : Nat
  /-- Posted with `postRaw`. -/
  raw : JobId → Bool
  phase : JobId → Phase
  /-- What the promise that `post` returned is settled with. -/
  promise : JobId → Option (Except ν ν)
  /-- The innermost call comes first. -/
  stack : List Frame
  /-- The loops that wait behind `await p()`, by the task of `p`. -/
  loops : List JobId

inductive Label (ν : Type*) where
  /-- Code of somebody starts, as an event or a microtask. -/
  | enter
  | leave
  | post (raw : Bool)
  | clear
  /-- The innermost call of `AsyncSequence` goes on by a statement. -/
  | step
  /-- The task gets to an `await`, or returns its promise. -/
  | suspend (n : JobId)
  /-- The task throws before any `await`. -/
  | throw (n : JobId) (error : ν)
  /-- The promise of the task settles, and the wrapper goes on to its end. -/
  | settle (n : JobId) (result : Except ν ν)
  /-- The loop goes on behind its `await`. -/
  | resume (n : JobId)
  deriving DecidableEq, Repr

/-- The code in this frame may call `post`, `postRaw` and `clear`. -/
def Frame.calls : Frame → Bool
  | .code | .run (.calling _) => true
  | .post | .posted | .clear | .run _ => false

variable {ν : Type*}

namespace State

def push (s : State ν) (f : Frame) : State ν := { s with stack := f :: s.stack }

/-- The innermost call goes on to `f`. -/
def goTo (s : State ν) (f : Frame) : State ν := { s with stack := f :: s.stack.tail }

def pop (s : State ν) : State ν := { s with stack := s.stack.tail }

/-- The end of the wrapper: `resolve(t)` or `reject(error)` for `post`. -/
def settle (s : State ν) (n : JobId) (result : Except ν ν) : State ν :=
  { s with
    phase := Function.update s.phase n .settled
    promise := if s.raw n then s.promise else Function.update s.promise n (some result) }

/-- The next statement of the innermost call. -/
def step (s : State ν) : State ν :=
  match s.stack.head? with
  | some .post => { s with stack := .run .guard :: .posted :: s.stack.tail }
  | some .posted => s.pop
  | some (.run .guard) => if s.running then s.pop else s.goTo (.run .set)
  | some (.run .set) => { s.goTo (.run .shift) with running := true }
  | some (.run .shift) =>
      match s.fns with
      | [] => s.goTo (.run .reset)
      | n :: fns =>
          { s.goTo (.run (.calling n)) with
            fns, phase := Function.update s.phase n .running }
  | some (.run (.await n)) => { s.pop with loops := s.loops ++ [n] }
  | some (.run .reset) => { s.pop with running := false }
  | some .clear => if s.fns = [] then s.pop else { s with fns := s.fns.dropLast }
  | some .code | some (.run (.calling _)) | none => s

end State

/-! ## The machine -/

def init : State ν where
  fns := []
  running := false
  posted := 0
  raw _ := false
  phase _ := .uncalled
  promise _ := none
  stack := []
  loops := []

def enabled (s : State ν) : Label ν → Prop
  | .enter => s.stack = []
  | .leave => s.stack.head? = some .code
  | .post _ | .clear => s.stack.head?.any Frame.calls = true
  | .step => s.stack.head?.any (!·.calls) = true
  | .suspend n | .throw n _ => s.stack.head? = some (.run (.calling n))
  | .settle n _ => s.stack = [] ∧ s.phase n = .running
  | .resume n => s.stack = [] ∧ n ∈ s.loops ∧ s.phase n = .settled

instance (s : State ν) (l : Label ν) : Decidable (enabled s l) := by
  induction l using Label.casesOn <;> unfold enabled <;> infer_instance

def next (s : State ν) : Label ν → State ν
  | .enter => s.push .code
  | .leave => s.pop
  | .post raw =>
      { s.push .post with
        fns := s.fns ++ [s.posted]
        posted := s.posted + 1
        raw := Function.update s.raw s.posted raw }
  | .clear => s.push .clear
  | .step => s.step
  | .suspend n => s.goTo (.run (.await n))
  | .throw n error => (s.settle n (.error error)).goTo (.run (.await n))
  | .settle n result => s.settle n result
  | .resume n => { s.push (.run .shift) with loops := s.loops.erase n }

def machine : Machine (State ν) (Label ν) := ⟨init, enabled, next⟩

instance (s : State ν) (l : Label ν) : Decidable (machine.enabled s l) :=
  inferInstanceAs (Decidable (enabled s l))

/-- What happens to the tasks in a step. A task is cleared where `clear` pops
it, and finished when its wrapper is. -/
def note (s : State ν) : Label ν → List Sequencer.Event
  | .post _ => [.posted s.posted]
  | .step =>
      match s.stack.head? with
      | some (.run .shift) => (s.fns.head?.map .started).toList
      | some .clear => (s.fns.getLast?.map .cleared).toList
      | _ => []
  | .throw n _ | .settle n _ => [.finished n]
  | .enter | .leave | .clear | .suspend _ | .resume _ => []

end WebSshTool.Scaffold
