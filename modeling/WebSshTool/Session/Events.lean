import WebSshTool.Session.ShellMap

/-!
# What the browser is told of a shell

The task of a shell sends one event for each piece of data the SSH channel
gives it, and one more that the shell is closed. Data can only be sent on
from inside the loop, and the last event is sent behind it, so the order is
never in question. What is in question is whether the task gets behind the
loop: it leaves through `break` when the browser or the channel ends the
shell, but a failure to send input to the channel returns from the function,
and then nothing tells the browser.

`Relays` leaves out that failure, in runs in which the browser's event channel
takes every event. It is exact: the failure always costs the last event.
-/

namespace WebSshTool.Session

open Json

/-- What the task has read from the channel and is about to send on. -/
def PollTask.underway : PollTask → List (List Nat)
  | .forwarding bytes => [bytes]
  | _ => []

/-- The events sent for a shell are its data, piece by piece, and once its
task has ended they are all of it and then that it is closed. -/
def Shell.Faithful (c : Shell) : Prop :=
  (c.task ≠ .ended →
    c.emitted ++ c.task.underway.map .data = c.received.map .data) ∧
  (c.task = .ended → c.emitted = c.received.map .data ++ [.close])

def State.Faithful (s : State) : Prop :=
  ∀ n < s.opened, (s.channel n).Faithful

/-- The browser's event channel is open: it takes what is sent to it. -/
def EventsOpen : Label → Prop
  | .forwardFailed _ _ => False
  | .closeForwarded _ taken => taken = true
  | _ => True

/-- No input failed to be sent on to the SSH channel. -/
def InputTaken : Label → Prop
  | .sendFailed _ _ => False
  | _ => True

/-- What a step must be so that the events of a shell stay faithful to it. -/
def Relays (_ : State) (l : Label) : Prop := EventsOpen l ∧ InputTaken l

instance (l : Label) : Decidable (EventsOpen l) := by
  induction l using Label.casesOn <;> unfold EventsOpen <;> infer_instance

instance (l : Label) : Decidable (InputTaken l) := by
  induction l using Label.casesOn <;> unfold InputTaken <;> infer_instance

instance (s : State) (l : Label) : Decidable (Relays s l) :=
  inferInstanceAs (Decidable (_ ∧ _))

/-- While the task is at none of the events, all there was has been sent. -/
theorem Shell.Faithful.emitted {c : Shell} (h : c.Faithful)
    (hne : c.task ≠ .ended) (hu : c.task.underway = []) :
    c.emitted = c.received.map .data := by
  have hrun := h.1 hne
  rwa [hu, List.map_nil, List.append_nil] at hrun

/-- A shell whose task goes on, with no event under way before or after. -/
theorem Shell.Faithful.keep {c c' : Shell} (h : c.Faithful)
    (hne : c.task ≠ .ended) (hu : c.task.underway = [])
    (hne' : c'.task ≠ .ended) (hu' : c'.task.underway = [])
    (hr : c'.received = c.received) (he : c'.emitted = c.emitted) :
    c'.Faithful := by
  constructor
  · intro _
    rw [hu', hr, he, h.emitted hne hu, List.map_nil, List.append_nil]
  · intro hended
    exact absurd hended hne'

theorem TaskStep.faithful {n : Nat} {c c' : Shell} {l : Label}
    (hstep : TaskStep n c l c') (h : c.Faithful) {s : State}
    (hl : Relays s l) : c'.Faithful := by
  cases hstep with
  | popped ht _ | hungUp ht | channelEnded ht | handed ht =>
      exact h.keep (by rw [ht]; simp) (by rw [ht]; rfl) (by simp) rfl rfl rfl
  | sendFailed ht => exact hl.2.elim
  | output ht =>
      constructor
      · intro _
        show c.emitted ++ [ShellEvent.data _] = (c.received ++ [_]).map .data
        rw [List.map_append, h.emitted (by rw [ht]; simp) (by rw [ht]; rfl)]
        rfl
      · intro hended
        cases hended
  | forwarded ht =>
      constructor
      · intro _
        have hrun := h.1 (by rw [ht]; simp)
        rw [ht] at hrun
        show (c.emitted ++ [ShellEvent.data _]) ++ [] = c.received.map .data
        rw [List.append_nil]
        exact hrun
      · intro hended
        cases hended
  | forwardFailed ht => exact hl.1.elim
  | closeForwarded ht =>
      constructor
      · intro hne
        exact absurd rfl hne
      · intro _
        obtain rfl := hl.1
        show c.emitted ++ [ShellEvent.close] = c.received.map .data ++ [.close]
        rw [h.emitted (by rw [ht]; simp) (by rw [ht]; rfl)]

theorem ShellStep.faithful {s : State} {n : Nat} {l : Label} {c : Shell}
    (hstep : ShellStep s n l c) (h : (s.channel n).Faithful)
    (hn : n < s.opened) (hl : Relays s l) : c.Faithful := by
  cases hstep with
  | stay => exact h
  | fresh hfresh => omega
  | close | put => exact h
  | task ht => exact ht.faithful h hl

theorem next_opened (s : State) (l : Label) :
    (next s l).opened = s.opened ∨ ∃ a id, l = .opened a id true ∧
      (next s l).opened = s.opened + 1 := by
  cases l with
  | opened a id ok =>
      cases ok with
      | true => exact .inr ⟨a, id, rfl, rfl⟩
      | false => exact .inl rfl
  | start =>
      left
      simp only [next]
      split
      · rfl
      · split <;> rfl
  | lock a =>
      left
      simp only [next, State.handle]
      split
      · split <;> rfl
      · split <;> rfl
      · split <;> rfl
      · rfl
      · rfl
  | put a n messages =>
      left
      simp only [next]
      split
      · rfl
      · split <;> rfl
  | _ => exact .inl rfl

theorem fresh_faithful (id : Text) (openedBy : Nat) :
    (Shell.fresh id openedBy).Faithful :=
  ⟨fun _ => rfl, fun hended => by cases hended⟩

theorem next_faithful {s : State} {l : Label} (h : s.Faithful)
    (hen : enabled s l) (hl : Relays s l) : (next s l).Faithful := by
  intro n hn
  by_cases hold : n < s.opened
  · exact (next_channel hen n).faithful (h n hold) hold hl
  · -- The shell that this step has opened.
    rcases next_opened s l with hsame | ⟨a, id, rfl, hone⟩
    · rw [hsame] at hn
      exact absurd hn hold
    · obtain rfl : n = s.opened := by omega
      have hfresh : (next s (.opened a id true)).channel s.opened =
          .fresh id a.number := Function.update_self ..
      rw [hfresh]
      exact fresh_faithful id a.number

theorem reaches_faithful {s : State} (hs : machine.Reaches Relays s) :
    s.Faithful := by
  refine hs.invariant (I := State.Faithful) ?_ ?_
  · intro n hn
    exact absurd hn (Nat.not_lt_zero n)
  · intro s l _ h hen hl
    exact next_faithful h hen hl

/-- A failure to send input on ends the task without the last event. -/
theorem not_faithful_sendFailed {s : State} {n : Nat} {m : PollChannelData}
    (hw : Wired s) (h : s.Faithful) (ht : (s.channel n).task = .sending m) :
    ¬ (next s (.sendFailed n m)).Faithful := by
  intro hnext
  have hne : (s.channel n).task ≠ .ended := by rw [ht]; simp
  have hn := hw.lt_opened hne
  have hend : (next s (.sendFailed n m)).channel n = (s.channel n).ending :=
    Function.update_self ..
  have hlast := (hnext n hn).2 (by rw [hend]; rfl)
  rw [hend] at hlast
  have hsent := (h n hn).emitted hne (by rw [ht]; rfl)
  rw [show (s.channel n).ending.emitted = (s.channel n).emitted from rfl, hsent] at hlast
  have hlen := congrArg List.length hlast
  simp [Shell.ending] at hlen

/-- In every run in which the browser's event channel is open and no input
fails to be sent on, the events of every shell are its data and, once its
task has ended, its close; and from such a run a step with the event channel
open keeps that up if and only if it is no such failure. -/
theorem events_faithful {s : State} (hs : machine.Reaches Relays s) :
    s.Faithful ∧ ∀ l, enabled s l → EventsOpen l →
      (Relays s l ↔ (next s l).Faithful) := by
  have h := reaches_faithful hs
  refine ⟨h, fun l hen hopen => ⟨next_faithful h hen, fun hnext => ⟨hopen, ?_⟩⟩⟩
  cases l with
  | sendFailed n m =>
      exact not_faithful_sendFailed (reachable_wired hs.reachable) h hen hnext
  | _ => trivial

/-- Shell `1` is opened, prints and is given a key. -/
def keyRun : List Label :=
  [.arrive (some (.obj [(ofString "shell", .str [0x31])])), .start,
    .lock ⟨0, some (.start [0x31])⟩, .opened ⟨0, some (.start [0x31])⟩ [0x31] true,
    .output 0 [36, 32], .forwarded 0 [36, 32],
    .arrive (some (.obj [(ofString "shell",
      .obj [(ofString "id", .str [0x31]), (ofString "data", .str [0x61])])])),
    .start, .lock ⟨1, some (.input [0x31] [.string [0x61]])⟩,
    .put ⟨1, some (.input [0x31] [.string [0x61]])⟩ 0 [.string [0x61]],
    .popped 0 (.string [0x61])]

/-- It takes the key, prints again and exits. -/
def exitRun : List Label :=
  keyRun ++ [.handed 0 (.string [0x61]), .output 0 [0x61], .forwarded 0 [0x61],
    .channelEnded 0, .closeForwarded 0 true]

theorem events_faithful_exit :
    ((exitRun.foldl next State.init).channel 0).emitted =
      [.data [36, 32], .data [0x61], .close] ∧
    (exitRun.foldl next State.init).Faithful := by
  have hs : machine.Reaches Relays (exitRun.foldl next State.init) :=
    Machine.reaches_of_path (M := machine) (by decide)
  exact ⟨by decide, (events_faithful hs).1⟩

/-- Its SSH channel does not take the key. -/
def deadRun : List Label := keyRun ++ [.sendFailed 0 (.string [0x61])]

theorem events_unclosed : ¬ ∀ s : State,
    machine.Reaches (fun _ l => EventsOpen l) s → s.Faithful := by
  intro h
  have hs : machine.Reaches (fun _ l => EventsOpen l) (deadRun.foldl next State.init) :=
    Machine.reaches_of_path (M := machine) (by decide)
  exact absurd ((h _ hs 0 (by decide)).2 (by decide)) (by decide)

end WebSshTool.Session
