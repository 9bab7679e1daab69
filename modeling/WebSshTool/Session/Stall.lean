import WebSshTool.Session.ShellMap

/-!
# What goes on around a shell that takes no more input

A shell whose task is inside `send_to_channel` may stay there for as long as
its program does not read. Nothing waits for it until input for it arrives:
the channel to the task holds one message, and the handler that has put one
in keeps the lock of `shells` until the task takes it out. From then on no
request about any shell gets the lock, and every handler that waits for it
takes one of the sixteen places of `for_each_concurrent`, in the end from the
requests that need no lock at all.

`State.Answerable` says from which states a further request can be answered
without the stalled task. The two ways it can be are built up here, as runs:
the handler with the lock finishes, responses are written, handlers with
nothing for the stalled shell take their turn, messages get a handler. That
there is no other way is the subject of the file after this one.
-/

namespace WebSshTool.Session

open Json

/-! ## The stalled task and those who wait for it -/

/-- The shell whose task takes the step. -/
def Label.taskOf : Label → Option Nat
  | .popped n _ | .hungUp n | .handed n _ | .sendFailed n _ | .output n _
  | .channelEnded n | .forwarded n _ | .forwardFailed n _
  | .closeForwarded n _ => some n
  | _ => none

/-- The task of shell `n` takes no step. -/
def Without (n : Nat) (_ : State) (l : Label) : Prop := l.taskOf ≠ some n

namespace State

/-- The task of shell `n` is in `send_to_channel`. -/
def Stalled (s : State) (n : Nat) : Prop := ∃ m, (s.channel n).task = .sending m

/-- The handler with the lock has a message for shell `n` that only the task
of `n` can take from it. -/
def Stuck (s : State) (n : Nat) : Prop :=
  match s.holder with
  | some (_, .sending k messages) => k = n ∧ messages ≠ []
  | some (_, .flushing k messages) =>
      k = n ∧ (messages ≠ [] ∨ (s.channel n).slot ≠ none)
  | _ => False

/-- A message with input for shell `n`. -/
def jams (s : State) (n : Nat) (a : Arrival) : Bool :=
  match a.command with
  | some (.input id messages) =>
      decide (s.shells id = some n) && !messages.isEmpty
  | _ => false

/-- A message that closes shell `n`. -/
def frees (s : State) (n : Nat) (a : Arrival) : Bool :=
  match a.command with
  | some (.close id) => decide (s.shells id = some n)
  | _ => false

/-- The response to a message has been written. -/
def Answered (s : State) (number : Nat) : Prop :=
  ∃ reply, (number, reply) ∈ s.replies

/-- Input for shell `n` leaves one of the sixteen places to others: a handler
that closes the shell waits for the lock already, or fewer than sixteen
messages with input wait for it or come before the first that closes it. -/
def Fits (s : State) (n : Nat) : Prop :=
  (∃ a ∈ s.locking, s.frees n a = true) ∨
    s.locking.countP (s.jams n) +
      (s.stream.takeWhile fun a => !s.frees n a).countP (s.jams n) < 16

/-- A further message can be answered while the task of shell `n` stands
still. Where a handler is stuck, it must not be about a shell, and find a
place that no handler of a shell request takes. -/
def Answerable (s : State) (n : Nat) (command : Option Command) : Prop :=
  (s.Stuck n → command = none ∧
    1 + s.locking.length + s.stream.countP (·.command.isSome) < 16) ∧
  (¬ s.Stuck n → s.Fits n)

end State

/-! ## Responses are written -/

/-- Nobody has the lock, and no handler is busy with anything else. -/
structure State.Calm (s : State) : Prop where
  holder : s.holder = none
  serving : s.serving = []
  replying : s.replying = []

theorem State.Calm.inFlight {s : State} (h : s.Calm) :
    s.inFlight = s.locking.length := by
  simp [State.inFlight, h.holder, h.serving, h.replying]

/-- The same shells and handlers, with these responses on their way. -/
def State.responses (s : State) (serving : List Arrival)
    (replying : List (Arrival × Reply)) (replies : List (Nat × Reply)) : State :=
  { s with serving, replying, replies }

/-- The state once every response has been written. -/
def State.drained (s : State) : State :=
  s.responses [] [] (s.replies ++ s.replying.map (fun p => (p.1.number, p.2)) ++
    s.serving.map fun a => (a.number, .other))

theorem leads_replied (n : Nat) (s : State) (serving : List Arrival)
    (replying : List (Arrival × Reply)) (replies : List (Nat × Reply)) :
    machine.Leads (Without n) (s.responses serving replying replies)
      (s.responses serving [] (replies ++ replying.map fun p => (p.1.number, p.2))) := by
  induction replying generalizing replies with
  | nil => rw [List.map_nil, List.append_nil]
  | cons p replying ih =>
      have hstep : machine.Leads (Without n)
          (s.responses serving (p :: replying) replies)
          (s.responses serving ((p :: replying).erase p)
            (replies ++ [(p.1.number, p.2)])) :=
        Machine.Leads.step (M := machine) (l := .replied p.1 p.2)
          (List.mem_cons_self ..) (by simp [Without, Label.taskOf])
      rw [List.erase_cons_head] at hstep
      have hrest := ih (replies ++ [(p.1.number, p.2)])
      rw [List.append_assoc, List.singleton_append] at hrest
      exact hstep.trans hrest

theorem leads_served (n : Nat) (s : State) (serving : List Arrival)
    (replies : List (Nat × Reply)) :
    machine.Leads (Without n) (s.responses serving [] replies)
      (s.responses [] [] (replies ++ serving.map fun a => (a.number, .other))) := by
  induction serving generalizing replies with
  | nil => rw [List.map_nil, List.append_nil]
  | cons a serving ih =>
      have hstep : machine.Leads (Without n)
          (s.responses (a :: serving) [] replies)
          (s.responses ((a :: serving).erase a) [(a, .other)] replies) :=
        Machine.Leads.step (M := machine) (l := .served a)
          (List.mem_cons_self ..) (by simp [Without, Label.taskOf])
      rw [List.erase_cons_head] at hstep
      have hreplied := leads_replied n s serving [(a, .other)] replies
      have hrest := ih (replies ++ [(a.number, .other)])
      rw [List.append_assoc, List.singleton_append] at hrest
      exact hstep.trans (hreplied.trans hrest)

theorem leads_drained (n : Nat) (s : State) :
    machine.Leads (Without n) s s.drained :=
  (leads_replied n s s.serving s.replying s.replies).trans
    (leads_served n s s.serving _)

/-! ## The handler with the lock finishes -/

theorem ShellStep.ended_empty {s : State} {n : Nat} {l : Label} {c : Shell}
    (h : ShellStep s n l c)
    (hempty : (s.channel n).task = .ended → (s.channel n).slot = none)
    (ht : c.task = .ended) : c.slot = none := by
  cases h with
  | stay | close => exact hempty ht
  | fresh => rfl
  | put hne => exact absurd ht hne
  | task htask =>
      cases htask with
      | sendFailed | forwardFailed | closeForwarded => rfl
      | _ => cases ht

/-- A shell whose task has ended has nothing in its channel. -/
theorem reachable_ended_empty {s : State} (hs : machine.Reachable s) (n : Nat)
    (ht : (s.channel n).task = .ended) : (s.channel n).slot = none := by
  revert n
  refine hs.invariant (I := fun s => ∀ n, (s.channel n).task = .ended →
    (s.channel n).slot = none) ?_ ?_
  · intro n _
    rfl
  · intro s l _ h hen _ n ht
    exact (next_channel hen n).ended_empty (h n) ht

/-- The task of another shell takes the message out of its channel. -/
theorem leads_emptied {n k : Nat} (hk : k ≠ n) (s : State)
    (hended : (s.channel k).task = .ended → (s.channel k).slot = none) :
    ∃ c : Shell, c.slot = none ∧
      machine.Leads (Without n) s (s.setShell k c) := by
  have hother : ∀ {t : State} {l : Label}, l.taskOf = some k → enabled t l →
      machine.Leads (Without n) t (next t l) := by
    intro t l hl hen
    refine Machine.Leads.step hen ?_
    rw [Without, hl]
    simpa using hk
  have hpop : ∀ {t : State}, (t.channel k).task = .selecting →
      ∃ c : Shell, c.slot = none ∧ machine.Leads (Without n) t (t.setShell k c) := by
    intro t ht
    cases hslot : (t.channel k).slot with
    | none =>
        refine ⟨t.channel k, hslot, ?_⟩
        rw [State.setShell, Function.update_eq_self]
    | some m =>
        exact ⟨_, rfl, hother (l := .popped k m) rfl ⟨ht, hslot⟩⟩
  have hback : ∀ {l : Label} {d : Shell}, l.taskOf = some k → enabled s l →
      next s l = s.setShell k d → d.task = .selecting →
      ∃ c : Shell, c.slot = none ∧ machine.Leads (Without n) s (s.setShell k c) := by
    intro l d hl hen hnext hd
    have hstep := hother hl hen
    rw [hnext] at hstep
    obtain ⟨c, hc, hlead⟩ := hpop (t := s.setShell k d)
      (by show (Function.update s.channel k d k).task = _; rw [Function.update_self, hd])
    refine ⟨c, hc, hstep.trans ?_⟩
    rwa [State.setShell, State.setShell, Function.update_idem] at hlead
  cases ht : (s.channel k).task with
  | selecting => exact hpop ht
  | sending m => exact hback (l := .handed k m) rfl ht rfl rfl
  | forwarding bytes => exact hback (l := .forwarded k bytes) rfl ht rfl rfl
  | closing => exact ⟨_, rfl, hother (l := .closeForwarded k true) rfl ht⟩
  | ended =>
      refine ⟨s.channel k, hended ht, ?_⟩
      rw [State.setShell, Function.update_eq_self]

/-- The same session with this handler at the lock and these shells. -/
def State.holding (s : State) (holder : Option (Arrival × Holding))
    (channel : Nat → Shell) : State :=
  { s with holder, channel }

@[simp] theorem State.holding_channel (s : State)
    (holder : Option (Arrival × Holding)) (channel : Nat → Shell) :
    (s.holding holder channel).channel = channel := rfl

/-- A handler has finished, with the response it leaves and what has become
of the shells meanwhile. -/
def State.finishes (s : State) (a : Arrival) (reply : Reply)
    (channel : Nat → Shell) : State :=
  { s with holder := none, channel, replying := s.replying ++ [(a, reply)] }

theorem leads_sent {n k : Nat} (hk : k ≠ n) (s : State) (a : Arrival)
    (messages : List PollChannelData) (channel : Nat → Shell) :
    ∃ reply channel', channel' n = channel n ∧ machine.Leads (Without n)
      (s.holding (some (a, .sending k messages)) channel)
      (s.finishes a reply channel') := by
  induction messages generalizing channel with
  | nil =>
      exact ⟨.null, channel, rfl, Machine.Leads.step (M := machine)
        (l := .put a k []) rfl (by simp [Without, Label.taskOf])⟩
  | cons m messages ih =>
      have hput : machine.Leads (Without n)
          (s.holding (some (a, .sending k (m :: messages))) channel)
          (machine.next (s.holding (some (a, .sending k (m :: messages))) channel)
            (.put a k (m :: messages))) :=
        Machine.Leads.step (M := machine) rfl (by simp [Without, Label.taskOf])
      by_cases ht : (channel k).task = .ended
      · have hnext : machine.next
            (s.holding (some (a, .sending k (m :: messages))) channel)
            (.put a k (m :: messages)) = s.finishes a .internalError channel :=
          if_pos ht
        rw [hnext] at hput
        exact ⟨.internalError, channel, rfl, hput⟩
      · have hnext : machine.next
            (s.holding (some (a, .sending k (m :: messages))) channel)
            (.put a k (m :: messages)) = s.holding (some (a, .flushing k messages))
              (Function.update channel k { channel k with slot := some m }) :=
          if_neg ht
        rw [hnext] at hput
        obtain ⟨c, hc, hempty⟩ := leads_emptied hk
          (s.holding (some (a, .flushing k messages))
            (Function.update channel k { channel k with slot := some m }))
          (by
            intro hended
            rw [State.holding_channel, Function.update_self] at hended
            exact absurd hended ht)
        rw [show State.setShell _ k c = s.holding (some (a, .flushing k messages))
          (Function.update (Function.update channel k _) k c) from rfl,
          Function.update_idem] at hempty
        have hflushed : machine.Leads (Without n)
            (s.holding (some (a, .flushing k messages)) (Function.update channel k c))
            (machine.next
              (s.holding (some (a, .flushing k messages)) (Function.update channel k c))
              (.flushed a k messages)) :=
          Machine.Leads.step (M := machine)
            ⟨rfl, by rw [State.holding_channel, Function.update_self, hc]⟩
            (by simp [Without, Label.taskOf])
        obtain ⟨reply, channel', hn, hrest⟩ := ih (Function.update channel k c)
        refine ⟨reply, channel', ?_, hput.trans (hempty.trans (hflushed.trans hrest))⟩
        rw [hn, Function.update_of_ne hk.symm]

/-- A handler that is not stuck on shell `n` finishes without its task. -/
theorem leads_finished {s : State} {n : Nat} (hnot : ¬ s.Stuck n)
    (hempty : ∀ k, (s.channel k).task = .ended → (s.channel k).slot = none)
    {a : Arrival} {h : Holding} (hh : s.holder = some (a, h)) :
    ∃ reply channel, channel n = s.channel n ∧
      machine.Leads (Without n) s (s.finishes a reply channel) := by
  have hself : s = s.holding (some (a, h)) s.channel := by
    rw [← hh]
    rfl
  have hflush : ∀ {k : Nat} {messages : List PollChannelData} {channel : Nat → Shell},
      (channel k).slot = none →
      machine.Leads (Without n) (s.holding (some (a, .flushing k messages)) channel)
        (s.holding (some (a, .sending k messages)) channel) := by
    intro k messages channel hslot
    exact Machine.Leads.step (M := machine) (l := .flushed a k messages) ⟨rfl, hslot⟩
      (by simp [Without, Label.taskOf])
  cases h with
  | opening id =>
      refine ⟨.internalError, s.channel, rfl, ?_⟩
      exact Machine.Leads.step (M := machine) (l := .opened a id false) hh
        (by simp [Without, Label.taskOf])
  | sending k messages =>
      by_cases hk : k = n
      · have hnil : messages = [] := by
          by_contra hne
          simp [State.Stuck, hh, hk, hne] at hnot
        subst hnil
        refine ⟨.null, s.channel, rfl, ?_⟩
        exact Machine.Leads.step (M := machine) (l := .put a k []) hh
          (by simp [Without, Label.taskOf])
      · rw [hself]
        exact leads_sent hk s a messages s.channel
  | flushing k messages =>
      by_cases hk : k = n
      · simp only [State.Stuck, hh, hk, true_and, not_or, not_not] at hnot
        obtain ⟨rfl, hslot⟩ := hnot
        refine ⟨.null, s.channel, rfl, ?_⟩
        rw [hself, hk]
        refine (hflush hslot).trans ?_
        exact Machine.Leads.step (M := machine) (l := .put a n []) rfl
          (by simp [Without, Label.taskOf])
      · obtain ⟨c, hc, hlead⟩ := leads_emptied hk s (hempty k)
        obtain ⟨reply, channel, hn, hrest⟩ :=
          leads_sent hk s a messages (Function.update s.channel k c)
        refine ⟨reply, channel, ?_, hlead.trans ((?_ : machine.Leads _ _ _).trans hrest)⟩
        · rw [hn, Function.update_of_ne (Ne.symm hk)]
        · have hstate : s.setShell k c = s.holding
              (some (a, .flushing k messages)) (Function.update s.channel k c) := by
            rw [← hh]
            rfl
          rw [hstate]
          exact hflush (by rw [Function.update_self, hc])

/-! ## A handler takes its turn -/

/-- What a turn at the lock can do to the place of shell `n` in the map. -/
def State.KeepsOrFrees (s : State) (n : Nat) (a : Arrival)
    (shells : Text → Option Nat) : Prop :=
  (s.frees n a = false ∧ ∀ id, shells id = some n ↔ s.shells id = some n) ∨
    ∀ id, shells id ≠ some n

/-- A handler with no input for shell `n` gets the lock and finishes. -/
theorem leads_locked {s : State} {n : Nat} {a : Arrival}
    (hone : ∀ id id', s.shells id = some n → s.shells id' = some n → id = id')
    (hfree : s.holder = none) (ha : a ∈ s.locking) (hj : s.jams n a = false) :
    ∃ reply channel shells, s.KeepsOrFrees n a shells ∧
      machine.Leads (Without n) s
        (({ s with locking := s.locking.erase a, shells }).finishes a reply channel) := by
  have hlock : machine.Leads (Without n) s
      ({ s with locking := s.locking.erase a }.handle a) :=
    Machine.Leads.step (M := machine) (l := .lock a) ⟨ha, hfree⟩
      (by simp [Without, Label.taskOf])
  -- The steps from here on leave the map alone.
  have hkeep : s.frees n a = false → s.KeepsOrFrees n a s.shells :=
    fun hf => .inl ⟨hf, fun _ => Iff.rfl⟩
  have hnull : s.frees n a = false →
      { s with locking := s.locking.erase a }.handle a =
        { s with locking := s.locking.erase a }.respond a .null →
      ∃ reply channel shells, s.KeepsOrFrees n a shells ∧
        machine.Leads (Without n) s
          (({ s with locking := s.locking.erase a, shells }).finishes a reply channel) := by
    intro hf hnext
    rw [hnext] at hlock
    exact ⟨.null, s.channel, s.shells, hkeep hf, hlock⟩
  have hholds : s.frees n a = false → ∀ h, { s with locking := s.locking.erase a }.handle a =
      { s with locking := s.locking.erase a, holder := some (a, h) } →
      (∃ reply channel, machine.Leads (Without n)
        { s with locking := s.locking.erase a, holder := some (a, h) }
        (({ s with locking := s.locking.erase a }).finishes a reply channel)) →
      ∃ reply channel shells, s.KeepsOrFrees n a shells ∧
        machine.Leads (Without n) s
          (({ s with locking := s.locking.erase a, shells }).finishes a reply channel) := by
    intro hf h hnext hrest
    obtain ⟨reply, channel, hlead⟩ := hrest
    rw [hnext] at hlock
    exact ⟨reply, channel, s.shells, hkeep hf, hlock.trans hlead⟩
  cases hcmd : a.command with
  | none => exact hnull (by simp [State.frees, hcmd]) (by simp [State.handle, hcmd])
  | some command =>
      cases command with
      | ignored =>
          exact hnull (by simp [State.frees, hcmd]) (by simp [State.handle, hcmd])
      | start id =>
          have hf : s.frees n a = false := by simp [State.frees, hcmd]
          cases hid : s.shells id with
          | some k => exact hnull hf (by simp [State.handle, hcmd, hid])
          | none =>
              refine hholds hf (.opening id) (by simp [State.handle, hcmd, hid]) ?_
              exact ⟨.internalError, s.channel, Machine.Leads.step (M := machine)
                (l := .opened a id false) rfl (by simp [Without, Label.taskOf])⟩
      | input id messages =>
          have hf : s.frees n a = false := by simp [State.frees, hcmd]
          cases hid : s.shells id with
          | none => exact hnull hf (by simp [State.handle, hcmd, hid])
          | some k =>
              refine hholds hf (.sending k messages)
                (by simp [State.handle, hcmd, hid]) ?_
              by_cases hk : k = n
              · have hnil : messages = [] := by
                  simpa [State.jams, hcmd, hid, hk] using hj
                subst hnil
                exact ⟨.null, s.channel, Machine.Leads.step (M := machine)
                  (l := .put a k []) rfl (by simp [Without, Label.taskOf])⟩
              · obtain ⟨reply, channel, -, hlead⟩ := leads_sent hk
                  { s with locking := s.locking.erase a } a messages s.channel
                exact ⟨reply, channel, hlead⟩
      | close id =>
          cases hid : s.shells id with
          | none =>
              exact hnull (by simp [State.frees, hcmd, hid])
                (by simp [State.handle, hcmd, hid])
          | some k =>
              have hnext : { s with locking := s.locking.erase a }.handle a =
                  ({ s with
                    locking := s.locking.erase a
                    shells := Function.update s.shells id none }).finishes a .null
                    (Function.update s.channel k { s.channel k with closed := true }) := by
                simp only [State.handle, hcmd, hid]
                rfl
              rw [hnext] at hlock
              refine ⟨.null, _, Function.update s.shells id none, ?_, hlock⟩
              by_cases hk : k = n
              · subst hk
                right
                intro id' hid'
                by_cases heq : id' = id
                · rw [heq, Function.update_self] at hid'
                  cases hid'
                · rw [Function.update_of_ne heq] at hid'
                  exact heq (hone id' id hid' hid)
              · left
                refine ⟨by simp [State.frees, hcmd, hid, hk], fun id' => ?_⟩
                by_cases heq : id' = id
                · rw [heq, Function.update_self, hid]
                  simp [hk]
                · rw [Function.update_of_ne heq]

/-! ## The stream moves on -/

section

variable {s t : State} {n : Nat} {a : Arrival}

theorem State.jams_congr (h : ∀ id, t.shells id = some n ↔ s.shells id = some n) :
    t.jams n = s.jams n := by
  funext a
  simp only [State.jams, h]

theorem State.frees_congr (h : ∀ id, t.shells id = some n ↔ s.shells id = some n) :
    t.frees n = s.frees n := by
  funext a
  simp only [State.frees, h]

theorem State.jams_false (h : ∀ id, s.shells id ≠ some n) : s.jams n a = false := by
  simp only [State.jams]
  split
  · simp [h]
  · rfl

/-- With fewer ids for shell `n` there is no more input for it. -/
theorem State.jams_mono (h : ∀ id, t.shells id = some n → s.shells id = some n)
    (hj : s.jams n a = false) : t.jams n a = false := by
  simp only [State.jams] at hj ⊢
  split
  · next id messages hcmd =>
      rw [hcmd] at hj
      by_cases hid : t.shells id = some n
      · simpa [hid, h id hid] using hj
      · simp [hid]
  · rfl

theorem State.jams_of_frees (h : s.frees n a = true) : s.jams n a = false := by
  cases hcmd : a.command with
  | none => simp [State.jams, hcmd]
  | some command =>
      cases command with
      | close id => simp [State.jams, hcmd]
      | _ => simp [State.frees, hcmd] at h

theorem State.not_of_command_none (h : a.command = none) :
    s.jams n a = false ∧ s.frees n a = false := by
  simp [State.jams, State.frees, h]

theorem State.answered_of_replying {reply : Reply} (h : (a, reply) ∈ s.replying) :
    s.drained.Answered a.number := by
  refine ⟨reply, ?_⟩
  show _ ∈ s.replies ++ s.replying.map _ ++ s.serving.map _
  simp only [List.append_assoc, List.mem_append, List.mem_map]
  exact .inr (.inl ⟨(a, reply), h, rfl⟩)

theorem State.answered_of_serving (h : a ∈ s.serving) :
    s.drained.Answered a.number := by
  refine ⟨.other, ?_⟩
  show _ ∈ s.replies ++ s.replying.map _ ++ s.serving.map _
  simp only [List.append_assoc, List.mem_append, List.mem_map]
  exact .inr (.inr ⟨a, h, rfl⟩)

/-- What is true of the map after a turn at the lock leaves room as before. -/
theorem State.Fits.locked (hfits : s.Fits n)
    (hmap : s.KeepsOrFrees n a t.shells) (hstream : t.stream = s.stream)
    (hlocking : t.locking = s.locking.erase a) : t.Fits n := by
  rcases hmap with ⟨hf, hsame⟩ | hgone
  · rw [State.Fits, State.jams_congr hsame, State.frees_congr hsame, hstream, hlocking]
    rcases hfits with ⟨b, hb, hfb⟩ | hcount
    · left
      have hba : b ≠ a := by
        intro hba
        rw [hba, hf] at hfb
        cases hfb
      exact ⟨b, (List.mem_erase_of_ne hba).mpr hb, hfb⟩
    · right
      have hle := (List.erase_sublist (a := a) (l := s.locking)).countP_le
        (p := s.jams n)
      omega
  · right
    have hz : ∀ l : List Arrival, l.countP (t.jams n) = 0 := by
      intro l
      rw [List.countP_eq_zero]
      intro b _
      rw [State.jams_false hgone]
      exact Bool.false_ne_true
    rw [hz, hz]
    omega

/-- Room as before, when a message has got its handler. -/
theorem State.Fits.started {b : Arrival} {rest : List Arrival}
    (hfits : s.Fits n) (hnone : ∀ a ∈ s.locking, s.frees n a = false)
    (hstream : s.stream = b :: rest) (hshells : t.shells = s.shells)
    (hrest : t.stream = rest) (hlocking : t.locking = s.locking ++
      if b.command.isSome then [b] else []) : t.Fits n := by
  have hsame : ∀ id, t.shells id = some n ↔ s.shells id = some n := by
    intro id
    rw [hshells]
  rw [State.Fits, State.jams_congr hsame, State.frees_congr hsame, hrest, hlocking]
  rcases hfits with ⟨a, ha, hfa⟩ | hcount
  · rw [hnone a ha] at hfa
    cases hfa
  · cases hfb : s.frees n b with
    | true =>
        left
        have hsome : b.command.isSome = true := by
          by_contra hno
          have hb := (State.not_of_command_none (s := s) (n := n) (a := b)
            (by simpa using hno)).2
          rw [hfb] at hb
          cases hb
        exact ⟨b, by simp [hsome], hfb⟩
    | false =>
        right
        rw [hstream, List.takeWhile_cons_of_pos (by simp [hfb]), List.countP_cons] at hcount
        rw [List.countP_append]
        split
        · rw [List.countP_singleton]
          omega
        · rw [List.countP_nil]
          omega

end

theorem leads_started {n : Nat} {s : State} {b : Arrival} {rest : List Arrival}
    (hstream : s.stream = b :: rest) (hroom : s.inFlight < 16) :
    machine.Leads (Without n) s (if b.command.isSome then
      { s with stream := rest, locking := s.locking ++ [b] }
      else { s with stream := rest, serving := s.serving ++ [b] }) := by
  have hen : enabled s .start := ⟨by rw [hstream]; simp, hroom⟩
  have hstep : machine.Leads (Without n) s (machine.next s .start) :=
    Machine.Leads.step (M := machine) hen (by simp [Without, Label.taskOf])
  have hnext : machine.next s .start = if b.command.isSome then
      { s with stream := rest, locking := s.locking ++ [b] }
      else { s with stream := rest, serving := s.serving ++ [b] } := by
    show next s .start = _
    simp only [next, hstream]
  rwa [hnext] at hstep

/-- With room for others, a message that waits is answered in the end. The
measure counts each message twice in the stream and once at the lock. -/
theorem leads_answered {n : Nat} {r : Arrival} (k : Nat) (s : State)
    (hk : 2 * s.stream.length + s.locking.length ≤ k) (hcalm : s.Calm)
    (hone : ∀ id id', s.shells id = some n → s.shells id' = some n → id = id')
    (hfits : s.Fits n) (hj : s.jams n r = false)
    (hr : r ∈ s.stream ∨ r ∈ s.locking) :
    ∃ t, machine.Leads (Without n) s t ∧ t.Answered r.number := by
  induction k generalizing s with
  | zero =>
      rcases hr with hr | hr
      · have := List.length_pos_of_mem hr
        omega
      · have := List.length_pos_of_mem hr
        omega
  | succ k ih =>
      by_cases hall : ∀ a ∈ s.locking, s.jams n a = true
      · -- Only input for `n` waits for the lock: the next message starts.
        have hstream : r ∈ s.stream := by
          rcases hr with hr | hr
          · exact hr
          · rw [hall r hr] at hj
            cases hj
        obtain ⟨b, rest, hbr⟩ : ∃ b rest, s.stream = b :: rest := by
          cases hs : s.stream with
          | nil =>
              rw [hs] at hstream
              cases hstream
          | cons b rest => exact ⟨b, rest, rfl⟩
        have hnone : ∀ a ∈ s.locking, s.frees n a = false := by
          intro a ha
          cases hf : s.frees n a with
          | false => rfl
          | true =>
              have hno := State.jams_of_frees hf
              rw [hall a ha] at hno
              cases hno
        have hroom : s.inFlight < 16 := by
          rw [hcalm.inFlight]
          rcases hfits with ⟨a, ha, hfa⟩ | hcount
          · rw [hnone a ha] at hfa
            cases hfa
          · rw [List.countP_eq_length.mpr hall] at hcount
            omega
        have hstart := leads_started (n := n) hbr hroom
        have hlen : s.stream.length = rest.length + 1 := by rw [hbr]; rfl
        rw [hbr] at hstream
        cases hsome : b.command.isSome with
        | true =>
            rw [if_pos hsome] at hstart
            obtain ⟨t, hlead, ht⟩ := ih
              { s with stream := rest, locking := s.locking ++ [b] }
              (by
                show 2 * rest.length + (s.locking ++ [b]).length ≤ k
                rw [List.length_append, List.length_singleton]
                omega)
              ⟨hcalm.holder, hcalm.serving, hcalm.replying⟩ hone
              (hfits.started hnone hbr rfl rfl (by simp [hsome])) hj
              (by
                rcases List.mem_cons.mp hstream with rfl | hmem
                · exact .inr (List.mem_append_right _ (List.mem_singleton_self _))
                · exact .inl hmem)
            exact ⟨t, hstart.trans hlead, ht⟩
        | false =>
            rw [if_neg (by simp [hsome])] at hstart
            have hdrain := hstart.trans (leads_drained n _)
            by_cases hbr' : b = r
            · subst hbr'
              exact ⟨_, hdrain, State.answered_of_serving
                (List.mem_append_right _ (List.mem_singleton_self _))⟩
            · obtain ⟨t, hlead, ht⟩ := ih
                (State.drained { s with stream := rest, serving := s.serving ++ [b] })
                (by
                  show 2 * rest.length + s.locking.length ≤ k
                  omega)
                ⟨hcalm.holder, rfl, rfl⟩ hone
                (hfits.started hnone hbr rfl rfl (by
                  show s.locking = _
                  simp [hsome])) hj
                (by
                  rcases List.mem_cons.mp hstream with rfl | hmem
                  · exact absurd rfl hbr'
                  · exact .inl hmem)
              exact ⟨t, hdrain.trans hlead, ht⟩
      · obtain ⟨a, ha, hja⟩ : ∃ a ∈ s.locking, s.jams n a = false := by
          by_contra hno
          refine hall fun a ha => ?_
          by_contra hja
          exact hno ⟨a, ha, by simpa using hja⟩
        obtain ⟨reply, channel, shells, hmap, hlead⟩ :=
          leads_locked hone hcalm.holder ha hja
        have hdrain := hlead.trans (leads_drained n _)
        by_cases har : a = r
        · subst har
          exact ⟨_, hdrain, State.answered_of_replying
            (List.mem_append_right _ (List.mem_singleton_self _))⟩
        · have hlen := List.length_erase_of_mem ha
          have hpos := List.length_pos_of_mem ha
          have hwas : ∀ id, shells id = some n → s.shells id = some n := by
            intro id hid
            rcases hmap with ⟨-, hsame⟩ | hgone
            · exact (hsame id).mp hid
            · exact absurd hid (hgone id)
          obtain ⟨t, hlead', ht⟩ := ih
            (State.drained (State.finishes
              { s with locking := s.locking.erase a, shells } a reply channel))
            (by
              show 2 * s.stream.length + (s.locking.erase a).length ≤ k
              omega)
            ⟨rfl, rfl, rfl⟩
            (fun id id' hid hid' => hone id id' (hwas id hid) (hwas id' hid'))
            (hfits.locked hmap rfl rfl)
            (State.jams_mono hwas hj)
            (by
              rcases hr with hr | hr
              · exact .inl hr
              · exact .inr ((List.mem_erase_of_ne (Ne.symm har)).mpr hr))
          exact ⟨t, hdrain.trans hlead', ht⟩

/-- Where the lock is never given back, a message that needs none is answered
if there is a place left beside all that need it. -/
theorem leads_answered_beside {n : Nat} {r : Arrival} (stream : List Arrival)
    (s : State) (hs : s.stream = stream) (hserving : s.serving = [])
    (hreplying : s.replying = []) (hr : r ∈ stream) (hcmd : r.command = none)
    (hroom : 1 + s.locking.length + stream.countP (·.command.isSome) < 16) :
    ∃ t, machine.Leads (Without n) s t ∧ t.Answered r.number := by
  induction stream generalizing s with
  | nil => cases hr
  | cons b rest ih =>
      have hin : s.inFlight < 16 := by
        have hone : s.holder.toList.length ≤ 1 := by
          cases s.holder <;> simp
        simp only [State.inFlight, hserving, hreplying, List.length_nil]
        omega
      have hstart := leads_started (n := n) hs hin
      rw [List.countP_cons] at hroom
      cases hsome : b.command.isSome with
      | true =>
          rw [if_pos hsome] at hstart hroom
          have hbr : r ∈ rest := by
            rcases List.mem_cons.mp hr with rfl | hmem
            · rw [hcmd] at hsome
              cases hsome
            · exact hmem
          obtain ⟨t, hlead, ht⟩ := ih
            { s with stream := rest, locking := s.locking ++ [b] } rfl hserving
            hreplying hbr (by
              show 1 + (s.locking ++ [b]).length + _ < 16
              rw [List.length_append, List.length_singleton]
              omega)
          exact ⟨t, hstart.trans hlead, ht⟩
      | false =>
          rw [if_neg (by simp [hsome])] at hstart
          have hdrain := hstart.trans (leads_drained n _)
          rcases List.mem_cons.mp hr with rfl | hmem
          · exact ⟨_, hdrain, State.answered_of_serving
              (List.mem_append_right _ (List.mem_singleton_self _))⟩
          · obtain ⟨t, hlead, ht⟩ := ih
              (State.drained { s with stream := rest, serving := s.serving ++ [b] })
              rfl rfl rfl hmem (by
                show 1 + s.locking.length + _ < 16
                omega)
            exact ⟨t, hdrain.trans hlead, ht⟩

theorem countP_takeWhile_concat {α : Type*} {p q : α → Bool} {x : α}
    (hx : q x = false) (l : List α) :
    ((l ++ [x]).takeWhile p).countP q = (l.takeWhile p).countP q := by
  induction l with
  | nil =>
      rw [List.nil_append, List.takeWhile_cons]
      split
      · simp [hx]
      · rfl
  | cons y l ih =>
      rw [List.cons_append, List.takeWhile_cons, List.takeWhile_cons]
      split
      · rw [List.countP_cons, List.countP_cons, ih]
      · rfl

/-- A further message that brings no input for shell `n`, from a state that
can answer it. -/
theorem leads_of_answerable {s : State} {n : Nat} {request : Option Value}
    (hs : machine.Reachable s)
    (hj : s.jams n ⟨s.arrived.length, commandOf request⟩ = false)
    (ha : s.Answerable n (commandOf request)) :
    ∃ t, machine.Leads (Without n) (next s (.arrive request)) t ∧
      t.Answered s.arrived.length := by
  have hw := reachable_wired hs
  have hone : ∀ id id', s.shells id = some n → s.shells id' = some n → id = id' := by
    intro id id' hid hid'
    rw [← (hw.listed id n hid).2.1, ← (hw.listed id' n hid').2.1]
  generalize hr : (⟨s.arrived.length, commandOf request⟩ : Arrival) = r at hj
  have hnumber : r.number = s.arrived.length := by rw [← hr]
  have hnext : next s (.arrive request) = { s with
      arrived := s.arrived ++ [r], stream := s.stream ++ [r] } := by
    rw [← hr]
    rfl
  have hmem : r ∈ s.stream ++ [r] :=
    List.mem_append_right _ (List.mem_singleton_self _)
  rw [hnext, ← hnumber]
  by_cases hstuck : s.Stuck n
  · obtain ⟨hcmd, hroom⟩ := ha.1 hstuck
    have hnone : r.command = none := by
      rw [← hr]
      exact hcmd
    obtain ⟨t, hlead, ht⟩ := leads_answered_beside (n := n) (s.stream ++ [r])
      (State.drained { s with
        arrived := s.arrived ++ [r], stream := s.stream ++ [r] })
      rfl rfl rfl hmem hnone (by
        show 1 + s.locking.length + _ < 16
        rw [List.countP_append, List.countP_singleton, hnone]
        exact hroom)
    exact ⟨t, (leads_drained n _).trans hlead, ht⟩
  · have hfits := ha.2 hstuck
    have hcalm : ∀ t : State, t.holder = none → t.shells = s.shells →
        t.stream = s.stream ++ [r] → t.locking = s.locking →
        ∃ u, machine.Leads (Without n) t u ∧ u.Answered r.number := by
      intro t hholder hshells hstream hlocking
      have hsame : ∀ id, t.drained.shells id = some n ↔ s.shells id = some n := by
        intro id
        rw [show t.drained.shells = t.shells from rfl, hshells]
      obtain ⟨u, hlead, hu⟩ := leads_answered (n := n) (r := r) _ t.drained
        (Nat.le_refl _) ⟨hholder, rfl, rfl⟩
        (fun id id' hid hid' => hone id id' ((hsame id).mp hid) ((hsame id').mp hid'))
        (by
          rw [State.Fits, State.jams_congr hsame, State.frees_congr hsame,
            show t.drained.locking = t.locking from rfl,
            show t.drained.stream = t.stream from rfl, hlocking, hstream,
            countP_takeWhile_concat hj]
          exact hfits)
        (by rw [State.jams_congr hsame]; exact hj)
        (.inl (by
          show r ∈ t.stream
          rw [hstream]
          exact hmem))
      exact ⟨u, (leads_drained n _).trans hlead, hu⟩
    rcases Option.eq_none_or_eq_some s.holder with hh | ⟨⟨a, h⟩, hh⟩
    · exact hcalm { s with
        arrived := s.arrived ++ [r], stream := s.stream ++ [r] } hh rfl rfl rfl
    · obtain ⟨reply, channel, -, hlead⟩ := leads_finished (n := n) (a := a) (h := h)
        (s := { s with arrived := s.arrived ++ [r], stream := s.stream ++ [r] })
        hstuck (fun k => reachable_ended_empty hs k) hh
      obtain ⟨u, hlead', hu⟩ := hcalm (State.finishes { s with
        arrived := s.arrived ++ [r], stream := s.stream ++ [r] } a reply channel)
        rfl rfl rfl rfl
      exact ⟨u, hlead.trans hlead', hu⟩

end WebSshTool.Session
