import WebSshTool.Session.Stall

/-!
# Where a stalled shell blocks the rest

What stands still with a stalled task stands still for good: a handler that
has put a message into the channel of its shell keeps the lock, and input
for that shell that waits for the lock or in the stream can only become such a
handler. `Blocked` is the invariant of the runs that leave the stalled task
alone, in its three forms: the message needs the lock; it needs a place, and
the handlers at the lock have them all; or they will have, because too much
input for the shell is ahead.

With the runs of the file before this, `answerable_iff` says exactly when a
further message can be answered.
-/

namespace WebSshTool.Session

open Json

/-! ## The numbers of messages -/

/-- Every message that is somewhere has arrived. -/
structure Numbered (s : State) : Prop where
  stream : ∀ a ∈ s.stream, a.number < s.arrived.length
  locking : ∀ a ∈ s.locking, a.number < s.arrived.length
  holder : ∀ p ∈ s.holder, p.1.number < s.arrived.length
  serving : ∀ a ∈ s.serving, a.number < s.arrived.length
  replying : ∀ p ∈ s.replying, p.1.number < s.arrived.length
  replies : ∀ p ∈ s.replies, p.1 < s.arrived.length

/-- The message `r` has arrived and has neither the lock nor a response. -/
structure Unserved (s : State) (r : Nat) : Prop where
  arrived : r < s.arrived.length
  holder : ∀ p ∈ s.holder, p.1.number ≠ r
  serving : ∀ a ∈ s.serving, a.number ≠ r
  replying : ∀ p ∈ s.replying, p.1.number ≠ r
  replies : ∀ p ∈ s.replies, p.1 ≠ r

/-- Where the messages of a state come from when a step is taken: the handler
at the lock was there or has just got it, and so on down to the responses. -/
structure Passes (s t : State) (l : Label) : Prop where
  arrived : s.arrived.length ≤ t.arrived.length
  stream : ∀ a ∈ t.stream, a ∈ s.stream ∨ a.number < t.arrived.length ∧
    s.arrived.length ≤ a.number
  locking : ∀ a ∈ t.locking, a ∈ s.locking ∨ a ∈ s.stream.head?
  holder : ∀ p ∈ t.holder, (∃ h, s.holder = some (p.1, h)) ∨
    p.1 ∈ s.locking ∧ l = .lock p.1
  serving : ∀ a ∈ t.serving, a ∈ s.serving ∨
    (a ∈ s.stream.head? ∧ l = .start) ∧ a.command.isSome = false
  replying : ∀ p ∈ t.replying, p ∈ s.replying ∨ p.1 ∈ s.serving ∨
    (∃ h, s.holder = some (p.1, h)) ∨ p.1 ∈ s.locking ∧ l = .lock p.1
  replies : ∀ p ∈ t.replies, p ∈ s.replies ∨
    ∃ q ∈ s.replying, q.1.number = p.1

theorem Passes.of_same {s t : State} {l : Label} (ha : t.arrived = s.arrived)
    (hs : t.stream = s.stream) (hl : t.locking = s.locking)
    (hh : t.holder = s.holder) (hse : t.serving = s.serving)
    (hr : t.replying = s.replying) (hre : t.replies = s.replies) :
    Passes s t l where
  arrived := by rw [ha]
  stream a h := .inl (by rwa [← hs])
  locking a h := .inl (by rwa [← hl])
  holder p h := .inl ⟨p.2, by rw [← hh]; exact h⟩
  serving a h := .inl (by rwa [← hse])
  replying p h := .inl (by rwa [← hr])
  replies p h := .inl (by rwa [← hre])

/-- The handler with the lock moves on, or gives it back with a response. -/
theorem Passes.of_held {s t : State} {l : Label} {a : Arrival} {h : Holding}
    (hwas : s.holder = some (a, h)) (ha : t.arrived = s.arrived)
    (hs : t.stream = s.stream) (hl : t.locking = s.locking)
    (hh : ∀ p ∈ t.holder, p.1 = a) (hse : t.serving = s.serving)
    (hr : ∀ p ∈ t.replying, p ∈ s.replying ∨ p.1 = a)
    (hre : t.replies = s.replies) : Passes s t l where
  arrived := by rw [ha]
  stream b hb := .inl (by rwa [← hs])
  locking b hb := .inl (by rwa [← hl])
  holder p hp := .inl ⟨h, by rw [hwas, hh p hp]⟩
  serving b hb := .inl (by rwa [← hse])
  replying p hp := by
    rcases hr p hp with hold | hpa
    · exact .inl hold
    · exact .inr (.inr (.inl ⟨h, by rw [hwas, hpa]⟩))
  replies p hp := .inl (by rwa [← hre])

theorem passes_respond {s : State} {l : Label} {a : Arrival} {h : Holding}
    (hwas : s.holder = some (a, h)) (reply : Reply) :
    Passes s (s.respond a reply) l := by
  refine .of_held hwas rfl rfl rfl (fun p hp => by cases hp) rfl ?_ rfl
  intro p hp
  rcases List.mem_append.mp hp with hold | hnew
  · exact .inl hold
  · rw [List.mem_singleton.mp hnew]
    exact .inr rfl

theorem passes_handle {s : State} {a : Arrival} (ha : a ∈ s.locking) :
    Passes s ({ s with locking := s.locking.erase a }.handle a) (.lock a) := by
  have hshape : ∃ shells channel, ({ s with locking := s.locking.erase a }.handle a =
      { s with locking := s.locking.erase a, shells, channel }.respond a .null ∨
      ∃ h, { s with locking := s.locking.erase a }.handle a =
        { s with locking := s.locking.erase a, shells, channel, holder := some (a, h) }) := by
    rw [State.handle]
    split
    · split
      · exact ⟨s.shells, s.channel, .inr ⟨_, rfl⟩⟩
      · exact ⟨s.shells, s.channel, .inl rfl⟩
    · split
      · exact ⟨_, _, .inl rfl⟩
      · exact ⟨s.shells, s.channel, .inl rfl⟩
    · split
      · exact ⟨s.shells, s.channel, .inr ⟨_, rfl⟩⟩
      · exact ⟨s.shells, s.channel, .inl rfl⟩
    · exact ⟨s.shells, s.channel, .inl rfl⟩
    · exact ⟨s.shells, s.channel, .inl rfl⟩
  obtain ⟨shells, channel, hnext | ⟨h, hnext⟩⟩ := hshape
  · rw [hnext]
    refine ⟨Nat.le_refl _, fun b hb => .inl hb,
      fun b hb => .inl (List.mem_of_mem_erase hb), fun p hp => (by cases hp),
      fun b hb => .inl hb, fun p hp => ?_, fun p hp => .inl hp⟩
    rcases List.mem_append.mp hp with hold | hnew
    · exact .inl hold
    · rw [List.mem_singleton.mp hnew]
      exact .inr (.inr (.inr ⟨ha, rfl⟩))
  · rw [hnext]
    refine ⟨Nat.le_refl _, fun b hb => .inl hb,
      fun b hb => .inl (List.mem_of_mem_erase hb), fun p hp => ?_,
      fun b hb => .inl hb, fun p hp => .inl hp, fun p hp => .inl hp⟩
    cases hp
    exact .inr ⟨ha, rfl⟩

theorem next_passes {s : State} {l : Label} (hen : enabled s l) :
    Passes s (next s l) l := by
  cases l with
  | arrive request =>
      refine ⟨?_, fun a ha => ?_, fun a ha => .inl ha, fun p hp => .inl ⟨p.2, hp⟩,
        fun a ha => .inl ha, fun p hp => .inl hp, fun p hp => .inl hp⟩
      · show _ ≤ (s.arrived ++ [_]).length
        rw [List.length_append]
        omega
      · rcases List.mem_append.mp ha with hold | hnew
        · exact .inl hold
        · right
          rw [List.mem_singleton.mp hnew]
          show _ < (s.arrived ++ [_]).length ∧ _
          rw [List.length_append, List.length_singleton]
          exact ⟨Nat.lt_succ_self _, Nat.le_refl _⟩
  | start =>
      obtain ⟨b, rest, hb⟩ : ∃ b rest, s.stream = b :: rest := by
        cases hs : s.stream with
        | nil => exact absurd hs hen.1
        | cons b rest => exact ⟨b, rest, rfl⟩
      have hhead : b ∈ s.stream.head? := by rw [hb]; rfl
      simp only [next, hb]
      split
      · next hsome =>
          refine ⟨Nat.le_refl _, fun a ha => .inl (by rw [hb]; exact List.mem_cons_of_mem _ ha),
            fun a ha => ?_, fun p hp => .inl ⟨p.2, hp⟩, fun a ha => .inl ha,
            fun p hp => .inl hp, fun p hp => .inl hp⟩
          rcases List.mem_append.mp ha with hold | hnew
          · exact .inl hold
          · rw [List.mem_singleton.mp hnew]
            exact .inr hhead
      · next hsome =>
          refine ⟨Nat.le_refl _, fun a ha => .inl (by rw [hb]; exact List.mem_cons_of_mem _ ha),
            fun a ha => .inl ha, fun p hp => .inl ⟨p.2, hp⟩, fun a ha => ?_,
            fun p hp => .inl hp, fun p hp => .inl hp⟩
          rcases List.mem_append.mp ha with hold | hnew
          · exact .inl hold
          · rw [List.mem_singleton.mp hnew]
            exact .inr ⟨⟨hhead, rfl⟩, by simpa using hsome⟩
  | lock a => exact passes_handle hen.1
  | opened a id ok =>
      have hwas : s.holder = some (a, .opening id) := hen
      cases ok with
      | false => exact passes_respond hwas .internalError
      | true =>
          refine .of_held hwas rfl rfl rfl (fun p hp => by cases hp) rfl ?_ rfl
          intro p hp
          rcases List.mem_append.mp hp with hold | hnew
          · exact .inl hold
          · rw [List.mem_singleton.mp hnew]
            exact .inr rfl
  | put a k messages =>
      have hwas : s.holder = some (a, .sending k messages) := hen
      simp only [next]
      split
      · exact passes_respond hwas .null
      · split
        · exact passes_respond hwas .internalError
        · refine .of_held hwas rfl rfl rfl (fun p hp => ?_) rfl (fun p hp => .inl hp) rfl
          cases hp
          rfl
  | flushed a k messages =>
      refine .of_held hen.1 rfl rfl rfl (fun p hp => ?_) rfl (fun p hp => .inl hp) rfl
      cases hp
      rfl
  | served a =>
      refine ⟨Nat.le_refl _, fun b hb => .inl hb, fun b hb => .inl hb,
        fun p hp => .inl ⟨p.2, hp⟩, fun b hb => .inl (List.mem_of_mem_erase hb),
        fun p hp => ?_, fun p hp => .inl hp⟩
      rcases List.mem_append.mp hp with hold | hnew
      · exact .inl hold
      · rw [List.mem_singleton.mp hnew]
        exact .inr (.inl hen)
  | replied a reply =>
      refine ⟨Nat.le_refl _, fun b hb => .inl hb, fun b hb => .inl hb,
        fun p hp => .inl ⟨p.2, hp⟩, fun b hb => .inl hb,
        fun p hp => .inl (List.mem_of_mem_erase hp), fun p hp => ?_⟩
      rcases List.mem_append.mp hp with hold | hnew
      · exact .inl hold
      · rw [List.mem_singleton.mp hnew]
        exact .inr ⟨(a, reply), hen, rfl⟩
  | finish | popped _ _ | hungUp _ | handed _ _ | sendFailed _ _ | output _ _
  | channelEnded _ | forwarded _ _ | forwardFailed _ _ | closeForwarded _ _ =>
      exact .of_same rfl rfl rfl rfl rfl rfl rfl

theorem Numbered.next {s : State} {l : Label} (h : Numbered s) (hen : enabled s l) :
    Numbered (next s l) := by
  have hp := next_passes hen
  have hle := hp.arrived
  have hhead : ∀ a ∈ s.stream.head?, a.number < s.arrived.length := by
    intro a ha
    exact h.stream a (List.mem_of_mem_head? ha)
  constructor
  · intro a ha
    rcases hp.stream a ha with hold | hnew
    · have := h.stream a hold
      omega
    · exact hnew.1
  · intro a ha
    rcases hp.locking a ha with hold | hnew
    · have := h.locking a hold
      omega
    · have := hhead a hnew
      omega
  · intro p hpm
    rcases hp.holder p hpm with ⟨x, hold⟩ | hnew
    · have hlt : p.1.number < s.arrived.length := h.holder (p.1, x) hold
      omega
    · have := h.locking p.1 hnew.1
      omega
  · intro a ha
    rcases hp.serving a ha with hold | hnew
    · have := h.serving a hold
      omega
    · have := hhead a hnew.1.1
      omega
  · intro p hpm
    rcases hp.replying p hpm with hold | hold | ⟨x, hold⟩ | hnew
    · have := h.replying p hold
      omega
    · have := h.serving p.1 hold
      omega
    · have hlt : p.1.number < s.arrived.length := h.holder (p.1, x) hold
      omega
    · have := h.locking p.1 hnew.1
      omega
  · intro p hpm
    rcases hp.replies p hpm with hold | ⟨q, hq, hqp⟩
    · have := h.replies p hold
      omega
    · have := h.replying q hq
      omega

theorem reachable_numbered {s : State} (hs : machine.Reachable s) : Numbered s := by
  refine hs.invariant (I := Numbered) ?_ fun _ _ _ h hen _ => h.next hen
  constructor <;> intro a ha <;> cases ha

/-- A message without the lock and a response gets neither in a step that is
not its turn at the lock and gives it no handler of its own. -/
theorem Unserved.next {s : State} {l : Label} {r : Nat} (h : Unserved s r)
    (hen : enabled s l) (hlock : ∀ a ∈ s.locking, l = .lock a → a.number ≠ r)
    (hstart : ∀ b ∈ s.stream.head?, l = .start → b.command.isSome = false →
      b.number ≠ r) : Unserved (next s l) r := by
  have hp := next_passes hen
  have hhold : ∀ {a : Arrival} {x : Holding}, s.holder = some (a, x) → a.number ≠ r :=
    fun {a x} hx => h.holder (a, x) hx
  constructor
  · exact Nat.lt_of_lt_of_le h.arrived hp.arrived
  · intro p hpm
    rcases hp.holder p hpm with ⟨x, hold⟩ | hnew
    · exact hhold hold
    · exact hlock p.1 hnew.1 hnew.2
  · intro a ha
    rcases hp.serving a ha with hold | hnew
    · exact h.serving a hold
    · exact hstart a hnew.1.1 hnew.1.2 hnew.2
  · intro p hpm
    rcases hp.replying p hpm with hold | hold | ⟨x, hold⟩ | hnew
    · exact h.replying p hold
    · exact h.serving p.1 hold
    · exact hhold hold
    · exact hlock p.1 hnew.1 hnew.2
  · intro p hpm
    rcases hp.replies p hpm with hold | ⟨q, hq, hqp⟩
    · exact h.replies p hold
    · rw [← hqp]
      exact h.replying q hq

/-! ## What stands still -/

theorem next_stalled {s : State} {l : Label} {n : Nat} (hw : Wired s)
    (h : s.Stalled n) (hen : enabled s l) (hl : Without n s l) :
    (next s l).Stalled n := by
  obtain ⟨m, hm⟩ := h
  have hn : n < s.opened := hw.lt_opened (by rw [hm]; simp)
  have hstep := next_channel hen n
  refine ⟨m, ?_⟩
  generalize (next s l).channel n = c at hstep
  cases hstep with
  | stay | close | put => exact hm
  | fresh hfresh => omega
  | task htask => cases htask <;> exact absurd rfl hl

/-- A handler that is stuck on a stalled shell keeps the lock. -/
theorem next_stuck {s : State} {l : Label} {n : Nat} (hstall : s.Stalled n)
    (h : s.Stuck n) (hen : enabled s l) (hl : Without n s l) :
    (next s l).Stuck n := by
  obtain ⟨m, hm⟩ := hstall
  have hheld : s.holder ≠ none := by
    intro hnone
    rw [State.Stuck, hnone] at h
    exact h
  have hsame : ∀ {t : State}, t.holder = s.holder → t.channel n = s.channel n →
      t.Stuck n := by
    intro t hh hc
    rw [State.Stuck] at h ⊢
    rw [hh]
    simpa only [hc] using h
  have htask : ∀ {k : Nat} {c : Shell}, k ≠ n → (s.setShell k c).Stuck n := by
    intro k c hk
    exact hsame rfl (Function.update_of_ne hk.symm _ _)
  have hne : ∀ {k : Nat}, l.taskOf = some k → k ≠ n := by
    intro k hk hkn
    rw [Without, hk, hkn] at hl
    exact hl rfl
  cases l with
  | arrive _ | served _ | replied _ _ => exact hsame rfl rfl
  | finish =>
      have hpos : 0 < s.inFlight := by
        cases hh : s.holder with
        | none => exact absurd hh hheld
        | some p => exact State.inFlight_pos_of_holder hh
      have hzero := hen.2.2
      omega
  | start =>
      simp only [next]
      split
      · exact h
      · split <;> exact hsame rfl rfl
  | lock a => exact absurd hen.2 hheld
  | opened a id ok =>
      rw [State.Stuck, show s.holder = _ from hen] at h
      exact h.elim
  | put a k messages =>
      rw [State.Stuck, show s.holder = _ from hen] at h
      obtain ⟨rfl, hmsgs⟩ := h
      simp only [next]
      split
      · exact absurd rfl hmsgs
      · rw [if_neg (by rw [hm]; simp)]
        refine ⟨rfl, .inr ?_⟩
        simp [State.setShell]
  | flushed a k messages =>
      rw [State.Stuck, show s.holder = _ from hen.1] at h
      obtain ⟨rfl, hmsgs | hslot⟩ := h
      · exact ⟨rfl, hmsgs⟩
      · exact absurd hen.2 hslot
  | popped k _ | hungUp k | handed k _ | sendFailed k _ | output k _
  | channelEnded k | forwarded k _ | forwardFailed k _ | closeForwarded k _ =>
      exact htask (hne rfl)

/-- A shell keeps its place in the map until its turn to be closed. -/
theorem next_listed {s : State} {l : Label} {n : Nat} (hw : Wired s)
    (hn : n < s.opened) (hen : enabled s l) (hfin : l ≠ .finish)
    (hclose : ∀ a ∈ s.locking, l = .lock a → s.frees n a = false) (id : Text) :
    (next s l).shells id = some n ↔ s.shells id = some n := by
  cases l with
  | finish => exact absurd rfl hfin
  | start =>
      simp only [next]
      split
      · exact Iff.rfl
      · split <;> exact Iff.rfl
  | lock a =>
      have hf := hclose a hen.1 rfl
      simp only [next, State.handle]
      split
      · split <;> exact Iff.rfl
      · next id' hcmd =>
          split
          · next k hk =>
              have hkn : k ≠ n := by
                intro hkn
                simp only [hkn] at hk
                simp [State.frees, hcmd, hk] at hf
              show Function.update s.shells id' none id = some n ↔ _
              by_cases hid : id = id'
              · rw [hid, Function.update_self, show s.shells id' = some k from hk]
                simp [hkn]
              · rw [Function.update_of_ne hid]
          · exact Iff.rfl
      · split <;> exact Iff.rfl
      · exact Iff.rfl
      · exact Iff.rfl
  | opened a id' ok =>
      cases ok with
      | false => exact Iff.rfl
      | true =>
          have hnone := hw.opening a id' hen
          show Function.update s.shells id' (some s.opened) id = some n ↔ _
          by_cases hid : id = id'
          · rw [hid, Function.update_self, hnone]
            simp only [Option.some.injEq, reduceCtorEq, iff_false]
            omega
          · rw [Function.update_of_ne hid]
  | put a k messages =>
      simp only [next]
      split
      · exact Iff.rfl
      · split <;> exact Iff.rfl
  | _ => exact Iff.rfl

/-- What a step does to the messages that wait. -/
theorem next_waiting {s : State} {l : Label} (hen : enabled s l) :
    (∃ a, (next s l).stream = s.stream ++ [a] ∧ (next s l).locking = s.locking) ∨
    (∃ b rest, l = .start ∧ s.stream = b :: rest ∧ (next s l).stream = rest ∧
      (next s l).locking = s.locking ++ if b.command.isSome then [b] else []) ∨
    (∃ a ∈ s.locking, l = .lock a ∧ (next s l).stream = s.stream ∧
      (next s l).locking = s.locking.erase a) ∨
    (next s l).stream = s.stream ∧ (next s l).locking = s.locking ∧
      l ≠ .start ∧ ∀ a, l ≠ .lock a := by
  cases l with
  | arrive request => exact .inl ⟨_, rfl, rfl⟩
  | start =>
      right
      left
      cases hs : s.stream with
      | nil => exact absurd hs hen.1
      | cons b rest =>
          refine ⟨b, rest, rfl, rfl, ?_⟩
          simp only [next, hs]
          split
          · exact ⟨rfl, rfl⟩
          · exact ⟨rfl, (List.append_nil _).symm⟩
  | lock a =>
      right
      right
      left
      refine ⟨a, hen.1, rfl, ?_⟩
      simp only [next, State.handle]
      split
      · split <;> exact ⟨rfl, rfl⟩
      · split <;> exact ⟨rfl, rfl⟩
      · split <;> exact ⟨rfl, rfl⟩
      · exact ⟨rfl, rfl⟩
      · exact ⟨rfl, rfl⟩
  | opened a id ok =>
      right
      right
      right
      cases ok <;> exact ⟨rfl, rfl, by simp, by simp⟩
  | put a k messages =>
      right
      right
      right
      simp only [next]
      split
      · exact ⟨rfl, rfl, by simp, by simp⟩
      · split <;> exact ⟨rfl, rfl, by simp, by simp⟩
  | _ => exact .inr (.inr (.inr ⟨rfl, rfl, by simp, by simp⟩))

/-- Input for shell `n` that gets the lock is stuck there. -/
theorem stuck_of_jams {s : State} {n : Nat} {a : Arrival}
    (hj : s.jams n a = true) : (next s (.lock a)).Stuck n := by
  cases hcmd : a.command with
  | none => simp [State.jams, hcmd] at hj
  | some command =>
      cases command with
      | input id messages =>
          simp only [State.jams, hcmd, Bool.and_eq_true, decide_eq_true_eq,
            Bool.not_eq_true', List.isEmpty_eq_false_iff] at hj
          simp only [next, State.handle, hcmd, hj.1, State.Stuck]
          exact ⟨trivial, hj.2⟩
      | _ => simp [State.jams, hcmd] at hj

theorem not_stuck_of_free {s : State} {n : Nat} (h : s.holder = none) :
    ¬ s.Stuck n := by
  rw [State.Stuck, h]
  exact id

theorem State.inFlight_of_stuck {s : State} {n : Nat} (h : s.Stuck n) :
    1 + s.locking.length ≤ s.inFlight := by
  cases hh : s.holder with
  | none => exact absurd h (not_stuck_of_free hh)
  | some p =>
      simp only [State.inFlight, hh, Option.toList_some, List.length_singleton]
      omega

theorem State.locking_le_inFlight (s : State) : s.locking.length ≤ s.inFlight := by
  simp only [State.inFlight]
  omega

/-! ## A message that stays unserved -/

/-- Why the message `r` is not served while shell `n` is stalled. -/
inductive Blocked (s : State) (n r : Nat) : Prop
  /-- It needs the lock, and the lock is not given back. -/
  | needsLock (hstuck : s.Stuck n)
      (hr : ∀ b ∈ s.stream, b.number = r → b.command.isSome = true)
  /-- The lock is not given back, and the handlers that wait for it take every
  place before the message is reached. -/
  | noPlace (hstuck : s.Stuck n) (pre post : List Arrival)
      (hstream : s.stream = pre ++ post) (hpre : ∀ b ∈ pre, b.number ≠ r)
      (hfull : 16 ≤ 1 + s.locking.length + pre.countP (·.command.isSome))
  /-- Input for the shell takes every place before the message is reached. -/
  | flooded (pre post : List Arrival) (hstream : s.stream = pre ++ post)
      (hpre : ∀ b ∈ pre, b.number ≠ r ∧ s.frees n b = false)
      (hlocking : ∀ a ∈ s.locking, a.number ≠ r ∧ s.frees n a = false)
      (hfull : 16 ≤ s.locking.countP (s.jams n) + pre.countP (s.jams n) ∨
        s.Stuck n ∧
          16 ≤ 1 + s.locking.countP (s.jams n) + pre.countP (s.jams n))

/-- The part of the stream that is reached before the message, after a step
that is not its turn. -/
theorem next_prefix {s : State} {l : Label} {pre post : List Arrival}
    (hen : enabled s l) (hstream : s.stream = pre ++ post)
    (hpre : l = .start → pre ≠ []) :
    ∃ pre' post', (next s l).stream = pre' ++ post' ∧
      ((pre' = pre ∧ ((next s l).locking = s.locking ∨
          ∃ a ∈ s.locking, l = .lock a ∧ (next s l).locking = s.locking.erase a)) ∨
        ∃ b, l = .start ∧ pre = b :: pre' ∧ (next s l).locking = s.locking ++
          if b.command.isSome then [b] else []) := by
  rcases next_waiting hen with ⟨a, hs, hl⟩ | ⟨b, rest, rfl, hb, hs, hl⟩ |
    ⟨a, ha, rfl, hs, hl⟩ | ⟨hs, hl, -⟩
  · exact ⟨pre, post ++ [a], by rw [hs, hstream, List.append_assoc],
      .inl ⟨rfl, .inl hl⟩⟩
  · cases hp : pre with
    | nil => exact absurd hp (hpre rfl)
    | cons c pre' =>
        rw [hstream, hp, List.cons_append, List.cons.injEq] at hb
        obtain ⟨rfl, hrest⟩ := hb
        exact ⟨pre', post, by rw [hs, hrest], .inr ⟨c, rfl, rfl, hl⟩⟩
  · exact ⟨pre, post, by rw [hs, hstream], .inl ⟨rfl, .inr ⟨a, ha, rfl, hl⟩⟩⟩
  · exact ⟨pre, post, by rw [hs, hstream], .inl ⟨rfl, .inl hl⟩⟩

/-- Everything a run around a stalled shell keeps. -/
structure Standing (s : State) (n r : Nat) : Prop where
  wired : Wired s
  stalled : s.Stalled n
  unserved : Unserved s r
  blocked : Blocked s n r

/-- Input for the shell that is ahead of the message stays ahead of it, and
so it has no turn. -/
theorem next_flooded {s : State} {l : Label} {n r : Nat} (hw : Wired s)
    (hstalled : s.Stalled n) (hun : Unserved s r) (hen : enabled s l)
    (hl : Without n s l) (pre post : List Arrival)
    (hstream : s.stream = pre ++ post)
    (hpre : ∀ b ∈ pre, b.number ≠ r ∧ s.frees n b = false)
    (hlocking : ∀ a ∈ s.locking, a.number ≠ r ∧ s.frees n a = false)
    (hfull : 16 ≤ s.locking.countP (s.jams n) + pre.countP (s.jams n) ∨
      s.Stuck n ∧ 16 ≤ 1 + s.locking.countP (s.jams n) + pre.countP (s.jams n)) :
    Unserved (next s l) r ∧ Blocked (next s l) n r := by
  have hn : n < s.opened := by
    obtain ⟨m, hm⟩ := hstalled
    exact hw.lt_opened (by rw [hm]; simp)
  have hle : s.locking.countP (s.jams n) ≤ s.locking.length := List.countP_le_length
  have hne : l = .start → pre ≠ [] := by
    intro hls hnil
    subst hls hnil
    have hlt := hen.2
    rw [List.countP_nil] at hfull
    rcases hfull with hcount | ⟨hstuck, hcount⟩
    · have := s.locking_le_inFlight
      omega
    · have := State.inFlight_of_stuck hstuck
      omega
  have hfin : l ≠ .finish := by
    intro hlf
    subst hlf
    have hnil : pre = [] := by
      have hs := hen.2.1
      rw [hstream] at hs
      exact (List.append_eq_nil_iff.mp hs).1
    have hzero := hen.2.2
    have := s.locking_le_inFlight
    rw [hnil, List.countP_nil] at hfull
    rcases hfull with hcount | ⟨-, hcount⟩ <;> omega
  have hmap := next_listed hw hn hen hfin fun a ha _ => (hlocking a ha).2
  constructor
  · refine hun.next hen (fun a ha _ => (hlocking a ha).1) ?_
    intro b hb hls _
    cases hp : pre with
    | nil => exact absurd hp (hne hls)
    | cons c pre' =>
        rw [hstream, hp, List.cons_append, List.head?_cons, Option.mem_def,
          Option.some.injEq] at hb
        subst hb
        exact (hpre c (by rw [hp]; exact List.mem_cons_self ..)).1
  · obtain ⟨pre', post', hs, hcase⟩ := next_prefix hen hstream hne
    have hstuck' : s.Stuck n → (next s l).Stuck n :=
      fun hstuck => next_stuck hstalled hstuck hen hl
    rcases hcase with ⟨rfl, hlock | ⟨a, ha, rfl, hlock⟩⟩ | ⟨b, rfl, rfl, hlock⟩
    · refine .flooded pre' post' hs ?_ ?_ ?_
      · rwa [State.frees_congr hmap]
      · rwa [State.frees_congr hmap, hlock]
      · rw [State.jams_congr hmap, hlock]
        rcases hfull with hcount | ⟨hstuck, hcount⟩
        · exact .inl hcount
        · exact .inr ⟨hstuck' hstuck, hcount⟩
    · -- The handler that gets the lock is stuck, or it was none of the input.
      refine .flooded pre' post' hs ?_ ?_ ?_
      · rwa [State.frees_congr hmap]
      · rw [State.frees_congr hmap, hlock]
        intro c hc
        exact hlocking c (List.mem_of_mem_erase hc)
      · rw [State.jams_congr hmap, hlock, List.countP_erase]
        have hcount : 16 ≤ s.locking.countP (s.jams n) + pre'.countP (s.jams n) := by
          rcases hfull with hcount | ⟨hstuck, -⟩
          · exact hcount
          · exact absurd hstuck (not_stuck_of_free hen.2)
        cases hj : s.jams n a with
        | true =>
            right
            refine ⟨stuck_of_jams hj, ?_⟩
            rw [if_pos (by simp [ha])]
            omega
        | false =>
            left
            rw [if_neg (by simp)]
            omega
    · refine .flooded pre' post' hs ?_ ?_ ?_
      · rw [State.frees_congr hmap]
        exact fun c hc => hpre c (List.mem_cons_of_mem _ hc)
      · rw [State.frees_congr hmap, hlock]
        intro c hc
        rcases List.mem_append.mp hc with hold | hnew
        · exact hlocking c hold
        · split at hnew
          · rw [List.mem_singleton.mp hnew]
            exact hpre b (List.mem_cons_self ..)
          · cases hnew
      · have hcount : (s.locking ++ if b.command.isSome then [b] else []).countP
            (s.jams n) + pre'.countP (s.jams n) =
            s.locking.countP (s.jams n) + (b :: pre').countP (s.jams n) := by
          rw [List.countP_append, List.countP_cons]
          split
          · rw [List.countP_singleton]
            omega
          · next hsome =>
              rw [(State.not_of_command_none (by simpa using hsome)).1]
              simp
        rw [State.jams_congr hmap, hlock]
        rcases hfull with hfew | ⟨hstuck, hfew⟩
        · left
          omega
        · exact .inr ⟨hstuck' hstuck, by omega⟩

theorem Standing.next {s : State} {l : Label} {n r : Nat} (h : Standing s n r)
    (hen : enabled s l) (hl : Without n s l) : Standing (next s l) n r := by
  have hstalled := next_stalled h.wired h.stalled hen hl
  have hnolock : s.Stuck n → ∀ a, l ≠ .lock a := by
    intro hstuck a hla
    subst hla
    exact not_stuck_of_free hen.2 hstuck
  suffices hboth : Unserved (Session.next s l) r ∧ Blocked (Session.next s l) n r from
    ⟨h.wired.next hen, hstalled, hboth.1, hboth.2⟩
  cases h.blocked with
  | needsLock hstuck hr =>
      constructor
      · refine h.unserved.next hen (fun a _ hla => absurd hla (hnolock hstuck a)) ?_
        intro b hb _ hnone hbr
        rw [hr b (List.mem_of_mem_head? hb) hbr] at hnone
        cases hnone
      · refine .needsLock (next_stuck h.stalled hstuck hen hl) ?_
        intro b hb hbr
        rcases (next_passes hen).stream b hb with hold | hnew
        · exact hr b hold hbr
        · have := h.unserved.arrived
          omega
  | noPlace hstuck pre post hstream hpre hfull =>
      have hne : l = .start → pre ≠ [] := by
        intro hls hnil
        subst hls hnil
        have hle := State.inFlight_of_stuck hstuck
        have hlt := hen.2
        rw [List.countP_nil] at hfull
        omega
      constructor
      · refine h.unserved.next hen (fun a _ hla => absurd hla (hnolock hstuck a)) ?_
        intro b hb hls _
        cases hp : pre with
        | nil => exact absurd hp (hne hls)
        | cons c pre' =>
            rw [hstream, hp, List.cons_append, List.head?_cons, Option.mem_def,
              Option.some.injEq] at hb
            subst hb
            exact hpre c (by rw [hp]; exact List.mem_cons_self ..)
      · obtain ⟨pre', post', hs, hcase⟩ := next_prefix hen hstream hne
        have hstuck' := next_stuck h.stalled hstuck hen hl
        rcases hcase with ⟨rfl, hlocking | ⟨a, -, hla, -⟩⟩ | ⟨b, -, rfl, hlocking⟩
        · exact .noPlace hstuck' pre' post' hs hpre (by rwa [hlocking])
        · exact absurd hla (hnolock hstuck a)
        · refine .noPlace hstuck' pre' post' hs
            (fun c hc => hpre c (List.mem_cons_of_mem _ hc)) ?_
          rw [List.countP_cons] at hfull
          rw [hlocking, List.length_append]
          split at hfull
          · next hsome =>
              rw [if_pos hsome, List.length_singleton]
              omega
          · omega
  | flooded pre post hstream hpre hlocking hfull =>
      exact next_flooded h.wired h.stalled h.unserved hen hl pre post hstream hpre
        hlocking hfull

theorem Standing.not_answered {s t : State} {n r : Nat} (h : Standing s n r)
    (hlead : machine.Leads (Without n) s t) : ¬ t.Answered r := by
  have hend : Standing t n r := Machine.Leads.invariant
    (I := fun s => Standing s n r) (fun _ _ h hen hl => h.next hen hl) hlead h
  intro hans
  obtain ⟨reply, hmem⟩ := hans
  exact hend.unserved.replies _ hmem rfl

/-- A message from a state that cannot answer it. -/
theorem standing_of_not_answerable {s : State} {n : Nat} {request : Option Value}
    (hs : machine.Reachable s) (hstalled : s.Stalled n)
    (hen : enabled s (.arrive request))
    (hno : ¬ s.Answerable n (commandOf request)) :
    Standing (next s (.arrive request)) n s.arrived.length := by
  have hw := reachable_wired hs
  have hnum := reachable_numbered hs
  have hun : Unserved (next s (.arrive request)) s.arrived.length := by
    refine ⟨?_, fun p hp => ?_, fun a ha => ?_, fun p hp => ?_, fun p hp => ?_⟩
    · show _ < (s.arrived ++ [_]).length
      rw [List.length_append, List.length_singleton]
      exact Nat.lt_succ_self _
    · exact Nat.ne_of_lt (hnum.holder p hp)
    · exact Nat.ne_of_lt (hnum.serving a ha)
    · exact Nat.ne_of_lt (hnum.replying p hp)
    · exact Nat.ne_of_lt (hnum.replies p hp)
  refine ⟨hw.next hen, hstalled, hun, ?_⟩
  by_cases hstuck : s.Stuck n
  · by_cases hcmd : commandOf request = none
    · refine .noPlace hstuck s.stream [_] rfl
        (fun b hb => Nat.ne_of_lt (hnum.stream b hb)) ?_
      by_contra hroom
      refine hno ⟨fun _ => ⟨hcmd, ?_⟩, fun hnot => absurd hstuck hnot⟩
      rw [show (next s (.arrive request)).locking = s.locking from rfl] at hroom
      omega
    · refine .needsLock hstuck ?_
      intro b hb hbr
      rcases List.mem_append.mp hb with hold | hnew
      · have := hnum.stream b hold
        omega
      · rw [List.mem_singleton.mp hnew]
        exact Option.isSome_iff_ne_none.mpr hcmd
  · have hfits : ¬ s.Fits n :=
      fun hfits => hno ⟨fun h => absurd h hstuck, fun _ => hfits⟩
    rw [State.Fits, not_or] at hfits
    obtain ⟨hclose, hcount⟩ := hfits
    refine .flooded (s.stream.takeWhile fun a => !s.frees n a)
      ((s.stream.dropWhile fun a => !s.frees n a) ++
        [⟨s.arrived.length, commandOf request⟩]) ?_ ?_ ?_ (.inl (by
        show 16 ≤ s.locking.countP (s.jams n) + _
        exact Nat.le_of_not_lt hcount))
    · rw [← List.append_assoc, List.takeWhile_append_dropWhile]
      rfl
    · intro b hb
      have hbs := (List.takeWhile_sublist _).subset hb
      have hbf := List.all_eq_true.mp List.all_takeWhile b hb
      refine ⟨Nat.ne_of_lt (hnum.stream b hbs), ?_⟩
      show s.frees n b = false
      simpa using hbf
    · intro a ha
      refine ⟨Nat.ne_of_lt (hnum.locking a ha), ?_⟩
      show s.frees n a = false
      cases hf : s.frees n a with
      | false => rfl
      | true => exact absurd ⟨a, ha, hf⟩ hclose

/-- In every reachable state in which the task of shell `n` is stalled, a
further message that brings no input for `n` can be processed and answered
without a step of that task exactly when the state is one that can answer it. -/
theorem answerable_iff {s : State} {n : Nat} {request : Option Value}
    (hs : machine.Reachable s) (hstalled : s.Stalled n)
    (hen : enabled s (.arrive request))
    (hj : s.jams n ⟨s.arrived.length, commandOf request⟩ = false) :
    (∃ t, machine.Leads (Without n) (next s (.arrive request)) t ∧
      t.Answered s.arrived.length) ↔ s.Answerable n (commandOf request) := by
  constructor
  · intro h
    obtain ⟨t, hlead, hans⟩ := h
    by_contra hno
    exact (standing_of_not_answerable hs hstalled hen hno).not_answered hlead hans
  · exact leads_of_answerable hs hj

/-- A request to open shell `id`, and a key press for shell `1`. -/
def opens (id : Text) : Option Value := some (.obj [(ofString "shell", .str id)])

def pressed : Option Value :=
  some (.obj [(ofString "shell",
    .obj [(ofString "id", .str [0x31]), (ofString "data", .str [0x61])])])

def pressing (number : Nat) : Arrival :=
  ⟨number, some (.input [0x31] [.string [0x61]])⟩

/-- Shell `1` is opened and given a key, and its task is busy sending it. -/
def stalledRun : List Label :=
  [.arrive (opens [0x31]), .start, .lock ⟨0, some (.start [0x31])⟩,
    .opened ⟨0, some (.start [0x31])⟩ [0x31] true,
    .arrive pressed, .start, .lock (pressing 1),
    .put (pressing 1) 0 [.string [0x61]], .popped 0 (.string [0x61])]

theorem answerable_iff_stalled :
    ∃ t, machine.Leads (Without 0)
      (next (stalledRun.foldl next State.init) (.arrive (opens [0x32]))) t ∧
      t.Answered 2 := by
  have hs : machine.Reachable (stalledRun.foldl next State.init) :=
    Machine.reaches_of_path (M := machine) (by decide)
  have hstalled : (stalledRun.foldl next State.init).Stalled 0 :=
    ⟨.string [0x61], by decide⟩
  have hen : enabled (stalledRun.foldl next State.init) (.arrive (opens [0x32])) := by
    decide
  refine (answerable_iff hs hstalled hen (by decide)).mpr ⟨fun hstuck => ?_, fun _ => ?_⟩
  · have hmsgs : ([] : List PollChannelData) ≠ [] ∨
        ((stalledRun.foldl next State.init).channel 0).slot ≠ none := hstuck.2
    exact absurd hmsgs (by decide)
  · exact .inr (by decide)

/-- One more key, which nobody takes out of the channel. -/
def blockedRun : List Label :=
  stalledRun ++ [.flushed (pressing 1) 0 [], .put (pressing 1) 0 [],
    .arrive pressed, .start, .lock (pressing 2), .put (pressing 2) 0 [.string [0x61]]]

/-- From there on no request about a shell is answered. -/
theorem stalled_blocks : ¬ ∀ (s : State) (n : Nat) (request : Option Value),
    machine.Reachable s → s.Stalled n → enabled s (.arrive request) →
    s.jams n ⟨s.arrived.length, commandOf request⟩ = false →
    ∃ t, machine.Leads (Without n) (next s (.arrive request)) t ∧
      t.Answered s.arrived.length := by
  intro h
  have hs : machine.Reachable (blockedRun.foldl next State.init) :=
    Machine.reaches_of_path (M := machine) (by decide)
  have hstalled : (blockedRun.foldl next State.init).Stalled 0 :=
    ⟨.string [0x61], by decide⟩
  obtain ⟨t, hlead, hans⟩ := h _ 0 (opens [0x32]) hs hstalled (by decide) (by decide)
  refine (standing_of_not_answerable hs hstalled (by decide) ?_).not_answered hlead hans
  intro hans
  have hstuck : (blockedRun.foldl next State.init).Stuck 0 :=
    ⟨rfl, .inr (by decide)⟩
  exact absurd (hans.1 hstuck).1 (by decide)

end WebSshTool.Session
