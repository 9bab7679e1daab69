import WebSshTool.Session.Shells

/-!
# The map of shells and the shells that live

`shells` is written by the handlers of requests, under its lock. Whether a
shell lives is decided by its `poll_channel` task, which never touches the
map. `Wired` is what the two still have in common in every reachable state: a
shell is in the map under its id from the moment it is opened until a request
closes it, or the session is over.

So an entry goes stale when the task ends before a request has closed the
shell: when the shell exits, when its SSH channel is lost, when input cannot
be sent on. `Meets` is the condition that a task ends only afterwards. It is
exact at every step, and where it is met an open request for an id whose
shell is gone starts a new one.
-/

namespace WebSshTool.Session

open Json

/-! ## Every reachable state -/

structure Wired (s : State) : Prop where
  absent : ∀ n, s.opened ≤ n → s.channel n = .absent
  listed : ∀ id n, s.shells id = some n →
    n < s.opened ∧ (s.channel n).id = id ∧ (s.channel n).closed = false
  unlisted : s.finished = false → ∀ n < s.opened,
    (s.channel n).closed = false → s.shells (s.channel n).id = some n
  /-- The handler that opens a shell keeps the lock from the look-up on. -/
  opening : ∀ a id, s.holder = some (a, .opening id) → s.shells id = none
  slot : ∀ n, (s.channel n).slot ≠ none →
    ∃ a ms, s.holder = some (a, .flushing n ms)
  drained : s.finished = true →
    s.stream = [] ∧ s.inFlight = 0 ∧ ∀ id, s.shells id = none

theorem Wired.init : Wired State.init where
  absent _ _ := rfl
  listed _ _ h := by cases h
  unlisted _ n h := by cases h
  opening _ _ h := by cases h
  slot _ h := absurd rfl h
  drained h := by cases h

/-- Only a shell that was opened has a task. -/
theorem Wired.lt_opened {s : State} (h : Wired s) {n : Nat}
    (htask : (s.channel n).task ≠ .ended) : n < s.opened := by
  by_contra hle
  rw [h.absent n (by omega)] at htask
  exact htask rfl

/-- Nothing that concerns the shells changes but who is waiting for what. -/
theorem Wired.frame {s s' : State} (h : Wired s) (hshells : s'.shells = s.shells)
    (hopened : s'.opened = s.opened) (hchannel : s'.channel = s.channel)
    (hfin : s'.finished = s.finished) (hholder : s'.holder = s.holder)
    (hdrained : s.finished = true → s'.stream = [] ∧ s'.inFlight = 0) :
    Wired s' where
  absent := by
    rw [hopened, hchannel]
    exact h.absent
  listed := by
    rw [hshells, hopened, hchannel]
    exact h.listed
  unlisted := by
    rw [hshells, hopened, hchannel, hfin]
    exact h.unlisted
  opening := by
    rw [hshells, hholder]
    exact h.opening
  slot := by
    rw [hchannel, hholder]
    exact h.slot
  drained := by
    rw [hfin, hshells]
    intro hf
    exact ⟨(hdrained hf).1, (hdrained hf).2, (h.drained hf).2.2⟩

/-- A shell changes and stays the shell it was, whatever becomes of the
handler with the lock. -/
theorem Wired.move {s s' : State} (h : Wired s) {n : Nat} {c : Shell}
    (hn : n < s.opened) (hid : c.id = (s.channel n).id)
    (hclosed : c.closed = (s.channel n).closed) (hshells : s'.shells = s.shells)
    (hopened : s'.opened = s.opened)
    (hchannel : s'.channel = Function.update s.channel n c)
    (hfin : s'.finished = s.finished)
    (hopening : ∀ a id, s'.holder = some (a, .opening id) → s.shells id = none)
    (hslot : ∀ k, (Function.update s.channel n c k).slot ≠ none →
      ∃ a ms, s'.holder = some (a, .flushing k ms))
    (hdrained : s.finished = true → s'.stream = [] ∧ s'.inFlight = 0) :
    Wired s' where
  absent k hk := by
    rw [hopened] at hk
    rw [hchannel, Function.update_of_ne (by omega)]
    exact h.absent k hk
  listed id k hk := by
    rw [hshells] at hk
    rw [hopened, hchannel]
    obtain ⟨hlt, hkid, hkc⟩ := h.listed id k hk
    by_cases hkn : k = n
    · subst hkn
      rw [Function.update_self, hid, hclosed]
      exact ⟨hlt, hkid, hkc⟩
    · rw [Function.update_of_ne hkn]
      exact ⟨hlt, hkid, hkc⟩
  unlisted hf k hk := by
    rw [hfin] at hf
    rw [hopened] at hk
    rw [hshells, hchannel]
    by_cases hkn : k = n
    · subst hkn
      rw [Function.update_self, hid, hclosed]
      exact h.unlisted hf k hk
    · rw [Function.update_of_ne hkn]
      exact h.unlisted hf k hk
  opening := by
    rw [hshells]
    exact hopening
  slot := by
    rw [hchannel]
    exact hslot
  drained hf := by
    rw [hfin] at hf
    rw [hshells]
    exact ⟨(hdrained hf).1, (hdrained hf).2, (h.drained hf).2.2⟩

/-- The task of a shell takes a step. -/
theorem Wired.setShell {s : State} (h : Wired s) {n : Nat} {c : Shell}
    (hn : n < s.opened) (hid : c.id = (s.channel n).id)
    (hclosed : c.closed = (s.channel n).closed)
    (hslot : c.slot ≠ none → (s.channel n).slot ≠ none) :
    Wired (s.setShell n c) := by
  refine h.move hn hid hclosed rfl rfl rfl rfl h.opening ?_ ?_
  · intro k hk
    by_cases hkn : k = n
    · subst hkn
      rw [Function.update_self] at hk
      exact h.slot k (hslot hk)
    · rw [Function.update_of_ne hkn] at hk
      exact h.slot k hk
  · intro hf
    exact ⟨(h.drained hf).1, (h.drained hf).2.1⟩

/-- The handler with the lock moves on, or gives the lock back. -/
theorem Wired.hold {s s' : State} (h : Wired s) (hshells : s'.shells = s.shells)
    (hopened : s'.opened = s.opened) (hchannel : s'.channel = s.channel)
    (hfin : s'.finished = false) (hwas : s.finished = false)
    (hopening : ∀ a id, s'.holder = some (a, .opening id) → s.shells id = none)
    (hslot : ∀ n, (s.channel n).slot ≠ none →
      ∃ a ms, s'.holder = some (a, .flushing n ms)) : Wired s' where
  absent := by
    rw [hopened, hchannel]
    exact h.absent
  listed := by
    rw [hshells, hopened, hchannel]
    exact h.listed
  unlisted _ := by
    rw [hshells, hopened, hchannel]
    exact h.unlisted hwas
  opening := by
    rw [hshells]
    exact hopening
  slot := by
    rw [hchannel]
    exact hslot
  drained hf := by
    rw [hfin] at hf
    cases hf

/-- A session with a handler that goes on is not over. -/
theorem Wired.not_finished {s : State} (h : Wired s) (hpos : 0 < s.inFlight) :
    s.finished = false := by
  cases hf : s.finished with
  | false => rfl
  | true =>
      have hzero := (h.drained hf).2.1
      omega

theorem State.inFlight_pos_of_holder {s : State} {h : Arrival × Holding}
    (hh : s.holder = some h) : 0 < s.inFlight := by
  simp only [State.inFlight, hh, Option.toList_some, List.length_singleton]
  omega

theorem State.inFlight_pos_of_locking {s : State} {a : Arrival}
    (ha : a ∈ s.locking) : 0 < s.inFlight := by
  have hpos := List.length_pos_of_mem ha
  simp only [State.inFlight]
  omega

/-- No handler is left of a session that is over. -/
theorem Wired.idle {s : State} (h : Wired s) (hf : s.finished = true) :
    s.stream = [] ∧ s.locking = [] ∧ s.holder = none := by
  obtain ⟨hstream, hzero, -⟩ := h.drained hf
  have hlocking : s.locking.length = 0 := by
    unfold State.inFlight at hzero
    omega
  refine ⟨hstream, List.length_eq_zero_iff.mp hlocking, ?_⟩
  cases hh : s.holder with
  | none => rfl
  | some x =>
      have hpos := State.inFlight_pos_of_holder hh
      omega

/-- While nobody has put a message into a channel, all of them are empty. -/
theorem Wired.slot_none {s : State} (h : Wired s)
    (hno : ∀ a n ms, s.holder ≠ some (a, .flushing n ms)) (n : Nat) :
    (s.channel n).slot = none := by
  by_contra hslot
  obtain ⟨a, ms, hh⟩ := h.slot n hslot
  exact hno a n ms hh

theorem Wired.respond {s : State} (h : Wired s) (hfin : s.finished = false)
    (hno : ∀ n, (s.channel n).slot = none) (a : Arrival) (reply : Reply) :
    Wired (s.respond a reply) :=
  h.hold rfl rfl rfl hfin hfin (fun _ _ hh => by cases hh)
    fun n hn => absurd (hno n) hn

/-- `shells.remove(&id)` and the sender closed. -/
def State.closeShell (s : State) (id : Text) (n : Nat) : State :=
  { s with shells := Function.update s.shells id none }.setShell n
    { s.channel n with closed := true }

theorem Wired.closeShell {s : State} (h : Wired s) (hfin : s.finished = false)
    (hfree : s.holder = none) {id : Text} {n : Nat} (hn : s.shells id = some n) :
    Wired (s.closeShell id n) := by
  obtain ⟨hlt, hnid, -⟩ := h.listed id n hn
  have hno : ∀ k, (s.channel k).slot = none :=
    h.slot_none fun _ _ _ hh => by rw [hfree] at hh; cases hh
  constructor
  · intro k hk
    have hkn : k ≠ n := by
      have : s.opened ≤ k := hk
      omega
    simp only [State.closeShell, State.setShell, Function.update_of_ne hkn]
    exact h.absent k hk
  · intro id' k hk
    simp only [State.closeShell, State.setShell] at hk ⊢
    by_cases hid : id' = id
    · rw [hid, Function.update_self] at hk
      cases hk
    · rw [Function.update_of_ne hid] at hk
      obtain ⟨hlt', hkid, hkc⟩ := h.listed id' k hk
      have hkn : k ≠ n := by
        intro hkn
        rw [hkn, hnid] at hkid
        exact hid hkid.symm
      rw [Function.update_of_ne hkn]
      exact ⟨hlt', hkid, hkc⟩
  · intro hf k hk hc
    simp only [State.closeShell, State.setShell] at hc ⊢
    by_cases hkn : k = n
    · subst hkn
      rw [Function.update_self] at hc
      cases hc
    · rw [Function.update_of_ne hkn] at hc ⊢
      have hk' := h.unlisted hf k hk hc
      have hid : (s.channel k).id ≠ id := by
        intro hid
        rw [hid, hn] at hk'
        exact hkn (Option.some.inj hk').symm
      rw [Function.update_of_ne hid]
      exact hk'
  · intro b id' hh
    rw [show (s.closeShell id n).holder = s.holder from rfl, hfree] at hh
    cases hh
  · intro k hk
    simp only [State.closeShell, State.setShell] at hk
    by_cases hkn : k = n
    · subst hkn
      rw [Function.update_self] at hk
      exact absurd (hno k) hk
    · rw [Function.update_of_ne hkn] at hk
      exact absurd (hno k) hk
  · intro hf
    rw [show s.finished = true from hf] at hfin
    cases hfin

/-- A handler gets the lock. -/
theorem Wired.handle {s : State} (h : Wired s) (hfin : s.finished = false)
    (hfree : s.holder = none) (a : Arrival) : Wired (s.handle a) := by
  have hempty : ∀ {s' : State}, Wired s' → s'.holder = none →
      ∀ n, (s'.channel n).slot = none := by
    intro s' h' hfree'
    exact h'.slot_none fun _ _ _ hh => by rw [hfree'] at hh; cases hh
  have hno := hempty h hfree
  have hnull : Wired (s.respond a .null) := h.respond hfin hno a .null
  rw [State.handle]
  split
  · next id _ =>
      split
      · next hid =>
          refine h.hold rfl rfl rfl hfin hfin ?_ (fun n hn => absurd (hno n) hn)
          intro b id' hh
          cases hh
          exact hid
      · exact hnull
  · next id _ =>
      split
      · next n hn =>
          have hclose := h.closeShell hfin hfree hn
          exact hclose.respond hfin (hempty hclose hfree) a .null
      · exact hnull
  · split
    · exact h.hold rfl rfl rfl hfin hfin (fun _ _ hh => by cases hh)
        (fun n hn => absurd (hno n) hn)
    · exact hnull
  · exact hnull
  · exact hnull

/-- A handler has opened a shell. -/
theorem Wired.openShell {s : State} (h : Wired s) {id : Text} (by' : Nat)
    (hid : s.shells id = none) (hfin : s.finished = false)
    (hno : ∀ n, (s.channel n).slot = none) (a : Arrival) (reply : Reply) :
    Wired ((s.openShell id by').respond a reply) where
  absent k hk := by
    simp only [State.respond, State.openShell] at hk ⊢
    rw [Function.update_of_ne (by omega)]
    exact h.absent k (by omega)
  listed id' k hk := by
    simp only [State.respond, State.openShell] at hk ⊢
    by_cases hidd : id' = id
    · rw [hidd, Function.update_self] at hk
      cases hk
      rw [Function.update_self, hidd]
      exact ⟨Nat.lt_succ_self _, rfl, rfl⟩
    · rw [Function.update_of_ne hidd] at hk
      obtain ⟨hlt, hrest⟩ := h.listed id' k hk
      rw [Function.update_of_ne (by omega)]
      exact ⟨by omega, hrest⟩
  unlisted hf k hk hc := by
    simp only [State.respond, State.openShell] at hk hc ⊢
    by_cases hko : k = s.opened
    · subst hko
      rw [Function.update_self]
      exact Function.update_self ..
    · rw [Function.update_of_ne hko] at hc ⊢
      have hk' := h.unlisted hfin k (by omega) hc
      have hidd : (s.channel k).id ≠ id := by
        intro hidd
        rw [hidd, hid] at hk'
        cases hk'
      rw [Function.update_of_ne hidd]
      exact hk'
  opening _ _ hh := by cases hh
  slot k hk := by
    simp only [State.respond, State.openShell] at hk
    by_cases hko : k = s.opened
    · subst hko
      rw [Function.update_self] at hk
      exact absurd rfl hk
    · rw [Function.update_of_ne hko] at hk
      exact absurd (hno k) hk
  drained hf := by
    rw [show s.finished = true from hf] at hfin
    cases hfin

/-- A handler puts a message into the channel of its shell. -/
theorem Wired.put {s : State} (h : Wired s) {a : Arrival} {n : Nat}
    {messages : List PollChannelData}
    (hen : s.holder = some (a, .sending n messages)) :
    Wired (next s (.put a n messages)) := by
  have hfin := h.not_finished (State.inFlight_pos_of_holder hen)
  have hno : ∀ k, (s.channel k).slot = none :=
    h.slot_none fun _ _ _ hh => by rw [hen] at hh; cases hh
  simp only [next]
  split
  · exact h.respond hfin hno a .null
  · next message rest =>
      split
      · exact h.respond hfin hno a .internalError
      · next htask =>
          have hlt := h.lt_opened htask
          refine h.move (c := { s.channel n with slot := some message }) hlt rfl rfl
            rfl rfl rfl rfl (fun _ _ hh => by cases hh) ?_ ?_
          · intro k hk
            by_cases hkn : k = n
            · subst hkn
              exact ⟨a, rest, rfl⟩
            · rw [Function.update_of_ne hkn] at hk
              exact absurd (hno k) hk
          · intro hf
            rw [hfin] at hf
            cases hf

theorem Wired.next {s : State} {l : Label} (h : Wired s) (hen : enabled s l) :
    Wired (next s l) := by
  have htask : ∀ {n : Nat} {t : PollTask}, (s.channel n).task = t → t ≠ .ended →
      n < s.opened := by
    intro n t ht hne
    exact h.lt_opened (by rw [ht]; exact hne)
  cases l with
  | arrive request =>
      refine h.frame rfl rfl rfl rfl rfl fun hf => ?_
      rw [show s.finished = false from hen] at hf
      cases hf
  | start =>
      have hwas : s.finished = false := by
        cases hf : s.finished with
        | false => rfl
        | true => exact absurd (h.drained hf).1 hen.1
      simp only [Session.next]
      split
      · exact h
      · split
        · refine h.frame rfl rfl rfl rfl rfl fun hf => ?_
          rw [hwas] at hf
          cases hf
        · refine h.frame rfl rfl rfl rfl rfl fun hf => ?_
          rw [hwas] at hf
          cases hf
  | lock a =>
      have hfin := h.not_finished (State.inFlight_pos_of_locking hen.1)
      have hlocked : Wired { s with locking := s.locking.erase a } := by
        refine h.frame rfl rfl rfl rfl rfl fun hf => ?_
        rw [hfin] at hf
        cases hf
      exact hlocked.handle hfin hen.2 a
  | opened a id ok =>
      have hholder : s.holder = some (a, .opening id) := hen
      have hfin := h.not_finished (State.inFlight_pos_of_holder hholder)
      have hno : ∀ k, (s.channel k).slot = none :=
        h.slot_none fun _ _ _ hh => by rw [hholder] at hh; cases hh
      cases ok with
      | true =>
          exact h.openShell a.number (h.opening a id hholder) hfin hno a .null
      | false => exact h.respond hfin hno a .internalError
  | put a n messages => exact h.put hen
  | flushed a n messages =>
      have hfin := h.not_finished (State.inFlight_pos_of_holder hen.1)
      refine h.hold rfl rfl rfl hfin hfin (fun _ _ hh => by cases hh) ?_
      intro k hk
      obtain ⟨b, ms, hb⟩ := h.slot k hk
      rw [hen.1] at hb
      cases hb
      exact absurd hen.2 hk
  | served a =>
      have hpos : 0 < s.inFlight := by
        have hlen := List.length_pos_of_mem hen
        simp only [State.inFlight]
        omega
      refine h.frame rfl rfl rfl rfl rfl fun hf => ?_
      rw [h.not_finished hpos] at hf
      cases hf
  | replied a reply =>
      have hpos : 0 < s.inFlight := by
        have hlen := List.length_pos_of_mem hen
        simp only [State.inFlight]
        omega
      refine h.frame rfl rfl rfl rfl rfl fun hf => ?_
      rw [h.not_finished hpos] at hf
      cases hf
  | finish =>
      have hholder : s.holder = none := by
        cases hh : s.holder with
        | none => rfl
        | some x =>
            have hpos := State.inFlight_pos_of_holder hh
            have hzero := hen.2.2
            omega
      constructor
      · exact h.absent
      · intro id n hn
        cases hn
      · intro hf
        cases hf
      · intro b id hh
        rw [show (Session.next s .finish).holder = s.holder from rfl, hholder] at hh
        cases hh
      · exact h.slot
      · intro _
        exact ⟨hen.2.1, hen.2.2, fun _ => rfl⟩
  | popped n message =>
      exact h.setShell (htask hen.1 (by simp)) rfl rfl fun hs => absurd rfl hs
  | hungUp n => exact h.setShell (htask hen.1 (by simp)) rfl rfl id
  | channelEnded n => exact h.setShell (htask hen (by simp)) rfl rfl id
  | handed n message => exact h.setShell (htask hen (by simp)) rfl rfl id
  | output n bytes => exact h.setShell (htask hen (by simp)) rfl rfl id
  | forwarded n bytes => exact h.setShell (htask hen (by simp)) rfl rfl id
  | sendFailed n message =>
      exact h.setShell (htask hen (by simp)) rfl rfl fun hs => absurd rfl hs
  | forwardFailed n bytes =>
      exact h.setShell (htask hen (by simp)) rfl rfl fun hs => absurd rfl hs
  | closeForwarded n taken =>
      exact h.setShell (htask hen (by simp)) rfl rfl fun hs => absurd rfl hs

theorem reachable_wired {s : State} (hs : machine.Reachable s) : Wired s :=
  hs.invariant Wired.init fun _ _ _ h hen _ => h.next hen

/-! ## What a step makes of one shell -/

/-- A step of the task of shell `n`. -/
inductive TaskStep (n : Nat) (c : Shell) : Label → Shell → Prop
  | popped {m : PollChannelData} (ht : c.task = .selecting)
      (hm : c.slot = some m) :
      TaskStep n c (.popped n m) { c with slot := none, task := .sending m }
  | hungUp (ht : c.task = .selecting) :
      TaskStep n c (.hungUp n) { c with task := .closing }
  | channelEnded (ht : c.task = .selecting) :
      TaskStep n c (.channelEnded n) { c with task := .closing }
  | handed {m : PollChannelData} (ht : c.task = .sending m) :
      TaskStep n c (.handed n m)
        { c with task := .selecting, handed := c.handed ++ [m] }
  | sendFailed {m : PollChannelData} (ht : c.task = .sending m) :
      TaskStep n c (.sendFailed n m) c.ending
  | output {bytes : List Nat} (ht : c.task = .selecting) :
      TaskStep n c (.output n bytes)
        { c with task := .forwarding bytes, received := c.received ++ [bytes] }
  | forwarded {bytes : List Nat} (ht : c.task = .forwarding bytes) :
      TaskStep n c (.forwarded n bytes)
        { c with task := .selecting, emitted := c.emitted ++ [.data bytes] }
  | forwardFailed {bytes : List Nat} (ht : c.task = .forwarding bytes) :
      TaskStep n c (.forwardFailed n bytes) c.ending
  | closeForwarded {taken : Bool} (ht : c.task = .closing) :
      TaskStep n c (.closeForwarded n taken) { c.ending with
        emitted := bif taken then c.emitted ++ [.close] else c.emitted }

/-- What a step of anybody makes of shell `n`. -/
inductive ShellStep (s : State) (n : Nat) : Label → Shell → Prop
  | stay {l : Label} : ShellStep s n l (s.channel n)
  | fresh {a : Arrival} {id : Text} (hn : n = s.opened) :
      ShellStep s n (.opened a id true) (.fresh id a.number)
  | close {a : Arrival} {id : Text} (hc : a.command = some (.close id))
      (hn : s.shells id = some n) :
      ShellStep s n (.lock a) { s.channel n with closed := true }
  | put {a : Arrival} {m : PollChannelData} {ms : List PollChannelData}
      (ht : (s.channel n).task ≠ .ended) :
      ShellStep s n (.put a n (m :: ms)) { s.channel n with slot := some m }
  | task {l : Label} {c : Shell} (h : TaskStep n (s.channel n) l c) :
      ShellStep s n l c

theorem shellStep_setShell {s : State} {l : Label} {k : Nat} {c : Shell}
    (hstep : ShellStep s k l c) (n : Nat) :
    ShellStep s n l (Function.update s.channel k c n) := by
  by_cases hnk : n = k
  · subst hnk
    rw [Function.update_self]
    exact hstep
  · rw [Function.update_of_ne hnk]
    exact .stay

theorem next_channel {s : State} {l : Label} (hen : enabled s l) (n : Nat) :
    ShellStep s n l ((next s l).channel n) := by
  cases l with
  | arrive request | served a | replied a reply | finish | flushed a k ms =>
      exact .stay
  | start =>
      simp only [next]
      split
      · exact .stay
      · split <;> exact .stay
  | lock a =>
      simp only [next, State.handle]
      split
      · split <;> exact .stay
      · next id hc =>
          split
          · next k hk => exact shellStep_setShell (.close hc hk) n
          · exact .stay
      · split <;> exact .stay
      · exact .stay
      · exact .stay
  | opened a id ok =>
      cases ok with
      | false => exact .stay
      | true => exact shellStep_setShell (.fresh rfl) n
  | put a k messages =>
      simp only [next]
      split
      · exact .stay
      · split
        · exact .stay
        · next ht => exact shellStep_setShell (.put ht) n
  | popped k m => exact shellStep_setShell (.task (.popped hen.1 hen.2)) n
  | hungUp k => exact shellStep_setShell (.task (.hungUp hen.1)) n
  | channelEnded k => exact shellStep_setShell (.task (.channelEnded hen)) n
  | handed k m => exact shellStep_setShell (.task (.handed hen)) n
  | sendFailed k m => exact shellStep_setShell (.task (.sendFailed hen)) n
  | output k bytes => exact shellStep_setShell (.task (.output hen)) n
  | forwarded k bytes => exact shellStep_setShell (.task (.forwarded hen)) n
  | forwardFailed k bytes => exact shellStep_setShell (.task (.forwardFailed hen)) n
  | closeForwarded k taken =>
      exact shellStep_setShell (.task (.closeForwarded hen)) n

theorem next_finished {s : State} (l : Label) (h : s.finished = true) :
    (next s l).finished = true := by
  cases l with
  | start =>
      simp only [next]
      split
      · exact h
      · split <;> exact h
  | lock a =>
      simp only [next, State.handle]
      split
      · split <;> exact h
      · split <;> exact h
      · split <;> exact h
      · exact h
      · exact h
  | opened a id ok => cases ok <;> exact h
  | put a n messages =>
      simp only [next]
      split
      · exact h
      · split <;> exact h
  | finish => rfl
  | _ => exact h

/-! ## The map holds no shell that is gone -/

/-- `shells` maps no id to the sender of a task that has ended. -/
def State.Live (s : State) : Prop :=
  ∀ n < s.opened, (s.channel n).task = .ended → ∀ id, s.shells id ≠ some n

/-- A handler that gets the lock to open an id without a running shell goes
on to open one, and the shell it gets is a new one under this id. -/
def State.Reopens (s : State) : Prop :=
  ∀ a id, enabled s (.lock a) → a.command = some (.start id) →
    (∀ n < s.opened, (s.channel n).id = id → (s.channel n).task = .ended) →
    (next s (.lock a)).holder = some (a, .opening id) ∧
    (next (next s (.lock a)) (.opened a id true)).shells id = some s.opened ∧
    (next (next s (.lock a)) (.opened a id true)).channel s.opened =
      .fresh id a.number

/-- What a step must find so that no entry goes stale: a task ends when a
request has closed its shell, or when the session is over. -/
def EndsClosed (s : State) : Label → Prop
  | .sendFailed n _ | .forwardFailed n _ | .closeForwarded n _ =>
      (s.channel n).closed = true ∨ s.finished = true
  | _ => True

instance (s : State) (l : Label) : Decidable (EndsClosed s l) := by
  induction l using Label.casesOn <;> unfold EndsClosed <;> infer_instance

/-- Every shell whose task has ended is closed, until the session is over. -/
def State.ClosedWhenEnded (s : State) : Prop :=
  s.finished = false → ∀ n < s.opened, (s.channel n).task = .ended →
    (s.channel n).closed = true

theorem Wired.live_iff {s : State} (h : Wired s) :
    s.Live ↔ s.ClosedWhenEnded := by
  constructor
  · intro hlive hf n hn ht
    cases hc : (s.channel n).closed with
    | true => rfl
    | false => exact absurd (h.unlisted hf n hn hc) (hlive n hn ht _)
  · intro hclosed n hn ht id hid
    cases hf : s.finished with
    | true =>
        rw [(h.drained hf).2.2 id] at hid
        cases hid
    | false =>
        have hc := hclosed hf n hn ht
        rw [(h.listed id n hid).2.2] at hc
        cases hc

/-- What a step does to one shell keeps it closed when its task has ended,
unless it ends the task of a shell that is open. -/
theorem ShellStep.closed {s : State} {n : Nat} {l : Label} {c : Shell}
    (h : ShellStep s n l c)
    (hclosed : (s.channel n).task = .ended → (s.channel n).closed = true)
    (hl : EndsClosed s l) (hf : s.finished = false) (ht : c.task = .ended) :
    c.closed = true := by
  cases h with
  | stay => exact hclosed ht
  | fresh => cases ht
  | close => rfl
  | put hne => exact absurd ht hne
  | task h =>
      have hshut : (s.channel n).closed = true ∨ s.finished = true →
          (s.channel n).closed = true := by
        intro hor
        rcases hor with hc | hfin
        · exact hc
        · rw [hf] at hfin
          cases hfin
      cases h with
      | popped | hungUp | channelEnded | handed | output | forwarded => cases ht
      | sendFailed | forwardFailed | closeForwarded => exact hshut hl

theorem next_closedWhenEnded {s : State} {l : Label} (hw : Wired s)
    (h : s.ClosedWhenEnded) (hen : enabled s l) (hl : EndsClosed s l) :
    (next s l).ClosedWhenEnded := by
  intro hf n hn ht
  have hwas : s.finished = false := by
    cases hfin : s.finished with
    | false => rfl
    | true =>
        rw [next_finished l hfin] at hf
        cases hf
  refine (next_channel hen n).closed ?_ hl hwas ht
  intro hte
  by_cases hold : n < s.opened
  · exact h hwas n hold hte
  · rw [hw.absent n (by omega)]
    rfl

theorem reaches_live {s : State} (hs : machine.Reaches EndsClosed s) : s.Live := by
  rw [(reachable_wired hs.reachable).live_iff]
  refine hs.invariant (I := State.ClosedWhenEnded) ?_ ?_
  · intro _ n hn
    exact absurd hn (Nat.not_lt_zero n)
  · intro s l hs h hen hl
    exact next_closedWhenEnded (reachable_wired hs.reachable) h hen hl

/-- The condition is exact: a step that ends the task of an open shell leaves
a stale entry. -/
theorem endsClosed_of_live {s : State} {l : Label} (hw : Wired s)
    (hen : enabled s l) (hlive : (next s l).Live) : EndsClosed s l := by
  have hkeep : ∀ {n : Nat} {c : Shell}, (s.channel n).task ≠ .ended →
      c.task = .ended → (s.setShell n c).Live →
      (s.channel n).closed = true ∨ s.finished = true := by
    intro n c hne hte hlive
    have hn := hw.lt_opened hne
    cases hf : s.finished with
    | true => exact .inr rfl
    | false =>
        left
        cases hc : (s.channel n).closed with
        | true => rfl
        | false =>
            refine absurd (hw.unlisted hf n hn hc) (hlive n hn ?_ _)
            show (Function.update s.channel n c n).task = .ended
            rw [Function.update_self, hte]
  cases l with
  | sendFailed n m =>
      exact hkeep (by rw [show (s.channel n).task = .sending m from hen]; simp) rfl hlive
  | forwardFailed n bytes =>
      exact hkeep (by rw [show (s.channel n).task = .forwarding bytes from hen]; simp)
        rfl hlive
  | closeForwarded n taken =>
      exact hkeep (by rw [show (s.channel n).task = .closing from hen]; simp) rfl hlive
  | _ => trivial

theorem Wired.reopens {s : State} (h : Wired s) (hlive : s.Live) : s.Reopens := by
  intro a id hen hcmd hgone
  have hid : s.shells id = none := by
    cases hn : s.shells id with
    | none => rfl
    | some n =>
        obtain ⟨hlt, hnid, -⟩ := h.listed id n hn
        exact absurd hn (hlive n hlt (hgone n hlt hnid) id)
  have hlock : Session.next s (.lock a) =
      { s with locking := s.locking.erase a, holder := some (a, .opening id) } := by
    simp only [Session.next, State.handle, hcmd, hid]
  rw [hlock]
  exact ⟨rfl, Function.update_self .., Function.update_self ..⟩

/-- In every run in which tasks end only after their shells were closed, the
map holds no shell that is gone and every open request without a running
shell starts one; and a step from such a run that breaks the condition leaves
a stale entry. -/
theorem shells_live {s : State} (hs : machine.Reaches EndsClosed s) :
    s.Live ∧ s.Reopens ∧
      ∀ l, enabled s l → (EndsClosed s l ↔ (next s l).Live) := by
  have hw := reachable_wired hs.reachable
  have hlive := reaches_live hs
  refine ⟨hlive, hw.reopens hlive, fun l hen => ?_⟩
  constructor
  · intro hl
    exact reaches_live (hs.step hen hl)
  · exact endsClosed_of_live hw hen

/-- Shell `1` is opened, closed by a request and opened again. -/
def reopenRun : List Label :=
  [.arrive (some (.obj [(ofString "shell", .str [0x31])])), .start,
    .lock ⟨0, some (.start [0x31])⟩, .opened ⟨0, some (.start [0x31])⟩ [0x31] true,
    .arrive (some (.obj [(ofString "shell", .obj [(ofString "close", .obj []),
      (ofString "id", .str [0x31])])])), .start, .lock ⟨1, some (.close [0x31])⟩,
    .hungUp 0, .closeForwarded 0 true,
    .arrive (some (.obj [(ofString "shell", .str [0x31])])), .start,
    .lock ⟨2, some (.start [0x31])⟩, .opened ⟨2, some (.start [0x31])⟩ [0x31] true]

theorem shells_live_reopen :
    (reopenRun.foldl next State.init).shells [0x31] = some 1 ∧
      (reopenRun.foldl next State.init).Live := by
  have hs : machine.Reaches EndsClosed (reopenRun.foldl next State.init) :=
    Machine.reaches_of_path (M := machine) (by decide)
  exact ⟨by decide, (shells_live hs).1⟩

/-- Shell `1` is opened and exits by itself; the request to open it again
finds its entry. -/
def exitedRun : List Label :=
  [.arrive (some (.obj [(ofString "shell", .str [0x31])])), .start,
    .lock ⟨0, some (.start [0x31])⟩, .opened ⟨0, some (.start [0x31])⟩ [0x31] true,
    .channelEnded 0, .closeForwarded 0 true,
    .arrive (some (.obj [(ofString "shell", .str [0x31])])), .start]

theorem shells_stale : ¬ ∀ s : State, machine.Reachable s → s.Live ∧ s.Reopens := by
  intro h
  have hs : machine.Reachable (exitedRun.foldl next State.init) :=
    Machine.reaches_of_path (M := machine) (by decide)
  have hreopen := (h _ hs).2 ⟨1, some (.start [0x31])⟩ [0x31] (by decide) rfl (by decide)
  exact absurd hreopen.1 (by decide)

end WebSshTool.Session
