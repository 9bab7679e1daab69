import WebSshTool.Lib.Mutex
import WebSshTool.Watch.Watcher

/-!
# The watcher, its event thread and a request wait for each other

`poll_event` takes an event out of the channel before it has the lock of the
`MyWatcher`, which frees the event thread for one more event. If a request
got the lock in between and calls `unwatch` or `watch`, the thread, blocked in
its next send, does not answer, the request keeps the lock, and `poll_event`
does not come back to the channel.

Two steps close the circle, whichever comes last: the thread starts to send
while a request is inside such a call, or a request goes into one while the
thread sends, in both cases with `poll_event` waiting for the lock. `Meets`
is their negation.
-/

namespace WebSshTool.Watch

open Mutex

variable {π : Type*}

/-! ## The lock -/

/-- The lock as a table of one mutex. -/
def LockOwned (s : State π) : Prop :=
  Owned (fun _ : Unit => s.lock) fun t _ => s.holds t

/-- A step of request `r` alone: it gains the lock only where the lock is free,
and the owner changes exactly with it. -/
theorem LockOwned.request {s s' : State π} (h : LockOwned s) {r : RequestId}
    {p q : Request π} (hq : s.requests r = q)
    (hp : s'.requests = Function.update s.requests r p)
    (hpoll : s'.pollTask = s.pollTask)
    (hfree : p.holds = true → q.holds = true ∨ s.lock = none)
    (hl : s'.lock = bif q.holds == p.holds then s.lock
      else bif p.holds then some (.request r) else none) :
    LockOwned s' := by
  subst hq
  refine Owned.step h (.request r) ?_ ?_ ?_
  · intro t ht l
    cases t with
    | poll => simp [State.holds, hpoll]
    | request b =>
        have hbr : b ≠ r := fun hb => ht (by rw [hb])
        simp [State.holds, hp, Function.update_of_ne hbr]
  · intro l
    simpa [State.holds, hp] using hfree
  · intro l
    simpa [State.holds, hp] using hl

/-- A step of `poll_event` alone. -/
theorem LockOwned.poll {s s' : State π} (h : LockOwned s)
    (hr : s'.requests = s.requests)
    (hfree : s'.holds .poll = true → s.holds .poll = true ∨ s.lock = none)
    (hl : s'.lock = bif s.holds .poll == s'.holds .poll then s.lock
      else bif s'.holds .poll then some .poll else none) :
    LockOwned s' := by
  refine Owned.step h .poll ?_ (fun _ => hfree) fun _ => hl
  intro t ht l
  cases t with
  | poll => exact absurd rfl ht
  | request b => simp [State.holds, hr]

theorem init_lockOwned (path : π) : LockOwned (init path) := by
  intro l t
  cases t <;> simp [init, State.holds, Request.holds]

@[simp] theorem emit_requests (s : State π) (d t : Bool) :
    (s.emit d t).requests = s.requests := by
  cases t <;> rfl

@[simp] theorem emit_pollTask (s : State π) (d t : Bool) :
    (s.emit d t).pollTask = s.pollTask := by
  cases t <;> rfl

@[simp] theorem emit_lock (s : State π) (d t : Bool) :
    (s.emit d t).lock = s.lock := by
  cases t <;> rfl

@[simp] theorem emit_thread (s : State π) (d t : Bool) :
    (s.emit d t).thread = s.thread := by
  cases t <;> rfl

section

variable [DecidableEq π] {parent : π → Option π}

theorem next_lockOwned {s : State π} {l : Label π} (h : LockOwned s)
    (hen : enabled s l) : LockOwned (next parent s l) := by
  cases l with
  | notify n | sent n => exact h.poll rfl .inl (by simp [next, State.holds])
  | opened ok | stop =>
      refine h.poll rfl ?_ ?_ <;> simp [next, State.holds, hen.1]
  | introduced ok d t =>
      refine h.poll (by simp [next]) ?_ ?_ <;>
        simp [next, State.holds, show s.pollTask = _ from hen]
  | pop n => refine h.poll rfl ?_ ?_ <;> simp [next, State.holds, hen.1]
  | pollLock n => refine h.poll rfl ?_ ?_ <;> simp [next, State.holds, hen.1, hen.2]
  | handled n d t =>
      refine h.poll (by simp [next]) ?_ ?_ <;>
        cases t <;> simp [next, State.holds, show s.pollTask = _ from hen]
  | request r act =>
      refine h.request hen.1 rfl rfl ?_ ?_ <;> simp [next, State.setRequest, Request.holds]
  | lock r act =>
      have hlock {p : Request π} {s' : State π} (hs : s' = { s.setRequest r p with
          lock := some (.request r) }) (hp : p.holds = true) : LockOwned s' := by
        subst hs
        refine h.request hen.1 rfl rfl (fun _ => .inr hen.2) ?_
        have hq : (Request.locking act).holds = false := rfl
        simp [hq, hp]
      cases act with
      | cd target =>
          cases target with
          | none =>
              refine h.request hen.1 rfl rfl ?_ ?_ <;>
                simp [next, State.setRequest, Request.holds]
          | some path => exact hlock rfl rfl
      | cdToParent =>
          simp only [next]
          split
          · exact hlock rfl rfl
          · exact hlock rfl rfl
      | close => exact hlock rfl rfl
  | unwatched r target =>
      cases target with
      | none | some path =>
          refine h.request hen.1 rfl rfl ?_ ?_ <;> simp [next, State.setRequest, Request.holds]
  | answered r ok =>
      refine h.request hen.1 rfl rfl ?_ ?_ <;> simp [next, State.setRequest, Request.holds]
  | reported r ok d t =>
      refine h.request hen (p := .finished) (by simp [next, State.setRequest])
        (by simp [next, State.setRequest]) ?_ ?_ <;>
        simp [next, State.setRequest, Request.holds]
  | closeSent r t =>
      refine h.request hen rfl rfl ?_ ?_ <;> simp [next, State.setRequest, Request.holds]

theorem reachable_lockOwned {path : π} {s : State π}
    (hs : (machine parent path).Reachable s) : LockOwned s :=
  hs.invariant (I := LockOwned) (init_lockOwned path)
    fun _ _ _ h hen _ => next_lockOwned h hen

end

/-! ## The circle -/

/-- The thread is blocked: its event is still in the channel. -/
def State.threadSending (s : State π) : Prop :=
  ∃ n, s.thread = .sending n ∧ s.slot ≠ none

/-- `poll_event` has taken an event and waits for the lock. -/
def State.pollWaiting (s : State π) : Prop := ∃ n, s.pollTask = .locking n

/-- The request that has the lock is inside `watch` or `unwatch`. -/
def State.ownerCalling (s : State π) : Prop :=
  ∃ r, s.lock = some (.request r) ∧ (s.requests r).calling = true

def CyclicWait (s : State π) : Prop :=
  s.threadSending ∧ s.pollWaiting ∧ s.ownerCalling

/-- The lock leads into a call of `watch` or `unwatch`. -/
def Action.calls (parent : π → Option π) (s : State π) : Action π → Bool
  | .cd target => target.isSome
  | .cdToParent => (parent s.currentPath).isSome
  | .close => true

/-- What a step must find so that it closes no circle. -/
def Meets (parent : π → Option π) (s : State π) : Label π → Prop
  | .notify _ => ¬ (s.pollWaiting ∧ s.ownerCalling)
  | .lock _ act =>
      act.calls parent s = true → ¬ (s.threadSending ∧ s.pollWaiting)
  | _ => True

theorem not_threadSending_of_idle {s : State π} (h : s.thread = .idle) :
    ¬ s.threadSending := by
  rintro ⟨n, hn, -⟩
  rw [h] at hn
  exact absurd hn (by simp)

theorem not_pollWaiting_of_eq {s : State π} {p : PollTask} (h : s.pollTask = p)
    (hp : ∀ n, p ≠ .locking n) : ¬ s.pollWaiting :=
  fun ⟨n, hn⟩ => hp n (h.symm.trans hn)

/-- The request that moves is outside `watch` and `unwatch` then, and the lock
stays where it is or becomes free. -/
theorem ownerCalling_of_request {s s' : State π} {r : RequestId} {p : Request π}
    (hr : s'.requests = Function.update s.requests r p) (hp : p.calling = false)
    (hl : s'.lock = s.lock ∨ s'.lock = none) (h : s'.ownerCalling) :
    s.ownerCalling := by
  obtain ⟨b, hb, hcall⟩ := h
  rcases hl with hl | hl
  · rcases eq_or_ne b r with rfl | hbr
    · simp [hr, hp] at hcall
    · exact ⟨b, hl ▸ hb, by simpa [hr, Function.update_of_ne hbr] using hcall⟩
  · simp [hl] at hb

section

variable [DecidableEq π] {parent : π → Option π}

/-- What taking the lock leads to: the request is inside a call then exactly
where its action makes one. -/
theorem ownerCalling_lock {s : State π} {r : RequestId} {act : Action π}
    (hl : s.lock = none) :
    (next parent s (.lock r act)).ownerCalling ↔ act.calls parent s = true := by
  have hfree : ∀ {s' : State π}, s'.lock = none → ¬ s'.ownerCalling := by
    rintro s' hl ⟨b, hb, -⟩
    rw [hl] at hb
    exact absurd hb (by simp)
  have hown : ∀ {p : Request π}, ({ s.setRequest r p with
      lock := some (.request r) } : State π).ownerCalling ↔ p.calling = true := by
    intro p
    constructor
    · rintro ⟨b, hb, hcall⟩
      obtain rfl : r = b := by simpa using hb
      simpa [State.setRequest] using hcall
    · intro hp
      exact ⟨r, rfl, by simpa [State.setRequest] using hp⟩
  cases act with
  | cd target =>
      cases target with
      | none => exact iff_of_false (hfree hl) (by simp [Action.calls])
      | some path => exact hown
  | cdToParent =>
      cases hpar : parent s.currentPath with
      | none =>
          simp only [next, hpar]
          exact hown.trans (by simp [Action.calls, Request.calling, hpar])
      | some path =>
          simp only [next, hpar]
          exact hown.trans (by simp [Action.calls, Request.calling, hpar])
  | close => exact hown

theorem lock_thread (parent : π → Option π) (s : State π) (r : RequestId)
    (act : Action π) :
    (next parent s (.lock r act)).thread = s.thread ∧
      (next parent s (.lock r act)).slot = s.slot ∧
      (next parent s (.lock r act)).pollTask = s.pollTask := by
  simp only [next]
  repeat' split
  all_goals exact ⟨rfl, rfl, rfl⟩

/-- The condition is exact: from a state without a circle, a step closes one
exactly when it breaks the condition. -/
theorem meets_iff_not_cyclicWait {s : State π} {l : Label π}
    (h : ¬ CyclicWait s) (hen : enabled s l) :
    Meets parent s l ↔ ¬ CyclicWait (next parent s l) := by
  have hidle : (next parent s l).thread = .idle → ¬ CyclicWait (next parent s l) :=
    fun hi hc => not_threadSending_of_idle hi hc.1
  have hpoll : ∀ p, (next parent s l).pollTask = p → (∀ n, p ≠ .locking n) →
      ¬ CyclicWait (next parent s l) :=
    fun p hp hne hc => not_pollWaiting_of_eq hp hne hc.2.1
  cases l with
  | notify n =>
      have hsend : (next parent s (.notify n)).threadSending :=
        ⟨n, rfl, by simp [next]⟩
      exact not_congr ⟨fun hc => ⟨hsend, hc.1, hc.2⟩, fun hc => ⟨hc.2.1, hc.2.2⟩⟩
  | lock r act =>
      obtain ⟨hthread, hslot, htask⟩ := lock_thread parent s r act
      have hparts : CyclicWait (next parent s (.lock r act)) ↔
          (s.threadSending ∧ s.pollWaiting) ∧ act.calls parent s = true := by
        rw [CyclicWait, ownerCalling_lock hen.2, State.threadSending,
          State.pollWaiting, hthread, hslot, htask, and_assoc]
        rfl
      rw [hparts]
      exact ⟨fun hm hc => hm hc.2 hc.1, fun hc ha hw => hc ⟨hw, ha⟩⟩
  | sent n => exact ⟨fun _ => hidle rfl, fun _ => trivial⟩
  | unwatched r target =>
      refine ⟨fun _ => hidle ?_, fun _ => trivial⟩
      cases target <;> exact hen.2
  | answered r ok => exact ⟨fun _ => hidle hen.2, fun _ => trivial⟩
  | pop n =>
      refine ⟨fun _ hc => ?_, fun _ => trivial⟩
      obtain ⟨m, -, hslot⟩ := hc.1
      exact hslot rfl
  | opened ok | stop | pollLock n =>
      exact ⟨fun _ => hpoll _ rfl (by simp [next]), fun _ => trivial⟩
  | introduced ok d t => exact ⟨fun _ => hpoll .selecting rfl (by simp), fun _ => trivial⟩
  | handled n d t =>
      refine ⟨fun _ => hpoll _ rfl ?_, fun _ => trivial⟩
      cases t <;> simp [next]
  | request r act =>
      have hreq : (next parent s (.request r act)).requests =
          Function.update s.requests r (.locking act) := rfl
      exact ⟨fun _ hc => h ⟨hc.1, hc.2.1,
        ownerCalling_of_request hreq rfl (.inl rfl) hc.2.2⟩, fun _ => trivial⟩
  | reported r ok d t =>
      refine ⟨fun _ hc => ?_, fun _ => trivial⟩
      obtain ⟨b, hb, -⟩ := hc.2.2
      simp [next] at hb
  | closeSent r t =>
      refine ⟨fun _ hc => ?_, fun _ => trivial⟩
      obtain ⟨b, hb, -⟩ := hc.2.2
      simp [next] at hb

/-- A circle stays closed: the thread waits for `poll_event`, `poll_event` for
the request and the request for the thread, and no other step moves them. -/
theorem next_cyclicWait {s : State π} {l : Label π} (h : LockOwned s)
    (hc : CyclicWait s) (hen : enabled s l) : CyclicWait (next parent s l) := by
  obtain ⟨⟨n, hthread, hslot⟩, ⟨m, hpoll⟩, r, hlock, hcall⟩ := hc
  have howner : ∀ b, (s.requests b).holds = true → b = r := by
    intro b hb
    have : s.lock = some (.request b) := (h () (.request b)).mpr hb
    simpa [hlock] using this.symm
  cases l with
  | notify | unwatched | answered =>
      simp [enabled, hthread] at hen
  | sent => simp [enabled, hslot, hpoll] at hen
  | opened | introduced | pop | stop | handled => simp [enabled, hpoll] at hen
  | pollLock | lock => simp [enabled, hlock] at hen
  | request b act =>
      refine ⟨⟨n, hthread, hslot⟩, ⟨m, hpoll⟩, r, hlock, ?_⟩
      have hbr : r ≠ b := by
        rintro rfl
        simp [hen.1, Request.calling] at hcall
      simpa [next, State.setRequest, Function.update_of_ne hbr] using hcall
  | reported b ok d t =>
      obtain rfl := howner b (by rw [show s.requests b = _ from hen]; rfl)
      simp [show s.requests b = _ from hen, Request.calling] at hcall
  | closeSent b t =>
      obtain rfl := howner b (by rw [show s.requests b = _ from hen]; rfl)
      simp [show s.requests b = _ from hen, Request.calling] at hcall

/-- Before the first path is registered the thread has nothing to send. -/
theorem reachable_starting {path : π} {s : State π}
    (hs : (machine parent path).Reachable s) (hp : s.pollTask = .starting) :
    s.thread = .idle := by
  revert hp
  refine hs.invariant (I := fun s => s.pollTask = .starting → s.thread = .idle)
    (fun _ => rfl) ?_
  intro s l _ h hen _
  simp only [machine] at hen ⊢
  cases l with
  | notify n => exact fun hp => absurd hp hen.2
  | sent n => exact fun _ => rfl
  | lock r act =>
      obtain ⟨hthread, -, htask⟩ := lock_thread parent s r act
      rw [hthread, htask]
      exact h
  | unwatched r target => cases target <;> exact h
  | handled n d t => cases t <;> simp [next]
  | opened | introduced | pop | stop | pollLock => simp [next]
  | request | answered | closeSent => exact h
  | reported r ok d t => simpa [next, State.setRequest] using h

end

/-! ## Without a circle somebody can go on -/

/-- A step of the file system or of the browser. -/
def Label.external : Label π → Bool
  | .notify _ | .request _ _ => true
  | _ => false

def Live (s : State π) : Prop := ∃ l : Label π, l.external = false ∧ enabled s l

/-- A blocked thread is let go unless `poll_event` waits for the lock, and the
owner of the lock can then go on. -/
theorem live_of_threadSending {s : State π} (h : LockOwned s)
    (hstart : s.pollTask = .starting → s.thread = .idle) (hc : ¬ CyclicWait s)
    (ht : s.threadSending) : Live s := by
  obtain ⟨n, hthread, hslot⟩ := ht
  obtain ⟨m, hm⟩ := Option.ne_none_iff_exists'.mp hslot
  cases hp : s.pollTask with
  | starting => simp [hthread] at hstart; exact absurd hp hstart
  | opening ok => exact ⟨.introduced ok true true, rfl, hp⟩
  | selecting => exact ⟨.pop m, rfl, hp, hm⟩
  | handling k => exact ⟨.handled k true true, rfl, hp⟩
  | ended => exact ⟨.sent n, rfl, hthread, .inr hp⟩
  | locking k =>
      cases hl : s.lock with
      | none => exact ⟨.pollLock k, rfl, hp, hl⟩
      | some o =>
          have hold : s.holds o = true := (h () o).mp hl
          cases o with
          | poll => simp [State.holds, hp] at hold
          | request r =>
              simp only [State.holds] at hold
              cases hr : s.requests r with
              | reporting ok => exact ⟨.reported r ok true true, rfl, hr⟩
              | closing => exact ⟨.closeSent r true, rfl, hr⟩
              | unwatching | watching =>
                  exact absurd ⟨⟨n, hthread, hslot⟩, ⟨k, hp⟩, r, hl, by rw [hr]; rfl⟩ hc
              | idle | locking | finished => simp [hr, Request.holds] at hold

theorem live_of_locked {s : State π} (h : LockOwned s)
    (hstart : s.pollTask = .starting → s.thread = .idle) (hc : ¬ CyclicWait s)
    {o : Owner} (hl : s.lock = some o) : Live s := by
  have hold : s.holds o = true := (h () o).mp hl
  have hanswer : ∀ l : Label π, l.external = false →
      (s.thread = .idle → enabled s l) → Live s := by
    intro l hext hen
    cases ht : s.thread with
    | idle => exact ⟨l, hext, hen ht⟩
    | sending n =>
        by_cases hslot : s.slot = none
        · exact ⟨.sent n, rfl, ht, .inl hslot⟩
        · exact live_of_threadSending h hstart hc ⟨n, ht, hslot⟩
  cases o with
  | poll =>
      cases hp : s.pollTask with
      | handling n => exact ⟨.handled n true true, rfl, hp⟩
      | _ => simp [State.holds, hp] at hold
  | request r =>
      simp only [State.holds] at hold
      cases hr : s.requests r with
      | unwatching target => exact hanswer (.unwatched r target) rfl fun ht => ⟨hr, ht⟩
      | watching => exact hanswer (.answered r true) rfl fun ht => ⟨hr, ht⟩
      | reporting ok => exact ⟨.reported r ok true true, rfl, hr⟩
      | closing => exact ⟨.closeSent r true, rfl, hr⟩
      | idle | locking | finished => simp [hr, Request.holds] at hold

/-- Somebody is not done: a request, the thread or `poll_event`. -/
def State.busy (s : State π) : Prop :=
  (∃ r, (s.requests r).unfinished = true) ∨ s.threadSending ∨ s.pollWaiting

theorem live_of_busy {s : State π} (h : LockOwned s)
    (hstart : s.pollTask = .starting → s.thread = .idle) (hc : ¬ CyclicWait s)
    (hb : s.busy) : Live s := by
  have hlock : ∀ l : Label π, l.external = false → (s.lock = none → enabled s l) →
      Live s := by
    intro l hext hen
    cases hl : s.lock with
    | none => exact ⟨l, hext, hen hl⟩
    | some o => exact live_of_locked h hstart hc hl
  rcases hb with ⟨r, hr⟩ | ht | ⟨n, hn⟩
  · cases hq : s.requests r with
    | idle | finished => simp [hq, Request.unfinished] at hr
    | locking act => exact hlock (.lock r act) rfl fun hl => ⟨hq, hl⟩
    | unwatching | watching | reporting | closing =>
        exact live_of_locked h hstart hc
          ((h () (.request r)).mpr (by simp [State.holds, hq, Request.holds]))
  · exact live_of_threadSending h hstart hc ht
  · exact hlock (.pollLock n) rfl fun hl => ⟨hn, hl⟩

/-! ## Runs without a circle -/

/-- No circle, and a step to take for as long as somebody is not done. -/
def NoDeadlock (s : State π) : Prop :=
  ¬ CyclicWait s ∧ (s.busy → Live s)

section

variable [DecidableEq π] {parent : π → Option π}

/-- Along a run whose steps all meet the condition the watcher never
deadlocks, and at every state of it the condition separates the steps that
close a circle from those that do not. -/
theorem watcher_noDeadlock {path : π} {s : State π}
    (hs : (machine parent path).Reaches (Meets parent) s) :
    NoDeadlock s ∧
      ∀ l, enabled s l → (Meets parent s l ↔ ¬ CyclicWait (next parent s l)) := by
  have hc : ¬ CyclicWait s := by
    refine hs.invariant (I := fun s => ¬ CyclicWait s) ?_ ?_
    · exact fun hc => not_threadSending_of_idle rfl hc.1
    · exact fun s l _ hc hen hok => (meets_iff_not_cyclicWait hc hen).mp hok
  exact ⟨⟨hc, live_of_busy (reachable_lockOwned hs.reachable)
    (reachable_starting hs.reachable) hc⟩,
    fun l hen => meets_iff_not_cyclicWait hc hen⟩

/-- Two events and a `cd`: the first event is with `poll_event`, the second
blocks the thread, and the `cd` waits for the thread. -/
def burstRun : List (Label String) :=
  [.opened true, .introduced true true true, .notify .event, .pop .event, .sent .event,
    .request 0 (.cd (some "/tmp")), .notify .event, .lock 0 (.cd (some "/tmp"))]

theorem watcher_deadlocks :
    ¬ ∀ s : State String, (machine (fun _ => none) "/home").Reachable s →
      ¬ CyclicWait s := by
  intro h
  have hs : (machine (fun _ => none) "/home").Reachable
      (burstRun.foldl (next fun _ => none) (init "/home")) :=
    Machine.reaches_of_path (M := machine (fun _ => none) "/home") (by decide)
  exact h _ hs ⟨⟨.event, by decide, by decide⟩, ⟨.event, by decide⟩, 0, by decide, by decide⟩

/-- A `cd` while one event is with `poll_event` and the thread is not sending. -/
theorem watcher_noDeadlock_cd :
    NoDeadlock (([.opened true, .introduced true true true, .notify .event,
      .pop .event, .sent .event, .request 0 (.cd (some "/tmp")),
      .lock 0 (.cd (some "/tmp"))] : List (Label String)).foldl
        (next fun _ => none) (init "/home")) := by
  refine (watcher_noDeadlock (Machine.reaches_of_path
    (M := machine (fun _ => none) "/home") ?_)).1
  refine ⟨⟨by decide, trivial⟩, ⟨by decide, trivial⟩, ⟨by decide, ?_⟩,
    ⟨by decide, trivial⟩, ⟨by decide, trivial⟩, ⟨by decide, trivial⟩,
    ⟨by decide, ?_⟩, trivial⟩
  · exact fun hc => not_pollWaiting_of_eq (p := .selecting) rfl (by simp) hc.1
  · exact fun _ hc => not_threadSending_of_idle rfl hc.1

end

end WebSshTool.Watch
