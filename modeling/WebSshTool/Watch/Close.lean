import WebSshTool.Watch.Deadlock

/-!
# What comes after the close event

`close` is the last thing that the map of watchers has to do with a
`MyWatcher`, but not the last thing that happens to it. A request that has
copied the `Arc` out of the map before it was removed, and `poll_event` with an
event it has taken before or still takes, get the lock when `close` is done
with it. Nobody asks there whether the watcher has been closed: the one watches
another path, and both report.

As long as nobody gets the lock after the close event there is nobody inside:
whoever sent it had the lock, and gave it back.
-/

namespace WebSshTool.Watch

open Mutex

variable {π : Type*}

/-! ## The property and the condition -/

/-- The close event has gone out. -/
def State.Closed (s : State π) : Prop := .close ∈ s.emitted

/-- Nothing has come after the close event, and nothing is watched. -/
def Final (s : State π) : Prop :=
  ∀ before after, s.emitted = before ++ .close :: after → after = [] ∧ s.watched = ∅

/-- Nobody gets the lock after the close event. A `cd` to what is no path gives
it back at once. -/
def NotAfterClose (s : State π) : Label π → Prop
  | .pollLock _ => ¬ s.Closed
  | .lock _ act => act ≠ .cd none → ¬ s.Closed
  | _ => True

/-! ## The invariant -/

/-- `MyWatcher::new` has not returned. -/
def State.Creating (s : State π) : Prop :=
  s.pollTask = .starting ∨ ∃ ok, s.pollTask = .opening ok

structure Inv (s : State π) : Prop where
  owned : LockOwned s
  /-- Nobody knows of a watcher that is being made. -/
  creating : s.Creating → s.listed = false ∧ ∀ r, s.requests r = .idle
  /-- The one path that is watched is the current one. -/
  watched : s.watched ⊆ {s.currentPath}
  closing : ∀ r, s.requests r = .closing → s.watched = ∅
  /-- After the close event nobody is inside. -/
  closed : s.Closed → s.lock = none ∧ s.watched = ∅ ∧ ¬ s.Creating ∧
    ∃ before, s.emitted = before ++ [.close] ∧ .close ∉ before

theorem Inv.final {s : State π} (h : Inv s) : Final s := by
  intro before after heq
  have hclosed : s.Closed := by
    rw [State.Closed, heq]
    simp
  obtain ⟨-, hwatched, -, first, hfirst, hno⟩ := h.closed hclosed
  refine ⟨?_, hwatched⟩
  rw [heq] at hfirst
  cases after with
  | nil => rfl
  | cons report after =>
      have hlen := congrArg List.dropLast hfirst
      rw [List.dropLast_append_of_ne_nil (by simp), List.dropLast_concat] at hlen
      exact absurd (hlen ▸ by simp) hno

theorem init_inv (path : π) : Inv (init path) where
  owned := init_lockOwned path
  creating _ := ⟨rfl, fun _ => rfl⟩
  watched := Finset.empty_subset _
  closing _ h := absurd h (by simp [init])
  closed h := absurd h (by simp [State.Closed, init])

/-- Whoever has the lock is not there after the close event. -/
theorem Inv.not_closed {s : State π} (h : Inv s) {o : Owner} (ho : s.holds o = true) :
    ¬ s.Closed := by
  intro hclosed
  have hlock := (h.owned () o).mpr ho
  rw [(h.closed hclosed).1] at hlock
  exact absurd hlock (by simp)

/-- A request that has it, above all. -/
theorem Inv.not_closed_of_request {s : State π} (h : Inv s) {r : RequestId} {p : Request π}
    (hr : s.requests r = p) (hp : p.holds = true) : ¬ s.Closed :=
  h.not_closed (o := .request r) (by rwa [State.holds, hr])

theorem Inv.not_creating {s : State π} (h : Inv s) {r : RequestId}
    (hr : s.requests r ≠ .idle) : ¬ s.Creating :=
  fun hcreating => hr ((h.creating hcreating).2 r)

theorem emit_watched (s : State π) (d t : Bool) : (s.emit d t).watched = s.watched := by
  cases t <;> rfl

theorem emit_currentPath (s : State π) (d t : Bool) :
    (s.emit d t).currentPath = s.currentPath := by
  cases t <;> rfl

/-- A report is no close event. -/
theorem emit_closed {s : State π} {d t : Bool} (h : (s.emit d t).Closed) : s.Closed := by
  cases t with
  | false => exact h
  | true =>
      rcases List.mem_append.mp h with h | h
      · exact h
      · cases d <;> exact absurd h (by simp)

section

variable [DecidableEq π] {parent : π → Option π} {s : State π} {l : Label π}

/-- What a step that takes the lock, or leaves it, has to do with the rest. -/
theorem lock_keeps (parent : π → Option π) (s : State π) (r : RequestId) (act : Action π) :
    (next parent s (.lock r act)).watched = s.watched ∧
      (next parent s (.lock r act)).currentPath = s.currentPath ∧
      (next parent s (.lock r act)).emitted = s.emitted ∧
      (next parent s (.lock r act)).listed = s.listed := by
  simp only [next]
  repeat' split
  all_goals exact ⟨rfl, rfl, rfl, rfl⟩

omit [DecidableEq π] in
theorem not_creating_of_eq {p : PollTask} (h : s.pollTask = p) (hstarting : p ≠ .starting)
    (hopening : ∀ ok, p ≠ .opening ok) : ¬ s.Creating := by
  rintro (hp | ⟨ok, hp⟩)
  · exact hstarting (h.symm.trans hp)
  · exact hopening ok (h.symm.trans hp)

theorem next_creating (h : Inv s) (hen : enabled s l) (hc : (next parent s l).Creating) :
    (next parent s l).listed = false ∧ ∀ r, (next parent s l).requests r = .idle := by
  have hpast : ∀ p, (next parent s l).pollTask = p → p ≠ .starting → (∀ ok, p ≠ .opening ok) →
      (next parent s l).listed = false ∧ ∀ r, (next parent s l).requests r = .idle :=
    fun p hp hstarting hopening => absurd hc (not_creating_of_eq hp hstarting hopening)
  cases l with
  | notify n | sent n => exact h.creating hc
  | opened ok => exact h.creating (.inl hen.1)
  | introduced ok d t => exact hpast .selecting rfl (by simp) (by simp)
  | pop n => exact hpast (.locking n) rfl (by simp) (by simp)
  | stop => exact hpast .ended rfl (by simp) (by simp)
  | pollLock n => exact hpast (.handling n) rfl (by simp) (by simp)
  | handled n d t =>
      cases t with
      | false => exact hpast .ended rfl (by simp) (by simp)
      | true => exact hpast .selecting rfl (by simp) (by simp)
  | request r act =>
      have hlisted := (h.creating hc).1
      rw [hen.2] at hlisted
      exact absurd hlisted (by simp)
  | lock r act =>
      have hr : s.requests r ≠ .idle := by simp [hen.1]
      refine absurd ?_ (h.not_creating hr)
      have htask := (lock_thread parent s r act).2.2
      rwa [State.Creating, htask] at hc
  | unwatched r target =>
      have hr : s.requests r ≠ .idle := by simp [hen.1]
      refine absurd ?_ (h.not_creating hr)
      cases target <;> exact hc
  | answered r ok => exact absurd hc (h.not_creating (r := r) (by simp [hen.1]))
  | reported r ok d t =>
      have hr : s.requests r ≠ .idle := by simp [show s.requests r = _ from hen]
      refine absurd ?_ (h.not_creating hr)
      cases t <;> exact hc
  | closeSent r t =>
      have hr : s.requests r ≠ .idle := by simp [show s.requests r = _ from hen]
      exact absurd hc (h.not_creating hr)

/-- What is unwatched was all there was. -/
theorem Inv.erase_eq (h : Inv s) : s.watched.erase s.currentPath = ∅ := by
  refine Finset.eq_empty_of_forall_notMem fun path hpath => ?_
  obtain ⟨hne, hmem⟩ := Finset.mem_erase.mp hpath
  exact hne (Finset.mem_singleton.mp (h.watched hmem))

theorem next_watched (h : Inv s) :
    (next parent s l).watched ⊆ {(next parent s l).currentPath} := by
  have hinsert : ∀ ok, (bif ok then insert s.currentPath s.watched else s.watched) ⊆
      {s.currentPath} := by
    intro ok
    cases ok with
    | false => exact h.watched
    | true => exact Finset.insert_subset (Finset.mem_singleton_self _) h.watched
  cases l with
  | opened ok => exact hinsert ok
  | answered r ok => exact hinsert ok
  | unwatched r target =>
      cases target <;>
        · simp only [next, h.erase_eq]
          exact Finset.empty_subset _
  | lock r act =>
      obtain ⟨hwatched, hpath, -, -⟩ := lock_keeps parent s r act
      rw [hwatched, hpath]
      exact h.watched
  | introduced ok d t => simpa [next, emit_watched, emit_currentPath] using h.watched
  | handled n d t => simpa [next, emit_watched, emit_currentPath] using h.watched
  | reported r ok d t =>
      simpa [next, State.setRequest, emit_watched, emit_currentPath] using h.watched
  | notify | sent | pop | stop | pollLock | request | closeSent => exact h.watched

omit [DecidableEq π] in
/-- Another request is where it was. -/
theorem setRequest_of_eq {p : Request π} {r b : RequestId} {q : Request π}
    (h : (s.setRequest r p).requests b = q) (hp : p ≠ q) : s.requests b = q := by
  change Function.update s.requests r p b = q at h
  by_cases hb : b = r
  · subst hb
    rw [Function.update_self] at h
    exact absurd h hp
  · rwa [Function.update_of_ne hb] at h

theorem lock_closing {r b : RequestId} {act : Action π}
    (h : (next parent s (.lock r act)).requests b = .closing) : s.requests b = .closing := by
  cases act with
  | cd target =>
      cases target with
      | none => exact setRequest_of_eq h (by simp)
      | some path => exact setRequest_of_eq (s := s) (p := .unwatching (some path)) h (by simp)
  | cdToParent =>
      simp only [next] at h
      split at h
      · next path _ => exact setRequest_of_eq (s := s) (p := .unwatching (some path)) h (by simp)
      · exact setRequest_of_eq (s := s) (p := .reporting true) h (by simp)
  | close => exact setRequest_of_eq (s := s) (p := .unwatching none) h (by simp)

theorem next_closing (h : Inv s) (hen : enabled s l) (b : RequestId)
    (hb : (next parent s l).requests b = .closing) : (next parent s l).watched = ∅ := by
  cases l with
  | notify | sent | pop | stop | pollLock => exact h.closing b hb
  | opened ok =>
      have hidle := (h.creating (.inl hen.1)).2 b
      rw [show s.requests b = .closing from hb] at hidle
      exact absurd hidle (by simp)
  | introduced ok d t =>
      simp only [next, emit_requests] at hb
      simp only [next, emit_watched]
      exact h.closing b hb
  | handled n d t =>
      simp only [next, emit_requests] at hb
      simp only [next, emit_watched]
      exact h.closing b hb
  | request r act => exact h.closing b (setRequest_of_eq hb (by simp))
  | lock r act =>
      rw [(lock_keeps parent s r act).1]
      exact h.closing b (lock_closing hb)
  | unwatched r target => cases target <;> exact h.erase_eq
  | answered r ok =>
      have hclosing : s.requests b = .closing :=
        setRequest_of_eq (s := s) (p := .reporting ok) hb (by simp)
      have hholds : s.holds (.request b) = true := by
        simp [State.holds, hclosing, Request.holds]
      have hholds' : s.holds (.request r) = true := by
        simp [State.holds, hen.1, Request.holds]
      obtain rfl : b = r := by simpa using Owned.unique h.owned (l := ()) hholds hholds'
      rw [hen.1] at hclosing
      exact absurd hclosing (by simp)
  | reported r ok d t =>
      have hclosing : (s.emit (ok && d) t).requests b = .closing :=
        setRequest_of_eq (p := .finished) hb (by simp)
      rw [emit_requests] at hclosing
      simp only [next, State.setRequest, emit_watched]
      exact h.closing b hclosing
  | closeSent r t =>
      exact h.closing b (setRequest_of_eq (s := s) (p := .finished) hb (by simp))

/-- A close event is sent by `close`. -/
theorem closed_of_next (hc : (next parent s l).Closed) :
    s.Closed ∨ ∃ r, l = .closeSent r true := by
  cases l with
  | notify | sent | opened | pop | stop | pollLock | request | answered => exact .inl hc
  | introduced ok d t => exact .inl (emit_closed hc)
  | handled n d t => exact .inl (emit_closed hc)
  | reported r ok d t => exact .inl (emit_closed hc)
  | lock r act =>
      rw [State.Closed, (lock_keeps parent s r act).2.2.1] at hc
      exact .inl hc
  | unwatched r target => cases target <;> exact .inl hc
  | closeSent r t =>
      cases t with
      | false => exact .inl hc
      | true => exact .inr ⟨r, rfl⟩

/-- After the close event a step that does not take the lock changes nothing
about the watcher. -/
theorem next_quiet (parent : π → Option π) (h : Inv s) (hc : s.Closed) (hen : enabled s l)
    (hok : NotAfterClose s l) :
    (next parent s l).lock = s.lock ∧ (next parent s l).watched = s.watched ∧
      (next parent s l).emitted = s.emitted ∧
      ((next parent s l).Creating → s.Creating) := by
  have hcreating := (h.closed hc).2.2.1
  cases l with
  | notify | sent => exact ⟨rfl, rfl, rfl, fun hno => hno⟩
  | pop | stop => exact ⟨rfl, rfl, rfl, fun hno => absurd hno (by simp [State.Creating, next])⟩
  | opened ok => exact absurd (.inl hen.1) hcreating
  | introduced ok d t => exact absurd (.inr ⟨ok, hen⟩) hcreating
  | pollLock n => exact absurd hc hok
  | handled n d t =>
      exact absurd hc (h.not_closed (o := .poll) (by simp [State.holds,
        show s.pollTask = _ from hen]))
  | request r act => exact ⟨rfl, rfl, rfl, fun hno => hno⟩
  | lock r act =>
      by_cases hact : act = .cd none
      · subst hact
        exact ⟨rfl, rfl, rfl, fun hno => hno⟩
      · exact absurd hc (hok hact)
  | unwatched r target => exact absurd hc (h.not_closed_of_request hen.1 rfl)
  | answered r ok => exact absurd hc (h.not_closed_of_request hen.1 rfl)
  | reported r ok d t => exact absurd hc (h.not_closed_of_request hen rfl)
  | closeSent r t => exact absurd hc (h.not_closed_of_request hen rfl)

theorem Inv.next (h : Inv s) (hen : enabled s l) (hok : NotAfterClose s l) :
    Inv (next parent s l) where
  owned := next_lockOwned h.owned hen
  creating := next_creating h hen
  watched := next_watched h
  closing := next_closing h hen
  closed := by
    intro hc
    by_cases hclosed : s.Closed
    · obtain ⟨hlock, hwatched, hemitted, hcreating⟩ :=
        next_quiet parent h hclosed hen hok
      obtain ⟨hlock', hwatched', hcreating', hlast⟩ := h.closed hclosed
      exact ⟨hlock.trans hlock', hwatched.trans hwatched', fun hno => hcreating' (hcreating hno),
        hemitted ▸ hlast⟩
    · obtain ⟨r, rfl⟩ := (closed_of_next hc).resolve_left hclosed
      have hr : s.requests r = .closing := hen
      exact ⟨rfl, h.closing r hr, h.not_creating (r := r) (by simp [hr]), s.emitted, rfl,
        hclosed⟩

/-! ## The lock after the close event -/

omit [DecidableEq π] in
/-- What was registered since the close event is a registration too many. -/
theorem not_final_of_watched (path : π) (hc : s.Closed) (hw : path ∈ s.watched) : ¬ Final s := by
  intro h
  obtain ⟨before, after, heq⟩ := List.append_of_mem hc
  rw [(h before after heq).2] at hw
  exact absurd hw (by simp)

omit [DecidableEq π] in
/-- So is what was sent since an event too many. -/
theorem not_final_of_append {t : State π} {report : Report π} (hc : s.Closed)
    (ht : t.emitted = s.emitted ++ [report]) : ¬ Final t := by
  intro h
  obtain ⟨before, after, heq⟩ := List.append_of_mem hc
  have hafter : t.emitted = before ++ .close :: (after ++ [report]) := by
    rw [ht, heq, List.append_assoc, List.cons_append]
  exact absurd (h before _ hafter).1 (by simp)

omit [DecidableEq π] in
theorem setRequest_requests (s : State π) (r : RequestId) (p : Request π) :
    (s.setRequest r p).requests r = p := by
  simp [State.setRequest]

theorem leads_next (parent : π → Option π) (path₀ : π) (s : State π) (l : Label π)
    (hen : enabled s l) :
    (machine parent path₀).Leads (fun _ _ => True) s (Watch.next parent s l) :=
  Machine.Leads.step (M := machine parent path₀) hen trivial

/-- A request that watches `path` next registers it if nobody keeps the thread
busy. -/
theorem unwatching_leads {path₀ path : π} {r : RequestId} (hc : s.Closed)
    (hr : s.requests r = .unwatching (some path)) (hthread : s.thread = .idle) :
    ∃ t, (machine parent path₀).Leads (fun _ _ => True) s t ∧ ¬ Final t := by
  have hunwatched := leads_next parent path₀ s (.unwatched r (some path)) ⟨hr, hthread⟩
  have hanswered := leads_next parent path₀ (Watch.next parent s (.unwatched r (some path)))
    (.answered r true) ⟨setRequest_requests s r .watching, hthread⟩
  refine ⟨_, hunwatched.trans hanswered, not_final_of_watched path hc ?_⟩
  exact Finset.mem_insert_self _ _

/-- Whoever gets the lock after the close event reports, or watches again. -/
theorem lock_leads {path₀ : π} (hc : s.Closed) (hthread : s.thread = .idle)
    (hok : ¬ NotAfterClose s l) :
    ∃ t, (machine parent path₀).Leads (fun _ _ => True) (Watch.next parent s l) t ∧ ¬ Final t := by
  cases l with
  | pollLock n =>
      have hhandled := leads_next parent path₀ (Watch.next parent s (.pollLock n))
        (.handled n true true) rfl
      exact ⟨_, hhandled, not_final_of_append hc rfl⟩
  | lock r act =>
      cases act with
      | cd target =>
          cases target with
          | none => exact absurd (fun hne => absurd rfl hne) hok
          | some path => exact unwatching_leads hc (setRequest_requests s r _) hthread
      | cdToParent =>
          cases hpar : parent s.currentPath with
          | some path =>
              simp only [Watch.next, hpar]
              exact unwatching_leads hc (setRequest_requests s r _) hthread
          | none =>
              simp only [Watch.next, hpar]
              have hreported := leads_next parent path₀
                { s.setRequest r (.reporting true) with lock := some (.request r) }
                (.reported r true true true) (setRequest_requests s r _)
              exact ⟨_, hreported, not_final_of_append hc rfl⟩
      | close =>
          have hunwatched := leads_next parent path₀ (Watch.next parent s (.lock r .close))
            (.unwatched r none) ⟨setRequest_requests s r _, hthread⟩
          have hsent := leads_next parent path₀
            (Watch.next parent (Watch.next parent s (.lock r .close)) (.unwatched r none))
            (.closeSent r true) (setRequest_requests (s.setRequest r (.unwatching none)) r .closing)
          exact ⟨_, hunwatched.trans hsent, not_final_of_append hc rfl⟩
  | notify | sent | opened | introduced | pop | stop | handled | request | unwatched | answered |
    reported | closeSent => exact absurd trivial hok

/-! ## Nothing after the close event -/

/-- Along a run in which nobody gets the lock after the close event, the close
event is the last one and nothing is watched after it. Whoever gets the lock
then, while the event thread is free, can go on to break it. -/
theorem close_final {path : π} (hs : (machine parent path).Reaches NotAfterClose s) :
    Final s ∧
      ∀ l, enabled s l → s.thread = .idle → ¬ NotAfterClose s l →
        ∃ t, (machine parent path).Leads (fun _ _ => True) (Watch.next parent s l) t ∧
          ¬ Final t := by
  have hinv : Inv s := hs.invariant (init_inv path) fun _ _ _ h hen hok => h.next hen hok
  refine ⟨hinv.final, fun l _ hthread hok => ?_⟩
  refine lock_leads ?_ hthread hok
  by_contra hc
  refine hok ?_
  cases l with
  | pollLock n => exact hc
  | lock r act => exact fun _ => hc
  | notify | sent | opened | introduced | pop | stop | handled | request | unwatched | answered |
    reported | closeSent => trivial

/-- A watcher that is closed while nobody else wants it. -/
def closeRun : List (Label String) :=
  [.opened true, .introduced true true true, .request 0 .close, .lock 0 .close,
    .unwatched 0 none, .closeSent 0 true]

theorem close_final_alone :
    Final (closeRun.foldl (next fun _ => none) (init "/home")) := by
  refine (close_final (Machine.reaches_of_path (M := machine (fun _ => none) "/home") ?_)).1
  refine ⟨⟨by decide, trivial⟩, ⟨by decide, trivial⟩, ⟨by decide, trivial⟩, ⟨by decide, ?_⟩,
    ⟨by decide, trivial⟩, ⟨by decide, trivial⟩, trivial⟩
  exact fun _ hc => absurd (show Report.close ∈ _ from hc) (by decide)

/-- A `cd` has copied the `Arc` when `close` removes the entry, and gets the
lock after it. -/
def lateRun : List (Label String) :=
  [.opened true, .introduced true true true, .request 0 (.cd (some "/tmp")), .request 1 .close,
    .lock 1 .close, .unwatched 1 none, .closeSent 1 true, .lock 0 (.cd (some "/tmp")),
    .unwatched 0 (some "/tmp"), .answered 0 true, .reported 0 true true true]

theorem close_watches :
    ¬ ∀ s : State String, (machine (fun _ => none) "/home").Reachable s → Final s := by
  intro h
  have hs : (machine (fun _ => none) "/home").Reachable
      (lateRun.foldl (next fun _ => none) (init "/home")) :=
    Machine.reaches_of_path (M := machine (fun _ => none) "/home") (by decide)
  obtain ⟨hafter, -⟩ := h _ hs [.data "/home"] [.data "/tmp"] (by decide)
  exact absurd hafter (by decide)

end

end WebSshTool.Watch
