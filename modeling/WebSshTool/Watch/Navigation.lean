import WebSshTool.Watch.Close

/-!
# Where a watcher has been, and what it has told of it

Requests take turns at a `MyWatcher`, in any order. What they ask for is a tour: `cd`
goes to a place, `cdToParent` to the parent of wherever the tour is, and each arrival ends
with a report. Meanwhile `poll_event` reports on whatever path is current.

Nobody gets the lock between `unwatch` and the report that follows it, so all reports are
about the place of the tour they come in, and no place is left before it was reported on,
unless the channel refused the report.
-/

namespace WebSshTool.Watch

open Mutex

variable {π : Type*}

/-! ## The tour -/

/-- What is noted of a run: the requests, as they get the lock, and whether the report at
the end of one, or of `MyWatcher::new`, was taken. -/
inductive Note (π : Type*) where
  | act (act : Action π)
  | told (taken : Bool)
  deriving DecidableEq, Repr

/-- A place, and what became of the reports on the arrivals there. -/
structure Stay (π : Type*) where
  place : π
  told : Option Bool
  deriving DecidableEq, Repr

structure Tour (π : Type*) where
  left : List (Stay π)
  here : Stay π
  deriving DecidableEq, Repr

/-- Where a request leads to. -/
def Action.target (parent : π → Option π) (here : π) : Action π → Option π
  | .cd target => target
  | .cdToParent => parent here
  | .close => none

namespace Tour

def start (path : π) : Tour π := ⟨[], ⟨path, none⟩⟩

def go (t : Tour π) (place : π) : Tour π := ⟨t.left ++ [t.here], ⟨place, none⟩⟩

/-- One report that was taken is enough. -/
def tell (t : Tour π) (taken : Bool) : Tour π :=
  { t with here := { t.here with told := some (taken || t.here.told == some true) } }

def step (parent : π → Option π) (t : Tour π) : Note π → Tour π
  | .act act => (act.target parent t.here.place).elim t t.go
  | .told taken => t.tell taken

end Tour

def tour (parent : π → Option π) (path : π) (notes : List (Note π)) : Tour π :=
  notes.foldl (Tour.step parent) (.start path)

/-- What a step is noted as. -/
def note (_ : State π) : Label π → List (Note π)
  | .lock _ act => [.act act]
  | .introduced _ _ taken | .reported _ _ _ taken => [.told taken]
  | _ => []

/-! ## Reports -/

def Report.path? : Report π → Option π
  | .data path | .error path => some path
  | .close => none

/-- The paths of the reports so far. -/
def State.paths (s : State π) : List π := s.emitted.filterMap Report.path?

/-- The paths in blocks, one for each stay and of that many reports. -/
def blocks (stays : List (Stay π × Nat)) : List π :=
  stays.flatMap fun v => List.replicate v.2 v.1.place

/-- There is a report on a stay, where one was taken. -/
def Heard (v : Stay π × Nat) : Prop := v.1.told = some true → 0 < v.2

/-- What is reported so far, in blocks: those of the places that were left, and `n` reports
on the place where the tour is. -/
structure Blocked (t : Tour π) (paths : List π) (stays : List (Stay π × Nat)) (n : Nat) : Prop where
  left : stays.map Prod.fst = t.left
  paths : paths = blocks stays ++ List.replicate n t.here.place
  heard : ∀ v ∈ stays, Heard v
  here : Heard (t.here, n)

theorem Blocked.go {t : Tour π} {paths : List π} {stays : List (Stay π × Nat)} {n : Nat}
    (h : Blocked t paths stays n) (place : π) :
    Blocked (t.go place) paths (stays ++ [(t.here, n)]) 0 where
  left := by rw [List.map_append, h.left]; rfl
  paths := by
    rw [h.paths, blocks, blocks, List.flatMap_append]
    simp [Tour.go]
  heard := by
    intro v hv
    rcases List.mem_append.mp hv with hv | hv
    · exact h.heard v hv
    · rw [List.mem_singleton.mp hv]
      exact h.here
  here hno := absurd hno (by simp [Tour.go])

/-- One more report on the place where the tour is. -/
theorem Blocked.concat {t t' : Tour π} {paths : List π} {stays : List (Stay π × Nat)} {n : Nat}
    (h : Blocked t paths stays n) (hleft : t'.left = t.left)
    (hplace : t'.here.place = t.here.place) :
    Blocked t' (paths ++ [t.here.place]) stays (n + 1) where
  left := h.left.trans hleft.symm
  paths := by rw [h.paths, hplace, List.replicate_succ', List.append_assoc]
  heard := h.heard
  here _ := Nat.succ_pos n

/-- What was reported on is a place of the tour. -/
theorem Blocked.place_mem {t : Tour π} {paths : List π} {stays : List (Stay π × Nat)} {n : Nat}
    (h : Blocked t paths stays n) {path : π} (hpath : path ∈ paths) :
    ∃ stay ∈ t.left ++ [t.here], stay.place = path := by
  rw [h.paths] at hpath
  rcases List.mem_append.mp hpath with hpath | hpath
  · obtain ⟨v, hv, hmem⟩ := List.mem_flatMap.mp hpath
    refine ⟨v.1, List.mem_append_left _ (h.left ▸ List.mem_map_of_mem hv), ?_⟩
    exact (List.eq_of_mem_replicate hmem).symm
  · exact ⟨t.here, List.mem_append_right _ (List.mem_singleton_self _),
      (List.eq_of_mem_replicate hpath).symm⟩

/-- The last report is on where the tour is, if one on the arrival was taken. -/
theorem Blocked.getLast {t : Tour π} {paths : List π} {stays : List (Stay π × Nat)} {n : Nat}
    (h : Blocked t paths stays n) (htold : t.here.told = some true) :
    paths.getLast? = some t.here.place := by
  obtain ⟨m, rfl⟩ := Nat.exists_eq_add_one.mpr (h.here htold)
  rw [h.paths, List.replicate_succ', ← List.append_assoc, List.getLast?_concat]

/-! ## Who has the lock -/

namespace Request

/-- The request is on its way to a place, or has a report to make. -/
def arriving : Request π → Bool
  | .unwatching (some _) | .watching | .reporting _ => true
  | _ => false

theorem holds_of_arriving {q : Request π} (h : q.arriving = true) : q.holds = true := by
  cases q <;> first | rfl | cases h

end Request

/-- A request is about to watch `place`. -/
def State.Moving (s : State π) (place : π) : Prop := ∃ r, s.requests r = .unwatching (some place)

def State.Arriving (s : State π) : Prop := ∃ r, (s.requests r).arriving = true

section

variable {s : State π}

theorem request_of_holds (h : LockOwned s) {r b : RequestId} (hr : (s.requests r).holds = true)
    (hb : (s.requests b).holds = true) : b = r := by
  have hown : ∀ r, (s.requests r).holds = true → s.lock = some (.request r) := fun r hr =>
    (h () (.request r)).mpr hr
  have heq := (hown b hb).symm.trans (hown r hr)
  exact Owner.request.inj (Option.some.inj heq)

theorem holds_of_lock (h : LockOwned s) (hlock : s.lock = none) (r : RequestId) :
    (s.requests r).holds = false :=
  h.not_holds (l := ()) hlock (.request r)

theorem holds_of_poll (h : LockOwned s) {n : Notification} (hpoll : s.pollTask = .handling n)
    (r : RequestId) : (s.requests r).holds = false := by
  refine Bool.eq_false_iff.mpr fun hr => ?_
  have hlock : s.lock = some .poll := (h () .poll).mpr (by simp [State.holds, hpoll])
  have hlock' : s.lock = some (.request r) := (h () (.request r)).mpr hr
  rw [hlock] at hlock'
  cases hlock'

theorem not_moving (h : ∀ r, (s.requests r).holds = false) (place : π) : ¬ s.Moving place := by
  rintro ⟨r, hr⟩
  have hno := h r
  rw [hr] at hno
  cases hno

theorem not_arriving (h : ∀ r, (s.requests r).holds = false) : ¬ s.Arriving := by
  rintro ⟨r, hr⟩
  have hno := h r
  rw [Request.holds_of_arriving hr] at hno
  cases hno

end

/-! ## The invariant -/

/-- The run is where its tour is, and has told of it what it should. -/
structure Toured (s : State π) (t : Tour π) : Prop where
  moving : ∀ place, s.Moving place → t.here.place = place
  current : (∀ place, ¬ s.Moving place) → s.currentPath = t.here.place
  told : t.here.told = none → s.Creating ∨ s.Arriving
  left : ∀ v ∈ t.left, v.told ≠ none
  blocked : ∃ stays n, Blocked t s.paths stays n

section

variable {s s' : State π} {t t' : Tour π}

theorem init_toured (path : π) : Toured (init path) (.start path) where
  moving place hmoving := absurd hmoving (not_moving (fun _ => rfl) place)
  current _ := rfl
  told _ := .inl (.inl rfl)
  left _ hv := absurd hv List.not_mem_nil
  blocked := ⟨[], 0, rfl, rfl, fun _ hv => absurd hv List.not_mem_nil, fun h => nomatch h⟩

/-- A step that has nothing to do with the tour. -/
theorem Toured.frame (h : Toured s t) (hmoving : ∀ place, s'.Moving place ↔ s.Moving place)
    (hpath : s'.currentPath = s.currentPath)
    (hunder : s.Creating ∨ s.Arriving → s'.Creating ∨ s'.Arriving)
    (hpaths : s'.paths = s.paths) : Toured s' t where
  moving place hm := h.moving place ((hmoving place).mp hm)
  current hno := hpath.trans (h.current fun place hm => hno place ((hmoving place).mpr hm))
  told hno := hunder (h.told hno)
  left := h.left
  blocked := hpaths ▸ h.blocked

/-- A step that may report on the current path. -/
theorem Toured.report (h : Toured s t) (t' : Tour π) (taken : Bool)
    (hstill : ∀ place, ¬ s.Moving place)
    (hstill' : ∀ place, ¬ s'.Moving place) (hpath : s'.currentPath = s.currentPath)
    (hleft : t'.left = t.left) (hplace : t'.here.place = t.here.place)
    (htold : t'.here.told = none → s'.Creating ∨ s'.Arriving)
    (hheard : taken = false → t'.here.told = some true → t.here.told = some true)
    (hpaths : s'.paths = s.paths ++ bif taken then [s.currentPath] else []) : Toured s' t' where
  moving place hm := absurd hm (hstill' place)
  current _ := hpath.trans ((h.current hstill).trans hplace.symm)
  told := htold
  left := hleft ▸ h.left
  blocked := by
    obtain ⟨stays, n, hblocked⟩ := h.blocked
    rw [hpaths]
    cases taken with
    | true =>
        rw [h.current hstill]
        exact ⟨stays, n + 1, hblocked.concat hleft hplace⟩
    | false =>
        refine ⟨stays, n, hblocked.left.trans hleft.symm, ?_, hblocked.heard, fun ht =>
          hblocked.here (hheard rfl ht)⟩
        rw [hplace]
        exact (List.append_nil _).trans hblocked.paths

/-- Request `r` sets out for `place`, and nobody else has the lock. -/
theorem Toured.go (h : Toured s t) (hfree : ∀ r, (s.requests r).holds = false)
    (hcreating : ¬ s.Creating) {r : RequestId} {place : π}
    (hrequests : s'.requests = Function.update s.requests r (.unwatching (some place)))
    (hpaths : s'.paths = s.paths) : Toured s' (t.go place) where
  moving := by
    rintro place' ⟨b, hb⟩
    by_cases hbr : b = r
    · rw [hrequests, hbr, Function.update_self] at hb
      exact Option.some.inj (Request.unwatching.inj hb)
    · rw [hrequests, Function.update_of_ne hbr] at hb
      exact absurd ⟨b, hb⟩ (not_moving hfree place')
  current hno := absurd ⟨r, by rw [hrequests, Function.update_self]⟩ (hno place)
  told _ := .inr ⟨r, by rw [hrequests, Function.update_self]; rfl⟩
  left := by
    intro v hv
    rcases List.mem_append.mp hv with hv | hv
    · exact h.left v hv
    · rw [List.mem_singleton.mp hv]
      exact fun hno => (h.told hno).elim hcreating (not_arriving hfree)
  blocked := by
    obtain ⟨stays, n, hblocked⟩ := h.blocked
    exact ⟨_, 0, hpaths ▸ hblocked.go place⟩

end

/-! ## The steps -/

section

variable {s s' : State π} {t : Tour π} {r : RequestId} {q : Request π}

/-- Request `r` goes on, and is not about to watch another place before or after. -/
theorem moving_update (hrequests : s'.requests = Function.update s.requests r q)
    (hr : ∀ place, s.requests r ≠ .unwatching (some place))
    (hq : ∀ place, q ≠ .unwatching (some place)) (place : π) :
    s'.Moving place ↔ s.Moving place := by
  constructor
  · rintro ⟨b, hb⟩
    rw [hrequests] at hb
    by_cases hbr : b = r
    · rw [hbr, Function.update_self] at hb
      exact absurd hb (hq place)
    · rw [Function.update_of_ne hbr] at hb
      exact ⟨b, hb⟩
  · rintro ⟨b, hb⟩
    have hbr : b ≠ r := by
      rintro rfl
      exact hr place hb
    exact ⟨b, by rw [hrequests, Function.update_of_ne hbr, hb]⟩

theorem arriving_update (hrequests : s'.requests = Function.update s.requests r q)
    (hq : (s.requests r).arriving = true → q.arriving = true) (h : s.Arriving) : s'.Arriving := by
  obtain ⟨b, hb⟩ := h
  by_cases hbr : b = r
  · exact ⟨r, by rw [hrequests, Function.update_self]; exact hq (hbr ▸ hb)⟩
  · exact ⟨b, by rw [hrequests, Function.update_of_ne hbr, hb]⟩

/-- A request that goes on in a way that has nothing to do with the tour. -/
theorem Toured.update (h : Toured s t)
    (hrequests : s'.requests = Function.update s.requests r q)
    (hr : ∀ place, s.requests r ≠ .unwatching (some place))
    (hq : ∀ place, q ≠ .unwatching (some place))
    (harriving : (s.requests r).arriving = true → q.arriving = true)
    (htask : s'.pollTask = s.pollTask) (hpath : s'.currentPath = s.currentPath)
    (hpaths : s'.paths = s.paths) : Toured s' t := by
  refine h.frame (moving_update hrequests hr hq) hpath ?_ hpaths
  rintro (hcreating | hunder)
  · exact .inl (by rwa [State.Creating, htask])
  · exact .inr (arriving_update hrequests harriving hunder)

theorem emit_paths (s : State π) (d taken : Bool) :
    (s.emit d taken).paths = s.paths ++ bif taken then [s.currentPath] else [] := by
  cases taken with
  | false => exact (List.append_nil _).symm
  | true => cases d <;> exact List.filterMap_append ..

/-- Nobody knows of a watcher that is being made. -/
def Unknown (s : State π) : Prop := s.Creating → s.listed = false ∧ ∀ r, s.requests r = .idle

end

section

variable [DecidableEq π] {parent : π → Option π} {path : π} {s : State π} {l : Label π} {t : Tour π}

theorem Unknown.next (h : Unknown s) (hen : enabled s l) : Unknown (next parent s l) := by
  have hknown : ∀ r, s.requests r ≠ .idle → ¬ s.Creating := fun r hr hc => hr ((h hc).2 r)
  intro hc
  cases l with
  | notify | sent => exact h hc
  | opened ok => exact h (.inl hen.1)
  | introduced | pop | stop | pollLock => exact absurd hc (by simp [State.Creating, Watch.next])
  | handled n d taken =>
      exact absurd hc (by cases taken <;> simp [State.Creating, Watch.next])
  | request r act => exact absurd hen.2 (by simp [(h hc).1])
  | lock r act =>
      rw [State.Creating, (lock_thread parent s r act).2.2] at hc
      exact absurd hc (hknown r (by simp [hen.1]))
  | unwatched r target =>
      refine absurd ?_ (hknown r (by simp [hen.1]))
      cases target <;> exact hc
  | answered r ok => exact absurd hc (hknown r (by simp [hen.1]))
  | reported r ok d taken =>
      refine absurd ?_ (hknown r (by simp [show s.requests r = _ from hen]))
      cases taken <;> exact hc
  | closeSent r taken => exact absurd hc (hknown r (by simp [show s.requests r = _ from hen]))

/-- The lock is free, so the run is where the tour is, which goes on. -/
theorem Toured.lock (h : Toured s t) (howned : LockOwned s) (hunknown : Unknown s)
    {r : RequestId} {act : Action π} (hen : enabled s (.lock r act)) :
    Toured (next parent s (.lock r act)) (t.step parent (.act act)) := by
  have hfree : ∀ b, (s.requests b).holds = false := holds_of_lock howned hen.2
  have hcreating : ¬ s.Creating := fun hc => by
    have hidle := (hunknown hc).2 r
    rw [hen.1] at hidle
    cases hidle
  have hcurrent : s.currentPath = t.here.place := h.current (not_moving hfree)
  have hr : ∀ place, s.requests r ≠ .unwatching (some place) := by simp [hen.1]
  have harriving : (s.requests r).arriving ≠ true := by simp [hen.1, Request.arriving]
  have hstay : ∀ {q : Request π} {s' : State π}, (∀ place, q ≠ .unwatching (some place)) →
      s'.requests = Function.update s.requests r q → s'.pollTask = s.pollTask →
      s'.currentPath = s.currentPath → s'.paths = s.paths → Toured s' t :=
    fun hq hrequests htask hpath hpaths =>
      h.update hrequests hr hq (fun hno => absurd hno harriving) htask hpath hpaths
  cases act with
  | cd target =>
      cases target with
      | none => exact hstay (q := .finished) (by simp) rfl rfl rfl rfl
      | some place => exact h.go hfree hcreating rfl rfl
  | cdToParent =>
      simp only [next, Tour.step, Action.target, hcurrent]
      cases parent t.here.place with
      | none => exact hstay (q := .reporting true) (by simp) rfl rfl rfl rfl
      | some place => exact h.go hfree hcreating rfl rfl
  | close => exact hstay (q := .unwatching none) (by simp) rfl rfl rfl rfl

/-- The run comes to where its tour is. -/
theorem Toured.unwatched (h : Toured s t) (howned : LockOwned s) {r : RequestId} {place : π}
    (hr : s.requests r = .unwatching (some place)) :
    Toured (next parent s (.unwatched r (some place))) t := by
  have hhere : t.here.place = place := h.moving place ⟨r, hr⟩
  have hholds : (s.requests r).holds = true := by rw [hr]; rfl
  refine ⟨fun place' hmoving => ?_, fun _ => hhere.symm, fun _ => .inr ⟨r, ?_⟩, h.left, h.blocked⟩
  · obtain ⟨b, hb⟩ := hmoving
    have hbefore : s.requests b = .unwatching (some place') :=
      setRequest_of_eq (s := s) (p := .watching) hb (by simp)
    obtain rfl := request_of_holds howned hholds (b := b) (by rw [hbefore]; rfl)
    rw [hr] at hbefore
    exact hhere.trans (Option.some.inj (Request.unwatching.inj hbefore))
  · simp [next, State.setRequest, Request.arriving]

omit [DecidableEq π] in
theorem Tour.told_tell (t : Tour π) (taken : Bool) : (t.tell taken).here.told ≠ none :=
  Option.some_ne_none _

omit [DecidableEq π] in
/-- A report that was not taken does not count as one. -/
theorem Tour.told_of_tell {t : Tour π} {taken : Bool} (htaken : taken = false)
    (htold : (t.tell taken).here.told = some true) : t.here.told = some true := by
  subst htaken
  simpa [Tour.tell] using htold

/-- The report at the end of a request, which is the only one that has the lock. -/
theorem Toured.reported (h : Toured s t) (howned : LockOwned s) {r : RequestId} {ok : Bool}
    (d taken : Bool) (hr : s.requests r = .reporting ok) :
    Toured (next parent s (.reported r ok d taken)) (t.tell taken) := by
  have hholds : (s.requests r).holds = true := by rw [hr]; rfl
  have hstill : ∀ place, ¬ s.Moving place := by
    rintro place ⟨b, hb⟩
    obtain rfl := request_of_holds howned hholds (b := b) (by rw [hb]; rfl)
    rw [hr] at hb
    cases hb
  have hrequests : (next parent s (.reported r ok d taken)).requests =
      Function.update s.requests r .finished := by
    simp only [Watch.next, State.setRequest, emit_requests]
  refine h.report (t.tell taken) taken hstill (fun place hmoving => ?_) (emit_currentPath ..)
    rfl rfl (absurd · (t.told_tell taken)) Tour.told_of_tell (emit_paths ..)
  exact hstill place ((moving_update hrequests (by simp [hr]) (by simp) place).mp hmoving)

theorem Toured.next (h : Toured s t) (howned : LockOwned s) (hunknown : Unknown s)
    (hen : enabled s l) :
    Toured (Watch.next parent s l) ((note s l).foldl (Tour.step parent) t) := by
  cases l with
  | notify | sent => exact h.frame (fun _ => Iff.rfl) rfl (fun hu => hu) rfl
  | opened ok => exact h.frame (fun _ => Iff.rfl) rfl (fun _ => .inl (.inr ⟨ok, rfl⟩)) rfl
  | introduced ok d taken =>
      have hidle := (hunknown (.inr ⟨ok, hen⟩)).2
      have hfree : ∀ r, (s.requests r).holds = false := fun r => by rw [hidle r]; rfl
      refine h.report (t.tell taken) taken (not_moving hfree)
        (not_moving fun r => ?_) (emit_currentPath ..) rfl rfl (absurd · (t.told_tell taken))
        Tour.told_of_tell (emit_paths ..)
      rw [show (Watch.next parent s (.introduced ok d taken)).requests = s.requests from
        emit_requests ..]
      exact hfree r
  | pop n | stop | pollLock n =>
      refine h.frame (fun _ => Iff.rfl) rfl (fun hu => .inr (hu.resolve_left ?_)) rfl
      exact not_creating_of_eq hen.1 (by simp) (by simp)
  | handled n d taken =>
      have hfree := holds_of_poll howned hen
      refine h.report t taken (not_moving hfree) (not_moving fun r => ?_)
        (emit_currentPath ..) rfl rfl (fun hno => ?_) (fun _ ht => ht) (emit_paths ..)
      · rw [show (Watch.next parent s (.handled n d taken)).requests = s.requests from
          emit_requests ..]
        exact hfree r
      · exact (h.told hno).elim (fun hc => absurd hc (not_creating_of_eq hen (by simp) (by simp)))
          fun hunder => absurd hunder (not_arriving hfree)
  | request r act =>
      exact h.update (q := .locking act) rfl (by simp [hen.1]) (by simp)
        (by simp [hen.1, Request.arriving]) rfl rfl rfl
  | lock r act => exact h.lock howned hunknown hen
  | unwatched r target =>
      cases target with
      | none =>
          exact h.update (q := .closing) rfl (by simp [hen.1]) (by simp)
            (by simp [hen.1, Request.arriving]) rfl rfl rfl
      | some place => exact h.unwatched howned hen.1
  | answered r ok =>
      exact h.update (q := .reporting ok) rfl (by simp [hen.1]) (by simp) (fun _ => rfl) rfl rfl rfl
  | reported r ok d taken => exact h.reported howned d taken hen
  | closeSent r taken =>
      have hr : s.requests r = .closing := hen
      refine h.update (q := .finished) rfl (by simp [hr]) (by simp) (by simp [hr, Request.arriving])
        rfl rfl ?_
      cases taken with
      | false => rfl
      | true => exact (List.filterMap_append ..).trans (List.append_nil _)

/-! ## Whole runs -/

def recorded (parent : π → Option π) (path : π) : Machine (State π × List (Note π)) (Label π) :=
  (machine parent path).record note

/-- `MyWatcher::new` has returned, and nobody has the lock. -/
def State.Settled (s : State π) : Prop := s.lock = none ∧ ¬ s.Creating

theorem reachable_unknown (hs : (machine parent path).Reachable s) : Unknown s :=
  hs.invariant (I := Unknown) (fun _ => ⟨rfl, fun _ => rfl⟩) fun _ _ _ h hen _ => h.next hen

theorem reachable_toured {p : State π × List (Note π)} (hp : (recorded parent path).Reachable p) :
    Toured p.1 (tour parent path p.2) := by
  refine Machine.Reaches.invariant (M := recorded parent path)
    (I := fun p => Toured p.1 (tour parent path p.2)) (init_toured path) ?_ hp
  intro p l hp h hen _
  have hs : (machine parent path).Reachable p.1 := .of_record hp
  show Toured (next parent p.1 l) ((p.2 ++ note p.1 l).foldl (Tour.step parent) (.start path))
  rw [List.foldl_append]
  exact h.next (reachable_lockOwned hs) (reachable_unknown hs) hen

/-- In every run the reports come in blocks, one for each place of the tour and in its
order; there is a report on a place if one on an arrival there was taken; no place is left
before one was made; and where nobody has the lock the watcher is where the tour is, and
has reported on it. -/
theorem tour_reported {p : State π × List (Note π)} (hp : (recorded parent path).Reachable p) :
    let t := tour parent path p.2
    (∃ stays, stays.map Prod.fst = t.left ++ [t.here] ∧ p.1.paths = blocks stays ∧
      ∀ v ∈ stays, v.1.told = some true → 0 < v.2) ∧
    (∀ v ∈ t.left, v.told ≠ none) ∧
    (p.1.Settled → p.1.currentPath = t.here.place ∧ t.here.told ≠ none) := by
  intro t
  have h : Toured p.1 t := reachable_toured hp
  refine ⟨?_, h.left, fun hsettled => ?_⟩
  · obtain ⟨stays, n, hblocked⟩ := h.blocked
    refine ⟨stays ++ [(t.here, n)], ?_, ?_, fun v hv => ?_⟩
    · rw [List.map_append, hblocked.left]
      rfl
    · rw [hblocked.paths, blocks, blocks, List.flatMap_append, List.flatMap_singleton]
    · rcases List.mem_append.mp hv with hv | hv
      · exact hblocked.heard v hv
      · rw [List.mem_singleton.mp hv]
        exact hblocked.here
  · have hfree := holds_of_lock (reachable_lockOwned (.of_record hp)) hsettled.1
    exact ⟨h.current (not_moving hfree), fun hno =>
      (h.told hno).elim hsettled.2 (not_arriving hfree)⟩

end

/-! ## Two requests and a change -/

def upFrom (path : String) : Option String := if path = "/home/user" then some "/home" else none

/-- `cd` is asked for first and comes second; in between the file system has changed. -/
def strollRun : List (Label String) :=
  [.opened true, .introduced true true true, .request 0 (.cd (some "/tmp")), .request 1 .cdToParent,
    .notify .event, .pop .event, .sent .event, .lock 1 .cdToParent, .unwatched 1 (some "/home"),
    .answered 1 true, .reported 1 true true true, .pollLock .event, .handled .event true true,
    .lock 0 (.cd (some "/tmp")), .unwatched 0 (some "/tmp"), .answered 0 false,
    .reported 0 false true true]

def strollEnd : State String × List (Note String) :=
  strollRun.foldl (recorded upFrom "/home/user").next (recorded upFrom "/home/user").init

instance (s : State String × List (Note String)) (l : Label String) :
    Decidable ((recorded upFrom "/home/user").enabled s l) :=
  inferInstanceAs (Decidable (enabled s.1 l))

theorem reachable_stroll : (recorded upFrom "/home/user").Reachable strollEnd :=
  Machine.reaches_of_path (M := recorded upFrom "/home/user") (by decide)

theorem tour_reported_stroll :
    strollEnd.1.paths = ["/home/user", "/home", "/home", "/tmp"] ∧
      strollEnd.1.currentPath = "/tmp" := by
  have hsettled : strollEnd.1.Settled := ⟨rfl, not_creating_of_eq (p := .selecting) rfl
    (by simp) (by simp)⟩
  exact ⟨by decide, ((tour_reported reachable_stroll).2.2 hsettled).1⟩

end WebSshTool.Watch
