import WebSshTool.Lib.Mutex
import WebSshTool.Logging.FileLogger

/-!
# The logger waits for a worker that waits for the logger

A worker in `block_on` polls nothing. When the last of them gets there while
`run_file_logger` needs one, be it that it was woken before or is woken then,
nobody takes a line out of the channel any more, the sender stays parked and
everybody waits for it.

The bound of the channel does not help: the task may be with the file system
for as long as it takes to send one line more than that. It takes one worker
to fill the channel and one line of each of the others, however many there
are.
-/

namespace WebSshTool.Logging

open Mutex

variable {n : Nat}

/-! ## The property and the condition -/

/-- Every worker is blocked, and the task needs one. -/
def Stuck (s : State n) : Prop :=
  s.task.isRunnable = true ∧ ∀ w, s.blocked (.worker w) = true

instance (s : State n) : Decidable (Stuck s) := inferInstanceAs (Decidable (_ ∧ _))

/-- Some worker other than `w` is not blocked. -/
def State.Spare (s : State n) (w : Fin n) : Prop :=
  ∃ w', w' ≠ w ∧ s.blocked (.worker w') = false

instance (s : State n) (w : Fin n) : Decidable (s.Spare w) :=
  inferInstanceAs (Decidable (∃ _, _))

/-- What a step must find so that a worker is left for the task. -/
def Meets (s : State n) : Label n → Prop
  | .call (.worker w) _ _ => s.task.isRunnable = true → s.lock ≠ none → s.Spare w
  | .send (.worker w) _ => s.task.isRunnable = true → bound ≤ s.queue.length → s.Spare w
  | .acquire .main _ _ _ =>
      s.task.isRunnable = true → ∃ w, (s.threads (.worker w)).isLocking = false
  | .wake _ => ∃ w, s.blocked (.worker w) = false
  | _ => True

instance (s : State n) (l : Label n) : Decidable (Meets s l) := by
  induction l using Label.casesOn with
  | call t _ _ | send t _ | acquire t _ _ _ =>
      induction t using Thread.casesOn <;> unfold Meets <;> infer_instance
  | _ => unfold Meets; infer_instance

/-! ## The lock of the sender -/

/-- The lock as a table of one mutex. -/
def LockOwned (s : State n) : Prop :=
  Owned (fun _ : Unit => s.lock) fun t _ => (s.threads t).holds

structure Inv (s : State n) : Prop where
  owned : LockOwned s
  /-- Nobody waits for a line while there is one. -/
  waiting : s.task = .waiting → s.queue = []

theorem init_inv : Inv (init n) where
  owned := by
    intro l t
    simp [init]
  waiting h := absurd h (by simp [init])

/-- A step of thread `t` alone. -/
theorem LockOwned.thread {s s' : State n} (h : LockOwned s) (t : Thread n) (c : Caller)
    (hthreads : s'.threads = Function.update s.threads t c)
    (hfree : c.holds = true → (s.threads t).holds = true ∨ s.lock = none)
    (hlock : s'.lock = bif (s.threads t).holds == c.holds then s.lock
      else bif c.holds then some t else none) : LockOwned s' := by
  refine Owned.step h t ?_ ?_ ?_
  · intro u hu l
    rw [hthreads, Function.update_of_ne hu]
  · intro l
    rw [hthreads, Function.update_self]
    exact hfree
  · intro l
    rw [hthreads, Function.update_self]
    exact hlock

/-- A step of the task alone. -/
theorem LockOwned.task {s s' : State n} (h : LockOwned s) (hthreads : s'.threads = s.threads)
    (hlock : s'.lock = s.lock) : LockOwned s' := by
  intro l t
  rw [hlock, hthreads]
  exact h l t

theorem notified_ne_waiting (task : Task n) : task.notified ≠ .waiting := by
  cases task <;> simp [Task.notified]

theorem Inv.next {s : State n} {l : Label n} (h : Inv s) (hen : enabled s l) :
    Inv (next s l) where
  owned := by
    cases l with
    | call t level message =>
        exact h.owned.thread t _ rfl (by simp)
          (by simp [Logging.next, State.setThread, hen.1])
    | acquire t level message time =>
        exact h.owned.thread t _ rfl (fun _ => .inr hen.2)
          (by simp [Logging.next, hen.1])
    | send t line =>
        have hholds : (s.threads t).holds = true := by
          rw [show s.threads t = _ from hen]
          rfl
        simp only [Logging.next]
        split
        · exact h.owned.thread t .free rfl (by simp) (by simp [hholds])
        · split
          · exact h.owned.thread t .flushing rfl (fun _ => .inl hholds)
              (by simp [State.setThread, hholds])
          · exact h.owned.thread t .free rfl (by simp)
              (by simp [hholds])
    | flushed t =>
        exact h.owned.thread t .free rfl (by simp)
          (by simp [Logging.next, hen.1])
    | opened w ok => cases ok <;> exact h.owned.task rfl rfl
    | run | yield | wake | receive | sleep | written => exact h.owned.task rfl rfl
  waiting := by
    cases l with
    | call | acquire | flushed => exact h.waiting
    | send t line =>
        simp only [Logging.next]
        split
        · exact h.waiting
        · split <;> exact fun hw => absurd hw (notified_ne_waiting s.task)
    | run | wake | receive | written => exact fun hw => absurd hw (by simp [Logging.next])
    | yield w p =>
        intro hw
        obtain ⟨p', hp⟩ := Option.isSome_iff_exists.mp hen.2
        simp [Logging.next, hp] at hw
    | opened w ok => cases ok <;> exact fun hw => absurd hw (by simp [Logging.next])
    | sleep w => exact fun _ => hen.2

theorem inv_of_reachable {s : State n} (hs : (machine n).Reachable s) : Inv s :=
  hs.invariant init_inv fun _ _ _ h hen _ => h.next hen

/-! ## Who is blocked -/

section

variable {s s' : State n} {t : Thread n} {w : Fin n} {l : Label n}

/-- Nobody is blocked while the sender is free. -/
theorem not_blocked_of_lock (h : LockOwned s) (hlock : s.lock = none) (t : Thread n) :
    s.blocked t = false := by
  have hholds := Owned.not_holds h (l := ()) hlock t
  cases ht : s.threads t with
  | free | holding | locking => simp [State.blocked, ht, hlock]
  | flushing =>
      rw [ht] at hholds
      exact absurd hholds (by simp)

/-- While another has the sender a thread is blocked exactly where it waits
for it. -/
theorem blocked_of_lock (h : LockOwned s) {u : Thread n} (hlock : s.lock = some u) (ht : t ≠ u) :
    s.blocked t = (s.threads t).isLocking := by
  cases hc : s.threads t with
  | free | holding | locking => simp [State.blocked, hc, hlock, Caller.isLocking]
  | flushing =>
      have hu : s.lock = some t := (h () t).mpr (by simp [hc])
      rw [hlock] at hu
      exact absurd (Option.some.inj hu).symm ht

theorem blocked_congr (hthreads : s'.threads t = s.threads t)
    (hlock : s'.lock = s.lock) (hparked : s'.parked = s.parked) : s'.blocked t = s.blocked t := by
  simp only [State.blocked, hthreads, hlock, hparked]

theorem not_stuck_of_runnable (h : s.task.isRunnable = false) : ¬ Stuck s := by
  rintro ⟨hrunnable, -⟩
  rw [h] at hrunnable
  exact absurd hrunnable (by simp)

theorem not_stuck_of_blocked (h : s.blocked (.worker w) = false) : ¬ Stuck s := by
  rintro ⟨-, hblocked⟩
  have hw := hblocked w
  rw [h] at hw
  exact absurd hw (by simp)

/-- Where worker `w` is blocked it takes another. -/
theorem not_stuck_iff_spare (hw : s'.blocked (.worker w) = true)
    (hother : ∀ w', w' ≠ w → s'.blocked (.worker w') = s.blocked (.worker w'))
    (htask : s'.task.isRunnable = s.task.isRunnable) :
    ¬ Stuck s' ↔ (s.task.isRunnable = true → s.Spare w) := by
  rw [Stuck, htask, not_and]
  refine imp_congr_right fun _ => ?_
  constructor
  · intro hnot
    obtain ⟨w', hw'⟩ := not_forall.mp hnot
    have hne : w' ≠ w := by
      rintro rfl
      exact hw' hw
    exact ⟨w', hne, by rw [← hother w' hne]; simpa using hw'⟩
  · rintro ⟨w', hne, hfree⟩ hall
    have hw' := hall w'
    rw [hother w' hne, hfree] at hw'
    exact absurd hw' (by simp)

/-! ## One step -/

theorem call_iff (hstuck : ¬ Stuck s) (level : Level) (message : String) :
    Meets s (.call t level message) ↔ ¬ Stuck (next s (.call t level message)) := by
  have hother : ∀ u, u ≠ t →
      (next s (.call t level message)).blocked u = s.blocked u := fun u hu =>
    blocked_congr (Function.update_of_ne hu _ _) rfl rfl
  cases t with
  | main =>
      refine iff_of_true trivial fun h => hstuck ⟨h.1, fun w => ?_⟩
      rw [← hother (.worker w) (by simp)]
      exact h.2 w
  | worker w =>
      have hw : (next s (.call (.worker w) level message)).blocked (.worker w) = s.lock.isSome := by
        simp [State.blocked, next, State.setThread]
      cases hlock : s.lock with
      | none =>
          refine iff_of_true (fun _ hne => absurd hlock hne) (not_stuck_of_blocked (w := w) ?_)
          rw [hw, hlock]
          rfl
      | some u =>
          rw [hlock] at hw
          rw [not_stuck_iff_spare hw (fun w' hw' => hother _ (by simpa using hw')) rfl, Meets]
          exact imp_congr_right fun _ => ⟨fun h => h (by simp [hlock]), fun h _ => h⟩

theorem acquire_iff (h : Inv s) {level : Level} {message time : String}
    (hen : enabled s (.acquire t level message time)) :
    Meets s (.acquire t level message time) ↔ ¬ Stuck (next s (.acquire t level message time)) := by
  have hinv := h.next hen
  cases t with
  | main =>
      have hblocked : ∀ w, (next s (.acquire .main level message time)).blocked (.worker w) =
          (s.threads (.worker w)).isLocking := fun w =>
        blocked_of_lock hinv.owned (u := .main) rfl (by simp)
      simp only [Stuck, hblocked, not_and, not_forall, Bool.not_eq_true]
      exact Iff.rfl
  | worker w =>
      refine iff_of_true trivial (not_stuck_of_blocked (w := w) ?_)
      simp [State.blocked, next, State.setThread]

theorem send_iff (hn : 0 < n) (h : Inv s) (hstuck : ¬ Stuck s) {line : String}
    (hen : enabled s (.send t line)) :
    Meets s (.send t line) ↔ ¬ Stuck (next s (.send t line)) := by
  have hinv := h.next hen
  have hlock : s.lock = some t := (h.owned () t).mpr (by simp [show s.threads t = _ from hen])
  by_cases hended : s.task = .ended
  · have hrunnable : s.task.isRunnable = false := by
      rw [hended]
      rfl
    refine iff_of_true ?_ (not_stuck_of_runnable ?_)
    · cases t with
      | main => trivial
      | worker w => exact fun hr => absurd (hrunnable.symm.trans hr) (by simp)
    · simp only [next, if_pos hended]
      exact hrunnable
  · by_cases hbound : bound ≤ s.queue.length
    · -- the sender is parked, and its thread with it
      have hqueue : bound < (s.queue ++ [line]).length := by simpa using Nat.lt_succ_of_le hbound
      have hnotified : s.task.notified = s.task := by
        cases htask : s.task with
        | waiting =>
            rw [h.waiting htask] at hbound
            exact absurd hbound (by decide)
        | runnable | running | offThread | ended => rfl
      have hnext : next s (.send t line) =
          { s.setThread t .flushing with queue := s.queue ++ [line], parked := true } := by
        simp only [next, if_neg hended, if_pos hqueue, hnotified]
        rfl
      have hother : ∀ u, u ≠ t → (next s (.send t line)).blocked u = s.blocked u := by
        intro u hu
        rw [blocked_of_lock hinv.owned (u := t) (by rw [hnext]; exact hlock) hu,
          blocked_of_lock h.owned hlock hu, hnext]
        simp [State.setThread, Function.update_of_ne hu]
      have htask : (next s (.send t line)).task.isRunnable = s.task.isRunnable := by
        rw [hnext]
        rfl
      cases t with
      | main =>
          refine iff_of_true trivial fun hno => hstuck ⟨htask ▸ hno.1, fun w => ?_⟩
          rw [← hother (.worker w) (by simp)]
          exact hno.2 w
      | worker w =>
          have hw : (next s (.send (.worker w) line)).blocked (.worker w) = true := by
            rw [hnext]
            simp [State.blocked, State.setThread]
          rw [not_stuck_iff_spare hw (fun w' hw' => hother _ (by simpa using hw')) htask, Meets]
          exact imp_congr_right fun _ => ⟨fun hm => hm hbound, fun hm _ => hm⟩
    · have hqueue : ¬ bound < (s.queue ++ [line]).length := by
        rw [List.length_append, List.length_singleton]
        omega
      have hfree : (next s (.send t line)).lock = none := by
        simp only [next, if_neg hended, if_neg hqueue]
      refine iff_of_true ?_ (not_stuck_of_blocked (w := ⟨0, hn⟩)
        (not_blocked_of_lock hinv.owned hfree _))
      cases t with
      | main => trivial
      | worker w => exact fun _ hm => absurd hm hbound

/-- The condition is exact: from a state with a worker left for the task, a
step leaves none exactly when it breaks the condition. -/
theorem meets_iff (hn : 0 < n) (h : Inv s) (hstuck : ¬ Stuck s) (hen : enabled s l) :
    Meets s l ↔ ¬ Stuck (next s l) := by
  cases l with
  | call t level message => exact call_iff hstuck level message
  | acquire t level message time => exact acquire_iff h hen
  | send t line => exact send_iff hn h hstuck hen
  | flushed t =>
      exact iff_of_true trivial (not_stuck_of_blocked (w := ⟨0, hn⟩)
        (not_blocked_of_lock (h.next hen).owned rfl _))
  | run | receive | sleep | written => exact iff_of_true trivial (not_stuck_of_runnable rfl)
  | opened w ok => cases ok <;> exact iff_of_true trivial (not_stuck_of_runnable rfl)
  | yield w p =>
      obtain ⟨p', hp⟩ := Option.isSome_iff_exists.mp hen.2
      refine iff_of_true trivial (not_stuck_of_runnable ?_)
      simp [next, hp, Task.isRunnable]
  | wake p =>
      have hblocked : ∀ w, (next s (.wake p)).blocked (.worker w) = s.blocked (.worker w) :=
        fun w => blocked_congr rfl rfl rfl
      simp only [Stuck, hblocked, not_and, not_forall, Bool.not_eq_true]
      exact ⟨fun hm _ => hm, fun hm => hm rfl⟩

/-! ## For good -/

/-- Stuck, with a parked sender: nobody but the task can unpark it. -/
structure Starved (s : State n) : Prop where
  stuck : Stuck s
  parked : s.parked = true
  owner : ∃ t, s.lock = some t ∧ s.threads t = .flushing

/-- No step leads out: the only ones left are calls of the main thread, which
join the others. -/
theorem Starved.next (h : Inv s) (hs : Starved s) (hen : enabled s l) : Starved (next s l) := by
  obtain ⟨⟨hrunnable, hblocked⟩, hparked, t, hlock, ht⟩ := hs
  have hno : ∀ {P : Prop}, s.task.isRunnable = false → P := fun hf =>
    absurd (hf.symm.trans hrunnable) (by simp)
  cases l with
  | call u level message =>
      have hu : u ≠ t := by
        rintro rfl
        exact absurd (hen.1.symm.trans ht) (by simp)
      refine ⟨⟨hrunnable, fun w => ?_⟩, hparked, t, hlock, ?_⟩
      · by_cases hw : Thread.worker w = u
        · simp [State.blocked, Logging.next, State.setThread, ← hw, hlock]
        · rw [← hblocked w]
          exact blocked_congr (Function.update_of_ne hw _ _) rfl rfl
      · exact (Function.update_of_ne hu.symm _ _).trans ht
  | acquire => exact absurd (hlock.symm.trans hen.2) (by simp)
  | send u line =>
      have hholds : s.lock = some u := (h.owned () u).mpr (by simp [show s.threads u = _ from hen])
      obtain rfl := Option.some.inj (hlock.symm.trans hholds)
      exact absurd (ht.symm.trans hen) (by simp)
  | flushed => exact absurd (hparked.symm.trans hen.2) (by simp)
  | run w p =>
      have hw := hblocked w
      rw [State.blocked, hen.2] at hw
      exact absurd hw (by simp)
  | yield => exact hno (by rw [hen.1]; rfl)
  | wake => exact hno (by rw [show s.task = _ from hen]; rfl)
  | opened => exact hno (by rw [show s.task = _ from hen]; rfl)
  | receive => exact hno (by rw [hen.1]; rfl)
  | sleep => exact hno (by rw [hen.1]; rfl)
  | written => exact hno (by rw [show s.task = _ from hen]; rfl)

theorem Starved.forever (hs : (machine n).Reachable s) (hstarved : Starved s)
    (hlead : (machine n).Leads (fun _ _ => True) s s') : Starved s' := by
  refine (hlead.invariant (I := fun s => Inv s ∧ Starved s) ?_
    ⟨inv_of_reachable hs, hstarved⟩).2
  exact fun s l ⟨h, hstarved⟩ hen _ => ⟨h.next hen, hstarved.next h hen⟩

end

/-! ## A worker is always left -/

/-- Along a run whose steps all meet the condition the task always finds a
worker, and there the condition separates the steps that leave it none from
those that do not. -/
theorem logger_notStuck (hn : 0 < n) {s : State n} (hs : (machine n).Reaches Meets s) :
    ¬ Stuck s ∧ ∀ l, enabled s l → (Meets s l ↔ ¬ Stuck (next s l)) := by
  have hinv : Inv s ∧ ¬ Stuck s := by
    refine hs.invariant (I := fun s => Inv s ∧ ¬ Stuck s) ⟨init_inv, ?_⟩ ?_
    · exact not_stuck_of_blocked (w := ⟨0, hn⟩) rfl
    · exact fun s l _ ⟨h, hstuck⟩ hen hok =>
        ⟨h.next hen, (meets_iff hn h hstuck hen).mp hok⟩
  exact ⟨hinv.2, fun l hen => meets_iff hn hinv.1 hinv.2 hen⟩

/-- One line on its way from a call to the file. -/
def lineRun : List (Label 1) :=
  [.run 0 .start, .yield 0 .start, .call (.worker 0) .info "New http (/) connection: ::1",
    .acquire (.worker 0) .info "New http (/) connection: ::1" "2024-01-01T00:00:00+00:00",
    .send (.worker 0)
      (line .info "2024-01-01T00:00:00+00:00" "New http (/) connection: ::1"),
    .wake .opening, .run 0 .opening, .opened 0 true,
    .receive 0 (line .info "2024-01-01T00:00:00+00:00" "New http (/) connection: ::1")]

theorem logger_notStuck_line : ¬ Stuck (lineRun.foldl next (init 1)) :=
  (logger_notStuck (by decide) (Machine.reaches_of_path (M := machine 1) (by decide))).1

/-! ## However many workers

One of them fills the channel while the task is with the file system, and the
others each have a line to send before it is back. -/

section

variable {s : State n} {t : Thread n} {p : Point}

/-- What is logged here. -/
abbrev note : String := line .info "" ""

theorem polls_offThread (htask : s.task = .offThread p) (t : Thread n) : s.polls t = false := by
  cases t <;> simp [State.polls, htask]

theorem reachable_next (hs : (machine n).Reachable s) (l : Label n) (hen : enabled s l) :
    (machine n).Reachable (next s l) :=
  hs.step hen trivial

/-- A thread gets as far as sending, and what it does then is one step more. -/
theorem reachable_holding (hs : (machine n).Reachable s) (hfree : s.threads t = .free)
    (hlock : s.lock = none) (htask : s.task = .offThread p) :
    (machine n).Reachable { s.setThread t (.holding note) with lock := some t } := by
  have hcall : (machine n).Reachable (s.setThread t (.locking .info "")) :=
    reachable_next hs (.call t .info "") ⟨hfree, polls_offThread htask t⟩
  have hacquire := reachable_next hcall (.acquire t .info "" "") ⟨Function.update_self .., hlock⟩
  have hstate : next (s.setThread t (.locking .info "")) (.acquire t .info "" "") =
      { s.setThread t (.holding note) with lock := some t } := by
    simp only [next, State.setThread, Function.update_idem]
  rwa [hstate] at hacquire

theorem reachable_line (hs : (machine n).Reachable s) (hfree : s.threads t = .free)
    (hlock : s.lock = none) (htask : s.task = .offThread p) (hroom : s.queue.length < bound) :
    (machine n).Reachable { s with queue := s.queue ++ [note] } := by
  have hsend := reachable_next (reachable_holding hs hfree hlock htask) (.send t note)
    (Function.update_self ..)
  have hqueue : ¬ bound < (s.queue ++ [note]).length := by
    rw [List.length_append, List.length_singleton]
    omega
  have hthreads : Function.update s.threads t .free = s.threads := by
    rw [← hfree, Function.update_eq_self]
  have hstate : next { s.setThread t (.holding note) with lock := some t }
      (.send t note) = { s with queue := s.queue ++ [note] } := by
    simp only [next, State.setThread, htask, Task.notified, reduceCtorEq, if_false,
      if_neg hqueue, Function.update_idem, hthreads, ← hlock]
  rwa [hstate] at hsend

/-- The channel takes as many lines as its bound allows. -/
theorem reachable_full (hs : (machine n).Reachable s) (hfree : s.threads t = .free)
    (hlock : s.lock = none) (htask : s.task = .offThread p) (hempty : s.queue = []) :
    ∀ k ≤ bound, (machine n).Reachable { s with queue := List.replicate k note } := by
  intro k
  induction k with
  | zero =>
      intro _
      rwa [List.replicate_zero, ← hempty]
  | succ k ih =>
      intro hk
      have hline := reachable_line (ih (by omega)) hfree hlock htask
        (by rw [List.length_replicate]; omega)
      rwa [← List.replicate_succ'] at hline

/-- One line more parks the sender. -/
theorem reachable_parked (hs : (machine n).Reachable s) (hfree : s.threads t = .free)
    (hlock : s.lock = none) (htask : s.task = .offThread p) (hfull : bound ≤ s.queue.length) :
    (machine n).Reachable
      { s.setThread t .flushing with
        lock := some t
        queue := s.queue ++ [note]
        parked := true } := by
  have hsend := reachable_next (reachable_holding hs hfree hlock htask) (.send t note)
    (Function.update_self ..)
  have hqueue : bound < (s.queue ++ [note]).length := by
    rw [List.length_append, List.length_singleton]
    omega
  have hstate : next { s.setThread t (.holding note) with lock := some t }
      (.send t note) =
        { s.setThread t .flushing with
          lock := some t
          queue := s.queue ++ [note]
          parked := true } := by
    simp only [next, State.setThread, htask, Task.notified, reduceCtorEq, if_false,
      if_pos hqueue, Function.update_idem]
  rwa [hstate] at hsend

/-- The sender is parked and the task away; every worker is blocked already or
in no call. -/
structure Crowding (s : State n) (t : Thread n) (p : Point) : Prop where
  reachable : (machine n).Reachable s
  task : s.task = .offThread p
  lock : s.lock = some t
  owner : s.threads t = .flushing
  parked : s.parked = true
  workers : ∀ w, s.threads (.worker w) = .free ∨ s.blocked (.worker w) = true

theorem crowding_parked (hs : (machine n).Reachable s) (hworkers : ∀ u, s.threads u = .free)
    (hlock : s.lock = none) (htask : s.task = .offThread p) (hfull : bound ≤ s.queue.length) :
    ∃ s', Crowding s' t p := by
  refine ⟨_, reachable_parked hs (hworkers t) hlock htask hfull, htask, rfl,
    Function.update_self .., rfl, fun w => ?_⟩
  by_cases hw : Thread.worker w = t
  · refine .inr ?_
    simp [State.blocked, State.setThread, hw]
  · exact .inl ((Function.update_of_ne hw _ _).trans (hworkers _))

/-- One worker after the other joins those that wait. -/
theorem Crowding.joined (h : Crowding s t p) (m : Nat) :
    ∃ s' : State n, Crowding s' t p ∧ ∀ w : Fin n, w.val < m → s'.blocked (.worker w) = true := by
  induction m with
  | zero => exact ⟨s, h, fun w hw => absurd hw (Nat.not_lt_zero _)⟩
  | succ m ih =>
      obtain ⟨s', h', hall⟩ := ih
      by_cases hm : m < n
      · rcases h'.workers ⟨m, hm⟩ with hfree | hblocked
        · have hne : t ≠ .worker ⟨m, hm⟩ := by
            rintro rfl
            exact absurd (h'.owner.symm.trans hfree) (by simp)
          have hother : ∀ u, u ≠ .worker ⟨m, hm⟩ →
              (s'.setThread (.worker ⟨m, hm⟩) (.locking .info "")).blocked u = s'.blocked u :=
            fun u hu => blocked_congr (Function.update_of_ne hu _ _) rfl rfl
          have hself : (s'.setThread (.worker ⟨m, hm⟩) (.locking .info "")).blocked
              (.worker ⟨m, hm⟩) = true := by
            simp [State.blocked, State.setThread, h'.lock]
          refine ⟨s'.setThread (.worker ⟨m, hm⟩) (.locking .info ""), ?_, ?_⟩
          · refine ⟨?_, h'.task, h'.lock, ?_, h'.parked, ?_⟩
            · exact reachable_next h'.reachable (.call (.worker ⟨m, hm⟩) .info "")
                ⟨hfree, polls_offThread h'.task _⟩
            · exact (Function.update_of_ne hne _ _).trans h'.owner
            · intro w
              by_cases hw : w = ⟨m, hm⟩
              · exact .inr (hw ▸ hself)
              · have hwu : Thread.worker w ≠ .worker ⟨m, hm⟩ := by simpa using hw
                rw [hother _ hwu]
                exact (h'.workers w).imp_left ((Function.update_of_ne hwu _ _).trans ·)
          · intro w hw
            by_cases hwm : w = ⟨m, hm⟩
            · exact hwm ▸ hself
            · rw [hother _ (by simpa using hwm)]
              exact hall w (by have := Fin.val_ne_of_ne hwm; simp only at this; omega)
        · refine ⟨s', h', fun w hw => ?_⟩
          rcases Nat.lt_succ_iff_lt_or_eq.mp hw with hw | hw
          · exact hall w hw
          · exact (show w = ⟨m, hm⟩ from Fin.ext hw) ▸ hblocked
      · exact ⟨s', h', fun w _ => hall w (by omega)⟩

/-- With any number of workers the logger can starve. -/
theorem starved_reachable (hn : 0 < n) : ∃ s, (machine n).Reachable s ∧ Starved s := by
  have hstart : (machine n).Reachable { init n with task := .running ⟨0, hn⟩ .start } :=
    reachable_next .init (.run ⟨0, hn⟩ .start) ⟨rfl, rfl⟩
  have haway : (machine n).Reachable { init n with task := .offThread .opening } :=
    reachable_next hstart (.yield ⟨0, hn⟩ .start) ⟨rfl, rfl⟩
  have hfull := reachable_full (t := .worker ⟨0, hn⟩) haway rfl rfl rfl rfl bound (Nat.le_refl _)
  obtain ⟨s', hs'⟩ := crowding_parked (t := .worker ⟨0, hn⟩) (p := .opening) hfull
    (fun _ => rfl) rfl rfl (Nat.le_of_eq List.length_replicate.symm)
  obtain ⟨s, hcrowding, hall⟩ := hs'.joined n
  refine ⟨_, reachable_next hcrowding.reachable (.wake .opening) hcrowding.task, ⟨rfl, ?_⟩,
    hcrowding.parked, _, hcrowding.lock, hcrowding.owner⟩
  exact fun w => hall w w.isLt

theorem logger_starves :
    ¬ ∀ n, 0 < n → ∀ s : State n, (machine n).Reachable s → ¬ Stuck s := by
  intro h
  obtain ⟨s, hs, hstarved⟩ := starved_reachable (n := 1) (by decide)
  exact h 1 (by decide) s hs hstarved.stuck

end

end WebSshTool.Logging
