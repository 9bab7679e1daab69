import WebSshTool.SignIn.Exclusion

/-!
# Queues do not leak

The task of a queue ends by looking its name up once more, with
`authenticate_queues` locked, and removes what it finds if that does not
upgrade. Where it does upgrade there is an `Arc` that no attempt keeps, for as
long as the lock is held. The last attempt may let go of the queue in the
meantime, and then the task of an old queue is the one to close the new one.

`Queue.machine` takes the cleanup for one step. Here it is two, and whatever
needs no lock may come between them. The cleanup can still be taken for one
step, at its look-up: `settled` is the state in which that has been done, and
every run of the finer machine is, settled, a run of the other. So the queues
that are kept are those of `Queue.machine`, and what is listed there is left to
be removed by a task that has not ended.
-/

namespace WebSshTool.SignIn.Queue

variable {υ : Type*}

/-! ## The cleanup in two steps -/

/-- A cleanup between its look-up and its end: `authenticate_queues` is locked,
and the pointer that was found has been upgraded, if it could be. -/
structure Cleanup (υ : Type*) where
  task : QueueId
  name : υ
  upgraded : Option QueueId
  deriving DecidableEq, Repr

namespace Overlapping

structure State (υ : Type*) where
  queues : Queue.State υ
  cleanup : Option (Cleanup υ)

inductive Label (υ : Type*) where
  | step (l : Queue.Label υ)
  | lookUp (q : QueueId) (name : υ)
  | release (c : Cleanup υ)
  deriving DecidableEq, Repr

def init : State υ where
  queues := Queue.init
  cleanup := none

/-- What a step must find of a cleanup: the lock, where it needs it, and no
`Arc` left, where a channel is to be closed. -/
def State.allows (s : State υ) : Queue.Label υ → Prop
  | .upgrade _ _ _ | .create _ _ _ => s.cleanup = none
  | .closed q _ => ∀ c ∈ s.cleanup, c.upgraded ≠ some q
  | .cleanup _ _ => False
  | _ => True

def enabled (s : State υ) : Label υ → Prop
  | .step l => Queue.enabled s.queues l ∧ s.allows l
  | .lookUp q n => s.queues.tasks q = .closing n ∧ s.cleanup = none
  | .release c => s.cleanup = some c

variable [DecidableEq υ]

instance (s : State υ) (l : Queue.Label υ) : Decidable (s.allows l) := by
  induction l using Queue.Label.casesOn <;> unfold State.allows <;> infer_instance

instance (s : State υ) (l : Label υ) : Decidable (enabled s l) := by
  cases l <;> unfold enabled <;> infer_instance

def next (s : State υ) : Label υ → State υ
  | .step l => { s with queues := Queue.next s.queues l }
  | .lookUp q n =>
      if s.queues.dead n then
        { queues := { s.queues with
            authenticateQueues := Function.update s.queues.authenticateQueues n none }
          cleanup := some ⟨q, n, none⟩ }
      else { s with cleanup := some ⟨q, n, s.queues.authenticateQueues n⟩ }
  | .release c => { queues := s.queues.setTask c.task (.ended c.name), cleanup := none }

def machine : Machine (State υ) (Label υ) := ⟨init, enabled, next⟩

instance (s : State υ) (l : Label υ) : Decidable (machine.enabled s l) :=
  inferInstanceAs (Decidable (enabled s l))

/-- The cleanup under way is over, as far as the queues are concerned. -/
def State.settled (s : State υ) : Queue.State υ :=
  match s.cleanup with
  | none => s.queues
  | some c => s.queues.setTask c.task (.ended c.name)

end Overlapping

/-! ## Settled runs -/

/-- The queue whose task a step is a step of, or creates. -/
def Label.task? : Label υ → Option QueueId
  | .create _ _ q | .pop q _ _ | .resolved q _ _ | .closed q _ | .cleanup q _ => some q
  | _ => none

section

variable {s : State υ} {l : Label υ} {q : QueueId} {t : QueueTask υ}

theorem setTask_tasks_of_ne {k : QueueId} (h : k ≠ q) : (s.setTask q t).tasks k = s.tasks k :=
  Function.update_of_ne h ..

/-- A step reads the task it is a step of and no other. -/
theorem enabled_setTask (h : l.task? ≠ some q) (hen : enabled s l) :
    enabled (s.setTask q t) l := by
  have hne : ∀ k, l.task? = some k → k ≠ q := by
    intro k hk hkq
    exact h (hkq ▸ hk)
  cases l with
  | create a n k =>
      refine ⟨hen.1, hen.2.1, ?_⟩
      rw [setTask_tasks_of_ne (hne k rfl)]
      exact hen.2.2
  | pop k n a | resolved k n a | closed k n =>
      refine ⟨?_, hen.2⟩
      rw [setTask_tasks_of_ne (hne k rfl)]
      exact hen.1
  | cleanup k n =>
      exact (setTask_tasks_of_ne (hne k rfl)).trans hen
  | connect | upgrade | lockSender | sent | accept | reject | error | penaltyOver | yielded
  | dropQueue | dropComplete | leave => exact hen

variable [DecidableEq υ]

theorem next_setTask (h : l.task? ≠ some q) :
    next (s.setTask q t) l = (next s l).setTask q t := by
  have hcomm : ∀ k t', l.task? = some k →
      Function.update (Function.update s.tasks q t) k t' =
        Function.update (Function.update s.tasks k t') q t := by
    intro k t' hk
    have hne : q ≠ k := by
      rintro rfl
      exact h hk
    exact Function.update_comm hne ..
  cases l with
  | create a n k | pop k n a | resolved k n a | closed k n =>
      simp only [next, State.setTask, State.setAttempt, hcomm k _ rfl]
  | cleanup k n =>
      have hdead : (s.setTask q t).dead n ↔ s.dead n := Iff.rfl
      simp only [next, hdead]
      split <;> simp only [State.setTask, hcomm k _ rfl]
  | connect | upgrade | lockSender | sent | accept | reject | error | penaltyOver | yielded
  | dropQueue | dropComplete | leave => rfl

end

namespace Overlapping

variable [DecidableEq υ] {s : State υ}

omit [DecidableEq υ] in
/-- The task of a cleanup under way takes no step meanwhile. -/
theorem task_ne {c : Cleanup υ} (hclosing : s.queues.tasks c.task = .closing c.name)
    {l : Queue.Label υ} (hen : enabled s (.step l)) : l.task? ≠ some c.task := by
  intro htask
  obtain ⟨hen, hallows⟩ := hen
  cases l with
  | create a n q =>
      obtain rfl : q = c.task := Option.some.inj htask
      have hnew := hen.2.2
      rw [hclosing] at hnew
      exact absurd hnew (by simp)
  | pop q n a | resolved q n a | closed q n =>
      obtain rfl : q = c.task := Option.some.inj htask
      have hstill := hen.1
      rw [hclosing] at hstill
      exact absurd hstill (by simp)
  | cleanup q n => exact hallows
  | connect | upgrade | lockSender | sent | accept | reject | error | penaltyOver | yielded
  | dropQueue | dropComplete | leave => exact absurd htask (by simp [Queue.Label.task?])

/-- The finer machine is a refinement, with the cleanup at its look-up. -/
theorem settled_reachable (hs : machine.Reachable s) :
    Queue.machine.Reachable s.settled ∧
      ∀ c, s.cleanup = some c → s.queues.tasks c.task = .closing c.name := by
  refine hs.invariant (I := fun s => Queue.machine.Reachable s.settled ∧
    ∀ c, s.cleanup = some c → s.queues.tasks c.task = .closing c.name) ?_ ?_
  · exact ⟨.init, fun c hc => absurd hc (by simp [machine, init])⟩
  · intro s l _ ⟨hsettled, hclosing⟩ hen _
    cases l with
    | step l =>
        cases hc : s.cleanup with
        | none =>
            simp only [State.settled, hc] at hsettled
            refine ⟨?_, fun c hcl => absurd hcl (by simp [machine, next, hc])⟩
            simp only [machine, next, State.settled, hc]
            exact hsettled.step hen.1 trivial
        | some c =>
            have hne := task_ne (hclosing c hc) hen
            simp only [State.settled, hc] at hsettled
            have hstep := hsettled.step (l := l) (enabled_setTask hne hen.1) trivial
            simp only [Queue.machine, next_setTask hne] at hstep
            refine ⟨?_, ?_⟩
            · simp only [machine, next, State.settled, hc]
              exact hstep
            · intro c' hc'
              obtain rfl : c = c' := by simpa [machine, next, hc] using hc'
              have hsame : (Queue.next s.queues l).tasks c.task = s.queues.tasks c.task := by
                cases l with
                | create a n q | pop q n a | resolved q n a | closed q n =>
                    have hq : c.task ≠ q := fun hq => hne (congrArg some hq.symm)
                    exact Function.update_of_ne hq ..
                | cleanup q n => exact absurd hen.2 id
                | connect | upgrade | lockSender | sent | accept | reject | error
                | penaltyOver | yielded | dropQueue | dropComplete | leave => rfl
              exact hsame.trans (hclosing c hc)
    | lookUp q n =>
        have hc := hen.2
        simp only [State.settled, hc] at hsettled
        have hen' : Queue.machine.enabled s.queues (.cleanup q n) := hen.1
        have hstep := hsettled.step hen' trivial
        by_cases hdead : s.queues.dead n
        · simp only [Queue.machine, Queue.next, if_pos hdead] at hstep
          simp only [machine, next, if_pos hdead]
          refine ⟨hstep, ?_⟩
          rintro c hc'
          obtain rfl := Option.some.inj hc'
          exact hen.1
        · simp only [Queue.machine, Queue.next, if_neg hdead] at hstep
          simp only [machine, next, if_neg hdead]
          refine ⟨hstep, ?_⟩
          rintro c hc'
          obtain rfl := Option.some.inj hc'
          exact hen.1
    | release c =>
        have hc : s.cleanup = some c := hen
        simp only [State.settled, hc] at hsettled
        exact ⟨hsettled, fun c' hc' => absurd hc' (by simp [machine, next])⟩

end Overlapping

/-! ## What is listed -/

section

variable [DecidableEq υ] {s : State υ}

/-- The task of every queue that is listed is still to clean up. -/
def Listed (s : State υ) : Prop :=
  ∀ n q, s.authenticateQueues n = some q → (s.tasks q) ≠ .ended n

omit [DecidableEq υ] in
/-- A task that closes its queue has nobody to keep it. -/
theorem Inv.owners_of_closing (h : Inv s) {q : QueueId} {n : υ}
    (htask : s.tasks q = .closing n) : s.owners q = ∅ := by
  rw [Finset.eq_empty_iff_forall_notMem]
  intro a ha
  have hreading := h.reading_of_mem ha
  rw [htask] at hreading
  exact absurd hreading (by simp [QueueTask.reading])

/-- The queue that a task was spawned for is not listed once it has cleaned up. -/
theorem Listed.next {l : Label υ} (hlisted : Listed s) (h : Inv s) (hen : enabled s l) :
    Listed (next s l) := by
  cases l with
  | create a n q =>
      intro m q' hm
      by_cases hmn : m = n
      · subst hmn
        obtain rfl : q = q' := by simpa [Queue.next, State.setTask] using hm
        simp [Queue.next, State.setTask]
      · have hm' : s.authenticateQueues m = some q' := by
          simpa [Queue.next, Function.update_of_ne hmn] using hm
        have hq : q' ≠ q := by
          intro hq
          have hname := h.name m q' hm'
          rw [hq, hen.2.2] at hname
          exact absurd hname (by simp [QueueTask.name?])
        simpa [Queue.next, State.setTask, State.setAttempt, Function.update_of_ne hq] using
          hlisted m q' hm'
  | pop q n a | resolved q n a | closed q n =>
      intro m q' hm
      by_cases hq : q' = q
      · subst hq
        simp [Queue.next, State.setTask]
      · simpa [Queue.next, State.setTask, Function.update_of_ne hq] using hlisted m q' hm
  | cleanup q n =>
      have htask : s.tasks q = .closing n := hen
      have hname : ∀ m, s.authenticateQueues m = some q → m = n := by
        intro m hm
        have hname := h.name m q hm
        rw [htask] at hname
        exact (Option.some.inj hname).symm
      by_cases hdead : s.dead n
      · simp only [Queue.next, if_pos hdead]
        intro m q' hm
        by_cases hmn : m = n
        · subst hmn
          exact absurd hm (by simp)
        · have hm' : s.authenticateQueues m = some q' := by
            simpa [Function.update_of_ne hmn] using hm
          have hq : q' ≠ q := fun hq => hmn (hname m (hq ▸ hm'))
          simpa [State.setTask, Function.update_of_ne hq] using hlisted m q' hm'
      · simp only [Queue.next, if_neg hdead]
        intro m q' hm
        have hq : q' ≠ q := by
          rintro rfl
          -- Its own queue is dead, and so is whatever it is listed as.
          obtain rfl := hname m hm
          refine hdead fun k hk => ?_
          obtain rfl : q' = k := Option.some.inj (hm.symm.trans hk)
          exact h.owners_of_closing htask
        simpa [State.setTask, Function.update_of_ne hq] using hlisted m q' hm
  | connect | upgrade | lockSender | sent | accept | reject | error | penaltyOver | yielded
  | dropQueue | dropComplete | leave => exact hlisted

theorem reachable_listed (hs : machine.Reachable s) : Listed s :=
  hs.invariant (I := Listed) (fun n q h => absurd h (by simp [machine, init]))
    fun _ _ hr hlisted hen _ => hlisted.next (reachable_inv hr) hen

/-- Every queue task has run to its end. -/
def State.TasksEnded (s : State υ) : Prop :=
  ∀ q, s.tasks q = .absent ∨ ∃ n, s.tasks q = .ended n

omit [DecidableEq υ] in
/-- What is listed is the work of a task that has not ended. -/
theorem empty_of_ended (h : Inv s) (hlisted : Listed s) (hended : s.TasksEnded) (n : υ) :
    s.authenticateQueues n = none := by
  cases hq : s.authenticateQueues n with
  | none => rfl
  | some q =>
      have hname := h.name n q hq
      rcases hended q with habsent | ⟨m, hm⟩
      · rw [habsent] at hname
        exact absurd hname (by simp [QueueTask.name?])
      · rw [hm] at hname
        obtain rfl : m = n := Option.some.inj hname
        exact absurd hm (hlisted m q hq)

end

/-! ## What is left in the map -/

namespace Overlapping

variable [DecidableEq υ] {s : State υ}

/-- The entry of a queue stays as long as somebody keeps the queue, and when
everybody is gone and every task has cleaned up there is no entry left. -/
theorem queues_kept (hs : machine.Reachable s) :
    (∀ a n q, (s.queues.attempts a).queue? = some (n, q) →
      s.queues.authenticateQueues n = some q) ∧
    ((∀ a, (s.queues.attempts a).inProgress? = none) → s.queues.TasksEnded →
      ∀ n, s.queues.authenticateQueues n = none) := by
  obtain ⟨hsettled, hclosing⟩ := settled_reachable hs
  have hinv := reachable_inv hsettled
  have hlisted := reachable_listed hsettled
  cases hc : s.cleanup with
  | none =>
      simp only [State.settled, hc] at hinv hlisted
      exact ⟨hinv.map, fun _ hended n => empty_of_ended hinv hlisted hended n⟩
  | some c =>
      simp only [State.settled, hc] at hinv
      refine ⟨hinv.map, fun _ hended => ?_⟩
      -- A cleanup is under way, so its task has not ended.
      have htask := hclosing c hc
      rcases hended c.task with habsent | ⟨n, hn⟩
      · rw [habsent] at htask
        exact absurd htask (by simp)
      · rw [hn] at htask
        exact absurd htask (by simp)

/-- The task of a dead queue finds the queue of attempt 1, and keeps it alive
for longer than the attempt does. -/
def overlapRun : List (Label String) :=
  [.step (.connect 0 "root"), .step (.create 0 "root" 0), .step (.lockSender 0 "root" 0),
    .step (.pop 0 "root" 0), .step (.sent 0 "root" 0), .step (.error 0 "root" 0),
    .step (.dropQueue 0 "root" 0), .step (.dropComplete 0 "root"), .step (.resolved 0 "root" 0),
    .step (.closed 0 "root"), .step (.connect 1 "root"), .step (.create 1 "root" 1),
    .step (.lockSender 1 "root" 1), .step (.pop 1 "root" 1), .step (.sent 1 "root" 1),
    .step (.error 1 "root" 1), .lookUp 0 "root", .step (.dropQueue 1 "root" 1),
    .step (.dropComplete 1 "root"), .step (.resolved 1 "root" 1), .release ⟨0, "root", some 1⟩,
    .step (.closed 1 "root"), .lookUp 1 "root", .release ⟨1, "root", none⟩]

theorem queues_kept_overlap :
    (overlapRun.foldl next init).queues.authenticateQueues "root" = none := by
  refine (queues_kept (Machine.reaches_of_path (M := machine) (by decide))).2 ?_ ?_ "root"
  · intro a
    match a with
    | 0 | 1 => rfl
    | a + 2 => rfl
  · intro q
    match q with
    | 0 | 1 => exact .inr ⟨"root", rfl⟩
    | q + 2 => exact .inl rfl

end Overlapping

end WebSshTool.SignIn.Queue
