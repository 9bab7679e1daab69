import WebSshTool.SignIn.Queue

/-!
# A queue lets one attempt through at a time

The owners of a queue keep its entry in `authenticate_queues` alive, so all
attempts that keep a queue for one username keep the same one, and its task
has taken the receiver of whoever is between the start of
`authenticate_password` and the release of its queue. `Inv` says this of a
state, `next_inv` that every step keeps it.

The span ends where the attempt lets go of its queue and not where its sender
`complete_authenticate` goes: on an error the `Arc` is dropped first, and an
attempt that comes in between finds a dead pointer, makes a new queue and is
let through by the new queue's task.
-/

namespace WebSshTool.SignIn.Queue

variable {υ : Type*}

/-! ## The invariant -/

theorem Attempt.queue?_of_served? {p : Attempt υ} {x : υ × QueueId}
    (h : p.served? = some x) : p.queue? = some x := by
  cases p <;> simp_all [Attempt.served?, Attempt.queue?]

/-- The attempt has a clone of the queue's `Arc`. -/
def Attempt.keeps (p : Attempt υ) (q : QueueId) : Bool :=
  match p.queue? with
  | some (_, q') => q' == q
  | none => false

/-- The attempt has locked the queue's sender. -/
def Attempt.sends : Attempt υ → QueueId → Bool
  | .sending _ q', q => q' == q
  | _, _ => false

/-- Without a queue an attempt has no sender either. -/
theorem Attempt.sends_of_queue? {p : Attempt υ} (hq : p.queue? = none) (q : QueueId) :
    p.sends q = false := by
  cases p with
  | sending => cases hq
  | _ => rfl

theorem Attempt.served_of_queue? {p : Attempt υ} (hq : p.queue? = none) : p.served? = none := by
  cases p with
  | authenticating | penalized | yielding | returning => cases hq
  | _ => rfl

/-- How attempts, queues and queue tasks hang together. -/
structure Inv (s : State υ) : Prop where
  map : ∀ a n q, (s.attempts a).queue? = some (n, q) →
    s.authenticateQueues n = some q
  owner : ∀ a q, a ∈ s.owners q ↔ (s.attempts a).keeps q = true
  name : ∀ n q, s.authenticateQueues n = some q → (s.tasks q).name? = some n
  reading : ∀ a n q, (s.attempts a).queue? = some (n, q) →
    (s.tasks q).reading = true
  sender : ∀ a q, s.senders q = some a ↔ (s.attempts a).sends q = true
  slot : ∀ a q, s.slots q = some a → s.senders q = some a
  /-- A receiver that was sent is in the channel or with the task. -/
  handed : ∀ a n q, s.attempts a = .sending n q →
    s.slots q = some a ∨ s.tasks q = .awaiting n a
  served : ∀ a n q, (s.attempts a).served? = some (n, q) →
    s.tasks q = .awaiting n a
  /-- The task waits for someone who is on the way to completing. -/
  awaited : ∀ a n q, s.tasks q = .awaiting n a →
    (s.attempts a).completed = true ∨ (s.attempts a).served? = some (n, q) ∨
      s.attempts a = .dropping n ∨
      (s.attempts a = .sending n q ∧ s.slots q ≠ some a)

theorem init_inv : Inv (init (υ := υ)) := by
  constructor <;> simp [init, Attempt.keeps, Attempt.sends, Attempt.queue?,
    Attempt.served?]

theorem Inv.not_queue_of_not_mem {s : State υ} (h : Inv s) {a : AttemptId}
    {q : QueueId} (ha : a ∉ s.owners q) (n : υ) :
    (s.attempts a).queue? ≠ some (n, q) := by
  intro hq
  exact ha ((h.owner a q).mpr (by simp [Attempt.keeps, hq]))

/-- The task of a queue that somebody keeps still reads. -/
theorem Inv.reading_of_mem {s : State υ} (h : Inv s) {a : AttemptId} {q : QueueId}
    (ha : a ∈ s.owners q) : (s.tasks q).reading = true := by
  have hkeeps := (h.owner a q).mp ha
  cases hq : (s.attempts a).queue? with
  | none => simp [Attempt.keeps, hq] at hkeeps
  | some x =>
      obtain rfl : x.2 = q := by simpa [Attempt.keeps, hq] using hkeeps
      exact h.reading a x.1 x.2 hq

theorem Attempt.sending_of_sends {p : Attempt υ} {q : QueueId}
    (h : p.sends q = true) : ∃ n, p = .sending n q := by
  cases p with
  | sending n q' => exact ⟨n, by rw [show q' = q by simpa [Attempt.sends] using h]⟩
  | _ => simp [Attempt.sends] at h

/-- Whoever has locked the sender of a queue is there under its task's name. -/
theorem Inv.sending {s : State υ} (h : Inv s) {a : AttemptId} {n : υ} {q : QueueId}
    (hs : s.senders q = some a) (hn : (s.tasks q).name? = some n) :
    s.attempts a = .sending n q := by
  obtain ⟨m, hm⟩ := Attempt.sending_of_sends ((h.sender a q).mp hs)
  have hq := h.name m q (h.map a m q (by simp [hm, Attempt.queue?]))
  obtain rfl : n = m := by simpa [hn] using hq
  exact hm

/-! ## The moves of an attempt -/

theorem setAttempt_self (s : State υ) (a : AttemptId) (p : Attempt υ) :
    (s.setAttempt a p).attempts a = p := by
  simp only [State.setAttempt, Function.update_self]

theorem setAttempt_of_ne (s : State υ) {a b : AttemptId} (hb : b ≠ a) (p : Attempt υ) :
    (s.setAttempt a p).attempts b = s.attempts b := by
  simp only [State.setAttempt, Function.update_of_ne hb]

/-- What `Inv` says of one attempt. -/
structure InvAt (s : State υ) (a : AttemptId) : Prop where
  map : ∀ n q, (s.attempts a).queue? = some (n, q) → s.authenticateQueues n = some q
  owner : ∀ q, a ∈ s.owners q ↔ (s.attempts a).keeps q = true
  reading : ∀ n q, (s.attempts a).queue? = some (n, q) → (s.tasks q).reading = true
  sender : ∀ q, s.senders q = some a ↔ (s.attempts a).sends q = true
  slot : ∀ q, s.slots q = some a → s.senders q = some a
  handed : ∀ n q, s.attempts a = .sending n q →
    s.slots q = some a ∨ s.tasks q = .awaiting n a
  served : ∀ n q, (s.attempts a).served? = some (n, q) → s.tasks q = .awaiting n a
  awaited : ∀ n q, s.tasks q = .awaiting n a →
    (s.attempts a).completed = true ∨ (s.attempts a).served? = some (n, q) ∨
      s.attempts a = .dropping n ∨ (s.attempts a = .sending n q ∧ s.slots q ≠ some a)

/-- Only attempt `a` moves, and the queues are as they were for everybody else. -/
structure Frame (s s' : State υ) (a : AttemptId) : Prop where
  queues : s'.authenticateQueues = s.authenticateQueues
  tasks : s'.tasks = s.tasks
  attempts : ∀ b, b ≠ a → s'.attempts b = s.attempts b
  owners : ∀ b q, b ≠ a → (b ∈ s'.owners q ↔ b ∈ s.owners q)
  senders : ∀ b q, b ≠ a → (s'.senders q = some b ↔ s.senders q = some b)
  slots : ∀ b q, b ≠ a → (s'.slots q = some b ↔ s.slots q = some b)

theorem Inv.at {s : State υ} (h : Inv s) (a : AttemptId) : InvAt s a where
  map := h.map a
  owner := h.owner a
  reading := h.reading a
  sender := h.sender a
  slot := h.slot a
  handed := h.handed a
  served := h.served a
  awaited := h.awaited a

theorem InvAt.frame {s s' : State υ} {a b : AttemptId} (h : InvAt s b) (hf : Frame s s' a)
    (hb : b ≠ a) : InvAt s' b where
  map := by
    rw [hf.attempts b hb, hf.queues]
    exact h.map
  owner q := by
    rw [hf.attempts b hb, hf.owners b q hb]
    exact h.owner q
  reading := by
    rw [hf.attempts b hb, hf.tasks]
    exact h.reading
  sender q := by
    rw [hf.attempts b hb, hf.senders b q hb]
    exact h.sender q
  slot q := by
    rw [hf.slots b q hb, hf.senders b q hb]
    exact h.slot q
  handed n q := by
    rw [hf.attempts b hb, hf.tasks, hf.slots b q hb]
    exact h.handed n q
  served := by
    rw [hf.attempts b hb, hf.tasks]
    exact h.served
  awaited n q := by
    rw [hf.attempts b hb, hf.tasks, ne_eq, hf.slots b q hb]
    exact h.awaited n q

/-- A move keeps the invariant when it keeps what is said of the one who moves. -/
theorem Inv.frame {s s' : State υ} {a : AttemptId} (h : Inv s) (hf : Frame s s' a)
    (ha : InvAt s' a) : Inv s' := by
  have hat : ∀ b, InvAt s' b := by
    intro b
    by_cases hb : b = a
    · rw [hb]
      exact ha
    · exact (h.at b).frame hf hb
  exact
    { map := fun b => (hat b).map
      owner := fun b => (hat b).owner
      name := by
        rw [hf.queues, hf.tasks]
        exact h.name
      reading := fun b => (hat b).reading
      sender := fun b => (hat b).sender
      slot := fun b => (hat b).slot
      handed := fun b => (hat b).handed
      served := fun b => (hat b).served
      awaited := fun b => (hat b).awaited }

/-- An attempt that keeps its queue and neither takes nor gives back the
sender; what its queue's task waits for stays on the way. -/
theorem Inv.setAttempt {s : State υ} (h : Inv s) {a : AttemptId}
    {p p' : Attempt υ} (hp : s.attempts a = p) (hq : p'.queue? = p.queue?)
    (hsp : ∀ q, p.sends q = false) (hsp' : ∀ q, p'.sends q = false)
    (hs : ∀ n q, p'.served? = some (n, q) → p.served? = some (n, q))
    (hc : ∀ n q, p.completed = true ∨ p.served? = some (n, q) ∨ p = .dropping n →
      p'.completed = true ∨ p'.served? = some (n, q) ∨ p' = .dropping n) :
    Inv (s.setAttempt a p') := by
  subst hp
  have hself : (s.setAttempt a p').attempts a = p' := setAttempt_self s a p'
  have hkeeps : ∀ q, p'.keeps q = (s.attempts a).keeps q := by
    intro q
    rw [Attempt.keeps, Attempt.keeps, hq]
  refine h.frame ⟨rfl, rfl, fun b hb => setAttempt_of_ne s hb p',
    fun _ _ _ => Iff.rfl, fun _ _ _ => Iff.rfl, fun _ _ _ => Iff.rfl⟩ ?_
  constructor <;> try rw [hself]
  · rw [hq]
    exact h.map a
  · intro q
    rw [hkeeps]
    exact h.owner a q
  · rw [hq]
    exact h.reading a
  · intro q
    rw [hsp', ← hsp q]
    exact h.sender a q
  · exact h.slot a
  · intro n q hn
    have := hsp' q
    simp [hn, Attempt.sends] at this
  · exact fun n q hn => h.served a n q (hs n q hn)
  · intro n q hn
    rcases h.awaited a n q hn with h' | h' | h' | ⟨h', -⟩
    · exact (hc n q (.inl h')).imp_right (.imp_right .inl)
    · exact (hc n q (.inr (.inl h'))).imp_right (.imp_right .inl)
    · exact (hc n q (.inr (.inr h'))).imp_right (.imp_right .inl)
    · have := hsp q
      simp [h', Attempt.sends] at this

/-- An attempt that has no queue gets a share in one that is there and read. -/
theorem Inv.join {s : State υ} (h : Inv s) {a : AttemptId} {n : υ} {q : QueueId}
    (ha : s.attempts a = .connected n) (hq : s.authenticateQueues n = some q)
    (hreading : (s.tasks q).reading = true) :
    Inv { s.setAttempt a (.queued n q) with
      owners := Function.update s.owners q (insert a (s.owners q)) } := by
  have hself : (s.setAttempt a (.queued n q)).attempts a = .queued n q :=
    setAttempt_self s a _
  have hout : ∀ q', a ∉ s.owners q' := by
    intro q' hmem
    have := (h.owner a q').mp hmem
    simp [ha, Attempt.keeps, Attempt.queue?] at this
  refine h.frame ⟨rfl, rfl, fun b hb => setAttempt_of_ne s hb _,
    fun b q' hb => ?_, fun _ _ _ => Iff.rfl, fun _ _ _ => Iff.rfl⟩ ?_
  · rcases eq_or_ne q' q with rfl | hne
    · simp [hb]
    · simp [Function.update_of_ne hne]
  constructor <;> simp only [hself, Attempt.queue?, Attempt.keeps, Attempt.sends,
    Attempt.served?, Attempt.completed]
  · rintro m q' hm
    obtain ⟨rfl, rfl⟩ : n = m ∧ q = q' := by simpa using hm
    exact hq
  · intro q'
    rcases eq_or_ne q' q with rfl | hne
    · simp
    · simp [Function.update_of_ne hne, hout q', Ne.symm hne]
  · intro m q' hm
    obtain ⟨rfl, rfl⟩ : n = m ∧ q = q' := by simpa using hm
    exact hreading
  · intro q'
    have := h.sender a q'
    simpa [ha, Attempt.sends, State.setAttempt] using this
  · exact h.slot a
  · simp
  · simp
  · intro m q' hm
    have := h.awaited a m q' hm
    simp [ha, Attempt.completed, Attempt.served?] at this

/-- Nobody else is at the sender of the queue. -/
theorem Inv.lockSender {s : State υ} (h : Inv s) {a : AttemptId} {n : υ} {q : QueueId}
    (ha : s.attempts a = .queued n q) (hfree : s.senders q = none) :
    Inv { s.setAttempt a (.sending n q) with
      senders := Function.update s.senders q (some a)
      slots := Function.update s.slots q (some a) } := by
  have hself : (s.setAttempt a (.sending n q)).attempts a = .sending n q :=
    setAttempt_self s a _
  have hnone : ∀ b, s.slots q ≠ some b := by
    intro b hb
    rw [h.slot b q hb] at hfree
    simp at hfree
  refine h.frame ⟨rfl, rfl, fun b hb => setAttempt_of_ne s hb _, fun _ _ _ => Iff.rfl,
    fun b q' hb => ?_, fun b q' hb => ?_⟩ ?_
  · rcases eq_or_ne q' q with rfl | hne
    · simp [hfree, Ne.symm hb]
    · simp [Function.update_of_ne hne]
  · rcases eq_or_ne q' q with rfl | hne
    · simp [hnone, Ne.symm hb]
    · simp [Function.update_of_ne hne]
  have hother : ∀ q', q' ≠ q → s.senders q' ≠ some a := by
    intro q' _ hs
    have := (h.sender a q').mp hs
    simp [ha, Attempt.sends] at this
  constructor <;> simp only [hself, Attempt.queue?, Attempt.keeps, Attempt.sends,
    Attempt.served?, Attempt.completed]
  · have := h.map a
    simpa [ha, Attempt.queue?, State.setAttempt] using this
  · intro q'
    have := h.owner a q'
    simpa [ha, Attempt.keeps, Attempt.queue?, State.setAttempt] using this
  · have := h.reading a
    simpa [ha, Attempt.queue?, State.setAttempt] using this
  · intro q'
    rcases eq_or_ne q' q with rfl | hne
    · simp
    · simp [Function.update_of_ne hne, hother q' hne, Ne.symm hne]
  · intro q' hs
    rcases eq_or_ne q' q with rfl | hne
    · simp
    · rw [Function.update_of_ne hne] at hs ⊢
      exact h.slot a q' hs
  · intro m q' hm
    obtain ⟨rfl, rfl⟩ : n = m ∧ q = q' := by simpa using hm
    simp
  · simp
  · intro m q' hm
    have := h.awaited a m q' hm
    simp [ha, Attempt.completed, Attempt.served?] at this

/-- The receiver is with the task when the send completes, so the attempt is the one
the task waits for. -/
theorem Inv.sent {s : State υ} (h : Inv s) {a : AttemptId} {n : υ} {q : QueueId}
    (ha : s.attempts a = .sending n q) (htaken : s.slots q ≠ some a) :
    Inv { s.setAttempt a (.authenticating n q) with
      senders := Function.update s.senders q none } := by
  have hself : (s.setAttempt a (.authenticating n q)).attempts a = .authenticating n q :=
    setAttempt_self s a _
  have hsender : s.senders q = some a := (h.sender a q).mpr (by simp [ha, Attempt.sends])
  have htask : s.tasks q = .awaiting n a := (h.handed a n q ha).resolve_left htaken
  have hother : ∀ q', q' ≠ q → s.senders q' ≠ some a := by
    intro q' hne hs
    have := (h.sender a q').mp hs
    simp [ha, Attempt.sends, Ne.symm hne] at this
  refine h.frame ⟨rfl, rfl, fun b hb => setAttempt_of_ne s hb _, fun _ _ _ => Iff.rfl,
    fun b q' hb => ?_, fun _ _ _ => Iff.rfl⟩ ?_
  · rcases eq_or_ne q' q with rfl | hne
    · simp [hsender, Ne.symm hb]
    · simp [Function.update_of_ne hne]
  constructor <;> simp only [hself, Attempt.queue?, Attempt.keeps, Attempt.sends,
    Attempt.served?, Attempt.completed]
  · have := h.map a
    simpa [ha, Attempt.queue?, State.setAttempt] using this
  · intro q'
    have := h.owner a q'
    simpa [ha, Attempt.keeps, Attempt.queue?, State.setAttempt] using this
  · have := h.reading a
    simpa [ha, Attempt.queue?, State.setAttempt] using this
  · intro q'
    rcases eq_or_ne q' q with rfl | hne
    · simp
    · simp [Function.update_of_ne hne, hother q' hne]
  · intro q' hs
    have hne : q' ≠ q := by
      rintro rfl
      exact htaken hs
    rw [Function.update_of_ne hne]
    exact h.slot a q' hs
  · simp
  · intro m q' hm
    obtain ⟨rfl, rfl⟩ : n = m ∧ q = q' := by simpa using hm
    exact htask
  · intro m q' hm
    have hstill := h.awaited a m q' hm
    simp only [ha, Attempt.completed, Attempt.served?, Attempt.sending.injEq] at hstill
    obtain ⟨⟨rfl, rfl⟩, -⟩ : (n = m ∧ q = q') ∧ s.slots q' ≠ some a := by simpa using hstill
    simp

/-- An attempt lets go of its queue, having completed or on the way to it. -/
theorem Inv.part {s : State υ} (h : Inv s) {a : AttemptId} {n : υ} {q : QueueId}
    {p p' : Attempt υ} (hp : s.attempts a = p) (hq : p.queue? = some (n, q))
    (hq' : p'.queue? = none) (hsends : ∀ q, p.sends q = false)
    (hc : ∀ m q', p.completed = true ∨ p.served? = some (m, q') ∨ p = .dropping m →
      p'.completed = true ∨ p' = .dropping m) :
    Inv { s.setAttempt a p' with
      owners := Function.update s.owners q ((s.owners q).erase a) } := by
  subst hp
  have hself : (s.setAttempt a p').attempts a = p' := setAttempt_self s a p'
  refine h.frame ⟨rfl, rfl, fun b hb => setAttempt_of_ne s hb _, fun b q' hb => ?_,
    fun _ _ _ => Iff.rfl, fun _ _ _ => Iff.rfl⟩ ?_
  · rcases eq_or_ne q' q with rfl | hne
    · simp [hb]
    · simp [Function.update_of_ne hne]
  have hnot := Attempt.sends_of_queue? hq'
  have hserved := Attempt.served_of_queue? hq'
  constructor <;> simp only [hself, hq', hnot, hserved, Attempt.keeps]
  · simp
  · intro q'
    rcases eq_or_ne q' q with rfl | hne
    · simp
    · have := h.owner a q'
      simpa [Function.update_of_ne hne, Attempt.keeps, hq, Ne.symm hne] using this
  · simp
  · intro q'
    have := h.sender a q'
    simpa [hsends, State.setAttempt] using this
  · exact h.slot a
  · intro m q' hm
    rw [hm] at hq'
    simp [Attempt.queue?] at hq'
  · simp
  · intro m q' hm
    rcases h.awaited a m q' hm with h' | h' | h' | ⟨h', -⟩
    · exact (hc m q' (.inl h')).imp_right fun hd => .inr (.inl hd)
    · exact (hc m q' (.inr (.inl h'))).imp_right fun hd => .inr (.inl hd)
    · exact (hc m q' (.inr (.inr h'))).imp_right fun hd => .inr (.inl hd)
    · have := hsends q'
      simp [h', Attempt.sends] at this

/-! ## The moves of a task -/

/-- The task of queue `q` moves and nothing else does. -/
theorem Inv.putTask {s : State υ} (h : Inv s) {q : QueueId} {t' : QueueTask υ}
    (hn : ∀ n, s.authenticateQueues n = some q → t'.name? = some n)
    (hr : ∀ a n, (s.attempts a).queue? = some (n, q) → t'.reading = true)
    (hh : ∀ a n, s.attempts a = .sending n q → s.slots q = some a ∨ t' = .awaiting n a)
    (hs : ∀ a n, (s.attempts a).served? = some (n, q) → t' = .awaiting n a)
    (ha : ∀ a n, t' ≠ .awaiting n a) : Inv (s.setTask q t') := by
  constructor <;> simp only [State.setTask]
  · exact h.map
  · exact h.owner
  · intro n q' hq
    rcases eq_or_ne q' q with rfl | hne
    · rw [Function.update_self]
      exact hn n hq
    · rw [Function.update_of_ne hne]
      exact h.name n q' hq
  · intro a n q' hq
    rcases eq_or_ne q' q with rfl | hne
    · rw [Function.update_self]
      exact hr a n hq
    · rw [Function.update_of_ne hne]
      exact h.reading a n q' hq
  · exact h.sender
  · exact h.slot
  · intro a n q' hq
    rcases eq_or_ne q' q with rfl | hne
    · rw [Function.update_self]
      exact hh a n hq
    · rw [Function.update_of_ne hne]
      exact h.handed a n q' hq
  · intro a n q' hq
    rcases eq_or_ne q' q with rfl | hne
    · rw [Function.update_self]
      exact hs a n hq
    · rw [Function.update_of_ne hne]
      exact h.served a n q' hq
  · intro a n q' hq
    rcases eq_or_ne q' q with rfl | hne
    · rw [Function.update_self] at hq
      exact absurd hq (ha a n)
    · rw [Function.update_of_ne hne] at hq
      exact h.awaited a n q' hq

/-- A task moves on under its name. -/
theorem Inv.setTask {s : State υ} (h : Inv s) {q : QueueId} {t t' : QueueTask υ}
    (ht : s.tasks q = t) (hn : t'.name? = t.name?)
    (hr : ∀ a n, (s.attempts a).queue? = some (n, q) → t'.reading = true)
    (hh : ∀ a n, s.attempts a = .sending n q → s.slots q = some a ∨ t' = .awaiting n a)
    (hs : ∀ a n, (s.attempts a).served? = some (n, q) → t' = .awaiting n a)
    (ha : ∀ a n, t' ≠ .awaiting n a) : Inv (s.setTask q t') := by
  refine h.putTask (fun n hq => ?_) hr hh hs ha
  rw [hn, ← ht]
  exact h.name n q hq

/-- Who is served under a username is alone there. -/
theorem Inv.served_unique {s : State υ} (h : Inv s) {a b : AttemptId} {n : υ}
    {q q' : QueueId} (ha : (s.attempts a).served? = some (n, q))
    (hb : (s.attempts b).served? = some (n, q')) : a = b := by
  have hqa := h.map a n q (Attempt.queue?_of_served? ha)
  have hqb := h.map b n q' (Attempt.queue?_of_served? hb)
  obtain rfl : q = q' := by simpa [hqa] using hqb
  have htask := h.served b n q hb
  rw [h.served a n q ha] at htask
  exact (QueueTask.awaiting.inj htask).2

/-- While someone is served, no send under the same username completes. -/
theorem Inv.not_sent_of_served {s : State υ} (h : Inv s) {a b : AttemptId} {n : υ}
    {q q' : QueueId} (ha : (s.attempts a).served? = some (n, q)) :
    ¬ enabled s (.sent b n q') := by
  rintro ⟨hb, hslot⟩
  have hqa := h.map a n q (Attempt.queue?_of_served? ha)
  have hqb := h.map b n q' (by rw [hb]; rfl)
  obtain rfl : q = q' := by simpa [hqa] using hqb
  have htask := (h.handed b n q hb).resolve_left hslot
  rw [h.served a n q ha] at htask
  obtain rfl : a = b := (QueueTask.awaiting.inj htask).2
  simp [hb, Attempt.served?] at ha

/-- The task takes the receiver of whoever is sending. -/
theorem Inv.pop {s : State υ} (h : Inv s) {a : AttemptId} {n : υ} {q : QueueId}
    (htask : s.tasks q = .receiving n) (hslot : s.slots q = some a) :
    Inv { s.setTask q (.awaiting n a) with slots := Function.update s.slots q none } := by
  have hsending : s.attempts a = .sending n q :=
    h.sending (h.slot a q hslot) (by rw [htask]; rfl)
  have hlast : ∀ b m, s.attempts b = .sending m q → b = a ∧ m = n := by
    intro b m hb
    have hsender := (h.sender b q).mpr (by simp [hb, Attempt.sends])
    obtain rfl : a = b := by simpa [h.slot a q hslot] using hsender
    obtain ⟨rfl, -⟩ := Attempt.sending.inj (hsending.symm.trans hb)
    exact ⟨rfl, rfl⟩
  constructor <;> simp only [State.setTask]
  · exact h.map
  · exact h.owner
  · intro m q' hm
    rcases eq_or_ne q' q with rfl | hne
    · have := h.name m q' hm
      simpa [htask, QueueTask.name?] using this
    · rw [Function.update_of_ne hne]
      exact h.name m q' hm
  · intro b m q' hb
    rcases eq_or_ne q' q with rfl | hne
    · simp [QueueTask.reading]
    · rw [Function.update_of_ne hne]
      exact h.reading b m q' hb
  · exact h.sender
  · intro b q' hb
    rcases eq_or_ne q' q with rfl | hne
    · simp at hb
    · rw [Function.update_of_ne hne] at hb
      exact h.slot b q' hb
  · intro b m q' hb
    rcases eq_or_ne q' q with rfl | hne
    · obtain ⟨rfl, rfl⟩ := hlast b m hb
      simp
    · rw [Function.update_of_ne hne, Function.update_of_ne hne]
      exact h.handed b m q' hb
  · intro b m q' hb
    rcases eq_or_ne q' q with rfl | hne
    · have := h.served b m q' hb
      simp [htask] at this
    · rw [Function.update_of_ne hne]
      exact h.served b m q' hb
  · intro b m q' hb
    rcases eq_or_ne q' q with rfl | hne
    · obtain ⟨rfl, rfl⟩ : n = m ∧ a = b := by simpa using hb
      exact .inr (.inr (.inr ⟨hsending, by simp⟩))
    · rw [Function.update_of_ne hne] at hb ⊢
      exact h.awaited b m q' hb

section

variable [DecidableEq υ]

/-- The entry of a username nobody keeps a queue for may go. -/
theorem Inv.forget {s : State υ} (h : Inv s) {n : υ}
    (hn : ∀ a q, (s.attempts a).queue? ≠ some (n, q)) :
    Inv { s with authenticateQueues := Function.update s.authenticateQueues n none } := by
  refine { h with map := ?_, name := ?_ }
  · intro a m q hq
    have hm : m ≠ n := by
      rintro rfl
      exact hn a q hq
    exact (Function.update_of_ne hm _ _).trans (h.map a m q hq)
  · intro m q hq
    rcases eq_or_ne m n with rfl | hm
    · simp at hq
    · exact h.name m q ((Function.update_of_ne hm _ _).symm.trans hq)

/-- A username whose queue nobody keeps gets a new one, and its task is started. -/
theorem Inv.create {s : State υ} (h : Inv s) {n : υ} {q : QueueId}
    (hn : ∀ a q, (s.attempts a).queue? ≠ some (n, q)) (hq : s.tasks q = .absent) :
    Inv { s.setTask q (.receiving n) with
      authenticateQueues := Function.update s.authenticateQueues n (some q) } := by
  have hnobody : ∀ b m, (s.attempts b).queue? ≠ some (m, q) := by
    intro b m hb
    have := h.reading b m q hb
    simp [hq, QueueTask.reading] at this
  have hnew : ∀ m, s.authenticateQueues m ≠ some q := by
    intro m hm
    have := h.name m q hm
    simp [hq, QueueTask.name?] at this
  have htask : Inv (s.setTask q (.receiving n)) := by
    refine h.putTask (fun m hm => absurd hm (hnew m)) (fun b m hb => absurd hb (hnobody b m))
      ?_ ?_ (by simp)
    · exact fun b m hb => absurd (by rw [hb]; rfl) (hnobody b m)
    · exact fun b m hb => absurd (Attempt.queue?_of_served? hb) (hnobody b m)
  refine { htask with map := ?_, name := ?_ }
  · intro a m q' hm
    have hne : m ≠ n := by
      rintro rfl
      exact hn a q' hm
    exact (Function.update_of_ne hne _ _).trans (h.map a m q' hm)
  · intro m q' hm
    rcases eq_or_ne m n with rfl | hne
    · obtain rfl : q = q' := by simpa using hm
      simp [State.setTask, QueueTask.name?]
    · exact htask.name m q' ((Function.update_of_ne hne _ _).symm.trans hm)

theorem next_inv {s : State υ} {l : Label υ} (h : Inv s) (hen : enabled s l) :
    Inv (next s l) := by
  cases l with
  | connect a n | accept a n q | reject a n q | error a n q
  | penaltyOver a n q | yielded a n q | dropComplete a n =>
      refine h.setAttempt hen rfl ?_ ?_ ?_ ?_ <;>
        simp [Attempt.sends, Attempt.served?, Attempt.completed]
  | upgrade a n q =>
      obtain ⟨b, hb⟩ := Finset.nonempty_iff_ne_empty.mpr hen.2.2
      exact h.join hen.1 hen.2.1 (h.reading_of_mem hb)
  | create a n q =>
      -- The old queue is dead, so nobody keeps a queue for `n`; the new one is
      -- not in anybody's hands yet.
      have hothers : ∀ b q', (s.attempts b).queue? ≠ some (n, q') := by
        intro b q' hb
        refine h.not_queue_of_not_mem ?_ n hb
        rw [hen.2.1 q' (h.map b n q' hb)]
        exact Finset.notMem_empty b
      have hempty : s.owners q = ∅ := by
        rw [Finset.eq_empty_iff_forall_notMem]
        intro b hb
        have hreading := h.reading_of_mem hb
        simp [hen.2.2, QueueTask.reading] at hreading
      have hjoined := (h.create hothers hen.2.2).join (a := a) (q := q) hen.1 (by simp)
        (by simp [State.setTask, QueueTask.reading])
      simpa only [next, State.setTask, State.setAttempt, hempty, insert_empty_eq] using hjoined
  | lockSender a n q => exact h.lockSender hen.1 hen.2
  | sent a n q => exact h.sent hen.1 hen.2
  | dropQueue a n q | leave a n q =>
      refine h.part hen rfl rfl ?_ ?_ <;>
        simp [Attempt.sends, Attempt.served?, Attempt.completed]
  | pop q n a => exact h.pop hen.1 hen.2
  | resolved q n a =>
      -- Whoever is being served is the one the task waits for, and that one
      -- has completed.
      refine h.setTask hen.1 rfl (fun _ _ _ => rfl) ?_ ?_ (by simp)
      · intro b m hb
        rcases h.handed b m q hb with hslot | htask
        · exact .inl hslot
        · obtain ⟨-, rfl⟩ : n = m ∧ a = b := by simpa [hen.1] using htask
          have := hen.2
          simp [hb, Attempt.completed] at this
      · intro b m hb
        obtain ⟨-, rfl⟩ : n = m ∧ a = b := by simpa [hen.1] using h.served b m q hb
        cases hq : s.attempts a <;>
          simp [hq, Attempt.completed, Attempt.served?, enabled] at hen hb
  | closed q n =>
      have hnobody : ∀ b m, (s.attempts b).queue? ≠ some (m, q) := fun b m =>
        h.not_queue_of_not_mem (by rw [hen.2.2]; exact Finset.notMem_empty b) m
      refine h.setTask hen.1 rfl (fun b m hb => absurd hb (hnobody b m)) ?_ ?_ (by simp)
      · exact fun b m hb => absurd (by rw [hb]; rfl) (hnobody b m)
      · exact fun b m hb => absurd (Attempt.queue?_of_served? hb) (hnobody b m)
  | cleanup q n =>
      have hnobody : ∀ b m, (s.attempts b).queue? ≠ some (m, q) := by
        intro b m hb
        have := h.reading b m q hb
        simp [show s.tasks q = _ from hen, QueueTask.reading] at this
      have hended : Inv (s.setTask q (.ended n)) := by
        refine h.setTask hen rfl (fun b m hb => absurd hb (hnobody b m)) ?_ ?_ (by simp)
        · exact fun b m hb => absurd (by rw [hb]; rfl) (hnobody b m)
        · exact fun b m hb => absurd (Attempt.queue?_of_served? hb) (hnobody b m)
      by_cases hdead : s.dead n
      · -- A dead queue is in nobody's hands, so its entry may go.
        simp only [next, if_pos hdead]
        refine hended.forget fun b q' hb => ?_
        refine h.not_queue_of_not_mem ?_ n hb
        rw [hdead q' (h.map b n q' hb)]
        exact Finset.notMem_empty b
      · simp only [next, if_neg hdead]
        exact hended

theorem reachable_inv {s : State υ} (hs : machine.Reachable s) : Inv s :=
  hs.invariant (I := Inv) init_inv fun _ _ _ h hen _ => next_inv h hen

/-- The queues there are have numbers below some bound. -/
theorem reachable_fresh {s : State υ} (hs : machine.Reachable s) :
    ∃ bound : ℕ, ∀ q : ℕ, bound ≤ q → s.tasks q = .absent := by
  refine hs.invariant
    (I := fun s => ∃ bound : ℕ, ∀ q : ℕ, bound ≤ q → s.tasks q = .absent)
    ⟨0, fun _ _ => rfl⟩ ?_
  rintro s l - ⟨bound, hbound⟩ hen -
  have hset : ∀ (q : ℕ) t, ∃ bound : ℕ, ∀ q' : ℕ, bound ≤ q' →
      Function.update s.tasks q t q' = .absent := by
    intro q t
    refine ⟨max bound (q + 1), fun q' hq' => ?_⟩
    have hlt : bound ≤ q' ∧ q ≠ q' := by omega
    rw [Function.update_of_ne hlt.2.symm]
    exact hbound q' hlt.1
  cases l with
  | create a n q | pop q n a | resolved q n a | closed q n => exact hset q _
  | cleanup q n =>
      simp only [machine, next]
      split <;> exact hset q _
  | _ => exact ⟨bound, hbound⟩

end

/-! ## Somebody can go on -/

/-- The username a step is for; none where a new attempt comes in. -/
def Label.name? : Label υ → Option υ
  | .connect _ _ => none
  | .upgrade _ n _ | .create _ n _ | .lockSender _ n _ | .sent _ n _
  | .accept _ n _ | .reject _ n _ | .error _ n _ | .penaltyOver _ n _
  | .yielded _ n _ | .dropQueue _ n _ | .dropComplete _ n | .leave _ n _
  | .pop _ n _ | .resolved _ n _ | .closed _ n | .cleanup _ n => some n

/-- Some step for this username can be taken. -/
def Progress (s : State υ) (n : υ) : Prop :=
  ∃ l : Label υ, l.name? = some n ∧ enabled s l

theorem progress_of_served {s : State υ} {a : AttemptId} {n : υ} {q : QueueId}
    (h : (s.attempts a).served? = some (n, q)) : Progress s n := by
  cases hq : s.attempts a with
  | authenticating m q' =>
      obtain ⟨rfl, rfl⟩ : m = n ∧ q' = q := by simpa [hq, Attempt.served?] using h
      exact ⟨.accept a m q', rfl, hq⟩
  | penalized m q' =>
      obtain ⟨rfl, rfl⟩ : m = n ∧ q' = q := by simpa [hq, Attempt.served?] using h
      exact ⟨.penaltyOver a m q', rfl, hq⟩
  | yielding m q' =>
      obtain ⟨rfl, rfl⟩ : m = n ∧ q' = q := by simpa [hq, Attempt.served?] using h
      exact ⟨.yielded a m q', rfl, hq⟩
  | returning m q' =>
      obtain ⟨rfl, rfl⟩ : m = n ∧ q' = q := by simpa [hq, Attempt.served?] using h
      exact ⟨.dropQueue a m q', rfl, hq⟩
  | _ => simp [hq, Attempt.served?] at h

/-- A sender that is locked does not stay so: its item is taken, or the task
still waits for someone who has steps of its own. -/
theorem Inv.progress_of_sending {s : State υ} (h : Inv s) {a : AttemptId} {n : υ}
    {q : QueueId} (ha : s.attempts a = .sending n q) : Progress s n := by
  by_cases hslot : s.slots q = some a
  · have hname : (s.tasks q).name? = some n :=
      h.name n q (h.map a n q (by rw [ha]; rfl))
    have hreading := h.reading a n q (by rw [ha]; rfl)
    cases ht : s.tasks q with
    | receiving m =>
        obtain rfl : m = n := by simpa [ht, QueueTask.name?] using hname
        exact ⟨.pop q m a, rfl, ht, hslot⟩
    | awaiting m b =>
        obtain rfl : m = n := by simpa [ht, QueueTask.name?] using hname
        rcases h.awaited b m q ht with hb | hb | hb | hb
        · exact ⟨.resolved q m b, rfl, ht, hb⟩
        · exact progress_of_served hb
        · exact ⟨.dropComplete b m, rfl, hb⟩
        · exact ⟨.sent b m q, rfl, hb⟩
    | absent | closing | ended => simp [ht, QueueTask.reading] at hreading
  · exact ⟨.sent a n q, rfl, ha, hslot⟩

section

variable [DecidableEq υ]

theorem progress_of_inProgress {s : State υ} (hs : machine.Reachable s)
    {a : AttemptId} {n : υ} (ha : (s.attempts a).inProgress? = some n) :
    Progress s n := by
  have h : Inv s := reachable_inv hs
  cases hq : s.attempts a with
  | connected m =>
      obtain rfl : m = n := by simpa [hq, Attempt.inProgress?] using ha
      by_cases hdead : s.dead m
      · obtain ⟨q, hfresh⟩ := reachable_fresh hs
        exact ⟨.create a m q, rfl, hq, hdead, hfresh q le_rfl⟩
      · simp only [State.dead, not_forall] at hdead
        obtain ⟨q, hmap, hne⟩ := hdead
        exact ⟨.upgrade a m q, rfl, hq, hmap, hne⟩
  | queued m q =>
      obtain rfl : m = n := by simpa [hq, Attempt.inProgress?] using ha
      cases hsender : s.senders q with
      | none => exact ⟨.lockSender a m q, rfl, hq, hsender⟩
      | some b =>
          exact h.progress_of_sending
            (h.sending hsender (h.name m q (h.map a m q (by rw [hq]; rfl))))
  | sending m q =>
      obtain rfl : m = n := by simpa [hq, Attempt.inProgress?] using ha
      exact h.progress_of_sending hq
  | authenticating m q | penalized m q | yielding m q | returning m q =>
      obtain rfl : m = n := by simpa [hq, Attempt.inProgress?] using ha
      exact progress_of_served (a := a) (q := q) (by rw [hq]; rfl)
  | dropping m =>
      obtain rfl : m = n := by simpa [hq, Attempt.inProgress?] using ha
      exact ⟨.dropComplete a m, rfl, hq⟩
  | accepted m q =>
      obtain rfl : m = n := by simpa [hq, Attempt.inProgress?] using ha
      exact ⟨.leave a m q, rfl, hq⟩
  | idle | failed | finished => simp [hq, Attempt.inProgress?] at ha

/-! ## One at a time, and nobody else is held up -/

/-- One authentication at a time per username: alone between the start of
`authenticate_password` and the release of the queue, no start of another
while a failed one sits out its penalty, and no username waits for another. -/
theorem authenticate_exclusive {s : State υ} (hs : machine.Reachable s) :
    (∀ a b n q q', (s.attempts a).served? = some (n, q) →
      (s.attempts b).served? = some (n, q') → a = b) ∧
    (∀ a b n q q', s.attempts a = .penalized n q → ¬ enabled s (.sent b n q')) ∧
    (∀ a n, (s.attempts a).inProgress? = some n → Progress s n) := by
  have h : Inv s := reachable_inv hs
  refine ⟨fun a b n q q' ha hb => h.served_unique ha hb, fun a b n q q' ha => ?_,
    fun a n ha => progress_of_inProgress hs ha⟩
  exact h.not_sent_of_served (a := a) (q := q) (by rw [ha]; rfl)

/-- A wrong password is being sat out and a second attempt waits its turn. -/
theorem authenticate_exclusive_two :
    ¬ enabled (([.connect 0 "root", .connect 1 "root", .create 0 "root" 0,
      .upgrade 1 "root" 0, .lockSender 0 "root" 0, .pop 0 "root" 0, .sent 0 "root" 0,
      .reject 0 "root" 0, .lockSender 1 "root" 0] : List (Label String)).foldl next init)
      (.sent 1 "root" 0) :=
  (authenticate_exclusive (Machine.reaches_of_path (M := machine) (by decide))).2.1
    0 1 "root" 0 0 (by decide)

/-- The queue dies before the sender of its last attempt does. -/
def replacedRun : List (Label String) :=
  [.connect 0 "root", .create 0 "root" 0, .lockSender 0 "root" 0, .pop 0 "root" 0,
    .sent 0 "root" 0, .error 0 "root" 0, .dropQueue 0 "root" 0,
    .connect 1 "root", .create 1 "root" 1, .lockSender 1 "root" 1, .pop 1 "root" 1,
    .sent 1 "root" 1]

theorem authenticate_overlaps :
    ¬ ∀ s : State String, machine.Reachable s → ∀ a b n,
      (s.attempts a).uncompleted? = some n → (s.attempts b).uncompleted? = some n →
      a = b := by
  intro h
  have hs : machine.Reachable (replacedRun.foldl next init) :=
    Machine.reaches_of_path (M := machine) (by decide)
  exact absurd (h _ hs 0 1 "root" (by decide) (by decide)) (by decide)

end

end WebSshTool.SignIn.Queue
