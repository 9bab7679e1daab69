import WebSshTool.Download.Producers
import WebSshTool.Lib.Machine
import WebSshTool.Lib.Mpsc
import Mathlib.Data.List.ReduceOption

/-!
# The way of a body

A body is produced by `forward_async_read_to_sender`, or by a zip writer that
takes a `SenderStream` for its file, and put into a channel by the internal
client. Its HTTP connection takes it from there to the master, whose
`forward_body_to_sender` puts it into a second channel, for the browser.

Everything here is polled, whenever and however often somebody likes to, and
is pending for as long as a channel has no room. Units are where they are in
one order, from the producer to the browser, and a step either moves one of
them on or adds one at the end; a connection may cut data into other pieces.
When a receiver goes what is still on its way to it goes too, and nothing that
has been delivered.
-/

namespace WebSshTool.Download.Relay

open Files (Bytes)
open Upload (Frame)
open Mpsc (Poll Send)

/-! ## Producers and the forwarder -/

inductive Producer where
  /-- `forward_async_read_to_sender`, in `file.read`. -/
  | reading
  /-- In `tx.send`, with data, or with the error of a read. -/
  | sending (send : Send ResponseUnit) (failed : Bool)
  /-- A zip writer. -/
  | writing
  /-- The sender is dropped. -/
  | ended
  deriving DecidableEq, Repr

/-- `forward_body_to_sender`, in `body.frame` or in `sender.send`. -/
inductive Forwarder where
  | polling
  | sending (send : Send ResponseUnit)
  | ended
  deriving DecidableEq, Repr

def Producer.isSending : Producer → Bool
  | .sending _ _ => true
  | _ => false

def Forwarder.isSending : Forwarder → Bool
  | .sending _ => true
  | _ => false

/-- What is with the producer, and with the forwarder. -/
def Producer.hand : Producer → List ResponseUnit
  | .sending send _ => send.hand
  | _ => []

def Forwarder.hand : Forwarder → List ResponseUnit
  | .sending send => send.hand
  | _ => []

/-- `buf_to_frame`. -/
def bufToFrame (buf : Bytes) : ResponseUnit := .ok (.data buf)

/-- `SenderStream::poll_write`: what it takes, it takes as a whole. -/
def pollWrite (sender : Mpsc.Channel ResponseUnit) (buf : Bytes) :
    Mpsc.Channel ResponseUnit × Poll (Option Nat) :=
  match sender.pollReady with
  | .ready true =>
      match sender.startSend (bufToFrame buf) with
      | (sender, true) => (sender, .ready (some buf.length))
      | (sender, false) => (sender, .ready none)
  | .ready false => (sender, .ready none)
  | .pending => (sender, .pending)

/-- `SenderStream::poll_flush`. -/
def pollFlush (sender : Mpsc.Channel ResponseUnit) : Poll Bool := sender.pollFlush

/-- `SenderStream::poll_close` leaves the channel open. -/
def pollClose (_ : Mpsc.Channel ResponseUnit) : Poll Bool := .ready true

structure State where
  /-- What of the file is still to be read. -/
  rest : Bytes
  /-- What has been produced: bytes, and the error of a read. -/
  read : Bytes
  failed : Bool
  producer : Producer
  internal : Mpsc.Channel ResponseUnit
  /-- Between the internal client and the master, and that nothing follows. -/
  wire : List ResponseUnit
  finished : Bool
  forwarder : Forwarder
  browser : Mpsc.Channel ResponseUnit
  delivered : List ResponseUnit
  deriving Repr

inductive Label where
  | read (n : Nat)
  | readError
  | endOfFile
  | pollSend
  | pollWrite (buf : Bytes)
  | pollFlush
  | pollClose
  /-- The zip writer is dropped. -/
  | drop
  /-- The connection takes a unit from the channel, and cuts it if it is data. -/
  | carry (pieces : List Bytes)
  | carryEnd
  | frame
  | endOfBody
  | pollForward
  | receive
  /-- The connection is lost, with all but some of what it has taken. -/
  | lose (kept : Nat)
  | leave
  deriving Repr

/-- The size of the buffer of `forward_async_read_to_sender`. -/
def bufferSize : Nat := 1024 * 4

/-- A unit on the wire: the error of a body ends it. -/
def pieces (cuts : List Bytes) : ResponseUnit → List ResponseUnit
  | .ok (.data _) => cuts.map bufToFrame
  | u => [u]

/-- Data is cut into pieces that are nothing but the data. -/
def Cuts (cuts : List Bytes) : ResponseUnit → Prop
  | .ok (.data bytes) => cuts.flatten = bytes
  | _ => True

instance (cuts : List Bytes) (u : ResponseUnit) : Decidable (Cuts cuts u) := by
  unfold Cuts
  split <;> infer_instance

/-- What produces a body. -/
inductive Body where
  | file (content : Bytes)
  | archive
  deriving Repr

def init (body : Body) (bound : Nat) : State where
  rest := match body with
    | .file content => content
    | .archive => []
  read := []
  failed := false
  producer := match body with
    | .file _ => .reading
    | .archive => .writing
  internal := .new bound
  wire := []
  finished := false
  forwarder := .polling
  browser := .new 8
  delivered := []

def enabled (s : State) : Label → Prop
  | .read n => s.producer = .reading ∧ 0 < n ∧ n ≤ bufferSize ∧ n ≤ s.rest.length
  | .readError => s.producer = .reading
  | .endOfFile => s.producer = .reading ∧ s.rest = []
  | .pollSend => s.producer.isSending = true
  | .pollWrite _ | .pollFlush | .pollClose | .drop => s.producer = .writing
  | .carry cuts =>
      s.internal.receiver = true ∧ ∃ u ∈ s.internal.queue.head?, Cuts cuts u
  | .carryEnd => s.internal.receiver = true ∧ s.internal.pollNext.2 = .ready none
  | .frame => s.forwarder = .polling ∧ s.wire ≠ []
  | .endOfBody => s.forwarder = .polling ∧ s.wire = [] ∧ s.finished = true
  | .pollForward => s.forwarder.isSending = true
  | .receive => s.browser.receiver = true ∧ s.browser.queue ≠ []
  | .lose _ => s.internal.receiver = true
  | .leave => s.browser.receiver = true

instance (s : State) (l : Label) : Decidable (enabled s l) := by
  cases l <;> unfold enabled <;> infer_instance

/-- The producer goes on, or ends and drops its sender. -/
def State.produce (s : State) : Producer → State
  | .ended => { s with producer := .ended, internal := s.internal.dropSender }
  | p => { s with producer := p }

/-- So does the forwarder. -/
def State.forward (s : State) : Forwarder → State
  | .ended => { s with forwarder := .ended, browser := s.browser.dropSender }
  | f => { s with forwarder := f }

def next (s : State) : Label → State
  | .read n =>
      { s with
        rest := s.rest.drop n
        read := s.read ++ s.rest.take n
        producer := .sending (.feeding (.ok (.data (s.rest.take n)))) false }
  | .readError =>
      { s with failed := true, producer := .sending (.feeding (.error ())) true }
  | .endOfFile => s.produce .ended
  | .pollSend =>
      match s.producer with
      | .sending send failed =>
          match send.poll s.internal with
          | (internal, send, .pending) =>
              { s with internal, producer := .sending send failed }
          | (internal, _, .ready ok) =>
              -- After an error the loop is left, and so it is when sending fails.
              { s with internal }.produce (if ok && !failed then .reading else .ended)
      | _ => s
  | .pollWrite buf =>
      match Relay.pollWrite s.internal buf with
      | (internal, .ready (some n)) =>
          { s with internal, read := s.read ++ buf.take n }
      | (internal, _) => { s with internal }
  | .pollFlush | .pollClose => s
  | .drop => s.produce .ended
  | .carry cuts =>
      match s.internal.pollNext with
      | (internal, .ready (some u)) => { s with internal, wire := s.wire ++ pieces cuts u }
      | _ => s
  | .carryEnd => { s with finished := true }
  | .frame =>
      match s.wire with
      | u :: wire => { s with wire, forwarder := .sending (.feeding u) }
      | [] => s
  | .endOfBody => s.forward .ended
  | .pollForward =>
      match s.forwarder with
      | .sending send =>
          match send.poll s.browser with
          | (browser, send, .pending) => { s with browser, forwarder := .sending send }
          | (browser, _, .ready ok) =>
              { s with browser }.forward (if ok then .polling else .ended)
      | _ => s
  | .receive =>
      match s.browser.pollNext with
      | (browser, .ready (some u)) => { s with browser, delivered := s.delivered ++ [u] }
      | _ => s
  | .lose kept =>
      { s with
        internal := s.internal.dropReceiver
        wire := s.wire.take kept ++ [.error ()]
        finished := true }
  | .leave => { s with browser := s.browser.dropReceiver }

/-- The way of one body, with the bound of the internal client's channel. -/
def machine (body : Body) (bound : Nat) : Machine State Label :=
  ⟨init body bound, enabled, next⟩

instance (body : Body) (bound : Nat) (s : State) (l : Label) :
    Decidable ((machine body bound).enabled s l) :=
  inferInstanceAs (Decidable (enabled s l))

/-! ## What there is to be delivered -/

/-- What a unit has to say: its bytes, or that there is an error. -/
def signals : ResponseUnit → List (Option UInt8)
  | .ok (.data bytes) => bytes.map some
  | .ok .trailers => []
  | .error () => [none]

def signalsOf (us : List ResponseUnit) : List (Option UInt8) := us.flatMap signals

/-- The bytes of data units. -/
def bytesOf (us : List ResponseUnit) : Bytes := (signalsOf us).reduceOption

/-- All that has been produced, an error last. -/
def State.produced (s : State) : List (Option UInt8) :=
  s.read.map some ++ if s.failed then [none] else []

/-- The units that have been delivered, and those still on their way to a
receiver that is there. -/
def State.way (s : State) : List ResponseUnit :=
  s.delivered ++
    if s.browser.receiver then
      s.browser.queue ++ s.forwarder.hand ++ s.wire ++
        if s.internal.receiver then s.internal.queue ++ s.producer.hand else []
    else []

/-- No receiver has been dropped. -/
def State.Whole (s : State) : Prop := s.browser.receiver = true ∧ s.internal.receiver = true

/-- The producer has ended and nothing is on its way. -/
structure State.Drained (s : State) : Prop where
  whole : s.Whole
  producer : s.producer = .ended
  internal : s.internal.queue = []
  wire : s.wire = []
  forwarder : s.forwarder.hand = []
  browser : s.browser.queue = []

@[simp] theorem signalsOf_cons (u : ResponseUnit) (us : List ResponseUnit) :
    signalsOf (u :: us) = signals u ++ signalsOf us := rfl

@[simp] theorem signalsOf_append (us us' : List ResponseUnit) :
    signalsOf (us ++ us') = signalsOf us ++ signalsOf us' :=
  List.flatMap_append ..

@[simp] theorem signalsOf_singleton (u : ResponseUnit) : signalsOf [u] = signals u :=
  List.flatMap_singleton ..

@[simp] theorem bytesOf_append (us us' : List ResponseUnit) :
    bytesOf (us ++ us') = bytesOf us ++ bytesOf us' := by
  simp [bytesOf, List.reduceOption_append]

theorem signalsOf_pieces {cuts : List Bytes} {u : ResponseUnit} (h : Cuts cuts u) :
    signalsOf (pieces cuts u) = signals u := by
  match u with
  | .ok (.data bytes) =>
      obtain rfl : cuts.flatten = bytes := h
      simp only [pieces, signals]
      induction cuts with
      | nil => rfl
      | cons cut cuts ih =>
          rw [List.map_cons, ← List.singleton_append, signalsOf_append, ih,
            List.flatten_cons, List.map_append, signalsOf_singleton]
          rfl
  | .ok .trailers | .error () => exact signalsOf_singleton _

/-! ## Nothing is lost on the way -/

/-- Nothing new comes onto the way, and no receiver goes. -/
structure Kept (s t : State) : Prop where
  way : signalsOf t.way = signalsOf s.way
  read : t.read = s.read
  failed : t.failed = s.failed
  internal : t.internal.receiver = s.internal.receiver
  browser : t.browser.receiver = s.browser.receiver

theorem Kept.refl (s : State) : Kept s s := ⟨rfl, rfl, rfl, rfl, rfl⟩

theorem Kept.whole {s t : State} (h : Kept s t) : t.Whole ↔ s.Whole := by
  rw [State.Whole, State.Whole, h.internal, h.browser]

theorem Kept.produced {s t : State} (h : Kept s t) : t.produced = s.produced := by
  rw [State.produced, State.produced, h.read, h.failed]

/-- The producer goes on with another channel: what is with the two is the
same, if that matters to anybody. -/
theorem kept_produce {s : State} {internal : Mpsc.Channel ResponseUnit} {p : Producer}
    (hrec : internal.receiver = s.internal.receiver)
    (hq : s.internal.receiver = true →
      internal.queue ++ p.hand = s.internal.queue ++ s.producer.hand) :
    Kept s ({ s with internal }.produce p) := by
  have hway : ({ s with internal }.produce p).way = s.way := by
    have hback : (if internal.receiver then internal.queue ++ p.hand else []) =
        if s.internal.receiver then s.internal.queue ++ s.producer.hand else [] := by
      rw [hrec]
      cases h : s.internal.receiver with
      | true => exact hq h
      | false => rfl
    unfold State.way
    rw [← hback]
    cases p <;> rfl
  have hsender : ({ s with internal }.produce p).internal.receiver = s.internal.receiver := by
    rw [← hrec]
    cases p <;> rfl
  refine ⟨congrArg signalsOf hway, ?_, ?_, hsender, ?_⟩ <;> cases p <;> rfl

/-- So it is with the forwarder. -/
theorem kept_forward {s : State} {browser : Mpsc.Channel ResponseUnit} {f : Forwarder}
    (hrec : browser.receiver = s.browser.receiver)
    (hq : s.browser.receiver = true →
      browser.queue ++ f.hand = s.browser.queue ++ s.forwarder.hand) :
    Kept s ({ s with browser }.forward f) := by
  have hway : ({ s with browser }.forward f).way = s.way := by
    let behind := s.wire ++
      if s.internal.receiver then s.internal.queue ++ s.producer.hand else []
    have hfront : (if browser.receiver then browser.queue ++ f.hand ++ behind else []) =
        if s.browser.receiver then s.browser.queue ++ s.forwarder.hand ++ behind else [] := by
      rw [hrec]
      cases h : s.browser.receiver with
      | true => rw [if_pos rfl, if_pos rfl, hq h]
      | false => rfl
    unfold State.way
    simp only [List.append_assoc, behind] at hfront ⊢
    rw [← hfront]
    cases f <;> rfl
  have hsender : ({ s with browser }.forward f).browser.receiver = s.browser.receiver := by
    rw [← hrec]
    cases f <;> rfl
  refine ⟨congrArg signalsOf hway, ?_, ?_, ?_, hsender⟩ <;> cases f <;> rfl

/-- A poll of a `send`, as seen by its owner: it goes on to hold what is left,
or nothing when it is over. -/
theorem poll_kept (c : Mpsc.Channel ResponseUnit) (send : Send ResponseUnit) :
    (send.poll c).1.receiver = c.receiver ∧
      (c.receiver = true →
        (send.poll c).1.queue ++ (send.poll c).2.1.hand = c.queue ++ send.hand ∧
        ∀ ok, (send.poll c).2.2 = .ready ok → ok = true ∧ (send.poll c).2.1.hand = []) := by
  cases h : c.receiver with
  | true =>
      obtain ⟨hq, hrec, hok⟩ := Send.poll_open h send
      exact ⟨hrec, fun _ => ⟨hq, hok⟩⟩
  | false => exact ⟨by rw [Send.poll_closed h send, h], nofun⟩

theorem kept_pollSend (s : State) : Kept s (next s .pollSend) := by
  cases hp : s.producer with
  | reading | writing | ended => simp only [next, hp]; exact Kept.refl s
  | sending send failed =>
      obtain ⟨hrec, hopen⟩ := poll_kept s.internal send
      have hhand : s.producer.hand = send.hand := by rw [hp]; rfl
      simp only [next, hp]
      split
      · next internal send' heq =>
          rw [heq] at hrec hopen
          exact kept_produce (p := .sending send' failed) hrec fun h => by
            rw [hhand]
            exact (hopen h).1
      · next internal send' ok heq =>
          rw [heq] at hrec hopen
          refine kept_produce hrec fun h => ?_
          obtain ⟨hq, hok⟩ := hopen h
          rw [hhand, ← hq, (hok ok rfl).2]
          split <;> rfl

theorem kept_pollForward (s : State) : Kept s (next s .pollForward) := by
  cases hf : s.forwarder with
  | polling | ended => simp only [next, hf]; exact Kept.refl s
  | sending send =>
      obtain ⟨hrec, hopen⟩ := poll_kept s.browser send
      have hhand : s.forwarder.hand = send.hand := by rw [hf]; rfl
      simp only [next, hf]
      split
      · next browser send' heq =>
          rw [heq] at hrec hopen
          exact kept_forward (f := .sending send') hrec fun h => by
            rw [hhand]
            exact (hopen h).1
      · next browser send' ok heq =>
          rw [heq] at hrec hopen
          refine kept_forward hrec fun h => ?_
          obtain ⟨hq, hok⟩ := hopen h
          rw [hhand, ← hq, (hok ok rfl).2]
          split <;> rfl

theorem kept_carry {s : State} {cuts : List Bytes} (hen : enabled s (.carry cuts)) :
    Kept s (next s (.carry cuts)) := by
  obtain ⟨hrec, u, hu, hcuts⟩ := hen
  obtain ⟨rest, hq⟩ : ∃ rest, s.internal.queue = u :: rest := List.head?_eq_some_iff.mp hu
  have hnext : s.internal.pollNext =
      ({ s.internal with queue := rest, parked := false }, .ready (some u)) := by
    rw [Mpsc.Channel.pollNext, hq]
  simp only [next, hnext]
  refine ⟨?_, rfl, rfl, rfl, rfl⟩
  simp only [State.way, hrec, hq, if_true]
  cases s.browser.receiver with
  | false => rfl
  | true =>
      simp only [if_true, signalsOf_append, signalsOf_pieces hcuts, signalsOf_cons,
        List.append_assoc]

theorem kept_receive {s : State} (hen : enabled s .receive) : Kept s (next s .receive) := by
  obtain ⟨hrec, hq⟩ := hen
  obtain ⟨u, rest, hq⟩ := List.exists_cons_of_ne_nil hq
  have hnext : s.browser.pollNext =
      ({ s.browser with queue := rest, parked := false }, .ready (some u)) := by
    rw [Mpsc.Channel.pollNext, hq]
  simp only [next, hnext]
  refine ⟨?_, rfl, rfl, rfl, rfl⟩
  simp [State.way, hrec, hq]

theorem kept_frame {s : State} (hen : enabled s .frame) : Kept s (next s .frame) := by
  obtain ⟨hf, hw⟩ := hen
  obtain ⟨u, wire, hw⟩ := List.exists_cons_of_ne_nil hw
  simp only [next, hw]
  refine ⟨?_, rfl, rfl, rfl, rfl⟩
  simp [State.way, hf, hw, Forwarder.hand, Send.hand]

/-! ## The producer -/

/-- How far the producer is: an error is the last it does, and unless it has
failed, or nobody takes what it sends, it ends at the end of the file. -/
structure Course (body : Body) (s : State) : Prop where
  failed : s.failed = true → s.producer = .ended ∨ ∃ send, s.producer = .sending send true
  sending : ∀ send failed, s.producer = .sending send failed → s.failed = failed
  file : ∀ content, body = .file content →
    s.producer ≠ .writing ∧ s.read ++ s.rest = content
  finished : ∀ content, body = .file content → s.producer = .ended →
    s.internal.receiver = true → s.failed = false → s.rest = []

theorem Course.not_failed {body : Body} {s : State} (h : Course body s)
    (hp : s.producer = .reading ∨ s.producer = .writing) : s.failed = false := by
  by_contra hf
  rcases h.failed (by simpa using hf) with he | ⟨send, he⟩ <;>
    rcases hp with hp | hp <;> rw [hp] at he <;> cases he

/-- Whatever leaves the producer alone. -/
theorem Course.congr {body : Body} {s t : State} (h : Course body s)
    (hp : t.producer = s.producer) (hread : t.read = s.read) (hrest : t.rest = s.rest)
    (hf : t.failed = s.failed)
    (hrec : t.internal.receiver = true → s.internal.receiver = true) : Course body t := by
  refine ⟨?_, ?_, ?_, ?_⟩
  · rw [hf, hp]; exact h.failed
  · rw [hf, hp]; exact h.sending
  · rw [hp, hread, hrest]; exact h.file
  · rw [hp, hf, hrest]
    exact fun content hb he hr => h.finished content hb he (hrec hr)

theorem course_read {body : Body} {s : State} {n : Nat} (h : Course body s)
    (hp : s.producer = .reading) : Course body (next s (.read n)) where
  failed hf := absurd (hf.symm.trans (h.not_failed (.inl hp))) nofun
  sending send failed he := by
    cases he
    exact h.not_failed (.inl hp)
  file content hb := by
    refine ⟨nofun, ?_⟩
    rw [← (h.file content hb).2]
    simp [next]
  finished _ _ he := by cases he

theorem course_pollSend {body : Body} {s : State} (h : Course body s) :
    Course body (next s .pollSend) := by
  cases hp : s.producer with
  | reading | writing | ended => simp only [next, hp]; exact h
  | sending send failed =>
      have hsf : s.failed = failed := h.sending send failed hp
      obtain ⟨hrec, hopen⟩ := poll_kept s.internal send
      simp only [next, hp]
      split
      · next internal send' heq =>
          refine ⟨fun hf => ?_, fun _ _ he => ?_, fun content hb => ?_, fun _ _ he => ?_⟩
          · exact .inr ⟨send', by rw [← hf, hsf]⟩
          · cases he
            exact hsf
          · exact ⟨nofun, (h.file content hb).2⟩
          · cases he
      · next internal send' ok heq =>
          rw [heq] at hrec hopen
          by_cases hgo : (ok && !failed) = true
          · rw [if_pos hgo]
            have hnf : failed = false := by simp at hgo; exact hgo.2
            refine ⟨fun hf => ?_, fun _ _ he => ?_, fun content hb => ?_, fun _ _ he => ?_⟩
            · exact absurd (hf.symm.trans (hsf.trans hnf)) nofun
            · cases he
            · exact ⟨nofun, (h.file content hb).2⟩
            · cases he
          · rw [if_neg hgo]
            refine ⟨fun _ => .inl rfl, fun _ _ he => ?_, fun content hb => ?_,
              fun _ _ _ hr hf => ?_⟩
            · cases he
            · exact ⟨nofun, (h.file content hb).2⟩
            · -- With a receiver, a `send` that is over is `Ok`.
              have hok := ((hopen (hrec.symm.trans hr)).2 ok rfl).1
              have : failed = false := hsf.symm.trans hf
              exact absurd (by simp [hok, this]) hgo

theorem course_pollWrite {s : State} {buf : Bytes} (h : Course .archive s)
    (hp : s.producer = .writing) : Course .archive (next s (.pollWrite buf)) := by
  have hnf := h.not_failed (.inr hp)
  simp only [next]
  split <;>
    exact ⟨fun hf => absurd (hf.symm.trans hnf) nofun,
      fun _ _ he => absurd (hp.symm.trans he) nofun, nofun, nofun⟩

theorem course_forward {body : Body} {s : State} {browser : Mpsc.Channel ResponseUnit}
    {f : Forwarder} (h : Course body s) : Course body ({ s with browser }.forward f) := by
  cases f <;> exact h.congr rfl rfl rfl rfl id

theorem course_next {body : Body} {s : State} {l : Label} (h : Course body s)
    (hen : enabled s l) : Course body (next s l) := by
  have archive (hp : s.producer = .writing) : body = .archive := by
    cases body with
    | file content => exact absurd hp (h.file content rfl).1
    | archive => rfl
  cases l with
  | read n => exact course_read h hen.1
  | readError =>
      refine ⟨fun _ => .inr ⟨_, rfl⟩, fun _ _ he => ?_, fun content hb => ?_,
        fun _ _ he => ?_⟩
      · cases he
        rfl
      · exact ⟨nofun, (h.file content hb).2⟩
      · cases he
  | endOfFile =>
      refine ⟨fun _ => .inl rfl, fun _ _ he => ?_, fun content hb => ?_,
        fun _ _ _ _ _ => hen.2⟩
      · cases he
      · exact ⟨nofun, (h.file content hb).2⟩
  | pollSend => exact course_pollSend h
  | pollWrite buf =>
      obtain rfl := archive hen
      exact course_pollWrite h hen
  | drop =>
      obtain rfl := archive hen
      exact ⟨fun _ => .inl rfl, fun _ _ => nofun, nofun, nofun⟩
  | pollFlush | pollClose | carryEnd | endOfBody | leave =>
      exact h.congr rfl rfl rfl rfl id
  | carry cuts =>
      simp only [next]
      split
      · next internal u heq =>
          exact h.congr rfl rfl rfl rfl fun hr => (Mpsc.Channel.pollNext_some heq).2.1 ▸ hr
      · exact h
  | frame => simp only [next]; split <;> exact h.congr rfl rfl rfl rfl id
  | pollForward =>
      simp only [next]
      split
      · split
        · exact h.congr rfl rfl rfl rfl id
        · exact course_forward h
      · exact h
  | receive => simp only [next]; split <;> exact h.congr rfl rfl rfl rfl id
  | lose kept => exact h.congr rfl rfl rfl rfl nofun

/-! ## The way -/

/-- What is on the way, and what has been delivered: bytes that have been
produced, in order, and all of it while nothing has been dropped. -/
structure Carried (s : State) : Prop where
  bytes : bytesOf s.way <+: s.read
  whole : s.Whole → signalsOf s.way = s.produced

theorem bytesOf_of_signals {s : State} {us : List ResponseUnit}
    (h : signalsOf us = s.produced) : bytesOf us = s.read := by
  rw [bytesOf, h, State.produced, List.reduceOption_append]
  cases s.failed <;> simp [List.reduceOption]

theorem Carried.kept {s t : State} (h : Carried s) (hk : Kept s t) : Carried t where
  bytes := by
    rw [bytesOf, hk.way, hk.read]
    exact h.bytes
  whole hw := by
    rw [hk.way, hk.produced]
    exact h.whole (hk.whole.mp hw)

/-- A unit comes onto the way at its end, if nothing has been dropped. -/
structure Added (s t : State) (u : ResponseUnit) : Prop where
  whole : s.Whole → t.way = s.way ++ [u]
  cut : ¬ s.Whole → t.way = s.way
  receivers : t.Whole ↔ s.Whole
  read : s.read <+: t.read
  produced : t.produced = s.produced ++ signals u

theorem Carried.added {s t : State} {u : ResponseUnit} (h : Carried s)
    (ha : Added s t u) : Carried t := by
  have whole (hw : t.Whole) : signalsOf t.way = t.produced := by
    have hw' := ha.receivers.mp hw
    rw [ha.whole hw', signalsOf_append, h.whole hw', signalsOf_singleton, ha.produced]
  refine ⟨?_, whole⟩
  by_cases hw : t.Whole
  · rw [bytesOf_of_signals (whole hw)]
  · rw [ha.cut (mt ha.receivers.mpr hw)]
    exact h.bytes.trans ha.read

/-- Where a unit is added: behind all that is with the producer and its channel. -/
theorem added_behind {s t : State} {u : ResponseUnit} (hd : t.delivered = s.delivered)
    (hb : t.browser = s.browser) (hf : t.forwarder = s.forwarder) (hw : t.wire = s.wire)
    (hrec : t.internal.receiver = s.internal.receiver)
    (hq : s.internal.receiver = true →
      t.internal.queue ++ t.producer.hand = s.internal.queue ++ s.producer.hand ++ [u])
    (hread : s.read <+: t.read) (hprod : t.produced = s.produced ++ signals u) :
    Added s t u where
  whole h := by
    have hq := hq h.2
    rw [State.way, State.way, hd, hb, hf, hw, hrec, h.1, h.2, if_pos rfl, if_pos rfl,
      if_pos rfl, if_pos rfl, hq]
    simp only [List.append_assoc]
  cut h := by
    rw [State.way, State.way, hd, hb, hf, hw, hrec]
    cases hbr : s.browser.receiver with
    | false => rfl
    | true =>
        have : s.internal.receiver = false := by
          by_contra hi
          exact h ⟨hbr, by simpa using hi⟩
        rw [this]
        rfl
  receivers := by rw [State.Whole, State.Whole, hb, hrec]
  read := hread
  produced := hprod

theorem carried_read {body : Body} {s : State} {n : Nat} (h : Carried s)
    (hc : Course body s) (hp : s.producer = .reading) : Carried (next s (.read n)) := by
  refine h.added (u := .ok (.data (s.rest.take n)))
    (added_behind rfl rfl rfl rfl rfl (fun _ => ?_) ⟨_, rfl⟩ ?_)
  · rw [hp]
    simp [next, Producer.hand, Send.hand]
  · simp [State.produced, next, hc.not_failed (.inl hp), signals]

theorem carried_readError {body : Body} {s : State} (h : Carried s)
    (hc : Course body s) (hp : s.producer = .reading) : Carried (next s .readError) := by
  refine h.added (u := .error ())
    (added_behind rfl rfl rfl rfl rfl (fun _ => ?_) (List.prefix_refl _) ?_)
  · rw [hp]
    simp [next, Producer.hand, Send.hand]
  · simp [State.produced, next, hc.not_failed (.inl hp), signals]

/-- A buffer is taken as a whole and goes to the end of the channel, or nothing
happens to it. -/
theorem pollWrite_cases (c : Mpsc.Channel ResponseUnit) (buf : Bytes) :
    (∃ c', pollWrite c buf = (c', .ready (some buf.length)) ∧
      c'.queue = c.queue ++ [bufToFrame buf] ∧ c'.receiver = c.receiver) ∨
    ∃ r, pollWrite c buf = (c, r) ∧ ∀ n, r ≠ .ready (some n) := by
  unfold pollWrite Mpsc.Channel.pollReady
  cases hrec : c.receiver with
  | false => exact .inr ⟨.ready none, by simp, nofun⟩
  | true =>
      cases c.parked with
      | true => exact .inr ⟨.pending, by simp, nofun⟩
      | false =>
          obtain ⟨hq, hrec', -⟩ := Mpsc.Channel.startSend_open hrec (bufToFrame buf)
          refine .inl ⟨(c.startSend (bufToFrame buf)).1, ?_, hq, hrec'⟩
          simp [Mpsc.Channel.startSend, hrec]

theorem carried_pollWrite {body : Body} {s : State} {buf : Bytes} (h : Carried s)
    (hc : Course body s) (hp : s.producer = .writing) :
    Carried (next s (.pollWrite buf)) := by
  rcases pollWrite_cases s.internal buf with ⟨c', heq, hq, hrec⟩ | ⟨r, heq, hr⟩
  · simp only [next, heq]
    refine h.added (u := bufToFrame buf)
      (added_behind rfl rfl rfl rfl hrec (fun _ => ?_) ⟨_, rfl⟩ ?_)
    · rw [hq, hp]
      simp [Producer.hand]
    · simp [State.produced, hc.not_failed (.inr hp), bufToFrame, signals]
  · have : next s (.pollWrite buf) = s := by simp only [next, heq]
    rw [this]
    exact h

/-- A cut drops what is behind it. -/
theorem carried_lose {s : State} {kept : Nat} (h : Carried s) :
    Carried (next s (.lose kept)) := by
  refine ⟨List.IsPrefix.trans ?_ h.bytes, fun hw => nomatch hw.2⟩
  cases hb : s.browser.receiver with
  | false => simp [State.way, next, hb]
  | true =>
      have hwire : bytesOf (s.wire.take kept ++ [.error ()]) <+: bytesOf s.wire := by
        rw [bytesOf_append]
        conv => rhs; rw [← List.take_append_drop kept s.wire, bytesOf_append]
        exact (List.prefix_append_right_inj _).mpr (List.nil_prefix)
      simp only [State.way, next, hb, if_true, Mpsc.Channel.dropReceiver_receiver,
        Bool.false_eq_true, if_false, List.append_nil, bytesOf_append s.delivered,
        List.append_assoc, bytesOf_append s.browser.queue,
        bytesOf_append s.forwarder.hand]
      refine (List.prefix_append_right_inj _).mpr ((List.prefix_append_right_inj _).mpr
        ((List.prefix_append_right_inj _).mpr (hwire.trans ?_)))
      rw [bytesOf_append]
      exact List.prefix_append ..

theorem carried_leave {s : State} (h : Carried s) : Carried (next s .leave) := by
  refine ⟨List.IsPrefix.trans ?_ h.bytes, fun hw => nomatch hw.1⟩
  simp only [State.way, next, Mpsc.Channel.dropReceiver_receiver, Bool.false_eq_true,
    if_false, List.append_nil, bytesOf_append]
  exact List.prefix_append ..

theorem carried_next {body : Body} {s : State} {l : Label} (h : Carried s)
    (hc : Course body s) (hen : enabled s l) : Carried (next s l) := by
  cases l with
  | read n => exact carried_read h hc hen.1
  | readError => exact carried_readError h hc hen
  | endOfFile => exact h.kept (kept_produce (p := .ended) rfl fun _ => by rw [hen.1]; rfl)
  | pollSend => exact h.kept (kept_pollSend s)
  | pollWrite buf => exact carried_pollWrite h hc hen
  | pollFlush | pollClose => exact h
  | drop =>
      have hp : s.producer = .writing := hen
      exact h.kept (kept_produce (p := .ended) rfl fun _ => by rw [hp]; rfl)
  | carry cuts => exact h.kept (kept_carry hen)
  | carryEnd => exact h.kept ⟨rfl, rfl, rfl, rfl, rfl⟩
  | frame => exact h.kept (kept_frame hen)
  | endOfBody => exact h.kept (kept_forward (f := .ended) rfl fun _ => by rw [hen.1]; rfl)
  | pollForward => exact h.kept (kept_pollForward s)
  | receive => exact h.kept (kept_receive hen)
  | lose kept => exact carried_lose h
  | leave => exact carried_leave h

theorem inv_of_reachable {body : Body} {bound : Nat} {s : State}
    (hs : (machine body bound).Reachable s) : Course body s ∧ Carried s := by
  refine hs.invariant (I := fun s => Course body s ∧ Carried s) ?_ ?_
  · constructor
    · cases body with
      | file content =>
          refine ⟨nofun, nofun, fun c hb => ⟨nofun, ?_⟩, nofun⟩
          cases hb
          rfl
      | archive => exact ⟨nofun, nofun, nofun, nofun⟩
    · cases body <;> exact ⟨List.prefix_refl _, fun _ => rfl⟩
  · rintro s l - ⟨hc, hw⟩ hen -
    exact ⟨course_next hc hen, carried_next hw hc hen⟩

theorem State.Drained.way {s : State} (h : s.Drained) : s.way = s.delivered := by
  obtain ⟨⟨hb, hi⟩, hp, hq, hw, hf, hbq⟩ := h
  simp [State.way, hb, hi, hp, hq, hw, hf, hbq, Producer.hand]

/-- However a body is produced, cut and polled, and whoever goes: what has been
delivered of it is at every moment the beginning of what has been produced.
While no receiver has gone, that is so with the error of a read in its place,
behind all bytes; and when nothing is on the way any more, all of it has been
delivered, once. A file that has been read without an error is then complete. -/
theorem relay_lossless {body : Body} {bound : Nat} {s : State}
    (hs : (machine body bound).Reachable s) :
    bytesOf s.delivered <+: s.read ∧
      (s.Whole → signalsOf s.delivered <+: s.produced) ∧
      (s.Drained → signalsOf s.delivered = s.produced ∧ bytesOf s.delivered = s.read) ∧
      ∀ content, body = .file content → s.read <+: content ∧
        (s.Drained → s.failed = false → bytesOf s.delivered = content) := by
  obtain ⟨hc, hw⟩ := inv_of_reachable hs
  have drained (hd : s.Drained) : signalsOf s.delivered = s.produced := by
    rw [← hd.way]
    exact hw.whole hd.whole
  refine ⟨?_, fun h => ?_, fun h => ?_, fun content hb => ⟨?_, fun h hf => ?_⟩⟩
  · refine List.IsPrefix.trans ?_ hw.bytes
    rw [State.way, bytesOf_append]
    exact List.prefix_append ..
  · rw [← hw.whole h, State.way, signalsOf_append]
    exact List.prefix_append ..
  · exact ⟨drained h, bytesOf_of_signals (drained h)⟩
  · exact ⟨s.rest, (hc.file content hb).2⟩
  · have hrest := hc.finished content hb h.producer h.whole.2 hf
    rw [bytesOf_of_signals (drained h), ← (hc.file content hb).2, hrest, List.append_nil]

/-- Three bytes in two reads, the second of which is parked, and an error; the
connection cuts the first piece. -/
def failingRun : List Label :=
  [.read 2, .pollSend, .read 1, .pollSend, .carry [[1], [2]], .frame, .pollForward,
    .pollSend, .readError, .pollSend, .carry [[3]], .receive, .frame, .pollSend, .carry [],
    .carryEnd, .pollForward, .frame, .pollForward, .receive, .frame, .pollForward,
    .endOfBody, .receive, .receive]

theorem relay_lossless_failing :
    let s := failingRun.foldl (machine (.file [1, 2, 3, 4]) 1).next (init (.file [1, 2, 3, 4]) 1)
    s.Drained ∧ signalsOf s.delivered = [some 1, some 2, some 3, none] ∧
      s.read <+: [1, 2, 3, 4] := by
  have hs : (machine (.file [1, 2, 3, 4]) 1).Reachable
      (failingRun.foldl (machine (.file [1, 2, 3, 4]) 1).next (init (.file [1, 2, 3, 4]) 1)) :=
    Machine.reaches_of_path (by decide)
  have hd : (failingRun.foldl (machine (.file [1, 2, 3, 4]) 1).next
      (init (.file [1, 2, 3, 4]) 1)).Drained := by
    constructor <;> first | rfl | exact ⟨rfl, rfl⟩
  obtain ⟨-, -, hall, hfile⟩ := relay_lossless hs
  exact ⟨hd, (hall hd).1, (hfile _ rfl).1⟩

end WebSshTool.Download.Relay
