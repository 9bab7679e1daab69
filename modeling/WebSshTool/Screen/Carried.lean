import WebSshTool.Dispatch.Complete
import WebSshTool.Screen.Events
import WebSshTool.Session.Events

/-!
# What is on the way

An event goes through four queues: the event channel, the socket, what the page is
still decoding, and the calls `Auth` has made. `Carried` says that the first two and
what has arrived come to all that was forwarded, in its order. Nothing is changed on the
way but the encoding of the strings, for which every string has to be one that both
sides can hold; the names of the shells are, since the browser asked for them.
-/

namespace WebSshTool.Screen

open Json
open Dispatch (Invocation)
open Rpc (formatError)
open Rpc.Wire (Codecs Message encodeValue units unitsOf Scalars)

/-! ## Strings on both sides -/

/-- A string that Rust can hold. -/
def Scalar (t : Text) : Prop := ∀ u ∈ t, u.isValidChar

/-- The string as the page has it. -/
def pageText (t : Text) : Text := t.flatMap unitsOf

theorem pageText_inj {t u : Text} (ht : Scalar t) (hu : Scalar u) (h : pageText t = pageText u) :
    t = u := by
  have husv := congrArg Rpc.Wire.usv h
  rw [pageText, pageText, Rpc.Wire.usv_units ht, Rpc.Wire.usv_units hu] at husv
  rw [← Rpc.Wire.map_toNat_ofNat ht, husv, Rpc.Wire.map_toNat_ofNat hu]

/-! ## Events on both sides -/

/-- What the listeners of the page are called with. -/
def Event.call : Event → Invocation
  | .shell _ id event =>
      .shell (.obj [shellMembers event, (ofString "id", .str (pageText id))])
  | .watch id data =>
      .watch (.obj [(ofString "data", units (.obj data)), (ofString "id", .str (pageText id))])

theorem round_byte (b : Nat) : Doubles.round (b % 256 : Nat) 0 = (((b % 256 : Nat) : Int), 0) :=
  Doubles.round_int (by omega)

/-- Bytes are numbers that the page has as well. -/
theorem units_bytes (bytes : List Nat) :
    recodeItems unitsOf (mapNumbersItems Doubles.round (bytes.map byteValue)) =
      bytes.map byteValue := by
  induction bytes with
  | nil => rfl
  | cons b bytes ih =>
      rw [List.map_cons, mapNumbersItems, recodeItems, ih, byteValue, Value.mapNumbers, round_byte,
        Value.recode]

theorem dispatch_message (e : Event) : Dispatch.dispatch (units e.message) = some e.call := by
  cases e with
  | shell n id event =>
      cases event with
      | data bytes =>
          simp only [Event.message, Event.value, shellMembers, units, Rpc.Wire.doubles,
            Value.mapNumbers, mapNumbersMembers, Value.recode, recodeMembers, units_bytes]
          rfl
      | close => rfl
  | watch id data => rfl

theorem call_isEvent (e : Event) : e.call.isEvent = true := by
  cases e <;> rfl

section

variable {p : Codecs}

theorem event_of_content {m : Message} {v : Value} {i : Invocation}
    (h : Rpc.Wire.decodeMessage p m = some v) (hi : Dispatch.dispatch v = some i) :
    m.frame.event p.ungzip = if i.isEvent then some i else none := by
  rw [Dispatch.Frame.event, Dispatch.Frame.invocation, show m.frame.content p.ungzip = _ from h,
    Option.bind_some, hi, Option.filter_some]

theorem event_message (hp : p.Agree) {e : Event} (h : Scalars e.message) :
    (encodeValue p e.message).frame.event p.ungzip = some e.call := by
  rw [event_of_content (Rpc.Wire.decode_encodeValue hp h) (dispatch_message e), call_isEvent,
    if_pos rfl]

theorem event_reply (hp : p.Agree) {tag : Option Value}
    {result : Except Rpc.RequestError Value} (h : Scalars (Rpc.replyMessage tag result)) :
    (encodeValue p (Rpc.replyMessage tag result)).frame.event p.ungzip = none :=
  event_of_content (Rpc.Wire.decode_encodeValue hp h)
    (i := .response (units (tag.getD .null)) (some (units (Rpc.responseOf result)))) rfl

theorem formatError_scalars : Scalars formatError := by
  unfold Scalars
  decide

theorem event_formatError (hp : p.Agree) :
    (encodeValue p formatError).frame.event p.ungzip = none := by
  rw [Dispatch.Frame.event, Dispatch.Frame.invocation,
    show (encodeValue p formatError).frame.content p.ungzip = _ from
      Rpc.Wire.decode_encodeValue hp formatError_scalars]
  rfl

end

/-! ## The names of the shells -/

theorem mem_textsMembers {ms : List (Text × Value)} {k : Text} {v : Value} (h : (k, v) ∈ ms)
    {t : Text} (ht : t ∈ v.texts) : t ∈ textsMembers ms := by
  induction ms with
  | nil => exact absurd h List.not_mem_nil
  | cons m ms ih =>
      rw [textsMembers]
      rcases List.mem_cons.mp h with rfl | hmem
      · exact List.mem_cons_of_mem _ (List.mem_append_left _ ht)
      · exact List.mem_cons_of_mem _ (List.mem_append_right _ (ih hmem))

/-- A sorted map has nothing that was not put into it. -/
theorem mem_of_insertMember {x : Text × Value} {k : Text} {v : Value}
    {ms : List (Text × Value)} (h : x ∈ insertMember k v ms) : x = (k, v) ∨ x ∈ ms := by
  induction ms with
  | nil => exact .inl (List.mem_singleton.mp h)
  | cons m ms ih =>
      rw [insertMember] at h
      split at h
      · rcases List.mem_cons.mp h with heq | hmem
        · exact .inl heq
        · exact .inr (List.mem_cons_of_mem _ hmem)
      · split at h
        · rcases List.mem_cons.mp h with heq | hmem
          · exact .inl heq
          · exact .inr hmem
        · rcases List.mem_cons.mp h with heq | hmem
          · exact .inr (heq ▸ List.mem_cons_self ..)
          · exact (ih hmem).imp id fun hold => List.mem_cons_of_mem _ hold

theorem mem_of_foldl_insertMember {ms acc : List (Text × Value)} {m : Text × Value}
    (h : m ∈ ms.foldl (fun ms m => insertMember m.1 m.2 ms) acc) : m ∈ acc ∨ m ∈ ms := by
  induction ms generalizing acc with
  | nil => exact .inl h
  | cons x ms ih =>
      rcases ih h with hacc | hmem
      · rcases mem_of_insertMember hacc with rfl | hold
        · exact .inr (List.mem_cons_self ..)
        · exact .inl hold
      · exact .inr (List.mem_cons_of_mem _ hmem)

theorem mem_of_ofMembers {ms : List (Text × Value)} {argument : Value}
    (h : Session.Call.ofMembers ms = .shell argument) : ∃ k, (k, argument) ∈ ms := by
  induction ms with
  | nil => cases h
  | cons m ms ih =>
      obtain ⟨key, value⟩ := m
      rw [Session.Call.ofMembers] at h
      split at h
      · obtain ⟨k, hk⟩ := ih h
        exact ⟨k, List.mem_cons_of_mem _ hk⟩
      · split at h
        · cases h
          exact ⟨key, List.mem_cons_self ..⟩
        · split at h <;> cases h

/-- The name in a request for a shell is one of its strings. -/
theorem scalar_of_commandOf {request : Value} {id : Text} (h : Scalars request)
    (hc : Session.commandOf (some request) = some (.start id)) : Scalar id := by
  rw [Session.commandOf] at hc
  split at hc
  · next argument hcall =>
      obtain rfl : argument = .str id := by
        cases argument with
        | str t =>
            obtain rfl : t = id := by simpa [Session.Command.ofValue] using hc
            rfl
        | obj members =>
            simp only [Session.Command.ofValue, Option.some.injEq] at hc
            split at hc
            · split at hc <;> cases hc
            · cases hc
        | _ => cases hc
      obtain ⟨k, hk⟩ := mem_of_ofMembers hcall
      cases request with
      | obj members =>
          refine h id ?_
          rw [Value.texts]
          refine mem_textsMembers ((mem_of_foldl_insertMember hk).resolve_left
            List.not_mem_nil) (v := .str id) ?_
          exact List.mem_singleton_self _
      | _ => exact absurd hk List.not_mem_nil
  · cases hc

/-- The command asks for a shell under a name that Rust can hold. -/
def Named (a : Session.Arrival) : Prop := ∀ id, a.command = some (.start id) → Scalar id

structure Spelled (s : Session.State) : Prop where
  stream : ∀ a ∈ s.stream, Named a
  locking : ∀ a ∈ s.locking, Named a
  opening : ∀ a id, s.holder = some (a, .opening id) → Scalar id
  channel : ∀ n, Scalar (s.channel n).id

theorem Spelled.init : Spelled Session.State.init where
  stream _ h := absurd h List.not_mem_nil
  locking _ h := absurd h List.not_mem_nil
  opening _ _ h := by cases h
  channel _ _ h := absurd h List.not_mem_nil

/-- A step that names no shell. -/
theorem Spelled.frame {s s' : Session.State} (h : Spelled s)
    (hstream : ∀ a ∈ s'.stream, a ∈ s.stream)
    (hlocking : ∀ a ∈ s'.locking, a ∈ s.locking ∨ a ∈ s.stream)
    (hopening : ∀ a id, s'.holder = some (a, .opening id) → s.holder = some (a, .opening id))
    (hchannel : ∀ n, (s'.channel n).id = (s.channel n).id) : Spelled s' where
  stream a ha := h.stream a (hstream a ha)
  locking a ha := (hlocking a ha).elim (h.locking a) (h.stream a)
  opening a id ha := h.opening a id (hopening a id ha)
  channel n := hchannel n ▸ h.channel n

theorem ShellStep.id_eq {s : Session.State} {n : Nat} {l : Session.Label} {c : Session.Shell}
    (h : Session.ShellStep s n l c) :
    c.id = (s.channel n).id ∨ ∃ a, l = .opened a c.id true := by
  cases h with
  | stay => exact .inl rfl
  | fresh hn => exact .inr ⟨_, rfl⟩
  | close => exact .inl rfl
  | put => exact .inl rfl
  | task ht => cases ht <;> exact .inl rfl

theorem Spelled.next {s : Session.State} {l : Session.Label} (h : Spelled s)
    (hen : Session.enabled s l) (hr : Readable l) : Spelled (Session.next s l) := by
  have hids : (∀ a id, l ≠ .opened a id true) →
      ∀ n, ((Session.next s l).channel n).id = (s.channel n).id := by
    intro hl n
    rcases ShellStep.id_eq (Session.next_channel hen n) with heq | ⟨a, heq⟩
    · exact heq
    · exact absurd heq (hl _ _)
  cases l with
  | arrive request =>
      refine { h with stream := fun a ha => ?_ }
      rcases List.mem_append.mp ha with ha | ha
      · exact h.stream a ha
      · rw [List.mem_singleton.mp ha]
        cases request with
        | none => exact fun id hid => by cases hid
        | some v => exact fun id hid => scalar_of_commandOf hr hid
  | start =>
      cases hs : s.stream with
      | nil =>
          simp only [Session.next, hs]
          exact h
      | cons a rest =>
          have hrest : ∀ b ∈ rest, b ∈ s.stream := fun b hb => hs ▸ List.mem_cons_of_mem _ hb
          simp only [Session.next, hs]
          split
          · refine h.frame hrest (fun b hb => ?_) (fun _ _ hh => hh) fun _ => rfl
            rcases List.mem_append.mp hb with hb | hb
            · exact .inl hb
            · rw [List.mem_singleton.mp hb, hs]
              exact .inr (List.mem_cons_self ..)
          · exact h.frame hrest (fun b hb => .inl hb) (fun _ _ hh => hh) fun _ => rfl
  | lock a =>
      have hmem : ∀ b ∈ s.locking.erase a, b ∈ s.locking := fun b hb => List.mem_of_mem_erase hb
      have hnone : ∀ {s' : Session.State}, s'.stream = s.stream →
          s'.locking = s.locking.erase a → s'.holder = none →
          (∀ n, (s'.channel n).id = (s.channel n).id) → Spelled s' := by
        intro s' hstream hlocking hholder hchannel
        refine h.frame (fun b hb => hstream ▸ hb) (fun b hb => .inl (hmem b (hlocking ▸ hb)))
          (fun b id hb => ?_) hchannel
        rw [hholder] at hb
        cases hb
      have hchannel := hids fun _ _ => by simp
      revert hchannel
      simp only [Session.next, Session.State.handle]
      split
      · next id hc =>
          split
          · intro hchannel
            refine ⟨h.stream, fun b hb => h.locking b (hmem b hb), fun b id' hb => ?_,
              h.channel⟩
            cases hb
            exact h.locking a hen.1 _ hc
          · exact hnone rfl rfl rfl
      · split <;> exact hnone rfl rfl rfl
      · split
        · intro hchannel
          refine h.frame (fun b hb => hb) (fun b hb => .inl (hmem b hb)) (fun b id hb => ?_)
            hchannel
          cases hb
        · exact hnone rfl rfl rfl
      · exact hnone rfl rfl rfl
      · exact hnone rfl rfl rfl
  | opened a id ok =>
      have hid := h.opening a id hen
      cases ok with
      | true =>
          refine ⟨h.stream, h.locking, (fun b id' hb => by cases hb), fun n => ?_⟩
          show Scalar (Function.update s.channel s.opened (.fresh id a.number) n).id
          by_cases hn : n = s.opened
          · rw [hn, Function.update_self]
            exact hid
          · rw [Function.update_of_ne hn]
            exact h.channel n
      | false =>
          exact h.frame (fun _ hb => hb) (fun _ hb => .inl hb) (fun _ _ hb => by cases hb)
            fun _ => rfl
  | put a n messages =>
      have hchannel := hids fun _ _ => by simp
      revert hchannel
      simp only [Session.next]
      split
      · intro hchannel
        exact h.frame (fun _ hb => hb) (fun _ hb => .inl hb) (fun _ _ hb => by cases hb) hchannel
      · split <;> intro hchannel <;>
          exact h.frame (fun _ hb => hb) (fun _ hb => .inl hb) (fun _ _ hb => by cases hb)
            hchannel
  | flushed a n messages =>
      exact h.frame (fun _ hb => hb) (fun _ hb => .inl hb) (fun _ _ hb => by cases hb)
        fun _ => rfl
  | served | replied | finish =>
      exact h.frame (fun _ hb => hb) (fun _ hb => .inl hb) (fun _ _ hb => hb) fun _ => rfl
  | popped | hungUp | handed | sendFailed | output | channelEnded | forwarded | forwardFailed
  | closeForwarded =>
      exact h.frame (fun _ hb => hb) (fun _ hb => .inl hb) (fun _ _ hb => hb)
        (hids fun _ _ => by simp)

/-! ## What is on the way -/

/-- The events of one shell. -/
def eventsFor (n : Nat) (events : List Event) : List Session.ShellEvent :=
  events.filterMap fun
    | .shell m _ event => if m = n then some event else none
    | .watch .. => none

theorem eventsFor_append (n : Nat) (es es' : List Event) :
    eventsFor n (es ++ es') = eventsFor n es ++ eventsFor n es' :=
  List.filterMap_append ..

theorem ShellStep.emitted_eq {s : Session.State} {n : Nat} {l : Session.Label}
    {c : Session.Shell} (h : Session.ShellStep s n l c) (hw : Session.Wired s)
    (hforwarded : ∀ bytes, l ≠ .forwarded n bytes)
    (hclose : ∀ taken, l ≠ .closeForwarded n taken) : c.emitted = (s.channel n).emitted := by
  cases h with
  | fresh hn =>
      rw [hw.absent n (Nat.le_of_eq hn.symm)]
      rfl
  | stay | close | put => rfl
  | task ht =>
      cases ht with
      | forwarded => exact absurd rfl (hforwarded _)
      | closeForwarded => exact absurd rfl (hclose _)
      | _ => rfl

/-- A step of the session forwards what the shell's own list of events grows by. -/
theorem emitted_next {s : Session.State} {l : Session.Label} (hw : Session.Wired s)
    (hen : Session.enabled s l) (n : Nat) :
    ((Session.next s l).channel n).emitted =
      (s.channel n).emitted ++ eventsFor n (eventsOf s l) := by
  have hstep := Session.next_channel hen n
  cases l with
  | forwarded m bytes =>
      by_cases hmn : m = n
      · subst hmn
        simp only [Session.next, Session.State.setShell, Function.update_self, eventsOf, eventsFor,
          List.filterMap_cons, List.filterMap_nil, if_pos]
      · rw [ShellStep.emitted_eq hstep hw (fun _ => by simp [hmn]) (fun _ => by simp)]
        simp [eventsOf, eventsFor, hmn]
  | closeForwarded m taken =>
      by_cases hmn : m = n
      · subst hmn
        cases taken with
        | true =>
            simp only [Session.next, Session.State.setShell, Function.update_self, eventsOf,
              eventsFor, List.filterMap_cons, List.filterMap_nil, if_pos, cond_true]
        | false =>
            simp only [Session.next, Session.State.setShell, Function.update_self, eventsOf,
              eventsFor, List.filterMap_nil, List.append_nil, cond_false]
      · rw [ShellStep.emitted_eq hstep hw (fun _ => by simp) (fun _ => by simp [hmn])]
        cases taken <;> simp [eventsOf, eventsFor, hmn]
  | _ =>
      rw [ShellStep.emitted_eq hstep hw (fun _ => by simp) (fun _ => by simp)]
      exact (List.append_nil _).symm

theorem textsItems_bytes (bytes : List Nat) : textsItems (bytes.map byteValue) = [] := by
  induction bytes with
  | nil => rfl
  | cons b bytes ih =>
      rw [List.map_cons, textsItems, ih]
      rfl

/-- What the tasks of the shells and the watchers send can be sent as it is. -/
theorem scalars_shell {n : Nat} {id : Text} (h : Scalar id) (event : Session.ShellEvent) :
    Scalars (Event.shell n id event).message := by
  have hnames : ∀ t ∈ ["event", "shell", "data", "close", "id"].map ofString, Scalar t := by
    unfold Scalar
    decide
  intro t ht
  cases event with
  | data bytes =>
      simp only [Event.message, Event.value, shellMembers, Value.texts, textsMembers,
        textsItems_bytes, List.append_nil, List.mem_cons, List.not_mem_nil, or_false,
        List.nil_append] at ht
      rcases ht with rfl | rfl | rfl | rfl | rfl
      all_goals first | exact h | exact hnames _ (by simp)
  | close =>
      simp only [Event.message, Event.value, shellMembers, Value.texts, textsMembers,
        List.append_nil, List.mem_cons, List.not_mem_nil, or_false, List.nil_append] at ht
      rcases ht with rfl | rfl | rfl | rfl | rfl
      all_goals first | exact h | exact hnames _ (by simp)

theorem scalars_message {e : Event} (h : Scalars e.value) : Scalars e.message := by
  intro t ht
  simp only [Event.message, Value.texts, textsMembers, List.append_nil, List.mem_cons] at ht
  rcases ht with rfl | ht
  · decide
  · exact h t ht

section

variable (p : Codecs)

/-- What the page is told by a message. -/
def Calls (m : Message) : Option Invocation := m.frame.event p.ungzip

/-- What has arrived, what is on the way and what is in the event channel come to all
that was forwarded. -/
structure Carried (s : State) : Prop where
  carried : s.page.arrived.filterMap (Dispatch.Frame.event p.ungzip) ++
      (s.wire.filterMap (Calls p) ++ s.channel.map Event.call) = s.forwarded.map Event.call
  scalars : ∀ e ∈ s.channel, Scalars e.message
  logged : ∀ n, eventsFor n s.forwarded = (s.master.channel n).emitted
  owned : ∀ n id event, .shell n id event ∈ s.forwarded →
    n < s.master.opened ∧ id = (s.master.channel n).id

end

section

variable {p : Codecs} {s : State}

theorem reachable_master {ok : State → Label → Prop} (hs : (machine p).Reaches ok s) :
    Session.machine.Reachable s.master := by
  refine hs.invariant (I := fun s => Session.machine.Reachable s.master) .init ?_
  intro s l _ h hen _
  cases l with
  | master l => exact h.step hen.1 trivial
  | poll | deliver =>
      simp only [machine, next]
      split <;> exact h
  | _ => exact h

theorem reachable_page {ok : State → Label → Prop} (hs : (machine p).Reaches ok s) :
    (Dispatch.machine p.ungzip).Reachable s.page := by
  refine hs.invariant (I := fun s => (Dispatch.machine p.ungzip).Reachable s.page) .init ?_
  intro s l _ h hen _
  cases l with
  | page l => exact h.step hen.1 trivial
  | poll =>
      simp only [machine, next]
      split <;> exact h
  | deliver =>
      simp only [machine, next]
      split
      · exact h
      · exact h.step trivial trivial
  | _ => exact h

theorem spelled_of_reaches {ok : State → Label → Prop} (hs : (machine p).Reaches ok s) :
    Spelled s.master := by
  refine hs.invariant (I := fun s => Spelled s.master) .init ?_
  intro s l _ h hen _
  cases l with
  | master l => exact h.next hen.1 hen.2
  | poll | deliver =>
      simp only [machine, next]
      split <;> exact h
  | _ => exact h

theorem Carried.init : Carried p State.init where
  carried := rfl
  scalars _ h := absurd h List.not_mem_nil
  logged _ := rfl
  owned _ _ _ h := absurd h List.not_mem_nil

/-- Events are forwarded, with whatever the session has done. -/
theorem Carried.forward (h : Carried p s) {master : Session.State} {events : List Event}
    (hscalars : ∀ e ∈ events, Scalars e.message)
    (hlogged : ∀ n, (master.channel n).emitted =
      (s.master.channel n).emitted ++ eventsFor n events)
    (hids : ∀ n < s.master.opened, n < master.opened ∧
      (master.channel n).id = (s.master.channel n).id)
    (howned : ∀ n id event, .shell n id event ∈ events →
      n < s.master.opened ∧ id = (s.master.channel n).id) :
    Carried p (State.forward { s with master } events) where
  carried := by
    show _ ++ (_ ++ (s.channel ++ events).map Event.call) = (s.forwarded ++ events).map Event.call
    rw [List.map_append, List.map_append, ← h.carried]
    simp only [List.append_assoc]
    rfl
  scalars e he := (List.mem_append.mp he).elim (h.scalars e) (hscalars e)
  logged n := by
    show eventsFor n (s.forwarded ++ events) = (master.channel n).emitted
    rw [eventsFor_append, h.logged, hlogged]
  owned n id event hmem := by
    have hold : n < s.master.opened ∧ id = (s.master.channel n).id :=
      (List.mem_append.mp hmem).elim (h.owned n id event) (howned n id event)
    obtain ⟨hlt, heq⟩ := hids n hold.1
    exact ⟨hlt, hold.2.trans heq.symm⟩

/-- A message that is no event is sent. -/
theorem Carried.send (h : Carried p s) {m : Message} (hm : Calls p m = none) :
    Carried p (s.send m) :=
  { h with
    carried := by
      refine Eq.trans ?_ h.carried
      show _ ++ ((s.wire ++ [m]).filterMap (Calls p) ++ _) = _
      rw [List.filterMap_append, List.filterMap_cons, hm, List.filterMap_nil, List.append_nil]
      rfl }

theorem Carried.poll (h : Carried p s) (hp : p.Agree) {e : Event} {channel : List Event}
    (hchannel : s.channel = e :: channel) :
    Carried p (State.send { s with channel } (encodeValue p e.message)) :=
  { h with
    carried := by
      have hm : Calls p (encodeValue p e.message) = some e.call :=
        event_message hp (h.scalars e (hchannel ▸ List.mem_cons_self ..))
      refine Eq.trans ?_ h.carried
      rw [hchannel]
      show _ ++ ((s.wire ++ [_]).filterMap (Calls p) ++ channel.map Event.call) = _
      rw [List.filterMap_append, List.filterMap_cons, hm, List.filterMap_nil, List.append_assoc]
      rfl
    scalars := fun x hx => h.scalars x (hchannel ▸ List.mem_cons_of_mem _ hx) }

theorem Carried.deliver (h : Carried p s) {m : Message} {wire : List Message}
    (hwire : s.wire = m :: wire) :
    Carried p { s with wire, page := Dispatch.next p.ungzip s.page (.receive m.frame) } :=
  { h with
    carried := by
      rw [← h.carried, hwire]
      show (Dispatch.next p.ungzip s.page _).arrived.filterMap _ ++ _ = _
      rw [Dispatch.receive_arrived, List.filterMap_append, List.append_assoc]
      congr 1
      rw [List.filterMap_cons, List.filterMap_cons, List.filterMap_nil, Calls]
      cases m.frame.event p.ungzip <;> rfl }

theorem next_ids {s : Session.State} {l : Session.Label} (hen : Session.enabled s l) {n : Nat}
    (hn : n < s.opened) :
    n < (Session.next s l).opened ∧ ((Session.next s l).channel n).id = (s.channel n).id := by
  refine ⟨?_, ?_⟩
  · rcases Session.next_opened s l with heq | ⟨-, -, -, heq⟩ <;> omega
  · have hstep := Session.next_channel hen n
    generalize (Session.next s l).channel n = c at hstep
    cases hstep with
    | fresh hfresh => omega
    | task ht => cases ht <;> rfl
    | _ => rfl

theorem Carried.next (h : Carried p s) (hp : p.Agree) (hw : Session.Wired s.master)
    (hs : Spelled s.master) {l : Label} (hen : enabled s l) : Carried p (next p s l) := by
  cases l with
  | master l =>
      refine h.forward (fun e he => ?_) (emitted_next hw hen.1) (fun n hn => next_ids hen.1 hn)
        fun n id event he => ?_
      · obtain ⟨n, event, rfl⟩ : ∃ n event, e = .shell n (s.master.channel n).id event := by
          cases l with
          | forwarded n bytes => exact ⟨n, _, List.mem_singleton.mp he⟩
          | closeForwarded n taken =>
              cases taken with
              | true => exact ⟨n, _, List.mem_singleton.mp he⟩
              | false => exact absurd he List.not_mem_nil
          | _ => exact absurd he List.not_mem_nil
        exact scalars_shell (hs.channel n) event
      · cases l with
        | forwarded m bytes =>
            cases List.mem_singleton.mp he
            exact ⟨hw.lt_opened (by rw [show _ = _ from hen.1]; simp), rfl⟩
        | closeForwarded m taken =>
            cases taken with
            | true =>
                cases List.mem_singleton.mp he
                exact ⟨hw.lt_opened (by rw [show _ = _ from hen.1]; simp), rfl⟩
            | false => exact absurd he List.not_mem_nil
        | _ => exact absurd he List.not_mem_nil
  | watch id data =>
      refine h.forward (fun e he => ?_) (fun n => (List.append_nil _).symm)
        (fun n hn => ⟨hn, rfl⟩) fun n id event he => by cases List.mem_singleton.mp he
      rw [List.mem_singleton.mp he]
      exact scalars_message hen
  | poll =>
      simp only [Screen.next]
      split
      · exact h
      · next e channel hchannel => exact h.poll hp hchannel
  | reply tag result => exact h.send (event_reply hp hen)
  | formatError => exact h.send (event_formatError hp)
  | deliver =>
      simp only [Screen.next]
      split
      · exact h
      · next m wire hwire => exact h.deliver hwire
  | page l =>
      refine { h with carried := Eq.trans ?_ h.carried }
      show (Dispatch.next p.ungzip s.page l).arrived.filterMap _ ++ _ = _
      rw [Dispatch.next_arrived fun f hf => by rw [hf] at hen; exact hen.2]
      rfl

theorem carried_of_reaches (hp : p.Agree) {ok : State → Label → Prop}
    (hs : (machine p).Reaches ok s) : Carried p s :=
  hs.invariant Carried.init fun _ _ ht h hen _ =>
    h.next hp (Session.reachable_wired (reachable_master ht)) (spelled_of_reaches ht) hen

end

end WebSshTool.Screen
