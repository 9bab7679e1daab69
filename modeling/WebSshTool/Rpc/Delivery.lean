import WebSshTool.Cleanup.Calls
import WebSshTool.Lib.Pool
import WebSshTool.Rpc.InternalClient

/-!
# Every call is run once and its result gets back

Of a run of the master and the internal client three things are kept. The two
sums say where the messages and the responses are. From them an id that the
master reads is an id that it wrote, so a response that is handled goes to the
call it belongs to, and goes there once. And while the connection is open the
callback of a message that was written waits until the response is handled, so
no response comes too late.

Nothing is assumed of what the client is sent or in which order its handlers
finish; the ids are the ones the master takes, and fewer than 2^64 of them.
-/

namespace WebSshTool.Rpc.Internal

open Json
open scoped List

/-! ## What a step of the master does to what it shares with the client -/

section

variable {token : Text} {m : Rpc.State}

/-- The messages of the master grow at their end, by what a call was sending. -/
theorem written_next (token : Text) (m : Rpc.State) (l : Rpc.Label) :
    (Rpc.next token m l).written = m.written ∨
      ∃ c id key argument, (l = .sent c true ∨ l = .drop c true) ∧
        m.phase c = .sending id key argument ∧
        (Rpc.next token m l).written = m.written ++ [(id, key, argument)] := by
  cases l with
  | sent c ok =>
      simp only [Rpc.next]
      split
      · next id key argument hphase =>
          cases ok with
          | true => exact .inr ⟨c, id, key, argument, .inl rfl, hphase, rfl⟩
          | false => exact .inl rfl
      · exact .inl rfl
  | drop c buffered =>
      simp only [Rpc.next]
      split
      · next id key argument hphase =>
          exact .inr ⟨c, id, key, argument, .inr rfl, hphase, rfl⟩
      · exact .inl rfl
  | acquire c | resolve c | reply c =>
      simp only [Rpc.next]
      split <;> exact .inl rfl
  | handle i =>
      simp only [Rpc.next]
      split
      · next incoming _ =>
          cases incoming with
          | response id value =>
              simp only [State.handle]
              split <;> exact .inl rfl
          | event | unknown => exact .inl rfl
      · exact .inl rfl
  | browser | transfer | cancel | shellDone | receive | forward | forwarded | disconnect
  | disconnected => exact .inl rfl

theorem inbox_handle (i : Nat) :
    (Rpc.next token m (.handle i)).inbox = m.inbox.eraseIdx i := by
  simp only [Rpc.next]
  split
  · next incoming _ =>
      cases incoming with
      | response id value =>
          simp only [State.handle]
          split <;> rfl
      | event | unknown => rfl
  · next hnone => rw [List.eraseIdx_of_length_le (List.getElem?_eq_none_iff.mp hnone)]

theorem inbox_next {l : Rpc.Label} (hreceive : isReceive l = false)
    (hhandle : ∀ i, l ≠ .handle i) : (Rpc.next token m l).inbox = m.inbox := by
  cases l with
  | receive message => simp [isReceive] at hreceive
  | handle i => exact absurd rfl (hhandle i)
  | sent c ok =>
      simp only [Rpc.next]
      split
      · cases ok <;> rfl
      · rfl
  | acquire c | resolve c | reply c =>
      simp only [Rpc.next]
      split <;> rfl
  | browser | transfer | cancel | shellDone | drop | forward | forwarded | disconnect
  | disconnected => rfl

/-- What leaves the inbox is fed. -/
theorem inbox_fed (token : Text) (m : Rpc.State) {l : Rpc.Label}
    (hreceive : isReceive l = false) :
    held responseIn (Rpc.next token m l).inbox + Multiset.ofList (fedBy m l).toList =
      held responseIn m.inbox := by
  by_cases hhandle : ∃ i, l = .handle i
  · obtain ⟨i, rfl⟩ := hhandle
    rw [inbox_handle, fedBy]
    cases hi : m.inbox[i]? with
    | none =>
        rw [List.eraseIdx_of_length_le (List.getElem?_eq_none_iff.mp hi)]
        simp
    | some incoming =>
        rw [held_eraseIdx hi, Option.bind_some, add_comm]
  · have hnot : ∀ i, l ≠ .handle i := fun i hl => hhandle ⟨i, hl⟩
    have hfed : fedBy m l = none := by
      cases l with
      | handle i => exact absurd rfl (hnot i)
      | _ => rfl
    rw [inbox_next hreceive hnot, hfed]
    simp

end

/-! ## The two sums -/

namespace Run

def call (r : Run) : Value × Text × Value := (r.id, r.key, r.argument)

def response (r : Run) : Value × Value := (r.id, r.result)

end Run

/-- A message of the master as the call it asks for. -/
def asked (w : Nat × Text × Value) : Value × Text × Value := (.num w.1 0, w.2)

/-- What was read has been called or is being called, and what was answered is
somewhere. -/
structure Conserved (s : State) : Prop where
  taken : s.taken ≤ s.master.written.length
  called : held Handler.call? s.handlers + Multiset.ofList (s.ran.map Run.call) =
    Multiset.ofList ((s.master.written.take s.taken).map asked)
  answered : held Handler.response? s.handlers + held responseIn? s.wire +
      held responseIn s.master.inbox + Multiset.ofList s.fed + Multiset.ofList s.lost =
    Multiset.ofList (s.ran.map Run.response)

theorem Conserved.init : Conserved init where
  taken := Nat.le_refl 0
  called := rfl
  answered := rfl

section

variable {token : Text} {s : State}

theorem messageOf_print (v : Value) : messageOf (print v) = v := by
  rw [messageOf, parse_print]
  rfl

theorem responseIn?_responseText (id result : Value) :
    responseIn? (responseText id result) = some (id, result) := by
  rw [responseIn?, responseText, messageOf_print, ofMessage_clientResponse]
  rfl

theorem responseIn?_eventText (e : Value) : responseIn? (eventText e) = none := by
  have hid : ofString "event" ≠ ofString "id" := by decide
  simp [responseIn?, eventText, messageOf_print, Incoming.ofMessage, Value.get?, hid, responseIn]

theorem responseIn?_parseFailed : responseIn? parseFailed = none := by
  have hid : ofString "error" ≠ ofString "id" := by decide
  have hevent : ofString "error" ≠ ofString "event" := by decide
  simp [responseIn?, parseFailed, messageOf_print, Incoming.ofMessage, Value.get?, hid, hevent,
    responseIn]

theorem ofText_requestText (id : Nat) (key : Text) (argument : Value) :
    Handler.ofText (requestText id key argument) = .calling (.num id 0) key argument := by
  rw [Handler.ofText, readCall_requestText]

theorem Conserved.master (h : Conserved s) {l : Rpc.Label} (hreceive : isReceive l = false) :
    Conserved (next token s (.master l)) := by
  have hwritten : ∃ more, (Rpc.next token s.master l).written = s.master.written ++ more := by
    rcases written_next token s.master l with hw | ⟨c, id, key, argument, -, -, hw⟩
    · exact ⟨[], by rw [hw, List.append_nil]⟩
    · exact ⟨_, hw⟩
  obtain ⟨more, hmore⟩ := hwritten
  refine ⟨?_, ?_, ?_⟩
  · simp only [next, hmore, List.length_append]
    exact Nat.le_add_right_of_le h.taken
  · simp only [next, hmore, List.take_append_of_le_length h.taken]
    exact h.called
  · have hfed := inbox_fed token s.master hreceive
    simp only [next]
    rw [← h.answered, ← hfed, ← Multiset.coe_add]
    abel

theorem Conserved.read (h : Conserved s) (hmore : s.taken < s.master.written.length) :
    Conserved (next token s .read) := by
  have hget : s.master.written[s.taken]? = some s.master.written[s.taken] :=
    List.getElem?_eq_getElem hmore
  obtain ⟨w, hw⟩ : ∃ w, s.master.written[s.taken]? = some w := ⟨_, hget⟩
  obtain ⟨id, key, argument⟩ := w
  simp only [next, hw, ofText_requestText]
  refine ⟨hmore, ?_, ?_⟩
  · simp only [List.take_add_one, hw, List.map_append, held_append, held_singleton]
    rw [← Multiset.coe_add, ← h.called]
    simp only [Handler.call?, Option.toList_some, List.map_cons, List.map_nil, asked]
    abel
  · simp only [held_append, held_singleton, Handler.response?, Option.toList_none,
      Multiset.coe_nil, add_zero]
    exact h.answered

theorem Conserved.noise (h : Conserved s) : Conserved (next token s .noise) := by
  refine ⟨h.taken, ?_, ?_⟩
  · simp only [next, held_append, held_singleton, Handler.call?, Option.toList_none,
      Multiset.coe_nil, add_zero]
    exact h.called
  · simp only [next, held_append, held_singleton, Handler.response?, responseIn?_parseFailed,
      Option.toList_none, Multiset.coe_nil, add_zero]
    exact h.answered

theorem Conserved.finish (h : Conserved s) (i : Nat) (result : Value) :
    Conserved (next token s (.finish i result)) := by
  simp only [next]
  split
  · next id key argument hi =>
      refine ⟨h.taken, ?_, ?_⟩
      · rw [← h.called, held_set hi, held_eraseIdx (f := Handler.call?) hi, List.map_append,
          ← Multiset.coe_add]
        simp only [Handler.call?, Option.toList_some, Option.toList_none, Multiset.coe_nil,
          zero_add, List.map_cons, List.map_nil, Run.call]
        abel
      · have hanswered := h.answered
        rw [held_eraseIdx hi] at hanswered
        simp only [List.map_append, ← Multiset.coe_add, ← hanswered]
        rw [held_set hi]
        simp only [Handler.response?, responseIn?_responseText, Option.toList_some,
          Option.toList_none, Multiset.coe_nil, zero_add, List.map_cons, List.map_nil, Run.response]
        abel
  · exact h

theorem Conserved.send (h : Conserved s) (i : Nat) (ok : Bool) :
    Conserved (next token s (.send i ok)) := by
  simp only [next]
  split
  · next text hi =>
      have hcalled := h.called
      have hanswered := h.answered
      rw [held_eraseIdx hi] at hcalled hanswered
      simp only [Handler.call?, Option.toList_none, Multiset.coe_nil, zero_add] at hcalled
      simp only [Handler.response?] at hanswered
      cases ok with
      | true =>
          refine ⟨h.taken, hcalled, ?_⟩
          simp only [cond_true, held_append, held_singleton]
          rw [← hanswered]
          abel
      | false =>
          refine ⟨h.taken, hcalled, ?_⟩
          simp only [cond_false, ← Multiset.coe_add]
          rw [← hanswered]
          abel
  · exact h

theorem Conserved.receive (h : Conserved s) : Conserved (next token s .receive) := by
  simp only [next]
  split
  · next text wire hwire =>
      refine ⟨h.taken, h.called, ?_⟩
      have hanswered := h.answered
      rw [hwire, held_cons] at hanswered
      simp only [Rpc.next, held_append, held_singleton]
      rw [← hanswered]
      simp only [responseIn?]
      abel
  · exact h

theorem Conserved.next (h : Conserved s) {l : Label} (hen : enabled s l) :
    Conserved (next token s l) := by
  cases l with
  | master l => exact h.master hen.2
  | read => exact h.read hen
  | noise => exact h.noise
  | finish i result => exact h.finish i result
  | send i ok => exact h.send i ok
  | event e =>
      refine ⟨h.taken, h.called, ?_⟩
      simp only [Internal.next, held_append, held_singleton, responseIn?_eventText,
        Option.toList_none, Multiset.coe_nil, add_zero]
      exact h.answered
  | receive => exact h.receive

theorem reachable_conserved (hs : (machine token).Reachable s) : Conserved s :=
  hs.invariant (M := machine token) (I := Conserved) Conserved.init
    fun _ _ _ h hen _ => h.next hen

/-- The machine of the calls runs inside. -/
theorem reachable_master (hs : (machine token).Reachable s) :
    (Rpc.machine token).Reachable s.master := by
  refine hs.invariant (M := machine token)
    (I := fun s => (Rpc.machine token).Reachable s.master) .init ?_
  intro s l _ h hen _
  cases l with
  | master l => exact h.step hen.1 trivial
  | read | finish =>
      simp only [machine, next]
      split <;> exact h
  | send i ok =>
      simp only [machine, next]
      split
      · cases ok <;> exact h
      · exact h
  | noise | event => exact h
  | receive =>
      simp only [machine, next]
      split
      · next text _ _ =>
          have hen : (Rpc.machine token).enabled s.master (.receive (messageOf text)) := trivial
          exact h.step hen trivial
      · exact h

/-! ## What is run and what is fed -/

namespace Conserved

/-- What is run was asked for, as it was asked for. -/
theorem ran_asked (h : Conserved s) {r : Run} (hr : r ∈ s.ran) :
    ∃ id : Nat, r.id = .num id 0 ∧ (id, r.key, r.argument) ∈ s.master.written := by
  have hmem : r.call ∈ held Handler.call? s.handlers + Multiset.ofList (s.ran.map Run.call) :=
    Multiset.mem_add.mpr (.inr (List.mem_map_of_mem hr))
  rw [h.called, Multiset.mem_coe, List.mem_map] at hmem
  obtain ⟨⟨id, key, argument⟩, hw, heq⟩ := hmem
  obtain ⟨hid, hkey, hargument⟩ : Value.num id 0 = r.id ∧ key = r.key ∧ argument = r.argument := by
    simpa [asked, Run.call] using heq
  refine ⟨id, hid.symm, ?_⟩
  rw [← hkey, ← hargument]
  exact List.mem_of_mem_take hw

theorem ran_once (h : Conserved s) (hw : (s.master.written.map Prod.fst).Nodup) :
    (s.ran.map Run.id).Nodup := by
  have hle : Multiset.ofList (s.ran.map Run.call) ≤
      Multiset.ofList ((s.master.written.take s.taken).map asked) := by
    rw [← h.called]
    exact Multiset.le_add_left _ _
  have hids := Multiset.map_le_map hle (f := Prod.fst)
  rw [Multiset.map_coe, Multiset.map_coe, List.map_map, List.map_map] at hids
  refine (Multiset.coe_nodup.mp (Multiset.nodup_of_le hids (Multiset.coe_nodup.mpr ?_)) :)
  have htake : ((s.master.written.take s.taken).map Prod.fst).Nodup := by
    rw [List.map_take]
    exact hw.sublist (List.take_sublist _ _)
  have hmap := htake.map (f := fun n : Nat => Value.num n 0) fun a b hab => by simpa using hab
  rwa [List.map_map] at hmap

/-- What the master handles as a response is what a call came to. -/
theorem fed_ran (h : Conserved s) {x : Value × Value} (hx : x ∈ s.fed) :
    ∃ r ∈ s.ran, r.response = x := by
  have hmem : x ∈ Multiset.ofList (s.ran.map Run.response) := by
    rw [← h.answered]
    exact Multiset.mem_add.mpr (.inl (Multiset.mem_add.mpr (.inr hx)))
  exact List.mem_map.mp hmem

theorem inbox_ran (h : Conserved s) {i : Nat} {id value : Value}
    (hi : s.master.inbox[i]? = some (.response id value)) :
    ∃ r ∈ s.ran, r.response = (id, value) := by
  have hinbox : (id, value) ∈ held responseIn s.master.inbox :=
    mem_held.mpr ⟨_, List.mem_of_getElem? hi, rfl⟩
  have hmem : (id, value) ∈ Multiset.ofList (s.ran.map Run.response) := by
    rw [← h.answered]
    simp only [Multiset.mem_add]
    exact .inl (.inl (.inr hinbox))
  exact List.mem_map.mp hmem

/-- The id of a response is the id of a message. -/
theorem inbox_id (h : Conserved s) {i n : Nat} {id value : Value}
    (hi : s.master.inbox[i]? = some (.response id value)) (hn : id.asU64? = some n) :
    id = .num n 0 := by
  obtain ⟨r, hr, hresponse⟩ := h.inbox_ran hi
  obtain ⟨m, hm, -⟩ := h.ran_asked hr
  obtain rfl : r.id = id := congrArg Prod.fst hresponse
  rw [hm] at hn ⊢
  have hu64 : n = m := by
    rw [Value.asU64?] at hn
    split at hn
    · exact (Option.some.inj hn).symm.trans (Int.toNat_natCast m)
    · simp at hn
  rw [hu64]

/-- A response that is still to be handled has not been handled. -/
theorem inbox_unfed (h : Conserved s) (hw : (s.master.written.map Prod.fst).Nodup) {i : Nat}
    {id value : Value} (hi : s.master.inbox[i]? = some (.response id value)) (value' : Value) :
    (id, value') ∉ s.fed := by
  intro hfed
  have hids : (Multiset.ofList (s.ran.map Run.response)).map Prod.fst =
      Multiset.ofList (s.ran.map Run.id) := by
    rw [Multiset.map_coe, List.map_map]
    rfl
  have hnodup := Multiset.coe_nodup.mpr (h.ran_once hw)
  rw [← hids, ← h.answered] at hnodup
  simp only [Multiset.map_add] at hnodup
  have hdisjoint := (Multiset.nodup_add.mp (Multiset.nodup_add.mp hnodup).1).2.2
  have hinbox : (id, value) ∈ held responseIn s.master.inbox :=
    mem_held.mpr ⟨_, List.mem_of_getElem? hi, rfl⟩
  have hleft := Multiset.disjoint_left.mp hdisjoint
    (Multiset.mem_add.mpr (.inr (Multiset.mem_map_of_mem Prod.fst hinbox)))
  exact hleft (Multiset.mem_map.mpr ⟨(id, value'), hfed, rfl⟩)

end Conserved

/-! ## What the master makes of it -/

/-- A callback stays until it is given a response, refused its message or dropped
with all others. -/
theorem callbacks_kept (token : Text) {m : Rpc.State} {id : Nat} {c : CallId} (l : Rpc.Label)
    (h : m.socket.callbacks id = some c) :
    (Rpc.next token m l).socket.callbacks id = some c ∨ l = .disconnected ∨
      (∃ d, l = .acquire d ∧ m.socket.nextId = id) ∨
      (∃ d key argument, l = .sent d false ∧ m.phase d = .sending id key argument) ∨
      ∃ i wire value, l = .handle i ∧ m.inbox[i]? = some (.response wire value) ∧
        wire.asU64? = some id := by
  cases l with
  | acquire d =>
      simp only [Rpc.next]
      split
      · simp only [ClientWebsocket.register, Function.update_apply]
        split
        · next hid => exact .inr (.inr (.inl ⟨d, rfl, hid.symm⟩))
        · exact .inl h
      · exact .inl h
  | sent d ok =>
      simp only [Rpc.next]
      split
      · next n key argument hphase =>
          cases ok with
          | true => exact .inl h
          | false =>
              simp only [cond_false, ClientWebsocket.forget, Function.update_apply]
              split
              · next hid => exact .inr (.inr (.inr (.inl ⟨d, key, argument, rfl, hid ▸ hphase⟩)))
              · exact .inl h
      · exact .inl h
  | resolve | reply =>
      simp only [Rpc.next]
      split <;> exact .inl h
  | handle i =>
      simp only [Rpc.next]
      split
      · next incoming hi =>
          cases incoming with
          | event | unknown => exact .inl h
          | response wire value =>
              simp only [State.handle, ClientWebsocket.feedResponse]
              cases hid : wire.asU64? with
              | none => exact .inl h
              | some n =>
                  cases hcb : m.socket.callbacks n with
                  | none => simp only [hcb, h, true_or]
                  | some d =>
                      simp only [hcb, State.setCall, ClientWebsocket.forget,
                        Function.update_apply]
                      split
                      · next heq =>
                          exact .inr (.inr (.inr (.inr ⟨i, wire, value, rfl, hi, heq ▸ hid⟩)))
                      · exact .inl h
      · exact .inl h
  | disconnected => exact .inr (.inl rfl)
  | browser | transfer | cancel | shellDone | drop | receive | forward | forwarded
  | disconnect => exact .inl h

theorem isSending_next {m : Rpc.State} {c : CallId} {l : Rpc.Label}
    (h : ((Rpc.next token m l).phase c).isSending = true) :
    ((m.phase c).isSending = true ∧ ∀ ok, l ≠ .sent c ok) ∨ l = .acquire c := by
  have hturned : Turned token c (m.calls c) l ((Rpc.next token m l).calls c) := turned_next l
  rw [State.phase] at h
  generalize hcall : (Rpc.next token m l).calls c = call at hturned h
  cases hturned with
  | acquired => exact .inr rfl
  | same =>
      refine .inl ⟨h, fun ok hl => ?_⟩
      obtain ⟨id, key, argument, hphase⟩ := Phase.eq_sending h
      subst hl
      have hself := congrArg Call.phase hcall
      simp only [Rpc.next, State.phase, hphase] at hself
      cases ok with
      | true | false => simp [State.setPhase, State.setCall] at hself
  | given => exact .inl ⟨h, fun ok hl => by simp at hl⟩
  | asked tag request => simp [ofRequest_notSending] at h
  | called | sent | refused | resolved | canceled | served | replied | dropped =>
      simp [Phase.isSending] at h

/-- What the calls and their ids say about the messages and the responses. -/
structure Delivered (s : State) : Prop where
  asked : ∀ id c key argument, (id, c) ∈ s.master.issued →
    (id, key, argument) ∈ s.master.written → Asked (s.master.calls c).origin key argument
  received : ∀ c value, value ∈ (s.master.calls c).received →
    ∃ id : Nat, (id, c) ∈ s.master.issued ∧ (Value.num id 0, value) ∈ s.fed
  pending : s.master.closed = false → ∀ (id : Nat) c, (id, c) ∈ s.master.issued →
    (s.master.phase c).isSending = true ∨ id ∈ s.master.written.map Prod.fst →
    (∀ value, (Value.num id 0, value) ∉ s.fed) → s.master.socket.callbacks id = some c

theorem Delivered.init : Delivered init where
  asked := by simp [Internal.init, State.init]
  received := by simp [Internal.init, State.init]
  pending := by simp [Internal.init, State.init]

theorem issued_subset (token : Text) (m : Rpc.State) (l : Rpc.Label) :
    m.issued ⊆ (Rpc.next token m l).issued := by
  rcases issued_next token m l with h | ⟨d, -, -, h⟩
  · rw [h]
    exact List.Subset.refl _
  · rw [h]
    exact List.subset_append_left _ _

/-- An id that was taken before a step stays with its call. -/
theorem issued_old {m : Rpc.State} {l : Rpc.Label} {id : Nat} {c : CallId}
    (hid : (id, c) ∈ (Rpc.next token m l).issued) :
    (id, c) ∈ m.issued ∨ l = .acquire c ∧ (m.phase c).isLocking = true ∧
      id = m.socket.nextId := by
  rcases issued_next token m l with h | ⟨d, rfl, hlock, h⟩
  · exact .inl (h ▸ hid)
  · rw [h, List.mem_append, List.mem_singleton] at hid
    rcases hid with hid | hid
    · exact .inl hid
    · obtain ⟨rfl, rfl⟩ : id = m.socket.nextId ∧ c = d := by simpa using hid
      exact .inr ⟨rfl, hlock, rfl⟩

/-- What is written was being sent by the call that has the id. -/
theorem written_old {m : Rpc.State} (hinv : Rpc.Inv token m) {l : Rpc.Label} {id : Nat}
    {key : Text} {argument : Value}
    (hw : (id, key, argument) ∈ (Rpc.next token m l).written) :
    (id, key, argument) ∈ m.written ∨ ∃ c, (id, c) ∈ m.issued ∧
      m.phase c = .sending id key argument ∧ Asked (m.calls c).origin key argument ∧
      l ≠ .sent c false := by
  rcases written_next token m l with h | ⟨c, n, k, a, hl, hphase, h⟩
  · exact .inl (h ▸ hw)
  · rw [h, List.mem_append, List.mem_singleton] at hw
    rcases hw with hw | hw
    · exact .inl hw
    · obtain ⟨rfl, rfl, rfl⟩ : id = n ∧ key = k ∧ argument = a := by simpa using hw
      have htold := hinv.told c
      rw [Told, hphase] at htold
      refine .inr ⟨c, htold.1, hphase, htold.2, ?_⟩
      rcases hl with rfl | rfl <;> simp

theorem Delivered.asked_next (h : Delivered s) {l : Rpc.Label}
    (hinv : Rpc.Inv token s.master) (hen : Rpc.enabled s.master l) {id : Nat} {c : CallId}
    {key : Text} {argument : Value} (hid : (id, c) ∈ (Rpc.next token s.master l).issued)
    (hw : (id, key, argument) ∈ (Rpc.next token s.master l).written)
    (hinv' : Rpc.Inv token (Rpc.next token s.master l)) :
    Asked ((Rpc.next token s.master l).calls c).origin key argument := by
  have hsub := issued_subset token s.master l
  have hcase : (id, c) ∈ s.master.issued ∧ Asked (s.master.calls c).origin key argument := by
    rcases written_old hinv hw with hold | ⟨d, hd, -, hasked, -⟩
    · obtain ⟨d, hd, -⟩ := hinv.writer id key argument hold
      obtain rfl : d = c := hinv'.call_unique (hsub hd) hid
      exact ⟨hd, h.asked id d key argument hd hold⟩
    · obtain rfl : d = c := hinv'.call_unique (hsub hd) hid
      exact ⟨hd, hasked⟩
  rw [origin_next (hinv.started id c hcase.1).1 hen]
  exact hcase.2

theorem Delivered.received_next (h : Delivered s) (hconserved : Conserved s) {l : Rpc.Label}
    (hinv : Rpc.Inv token s.master) {c : CallId} {value : Value}
    (hv : value ∈ ((Rpc.next token s.master l).calls c).received) :
    ∃ id : Nat, (id, c) ∈ (Rpc.next token s.master l).issued ∧
      (Value.num id 0, value) ∈ s.fed ++ (fedBy s.master l).toList := by
  have hsub := issued_subset token s.master l
  rcases Rpc.received_next hv with hold | ⟨i, wire, n, rfl, hi, hn, hcb⟩
  · obtain ⟨id, hid, hfed⟩ := h.received c value hold
    exact ⟨id, hsub hid, List.mem_append_left _ hfed⟩
  · refine ⟨n, hsub (hinv.pending n c hcb).1, List.mem_append_right _ ?_⟩
    obtain rfl : wire = .num n 0 := hconserved.inbox_id hi hn
    simp [fedBy, hi, responseIn]

theorem Delivered.pending_next (h : Delivered s) (hconserved : Conserved s) {l : Rpc.Label}
    (hinv : Rpc.Inv token s.master) (hinv' : Rpc.Inv token (Rpc.next token s.master l))
    (hen : Rpc.enabled s.master l) (hopen : (Rpc.next token s.master l).closed = false)
    {id : Nat} {c : CallId} (hid : (id, c) ∈ (Rpc.next token s.master l).issued)
    (hstage : ((Rpc.next token s.master l).phase c).isSending = true ∨
      id ∈ (Rpc.next token s.master l).written.map Prod.fst)
    (hunfed : ∀ value, (Value.num id 0, value) ∉ s.fed ++ (fedBy s.master l).toList) :
    (Rpc.next token s.master l).socket.callbacks id = some c := by
  have hopen' : s.master.closed = false := by
    by_contra hclosed
    rw [closed_next (Bool.not_eq_false _ ▸ hclosed)] at hopen
    simp at hopen
  have hold : ∀ value, (Value.num id 0, value) ∉ s.fed :=
    fun value hmem => hunfed value (List.mem_append_left _ hmem)
  rcases issued_old hid with hissued | ⟨rfl, hlock, rfl⟩
  · have hstarted := (hinv.started id c hissued).2
    have hnot : l ≠ .acquire c := by
      rintro rfl
      exact absurd (hstarted.symm.trans hen.1) (by simp)
    have hstage' : (s.master.phase c).isSending = true ∧ l ≠ .sent c false ∨
        id ∈ s.master.written.map Prod.fst := by
      rcases hstage with hsending | hwritten
      · rcases isSending_next hsending with ⟨hsending, hl⟩ | hl
        · exact .inl ⟨hsending, hl false⟩
        · exact absurd hl hnot
      · obtain ⟨⟨n, key, argument⟩, hw, rfl⟩ := List.mem_map.mp hwritten
        rcases written_old hinv hw with hw | ⟨d, hd, hphase, -, hl⟩
        · exact .inr (List.mem_map_of_mem hw)
        · obtain rfl := hinv.call_unique hd hissued
          exact .inl ⟨by rw [hphase]; rfl, hl⟩
    have hcb : s.master.socket.callbacks id = some c :=
      h.pending hopen' id c hissued (hstage'.imp_left And.left) hold
    rcases callbacks_kept token l hcb with
      hkept | rfl | ⟨d, rfl, rfl⟩ | ⟨d, key, argument, rfl, hphase⟩ | ⟨i, wire, value, rfl, hi, hn⟩
    · exact hkept
    · exact absurd hopen (by simp [Rpc.next])
    · -- the id that is taken is no id of an earlier call
      have hnew : (s.master.socket.nextId, d) ∈ (Rpc.next token s.master (.acquire d)).issued := by
        obtain ⟨key, argument, hphase⟩ := Phase.eq_locking hen.1
        simp [Rpc.next, hphase]
      rw [hinv'.call_unique hnew hid] at hnot
      exact absurd rfl hnot
    · obtain rfl : d = c := by
        have htold := hinv.told d
        rw [Told, hphase] at htold
        exact hinv.call_unique htold.1 hissued
      rcases hstage' with ⟨-, hl⟩ | hwritten
      · exact absurd rfl hl
      · obtain ⟨⟨n, k, a⟩, hw, rfl⟩ := List.mem_map.mp hwritten
        obtain ⟨e, he, hnotSending⟩ := hinv.writer n k a hw
        rw [hinv.call_unique he hissued, hphase] at hnotSending
        simp [Phase.isSending] at hnotSending
    · -- the response that takes the callback away is fed
      obtain rfl : wire = .num id 0 := hconserved.inbox_id hi hn
      refine absurd ?_ (hunfed value)
      simp [fedBy, hi, responseIn]
  · obtain ⟨key, argument, hphase⟩ := Phase.eq_locking hlock
    simp [Rpc.next, hphase, ClientWebsocket.register]

theorem Delivered.master (h : Delivered s) (hconserved : Conserved s) {l : Rpc.Label}
    (hinv : Rpc.Inv token s.master) (hinv' : Rpc.Inv token (Rpc.next token s.master l))
    (hen : Rpc.enabled s.master l) : Delivered (next token s (.master l)) where
  asked _ _ _ _ hid hw := h.asked_next hinv hen hid hw hinv'
  received _ _ hv := h.received_next hconserved hinv hv
  pending hopen _ _ hid hstage hunfed :=
    h.pending_next hconserved hinv hinv' hen hopen hid hstage hunfed

/-- The client touches nothing of the master but its inbox. -/
theorem client_frame (token : Text) {l : Label} (hl : ∀ m, l ≠ .master m) :
    (∃ inbox, (next token s l).master = { s.master with inbox }) ∧
      (next token s l).fed = s.fed := by
  cases l with
  | master m => exact absurd rfl (hl m)
  | read | finish =>
      simp only [next]
      split <;> exact ⟨⟨_, rfl⟩, rfl⟩
  | send i ok =>
      simp only [next]
      split
      · cases ok <;> exact ⟨⟨_, rfl⟩, rfl⟩
      · exact ⟨⟨_, rfl⟩, rfl⟩
  | noise | event => exact ⟨⟨_, rfl⟩, rfl⟩
  | receive =>
      simp only [next]
      split <;> exact ⟨⟨_, rfl⟩, rfl⟩

theorem client_issued (token : Text) {l : Label} (hl : ∀ m, l ≠ .master m) :
    (next token s l).master.issued = s.master.issued := by
  obtain ⟨⟨inbox, hmaster⟩, -⟩ := client_frame (s := s) token hl
  rw [hmaster]

theorem Delivered.client (h : Delivered s) {l : Label} (hl : ∀ m, l ≠ .master m) :
    Delivered (next token s l) := by
  obtain ⟨⟨inbox, hmaster⟩, hfed⟩ := client_frame (s := s) token hl
  constructor
  · rw [hmaster]
    exact h.asked
  · rw [hmaster, hfed]
    exact h.received
  · rw [hmaster, hfed]
    exact h.pending

theorem reachable_delivered (hs : (machine token).Reachable s)
    (hcount : s.master.issued.length < 2 ^ 64) : Delivered s := by
  revert hcount
  refine hs.invariant (M := machine token)
    (I := fun s => s.master.issued.length < 2 ^ 64 → Delivered s) (fun _ => Delivered.init) ?_
  intro s l hs h hen _ hcount
  by_cases hmaster : ∃ m, l = .master m
  · obtain ⟨m, rfl⟩ := hmaster
    have hold : s.master.issued.length < 2 ^ 64 :=
      Nat.lt_of_le_of_lt (issued_length_le m) hcount
    have hreach := reachable_master hs
    exact (h hold).master (reachable_conserved hs) (reachable_inv hreach hold)
      (reachable_inv (hreach.step hen.1 trivial) hcount) hen.1
  · have hclient : ∀ m, l ≠ .master m := fun m hl => hmaster ⟨m, hl⟩
    have hsame : (next token s l).master.issued = s.master.issued := client_issued token hclient
    exact (h (hsame ▸ hcount)).client hclient

/-! ## From the request to the reply -/

/-- What the handler of a browser's request may come to: a forwarded call is
answered with what the client came to when it ran that call under its own id. -/
def Answer (token : Text) (s : State) (c : CallId) (request : Option Value)
    (outcome : Except RequestError Value) : Prop :=
  match Session.Call.ofRequest request with
  | .shell _ => outcome = .ok .null ∨ outcome = .error .internalError
  | .token => outcome = .ok (.str token)
  | .unknown => outcome = .error .unknownRequest
  | .forward key argument =>
      outcome = .error .sshConnectNotEstablish ∨ outcome = .error .internalError ∨
        ∃ (id : Nat) (value : Value), (id, c) ∈ s.master.issued ∧
          ⟨.num id 0, key, argument, value⟩ ∈ s.ran ∧ outcome = .ok value

theorem answer_of_carries (hconserved : Conserved s) (hdelivered : Delivered s)
    (hinv : Rpc.Inv token s.master) {c : CallId} {request : Option Value}
    {outcome : Except RequestError Value}
    (h : Carries token s.master c request outcome) : Answer token s c request outcome := by
  unfold Carries Result at h
  unfold Answer
  cases hcall : Session.Call.ofRequest request with
  | shell argument | token | unknown =>
      rw [hcall] at h
      exact h
  | forward key argument =>
      rw [hcall] at h
      rcases h with h | h | ⟨id, value, hid, hw, hreceived, houtcome⟩
      · exact .inl h
      · exact .inr (.inl h)
      · obtain ⟨id', hid', hfed⟩ := hdelivered.received c value hreceived
        obtain rfl := hinv.id_unique hid hid'
        obtain ⟨⟨rid, rkey, rargument, rresult⟩, hran, hresponse⟩ := hconserved.fed_ran hfed
        obtain ⟨rfl, rfl⟩ : rid = .num id 0 ∧ rresult = value := by
          simpa [Run.response] using hresponse
        obtain ⟨n, hn, hasked⟩ := hconserved.ran_asked hran
        obtain rfl : id = n := by simpa using hn
        obtain ⟨rfl, rfl⟩ : rkey = key ∧ rargument = argument := by
          simpa using List.inj_on_of_nodup_map hinv.writtenOnce hasked hw rfl
        exact .inr (.inr ⟨id, rresult, hid, hran, houtcome⟩)

/-- What a browser is told is what its own call came to. -/
theorem reply_answer (hs : (machine token).Reachable s)
    (hcount : s.master.issued.length < 2 ^ 64) {c : CallId} {message : Value}
    (hm : (c, message) ∈ s.master.replies) : ∃ tag request outcome,
      (s.master.calls c).origin = .browser tag request ∧ message = replyMessage tag outcome ∧
        Answer token s c request outcome := by
  have hinv : Rpc.Inv token s.master := reachable_inv (reachable_master hs) hcount
  obtain ⟨tag, request, outcome, horigin, hmessage, hcarries⟩ := hinv.reply c message hm
  exact ⟨tag, request, outcome, horigin, hmessage,
    answer_of_carries (reachable_conserved hs) (reachable_delivered hs hcount) hinv hcarries⟩

/-- The internal client runs what it was asked for, under an id that belongs to
the call that asked, and it runs nothing twice; and what a browser is told is
what its own call came to. -/
theorem calls_runOnce (hs : (machine token).Reachable s)
    (hcount : s.master.issued.length < 2 ^ 64) :
    (s.ran.map Run.id).Nodup ∧
      (∀ r ∈ s.ran, ∃ (id : Nat) (c : CallId), r.id = .num id 0 ∧
        (id, c) ∈ s.master.issued ∧ Asked (s.master.calls c).origin r.key r.argument) ∧
      ∀ c message, (c, message) ∈ s.master.replies → ∃ tag request outcome,
        (s.master.calls c).origin = .browser tag request ∧
          message = replyMessage tag outcome ∧ Answer token s c request outcome := by
  have hconserved : Conserved s := reachable_conserved hs
  have hdelivered : Delivered s := reachable_delivered hs hcount
  have hinv : Rpc.Inv token s.master := reachable_inv (reachable_master hs) hcount
  refine ⟨hconserved.ran_once hinv.writtenOnce, ?_, fun c message => reply_answer hs hcount⟩
  intro r hr
  obtain ⟨id, hid, hw⟩ := hconserved.ran_asked hr
  obtain ⟨c, hc, -⟩ := hinv.writer id r.key r.argument hw
  exact ⟨id, c, hid, hc, hdelivered.asked id c r.key r.argument hc hw⟩

/-- A browser asks whether a path exists, and is told. -/
def answered : List Label :=
  [.master (.browser 0 (some (.num 7 0)) (existsRequest 0x61)), .master (.acquire 0),
    .master (.sent 0 true), .read, .finish 0 (.bool true), .event .null, .send 0 true, .receive,
    .receive, .master (.handle 1), .master (.resolve 0), .master (.reply 0)]

def answeredEnd : State := answered.foldl (next [0x74]) init

theorem answered_reachable : (machine [0x74]).Reachable answeredEnd :=
  Machine.reaches_of_path (M := machine [0x74]) (by decide +kernel)

theorem calls_runOnce_answered : answeredEnd.master.replies.length = 1 ∧
    ∀ c message, (c, message) ∈ answeredEnd.master.replies → ∃ tag request outcome,
      (answeredEnd.master.calls c).origin = .browser tag request ∧
        message = replyMessage tag outcome ∧ Answer [0x74] answeredEnd c request outcome :=
  ⟨by decide +kernel, (calls_runOnce answered_reachable (by decide +kernel)).2.2⟩

/-! ## Nothing is answered to nobody -/

/-- As long as the connection is open, the callback of a response is there. -/
theorem callback_there (hs : (machine token).Reachable s)
    (hcount : s.master.issued.length < 2 ^ 64) (hopen : s.master.closed = false) {i : Nat}
    {wire value : Value} (hi : s.master.inbox[i]? = some (.response wire value)) :
    ∃ (id : Nat) (c : CallId), wire = .num id 0 ∧ wire.asU64? = some id ∧
      (id, c) ∈ s.master.issued ∧ s.master.socket.callbacks id = some c := by
  have hconserved : Conserved s := reachable_conserved hs
  have hinv : Rpc.Inv token s.master := reachable_inv (reachable_master hs) hcount
  obtain ⟨r, hr, hresponse⟩ := hconserved.inbox_ran hi
  obtain ⟨id, hid, hw⟩ := hconserved.ran_asked hr
  obtain rfl : r.id = wire := congrArg Prod.fst hresponse
  obtain ⟨c, hc, -⟩ := hinv.writer id r.key r.argument hw
  have hlt : id < 2 ^ 64 := by
    have hmem : id ∈ List.range' 1 s.master.issued.length := by
      rw [← hinv.ids]
      exact List.mem_map_of_mem hc
    obtain ⟨k, hk, rfl⟩ := List.mem_range'.mp hmem
    omega
  refine ⟨id, c, hid, by rw [hid, asU64?_id hlt], hc, ?_⟩
  refine (reachable_delivered hs hcount).pending hopen id c hc
    (.inr (List.mem_map_of_mem hw)) fun value' => ?_
  exact hid ▸ hconserved.inbox_unfed hinv.writtenOnce hi value'

theorem received_kept {m : Rpc.State} {l : Rpc.Label} (hen : Rpc.enabled m l) {c : CallId}
    (hstarted : (m.phase c).isIdle = false) :
    (m.calls c).received ⊆ ((Rpc.next token m l).calls c).received := by
  have hturned : Turned token c (m.calls c) l ((Rpc.next token m l).calls c) := turned_next l
  generalize (Rpc.next token m l).calls c = call at hturned
  cases hturned with
  | asked | called => exact absurd (hstarted.symm.trans hen) (by simp)
  | given => exact List.subset_append_left _ _
  | _ => exact List.Subset.refl _

theorem handle_gives (token : Text) {m : Rpc.State} {i id : Nat} {c : CallId} {wire value : Value}
    (hi : m.inbox[i]? = some (.response wire value)) (hid : wire.asU64? = some id)
    (hcb : m.socket.callbacks id = some c) :
    value ∈ ((Rpc.next token m (.handle i)).calls c).received := by
  have hfeed : m.socket.feedResponse wire = .ok (c, m.socket.forget id) := by
    rw [ClientWebsocket.feedResponse, hid]
    simp only [hcb]
  simp only [Rpc.next, hi, State.handle, hfeed, State.setCall_self]
  exact List.mem_append_right _ List.mem_cons_self

/-- What the master has handled was given to the call it is for. -/
def Given (s : State) : Prop :=
  s.master.closed = false → ∀ (id : Nat) c value, (id, c) ∈ s.master.issued →
    (Value.num id 0, value) ∈ s.fed → value ∈ (s.master.calls c).received

theorem Given.master (h : Given s) (hs : (machine token).Reachable s) {l : Rpc.Label}
    (hen : Rpc.enabled s.master l)
    (hcount : (Rpc.next token s.master l).issued.length < 2 ^ 64) :
    Given (next token s (.master l)) := by
  intro hopen id c value hid hfed
  have hopen' : s.master.closed = false := by
    by_contra hclosed
    have hstays : (Rpc.next token s.master l).closed = true :=
      closed_next (by simpa using hclosed)
    exact absurd (hopen.symm.trans hstays) (by simp)
  have hold : s.master.issued.length < 2 ^ 64 :=
    Nat.lt_of_le_of_lt (issued_length_le l) hcount
  have hconserved : Conserved s := reachable_conserved hs
  have hinv : Rpc.Inv token s.master := reachable_inv (reachable_master hs) hold
  have hinv' : Rpc.Inv token (Rpc.next token s.master l) :=
    reachable_inv ((reachable_master hs).step hen trivial) hcount
  have hsub := issued_subset token s.master l
  rcases List.mem_append.mp hfed with hfed | hfed
  · obtain ⟨r, hr, hresponse⟩ := hconserved.fed_ran hfed
    obtain ⟨n, hn, hw⟩ := hconserved.ran_asked hr
    obtain rfl : id = n := by
      have hids : r.id = .num id 0 := congrArg Prod.fst hresponse
      simpa using hids.symm.trans hn
    obtain ⟨d, hd, -⟩ := hinv.writer id r.key r.argument hw
    obtain rfl := hinv'.call_unique (hsub hd) hid
    exact received_kept hen (hinv.started id d hd).1 (h hopen' id d value hd hfed)
  · cases l with
    | handle i =>
        cases hi : s.master.inbox[i]? with
        | none => simp [fedBy, hi] at hfed
        | some incoming =>
            cases incoming with
            | event | unknown => simp [fedBy, hi, responseIn] at hfed
            | response wire v =>
                obtain ⟨rfl, rfl⟩ : Value.num id 0 = wire ∧ value = v := by
                  simpa [fedBy, hi, responseIn] using hfed
                obtain ⟨n, d, hn, hu64, hd, hcb⟩ := callback_there hs hold hopen' hi
                obtain rfl : id = n := by simpa using hn
                obtain rfl : d = c := hinv'.call_unique (hsub hd) hid
                exact handle_gives token hi hu64 hcb
    | _ => simp [fedBy] at hfed

theorem Given.client (h : Given s) {l : Label} (hl : ∀ m, l ≠ .master m) :
    Given (next token s l) := by
  obtain ⟨⟨inbox, hmaster⟩, hfed⟩ := client_frame (s := s) token hl
  rw [Given, hmaster, hfed]
  exact h

theorem reachable_given (hs : (machine token).Reachable s)
    (hcount : s.master.issued.length < 2 ^ 64) : Given s := by
  revert hcount
  refine hs.invariant (M := machine token)
    (I := fun s => s.master.issued.length < 2 ^ 64 → Given s) ?_ ?_
  · intro _ _ id c value hid
    simp [machine, init, State.init] at hid
  · intro s l hs h hen _ hcount
    by_cases hmaster : ∃ m, l = .master m
    · obtain ⟨m, rfl⟩ := hmaster
      have hold : s.master.issued.length < 2 ^ 64 :=
        Nat.lt_of_le_of_lt (issued_length_le m) hcount
      exact (h hold).master hs hen.1 hcount
    · have hclient : ∀ m, l ≠ .master m := fun m hl => hmaster ⟨m, hl⟩
      have hsame : (next token s l).master.issued = s.master.issued := client_issued token hclient
      exact (h (hsame ▸ hcount)).client hclient

/-! ## Where a call is -/

def unreadIds (s : State) : List Value :=
  (s.master.written.drop s.taken).map fun w => .num w.1 0

def callingIds (s : State) : List Value := (s.handlers.filterMap Handler.call?).map Prod.fst

/-- The responses that are with a handler, on the socket or in the inbox. -/
def responses (s : State) : List (Value × Value) :=
  s.handlers.filterMap Handler.response? ++ s.wire.filterMap responseIn? ++
    s.master.inbox.filterMap responseIn

/-- The ids of the messages to the client, by what has become of them. -/
def places (s : State) : List Value :=
  unreadIds s ++ callingIds s ++ (responses s ++ s.fed ++ s.lost).map Prod.fst

theorem coe_responses (s : State) : Multiset.ofList (responses s) =
    held Handler.response? s.handlers + held responseIn? s.wire +
      held responseIn s.master.inbox := by
  rw [responses, ← Multiset.coe_add, ← Multiset.coe_add]
  rfl

/-- A message is in one place, and in one only. -/
theorem Conserved.places (h : Conserved s) :
    Internal.places s ~ s.master.written.map fun w => .num w.1 0 := by
  have hcalled : callingIds s ++ s.ran.map Run.id ~
      (s.master.written.take s.taken).map fun w => .num w.1 0 := by
    have hids := congrArg (Multiset.map Prod.fst) h.called
    rw [held, Multiset.coe_add, Multiset.map_coe, Multiset.map_coe, List.map_append,
      List.map_map, List.map_map] at hids
    exact Multiset.coe_eq_coe.mp hids
  have hanswered : (responses s ++ s.fed ++ s.lost).map Prod.fst ~ s.ran.map Run.id := by
    have hids := congrArg (Multiset.map Prod.fst) h.answered
    rw [← coe_responses, Multiset.coe_add, Multiset.coe_add, Multiset.map_coe, Multiset.map_coe,
      List.map_map] at hids
    exact Multiset.coe_eq_coe.mp hids
  calc Internal.places s
      ~ unreadIds s ++ callingIds s ++ s.ran.map Run.id := hanswered.append_left _
    _ ~ (callingIds s ++ s.ran.map Run.id) ++ unreadIds s := by
        rw [List.append_assoc]
        exact List.perm_append_comm
    _ ~ ((s.master.written.take s.taken).map fun w => .num w.1 0) ++ unreadIds s :=
        hcalled.append_right _
    _ = s.master.written.map fun w => .num w.1 0 := by
        rw [unreadIds, ← List.map_append, List.take_append_drop]

/-- What becomes of a call while the connection is open. A message is with the
socket, the client or the master and nowhere twice; a response finds the callback
of its call; and a call that waits and was given nothing is on its way, unless its
answer could not be sent. -/
theorem awaited_onItsWay (hs : (machine token).Reachable s)
    (hcount : s.master.issued.length < 2 ^ 64) :
    places s ~ (s.master.written.map fun w => .num w.1 0) ∧ (places s).Nodup ∧
      (s.master.closed = false →
        (∀ (i : Nat) (wire value : Value), s.master.inbox[i]? = some (.response wire value) →
          ∃ c socket, s.master.socket.feedResponse wire = .ok (c, socket)) ∧
        ∀ c id, s.master.phase c = .awaiting id → (s.master.calls c).received = [] →
          .num id 0 ∈ unreadIds s ++ callingIds s ++ (responses s ++ s.lost).map Prod.fst) := by
  have hconserved : Conserved s := reachable_conserved hs
  have hinv : Rpc.Inv token s.master := reachable_inv (reachable_master hs) hcount
  have hplaces := hconserved.places
  refine ⟨hplaces, ?_, fun hopen => ⟨?_, ?_⟩⟩
  · refine hplaces.nodup_iff.mpr ?_
    have hmap := hinv.writtenOnce.map (f := fun n : Nat => Value.num n 0)
      fun a b hab => by simpa using hab
    rwa [List.map_map] at hmap
  · intro i wire value hi
    obtain ⟨id, c, -, hid, -, hcb⟩ := callback_there hs hcount hopen hi
    refine ⟨c, s.master.socket.forget id, ?_⟩
    rw [ClientWebsocket.feedResponse, hid]
    simp only [hcb]
  · intro c id hphase hnone
    have htold := hinv.told c
    rw [Told, hphase] at htold
    obtain ⟨hid, key, argument, -, hw⟩ := htold
    have hmem : Value.num id 0 ∈ places s :=
      hplaces.mem_iff.mpr (List.mem_map.mpr ⟨_, hw, rfl⟩)
    simp only [places, List.map_append, List.mem_append] at hmem ⊢
    rcases hmem with hmem | (hmem | hfed) | hmem
    · exact .inl hmem
    · exact .inr (.inl hmem)
    · -- what was fed was given
      obtain ⟨⟨wire, value⟩, hfed, rfl⟩ := List.mem_map.mp hfed
      have hgiven := reachable_given hs hcount hopen id c value hid hfed
      rw [hnone] at hgiven
      exact absurd hgiven (by simp)
    · exact .inr (.inr hmem)

theorem awaited_onItsWay_answered :
    (places answeredEnd).length = 1 ∧ (places answeredEnd).Nodup :=
  ⟨by decide +kernel, (awaited_onItsWay answered_reachable (by decide +kernel)).2.1⟩

end

end WebSshTool.Rpc.Internal
