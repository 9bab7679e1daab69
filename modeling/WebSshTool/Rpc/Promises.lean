import WebSshTool.Rpc.Delivery
import WebSshTool.Rpc.Rest

/-!
# Every promise of the page is resolved with its own result

A call of the page, the message it sends, the handler the message gets and the
reply of that handler are four numberings of the same calls, and each of them
has one of the next. A callback waits under the number of its call from the time
the message is sent until the reply is dispatched. So whatever the order in which
messages are encoded, handled and decoded, a reply finds the callback of the
call it belongs to. A message that the master cannot read has no handler, and its
callback waits for good.

Two counts have to be right: the page's, which is a float, and the master's.
-/

namespace WebSshTool.Rpc.Rest

open Json
open Dispatch (key?)
open Wire (ParseFloat deserialize joinFrom parseInteger units)

/-! ## What a step of the server does to what the page sees of it -/

/-- Replies are added at the end, and a handler that has begun keeps its message. -/
structure Seen (m m' : Rpc.State) : Prop where
  replies : m.replies <+: m'.replies
  begun : ∀ c, (m.phase c).isIdle = false →
    (m'.phase c).isIdle = false ∧ (m'.calls c).origin = (m.calls c).origin
  browser : ∀ c tag request, (m'.calls c).origin = .browser tag request →
    (m.calls c).origin = .browser tag request

/-- A reply stays in its place. -/
theorem Seen.reply {m m' : Rpc.State} (h : Seen m m') {j : Nat} {reply : CallId × Value}
    (hj : m.replies[j]? = some reply) : m'.replies[j]? = some reply := by
  obtain ⟨more, hmore⟩ := h.replies
  obtain ⟨hlt, -⟩ := List.getElem?_eq_some_iff.mp hj
  rw [← hmore, List.getElem?_append_left hlt, hj]

section

variable {token : Text}

theorem replies_next (token : Text) (m : Rpc.State) (l : Rpc.Label) :
    m.replies <+: (Rpc.next token m l).replies := by
  cases l with
  | reply c =>
      simp only [Rpc.next]
      split
      · exact List.prefix_append _ _
      · exact List.prefix_refl _
  | acquire | resolve =>
      simp only [Rpc.next]
      split <;> exact List.prefix_refl _
  | sent c ok =>
      simp only [Rpc.next]
      split
      · cases ok <;> exact List.prefix_refl _
      · exact List.prefix_refl _
  | handle i =>
      simp only [Rpc.next]
      split
      · next incoming _ =>
          cases incoming with
          | response id value =>
              simp only [Rpc.State.handle]
              split <;> exact List.prefix_refl _
          | event | unknown => exact List.prefix_refl _
      · exact List.prefix_refl _
  | browser | transfer | cancel | shellDone | drop | receive | forward | forwarded | disconnect
  | disconnected => exact List.prefix_refl _

theorem begun_next {m : Rpc.State} {l : Rpc.Label} (hen : Rpc.enabled m l) {c : CallId}
    (hbegun : (m.phase c).isIdle = false) : ((Rpc.next token m l).phase c).isIdle = false := by
  have hturned : Turned token c (m.calls c) l ((Rpc.next token m l).calls c) := turned_next l
  rw [Rpc.State.phase]
  generalize (Rpc.next token m l).calls c = call at hturned
  cases hturned with
  | same | given => exact hbegun
  | asked | called => exact absurd (hbegun.symm.trans hen) (by simp)
  | acquired | sent | refused | resolved | canceled | served | replied | dropped => rfl

theorem seen_master {m : Rpc.State} {l : Rpc.Label} (hen : Rpc.enabled m l)
    (hl : ∀ c tag request, l ≠ .browser c tag request) : Seen m (Rpc.next token m l) where
  replies := replies_next token m l
  begun _ hbegun := ⟨begun_next hen hbegun, origin_next hbegun hen⟩
  browser c tag request horigin := by
    have hturned : Turned token c (m.calls c) l ((Rpc.next token m l).calls c) := turned_next l
    generalize (Rpc.next token m l).calls c = call at hturned horigin
    cases hturned with
    | asked tag request => exact absurd rfl (hl c tag request)
    | called argument => simp at horigin
    | _ => exact horigin

theorem seen_server {t : Internal.State} {l : Internal.Label} (hen : Internal.enabled t l)
    (hl : isBrowser l = false) : Seen t.master (Internal.next token t l).master := by
  by_cases hmaster : ∃ m, l = .master m
  · obtain ⟨m, rfl⟩ := hmaster
    refine seen_master hen.1 ?_
    rintro c tag request rfl
    simp [isBrowser] at hl
  · have hclient : ∀ m, l ≠ .master m := fun m hm => hmaster ⟨m, hm⟩
    obtain ⟨⟨inbox, hframe⟩, -⟩ := Internal.client_frame (s := t) token hclient
    rw [hframe]
    exact ⟨List.prefix_refl _, fun c hbegun => ⟨hbegun, rfl⟩, fun _ _ _ h => h⟩

end

/-! ## Messages and replies -/

/-- What the master reads the request of a call as. -/
def RestCall.asked (float : ParseFloat) (call : RestCall) : Option Value :=
  (deserialize float call.text).bind (Value.get? (ofString "request"))

/-- A message that can be read has its tag and its request. -/
theorem read_text {float : ParseFloat} {call : RestCall} {message : Value}
    (htag : call.tag < 2 ^ 64) (h : deserialize float call.text = some message) :
    message.get? (ofString "tag") = some (.num call.tag 0) ∧
      message.get? (ofString "request") = call.asked float := by
  refine ⟨?_, by rw [RestCall.asked, h]; rfl⟩
  rw [RestCall.text, deserialize, parse_print] at h
  replace h := (Option.ite_none_right_eq_some.mp h).2
  rw [RestCall.message, traverse_obj] at h
  obtain ⟨ms, hms, rfl⟩ := h
  obtain ⟨k, tag, rest, hk, hnumber, hrest, rfl⟩ := traverseMembers_cons.mp hms
  obtain ⟨k', request, rest', hk', -, hnil, rfl⟩ := traverseMembers_cons.mp hrest
  obtain rfl := Option.some.inj hnil
  obtain rfl : ofString "tag" = k := Option.some.inj hk
  obtain rfl : ofString "request" = k' := Option.some.inj hk'
  have hread : parseInteger float call.tag 0 = some ((call.tag : Int), 0) :=
    if_pos ⟨rfl, by omega, by omega⟩
  obtain rfl : Value.num call.tag 0 = tag := by
    simpa [Value.traverse, hread] using hnumber
  have hne : ofString "request" ≠ ofString "tag" := by decide
  simp [Value.get?, hne]

/-- What the page finds in a reply is what the master put there, as the page has it. -/
theorem replyMessage_tag (tag : Option Value) (result : Except RequestError Value) :
    (units (replyMessage tag result)).get? (ofString "tag") = some (units (tag.getD .null)) :=
  rfl

theorem replyMessage_response (tag : Option Value) (result : Except RequestError Value) :
    (units (replyMessage tag result)).get? (ofString "response") =
      some (units (responseOf result)) :=
  rfl

/-- A tag of the page is a double. -/
theorem key?_tag {n : Nat} (h : n ≤ 2 ^ 53) : key? (units (.num n 0)) = some n := by
  have hround : Doubles.round n 0 = ((n : Int), 0) := Doubles.round_int (by omega)
  simp [units, Wire.doubles, Value.mapNumbers, Value.recode, hround, key?]

/-! ## The four numberings -/

/-- Message `i` was sent for call `n` and is handled by `c`. -/
def Serves (s : State) (n : Nat) (c : CallId) : Prop :=
  ∃ i : Nat, s.handlers[i]? = some (some c) ∧ s.sent[i]? = some n

/-- The message of call `n` was answered without a tag. -/
def Refused (s : State) (n : Nat) : Prop :=
  ∃ i : Nat, s.handlers[i]? = some none ∧ s.sent[i]? = some n

/-- The promise of a call was resolved by the dispatch of a reply to it. -/
def ResolvedBy (s : State) (n : Nat) (call : RestCall) (j : Nat) : Prop :=
  ∃ c message, s.server.master.replies[j]? = some (c, message) ∧ Serves s n c ∧
    call.responses = [(units message).get? (ofString "response")]

structure Linked (float : ParseFloat) (s : State) : Prop where
  counted : s.tag = s.calls.length
  tags : ∀ (n : Nat) (call : RestCall), s.calls[n]? = some call → call.tag = n
  sentOnce : s.sent.Nodup
  sent : ∀ (n : Nat) (call : RestCall), s.calls[n]? = some call →
    (n ∈ s.sent ↔ call.stage = .sent)
  known : ∀ n ∈ s.sent, n < s.calls.length
  callbacks : ∀ (n : Nat) (call : RestCall), s.calls[n]? = some call →
    (s.callbacks n = some n ↔
      (call.stage = .sent ∨ call.stage = .discarded) ∧ call.responses = [])
  own : ∀ t n : Nat, s.callbacks t = some n → t = n ∧ n < s.calls.length
  early : ∀ (n : Nat) (call : RestCall), s.calls[n]? = some call →
    call.stage = .encoding ∨ call.stage = .rejected → call.responses = []
  taken : s.handlers.length ≤ s.sent.length
  handlersOnce : ∀ (i j : Nat) (c : CallId), s.handlers[i]? = some (some c) →
    s.handlers[j]? = some (some c) → i = j
  served : ∀ (n : Nat) (call : RestCall) (c : CallId), s.calls[n]? = some call →
    Serves s n c → (s.server.master.phase c).isIdle = false ∧
      (s.server.master.calls c).origin = .browser (some (.num n 0)) (call.asked float)
  refused : ∀ (n : Nat) (call : RestCall), s.calls[n]? = some call → Refused s n →
    deserialize float call.text = none
  only : ∀ (c : CallId) (tag request : Option Value),
    (s.server.master.calls c).origin = .browser tag request → some c ∈ s.handlers
  dispatched : ∀ j ∈ s.dispatched, ∃ (n : Nat) (call : RestCall),
    s.calls[n]? = some call ∧ ResolvedBy s n call j
  resolved : ∀ (n : Nat) (call : RestCall), s.calls[n]? = some call → call.responses ≠ [] →
    ∃ j ∈ s.dispatched, ResolvedBy s n call j

theorem Linked.init (float : ParseFloat) : Linked float init where
  counted := rfl
  tags := by simp [Rest.init]
  sentOnce := .nil
  sent := by simp [Rest.init]
  known := by simp [Rest.init]
  callbacks := by simp [Rest.init]
  own := by simp [Rest.init]
  early := by simp [Rest.init]
  taken := Nat.le_refl 0
  handlersOnce := by simp [Rest.init]
  served := by simp [Rest.init, Serves]
  refused := by simp [Rest.init]
  only := by simp [Rest.init, Internal.init, Rpc.State.init]
  dispatched := by simp [Rest.init]
  resolved := by simp [Rest.init]

section

variable {float : ParseFloat} {token : Text} {s : State}

/-- A message has one handler, and a handler one message. -/
theorem Linked.serves_inj (h : Linked float s) {n n' : Nat} {c c' : CallId} (hn : Serves s n c)
    (hn' : Serves s n' c') : n = n' ↔ c = c' := by
  obtain ⟨i, hc, hs⟩ := hn
  obtain ⟨i', hc', hs'⟩ := hn'
  constructor
  · rintro rfl
    obtain rfl : i = i' := List.getElem?_inj (List.getElem?_eq_some_iff.mp hs).1 h.sentOnce
      |>.mp (hs.trans hs'.symm)
    exact Option.some.inj (Option.some.inj (hc.symm.trans hc'))
  · rintro rfl
    obtain rfl : i = i' := h.handlersOnce i i' c hc hc'
    exact Option.some.inj (hs.symm.trans hs')

/-- The server moves on. -/
theorem Linked.server (h : Linked float s) {server : Internal.State}
    (hseen : Seen s.server.master server.master) : Linked float { s with server } where
  counted := h.counted
  tags := h.tags
  sentOnce := h.sentOnce
  sent := h.sent
  known := h.known
  callbacks := h.callbacks
  own := h.own
  early := h.early
  taken := h.taken
  handlersOnce := h.handlersOnce
  served n call c hcall hserves := by
    obtain ⟨hbegun, horigin⟩ := h.served n call c hcall hserves
    obtain ⟨hbegun', horigin'⟩ := hseen.begun c hbegun
    exact ⟨hbegun', horigin'.trans horigin⟩
  refused := h.refused
  only c tag request horigin := h.only c tag request (hseen.browser c tag request horigin)
  dispatched j hj := by
    obtain ⟨n, call, hcall, c, message, hreply, hrest⟩ := h.dispatched j hj
    exact ⟨n, call, hcall, c, message, hseen.reply hreply, hrest⟩
  resolved n call hcall hne := by
    obtain ⟨j, hj, c, message, hreply, hrest⟩ := h.resolved n call hcall hne
    exact ⟨j, hj, c, message, hseen.reply hreply, hrest⟩

/-- One more message is begun with. -/
theorem getElem?_concat_handlers {handlers : List (Option CallId)} {x y : Option CallId} {i : Nat} :
    (handlers ++ [x])[i]? = some y ↔
      handlers[i]? = some y ∨ i = handlers.length ∧ x = y := by
  rcases Nat.lt_trichotomy i handlers.length with hlt | rfl | hgt
  · rw [List.getElem?_append_left hlt]
    simp [Nat.ne_of_lt hlt]
  · simp
  · rw [List.getElem?_eq_none (by simp; omega), List.getElem?_eq_none (by omega)]
    simp [Nat.ne_of_gt hgt]

/-- The next message gets the handler `x`. -/
theorem handled_concat {handlers : List (Option CallId)} {sent : List Nat} {x y : Option CallId}
    {m : Nat} : (∃ i : Nat, (handlers ++ [x])[i]? = some y ∧ sent[i]? = some m) ↔
      (∃ i : Nat, handlers[i]? = some y ∧ sent[i]? = some m) ∨
        x = y ∧ sent[handlers.length]? = some m := by
  constructor
  · rintro ⟨i, hi, hm⟩
    rcases getElem?_concat_handlers.mp hi with hold | ⟨rfl, hxy⟩
    · exact .inl ⟨i, hold, hm⟩
    · exact .inr ⟨hxy, hm⟩
  · rintro (⟨i, hi, hm⟩ | ⟨hxy, hm⟩)
    · exact ⟨i, getElem?_concat_handlers.mpr (.inl hi), hm⟩
    · exact ⟨_, getElem?_concat_handlers.mpr (.inr ⟨rfl, hxy⟩), hm⟩

/-- The master begins with a message it has read. -/
theorem Linked.begin (h : Linked float s) {c : CallId} {n : Nat} {call : RestCall}
    (hsent : s.sent[s.handlers.length]? = some n) (hcall : s.calls[n]? = some call)
    (hidle : (s.server.master.phase c).isIdle = true) :
    Linked float { s with
      server := Internal.next token s.server
        (.master (.browser c (some (.num n 0)) (call.asked float)))
      handlers := s.handlers ++ [some c] } := by
  have hfresh : some c ∉ s.handlers := by
    intro hc
    obtain ⟨i, hi⟩ := List.mem_iff_getElem?.mp hc
    have hlt : i < s.sent.length :=
      Nat.lt_of_lt_of_le (List.getElem?_eq_some_iff.mp hi).1 h.taken
    have hsent' : s.sent[i]? = some s.sent[i] := List.getElem?_eq_getElem hlt
    have hknown := h.known _ (List.mem_of_getElem? hsent')
    have hbegun := (h.served _ _ c (List.getElem?_eq_getElem hknown) ⟨i, hi, hsent'⟩).1
    exact absurd (hbegun.symm.trans hidle) (by simp)
  obtain ⟨s', hs'⟩ : ∃ s', s' = { s with
      server := Internal.next token s.server
        (.master (.browser c (some (.num n 0)) (call.asked float)))
      handlers := s.handlers ++ [some c] } := ⟨_, rfl⟩
  rw [← hs']
  have hself : s'.server.master.calls c =
      ⟨.browser (some (.num n 0)) (call.asked float), .ofRequest token (call.asked float), []⟩ := by
    rw [hs']
    exact Rpc.State.setCall_self ..
  have hother : ∀ d, d ≠ c → s'.server.master.calls d = s.server.master.calls d := by
    intro d hd
    rw [hs']
    exact Rpc.State.setCall_of_ne _ _ hd
  have hserves : ∀ m d, Serves s' m d ↔ Serves s m d ∨ c = d ∧ n = m := by
    intro m d
    rw [hs']
    refine handled_concat.trans (or_congr_right ?_)
    rw [hsent, Option.some.injEq, Option.some.injEq]
  have hreplies : s'.server.master.replies = s.server.master.replies := by
    rw [hs']
    rfl
  have hresolved : ∀ {m other j}, ResolvedBy s m other j → ResolvedBy s' m other j := by
    rintro m other j ⟨d, message, hreply, hd, hresponse⟩
    exact ⟨d, message, hreplies ▸ hreply, (hserves m d).mpr (.inl hd), hresponse⟩
  have hframe : s'.tag = s.tag ∧ s'.calls = s.calls ∧ s'.sent = s.sent ∧
      s'.callbacks = s.callbacks ∧ s'.dispatched = s.dispatched ∧
        s'.handlers = s.handlers ++ [some c] := by
    rw [hs']
    exact ⟨rfl, rfl, rfl, rfl, rfl, rfl⟩
  clear hs'
  obtain ⟨htag', hcalls', hsent', hcallbacks', hdispatched', hhandlers'⟩ := hframe
  exact {
    counted := by rw [htag', hcalls', h.counted]
    tags := hcalls' ▸ h.tags
    sentOnce := hsent' ▸ h.sentOnce
    sent := by rw [hcalls', hsent']; exact h.sent
    known := by rw [hcalls', hsent']; exact h.known
    callbacks := by rw [hcalls', hcallbacks']; exact h.callbacks
    own := by rw [hcalls', hcallbacks']; exact h.own
    early := hcalls' ▸ h.early
    taken := by
      have hlt := (List.getElem?_eq_some_iff.mp hsent).1
      rw [hhandlers', hsent', List.length_append, List.length_singleton]
      exact hlt
    handlersOnce := by
      intro i j d hi hj
      rw [hhandlers'] at hi hj
      rcases getElem?_concat_handlers.mp hi with hi | ⟨rfl, hd⟩
      · rcases getElem?_concat_handlers.mp hj with hj | ⟨rfl, hd⟩
        · exact h.handlersOnce i j d hi hj
        · exact absurd (hd ▸ List.mem_of_getElem? hi) hfresh
      · rcases getElem?_concat_handlers.mp hj with hj | ⟨rfl, -⟩
        · exact absurd (hd ▸ List.mem_of_getElem? hj) hfresh
        · rfl
    served := by
      intro m other d hm hd
      rw [hcalls'] at hm
      rcases (hserves m d).mp hd with hold | ⟨rfl, rfl⟩
      · have hd : d ≠ c := by
          rintro rfl
          obtain ⟨i, hi, -⟩ := hold
          exact hfresh (List.mem_of_getElem? hi)
        rw [Rpc.State.phase, hother d hd]
        exact h.served m other d hm hold
      · obtain rfl : call = other := Option.some.inj (hcall.symm.trans hm)
        rw [Rpc.State.phase, hself]
        refine ⟨?_, rfl⟩
        rw [Phase.ofRequest]
        split <;> rfl
    refused := by
      intro m other hm hrefused
      rw [Refused, hhandlers', hsent'] at hrefused
      rcases handled_concat.mp hrefused with hold | ⟨hnone, -⟩
      · exact h.refused m other (hcalls' ▸ hm) hold
      · cases hnone
    only := by
      intro d tag request horigin
      rw [hhandlers']
      by_cases hd : d = c
      · rw [hd]
        exact List.mem_append_right _ List.mem_cons_self
      · rw [hother d hd] at horigin
        exact List.mem_append_left _ (h.only d tag request horigin)
    dispatched := by
      intro j hj
      obtain ⟨m, other, hm, hother⟩ := h.dispatched j (hdispatched' ▸ hj)
      exact ⟨m, other, hcalls' ▸ hm, hresolved hother⟩
    resolved := by
      intro m other hm hne
      obtain ⟨j, hj, hother⟩ := h.resolved m other (hcalls' ▸ hm) hne
      exact ⟨j, hdispatched' ▸ hj, hresolved hother⟩ }

/-- The master cannot read the next message. -/
theorem Linked.refuse (h : Linked float s) {n : Nat} {call : RestCall}
    (hsent : s.sent[s.handlers.length]? = some n) (hcall : s.calls[n]? = some call)
    (hread : deserialize float call.text = none) (errors : Nat) :
    Linked float { s with handlers := s.handlers ++ [none], errors } := by
  have hserves : ∀ {m d}, Serves { s with handlers := s.handlers ++ [none], errors } m d ↔
      Serves s m d := by
    intro m d
    exact handled_concat.trans (or_iff_left (by simp))
  have hresolved : ∀ {m other j}, ResolvedBy s m other j →
      ResolvedBy { s with handlers := s.handlers ++ [none], errors } m other j := by
    rintro m other j ⟨d, message, hreply, hd, hresponse⟩
    exact ⟨d, message, hreply, hserves.mpr hd, hresponse⟩
  exact { h with
    taken := by
      have hlt := (List.getElem?_eq_some_iff.mp hsent).1
      simpa using hlt
    handlersOnce := by
      intro i j c hi hj
      refine h.handlersOnce i j c ?_ ?_
      · simpa using getElem?_concat_handlers.mp hi
      · simpa using getElem?_concat_handlers.mp hj
    served := fun m other d hm hd => h.served m other d hm (hserves.mp hd)
    refused := by
      intro m other hm hrefused
      rcases handled_concat.mp hrefused with hold | ⟨-, hs⟩
      · exact h.refused m other hm hold
      · obtain rfl : n = m := Option.some.inj (hsent.symm.trans hs)
        obtain rfl : call = other := Option.some.inj (hcall.symm.trans hm)
        exact hread
    only := fun d tag request horigin =>
      List.mem_append_left _ (h.only d tag request horigin)
    dispatched := by
      intro j hj
      obtain ⟨m, other, hm, hother⟩ := h.dispatched j hj
      exact ⟨m, other, hm, hresolved hother⟩
    resolved := by
      intro m other hm hne
      obtain ⟨j, hj, hother⟩ := h.resolved m other hm hne
      exact ⟨j, hj, hresolved hother⟩ }

/-- The master begins with the next message. -/
theorem Linked.deliver (h : Linked float s) {c : CallId} {n : Nat} {call : RestCall}
    (hsent : s.sent[s.handlers.length]? = some n) (hcall : s.calls[n]? = some call)
    (hidle : (s.server.master.phase c).isIdle = true) (hcount : s.calls.length ≤ 2 ^ 53) :
    Linked float (s.deliver float token c call.text) := by
  have htag : call.tag < 2 ^ 64 := by
    have hlt := (List.getElem?_eq_some_iff.mp hcall).1
    rw [h.tags n call hcall]
    omega
  rw [State.deliver]
  split
  · next message hmessage =>
      obtain ⟨htagOf, hrequest⟩ := read_text htag hmessage
      rw [htagOf, hrequest, h.tags n call hcall]
      exact h.begin hsent hcall hidle
  · next hread => exact h.refuse hsent hcall hread _

/-! ## The page's own steps -/

/-- A call before and after one of them is changed. -/
theorem getElem?_modify {calls : List RestCall} {n m : Nat} {f : RestCall → RestCall}
    {call : RestCall} : (calls.modify n f)[m]? = some call ↔
      ∃ old, calls[m]? = some old ∧ call = if n = m then f old else old := by
  rw [List.getElem?_modify]
  cases calls[m]? with
  | none => simp
  | some old =>
      by_cases hnm : n = m
      · simp [hnm, eq_comm]
      · simp [hnm, eq_comm]

/-- Call `n` is changed by `f`, but not its message, and more may have been sent. -/
structure Changed (n : Nat) (f : RestCall → RestCall) (s s' : State) : Prop where
  server : s'.server = s.server
  tag : s'.tag = s.tag
  calls : s'.calls = s.calls.modify n f
  sameTag : ∀ call, (f call).tag = call.tag
  sameText : ∀ call, (f call).text = call.text
  sent : s.sent <+: s'.sent
  handlers : s'.handlers = s.handlers

section

variable {n : Nat} {f : RestCall → RestCall} {s' : State}

theorem Changed.get (hc : Changed n f s s') {m : Nat} {call : RestCall} :
    s'.calls[m]? = some call ↔
      ∃ old, s.calls[m]? = some old ∧ call = if n = m then f old else old := by
  rw [hc.calls]
  exact getElem?_modify

theorem Changed.length (hc : Changed n f s s') : s'.calls.length = s.calls.length := by
  rw [hc.calls]
  exact List.length_modify ..

theorem Changed.text (hc : Changed n f s s') (m : Nat) (old : RestCall) :
    (if n = m then f old else old).text = old.text := by
  split
  · exact hc.sameText old
  · rfl

/-- What is handled was sent before. -/
theorem Changed.handled (hc : Changed n f s s') (h : Linked float s) {m : Nat} {x : Option CallId} :
    (∃ i : Nat, s'.handlers[i]? = some x ∧ s'.sent[i]? = some m) ↔
      ∃ i : Nat, s.handlers[i]? = some x ∧ s.sent[i]? = some m := by
  rw [hc.handlers]
  obtain ⟨more, hmore⟩ := hc.sent
  refine exists_congr fun i => and_congr_right fun hi => ?_
  have hlt : i < s.sent.length :=
    Nat.lt_of_lt_of_le (List.getElem?_eq_some_iff.mp hi).1 h.taken
  rw [← hmore, List.getElem?_append_left hlt]

theorem Changed.resolvedBy (hc : Changed n f s s') (h : Linked float s) {m j : Nat}
    {old call : RestCall} (hresolved : ResolvedBy s m old j)
    (hsame : call.responses = old.responses) : ResolvedBy s' m call j := by
  obtain ⟨c, message, hreply, hserves, hresponse⟩ := hresolved
  exact ⟨c, message, hc.server ▸ hreply, (hc.handled h).mpr hserves, hsame.trans hresponse⟩

theorem Changed.counted (hc : Changed n f s s') (h : Linked float s) :
    s'.tag = s'.calls.length := by
  rw [hc.tag, hc.length, h.counted]

theorem Changed.tags (hc : Changed n f s s') (h : Linked float s) (m : Nat) (call : RestCall)
    (hm : s'.calls[m]? = some call) : call.tag = m := by
  obtain ⟨old, hold, rfl⟩ := hc.get.mp hm
  split
  · exact (hc.sameTag old).trans (h.tags m old hold)
  · exact h.tags m old hold

theorem Changed.served (hc : Changed n f s s') (h : Linked float s) (m : Nat) (call : RestCall)
    (c : CallId) (hm : s'.calls[m]? = some call) (hserves : Serves s' m c) :
    (s'.server.master.phase c).isIdle = false ∧
      (s'.server.master.calls c).origin = .browser (some (.num m 0)) (call.asked float) := by
  obtain ⟨old, hold, rfl⟩ := hc.get.mp hm
  obtain ⟨hbegun, horigin⟩ := h.served m old c hold ((hc.handled h).mp hserves)
  rw [hc.server, RestCall.asked, hc.text]
  exact ⟨hbegun, horigin⟩

theorem Changed.refused (hc : Changed n f s s') (h : Linked float s) (m : Nat) (call : RestCall)
    (hm : s'.calls[m]? = some call) (hrefused : Refused s' m) :
    deserialize float call.text = none := by
  obtain ⟨old, hold, rfl⟩ := hc.get.mp hm
  rw [hc.text]
  exact h.refused m old hold ((hc.handled h).mp hrefused)

theorem Changed.only (hc : Changed n f s s') (h : Linked float s) (c : CallId)
    (tag request : Option Value)
    (horigin : (s'.server.master.calls c).origin = .browser tag request) :
    some c ∈ s'.handlers := by
  rw [hc.handlers]
  rw [hc.server] at horigin
  exact h.only c tag request horigin

end

theorem Linked.rest (h : Linked float s) (type : Text) (parameter : Value)
    (hcount : s.calls.length < 2 ^ 53) :
    Linked float (next float token s (.rest type parameter)) := by
  have hnew : ∀ n call, (next float token s (.rest type parameter)).calls[n]? = some call →
      s.calls[n]? = some call ∨
        n = s.calls.length ∧ call = ⟨s.tag, type, parameter, .encoding, []⟩ := by
    intro n call hcall
    simp only [next] at hcall
    rw [List.getElem?_append] at hcall
    split at hcall
    · exact .inl hcall
    · have hlt := (List.getElem?_eq_some_iff.mp hcall).1
      simp only [List.length_singleton] at hlt
      have hn : n = s.calls.length := by omega
      rw [hn, Nat.sub_self] at hcall
      exact .inr ⟨hn, (Option.some.inj hcall).symm⟩
  have hold : ∀ n call, s.calls[n]? = some call →
      (next float token s (.rest type parameter)).calls[n]? = some call := fun n call hcall =>
    (List.getElem?_append_left (List.getElem?_eq_some_iff.mp hcall).1).trans hcall
  have hnone : s.calls.length ∉ s.sent := fun hmem => Nat.lt_irrefl _ (h.known _ hmem)
  exact {
    counted := by
      simp only [next, increment, h.counted, if_pos hcount, List.length_append,
        List.length_singleton]
    tags := by
      intro n call hcall
      rcases hnew n call hcall with hcall | ⟨rfl, rfl⟩
      · exact h.tags n call hcall
      · exact h.counted
    sentOnce := h.sentOnce
    sent := by
      intro n call hcall
      rcases hnew n call hcall with hcall | ⟨rfl, rfl⟩
      · exact h.sent n call hcall
      · exact iff_of_false hnone (by simp)
    known := by
      intro n hn
      exact Nat.lt_of_lt_of_le (h.known n hn) (by simp [next])
    callbacks := by
      intro n call hcall
      rcases hnew n call hcall with hcall | ⟨rfl, rfl⟩
      · exact h.callbacks n call hcall
      · refine iff_of_false (fun hcb => ?_) (by simp)
        exact Nat.lt_irrefl _ (h.own _ _ hcb).2
    own := by
      intro t n hcb
      obtain ⟨ht, hn⟩ := h.own t n hcb
      exact ⟨ht, Nat.lt_of_lt_of_le hn (by simp [next])⟩
    early := by
      intro n call hcall
      rcases hnew n call hcall with hcall | ⟨rfl, rfl⟩
      · exact h.early n call hcall
      · exact fun _ => rfl
    taken := h.taken
    handlersOnce := h.handlersOnce
    served := by
      intro n call c hcall hserves
      rcases hnew n call hcall with hcall | ⟨rfl, rfl⟩
      · exact h.served n call c hcall hserves
      · obtain ⟨i, -, hi⟩ := hserves
        exact absurd (List.mem_of_getElem? hi) hnone
    refused := by
      intro n call hcall hrefused
      rcases hnew n call hcall with hcall | ⟨rfl, rfl⟩
      · exact h.refused n call hcall hrefused
      · obtain ⟨i, -, hi⟩ := hrefused
        exact absurd (List.mem_of_getElem? hi) hnone
    only := h.only
    dispatched := by
      intro j hj
      obtain ⟨n, call, hcall, hresolved⟩ := h.dispatched j hj
      exact ⟨n, call, hold n call hcall, hresolved⟩
    resolved := by
      intro n call hcall hne
      rcases hnew n call hcall with hcall | ⟨rfl, rfl⟩
      · exact h.resolved n call hcall hne
      · exact absurd rfl hne }

theorem eq_of_isEncoding {n : Nat} (h : isEncoding s n = true) :
    ∃ call, s.calls[n]? = some call ∧ call.stage = .encoding := by
  unfold isEncoding at h
  cases hcall : s.calls[n]? with
  | none => simp [hcall] at h
  | some call => exact ⟨call, rfl, by simpa [hcall] using h⟩

/-- The encoding of call `n` is over, one way or the other. -/
theorem Linked.stage (h : Linked float s) {n : Nat} (stage : Stage) (hstage : stage ≠ .encoding)
    (hencoding : isEncoding s n = true) {s' : State} (hserver : s'.server = s.server)
    (htag : s'.tag = s.tag) (hcalls : s'.calls = (s.setStage n stage).calls)
    (hcallbacks : ∀ t, s'.callbacks t =
      if t = n ∧ stage ≠ .rejected then some n else s.callbacks t)
    (hsent : s'.sent = if stage = .sent then s.sent ++ [n] else s.sent)
    (hhandlers : s'.handlers = s.handlers) (hdispatched : s'.dispatched = s.dispatched) :
    Linked float s' := by
  obtain ⟨call, hcall, hcallStage⟩ := eq_of_isEncoding hencoding
  have hlt : n < s.calls.length := (List.getElem?_eq_some_iff.mp hcall).1
  have hnone : n ∉ s.sent := by
    rw [h.sent n call hcall, hcallStage]
    simp
  have hmem : ∀ {m}, m ∈ s'.sent ↔ m ∈ s.sent ∨ m = n ∧ stage = .sent := by
    intro m
    rw [hsent]
    split <;> simp [*]
  have hprefix : s.sent <+: s'.sent := by
    rw [hsent]
    split
    · exact List.prefix_append _ _
    · exact List.prefix_refl _
  have hc : Changed n (fun call => { call with stage }) s s' :=
    ⟨hserver, htag, hcalls, fun _ => rfl, fun _ => rfl, hprefix, hhandlers⟩
  have hresponses : ∀ (m : Nat) (old : RestCall),
      (if n = m then { old with stage } else old).responses = old.responses := by
    intro m old
    split <;> rfl
  exact {
    counted := hc.counted h
    tags := hc.tags h
    sentOnce := by
      rw [hsent]
      split
      · refine h.sentOnce.append (List.nodup_singleton n) fun m hm hmn => ?_
        exact hnone (List.mem_singleton.mp hmn ▸ hm)
      · exact h.sentOnce
    sent := by
      intro m other hm
      obtain ⟨old, hold, rfl⟩ := hc.get.mp hm
      rw [hmem]
      by_cases hnm : n = m
      · subst hnm
        simp [hnone]
      · simp [hnm, Ne.symm hnm, h.sent m old hold]
    known := by
      intro m hm
      rw [hc.length]
      rcases hmem.mp hm with hm | ⟨rfl, -⟩
      · exact h.known m hm
      · exact hlt
    callbacks := by
      intro m other hm
      obtain ⟨old, hold, rfl⟩ := hc.get.mp hm
      rw [hcallbacks]
      by_cases hnm : n = m
      · subst hnm
        obtain rfl : call = old := Option.some.inj (hcall.symm.trans hold)
        have hempty := h.early n call hcall (.inl hcallStage)
        have hnot : s.callbacks n ≠ some n := by
          rw [ne_eq, h.callbacks n call hcall, hcallStage]
          simp
        cases stage with
        | encoding => exact absurd rfl hstage
        | rejected => simp [hnot]
        | discarded | sent => simp [hempty]
      · simp [hnm, Ne.symm hnm, h.callbacks m old hold]
    own := by
      intro t m hcb
      rw [hcallbacks] at hcb
      rw [hc.length]
      split at hcb
      · next ht =>
          obtain rfl : n = m := Option.some.inj hcb
          exact ⟨ht.1, hlt⟩
      · exact h.own t m hcb
    early := by
      intro m other hm hother
      obtain ⟨old, hold, rfl⟩ := hc.get.mp hm
      rw [hresponses]
      by_cases hnm : n = m
      · subst hnm
        obtain rfl : call = old := Option.some.inj (hcall.symm.trans hold)
        exact h.early n call hcall (.inl hcallStage)
      · rw [if_neg hnm] at hother
        exact h.early m old hold hother
    taken := by
      rw [hhandlers]
      exact Nat.le_trans h.taken hprefix.length_le
    handlersOnce := hhandlers ▸ h.handlersOnce
    served := hc.served h
    refused := hc.refused h
    only := hc.only h
    dispatched := by
      intro j hj
      obtain ⟨m, old, hold, hresolved⟩ := h.dispatched j (hdispatched ▸ hj)
      exact ⟨m, _, hc.get.mpr ⟨old, hold, rfl⟩, hc.resolvedBy h hresolved (hresponses m old)⟩
    resolved := by
      intro m other hm hne
      obtain ⟨old, hold, rfl⟩ := hc.get.mp hm
      rw [hresponses] at hne
      obtain ⟨j, hj, hresolved⟩ := h.resolved m old hold hne
      exact ⟨j, hdispatched ▸ hj, hc.resolvedBy h hresolved (hresponses m old)⟩ }

/-! ## A reply finds its callback -/

theorem Linked.reply_found (h : Linked float s) (hinv : Rpc.Inv token s.server.master) {j : Nat}
    {c : CallId} {message : Value} (hj : s.server.master.replies[j]? = some (c, message))
    (hfresh : j ∉ s.dispatched) : ∃ n call result, s.calls[n]? = some call ∧ Serves s n c ∧
      message = replyMessage (some (.num n 0)) result ∧ s.callbacks n = some n ∧
        call.responses = [] := by
  obtain ⟨tag, request, result, horigin, hmessage, -⟩ :=
    hinv.reply c message (List.mem_of_getElem? hj)
  obtain ⟨i, hi⟩ := List.mem_iff_getElem?.mp (h.only c tag request horigin)
  have hlt : i < s.sent.length :=
    Nat.lt_of_lt_of_le (List.getElem?_eq_some_iff.mp hi).1 h.taken
  obtain ⟨n, hn⟩ : ∃ n, s.sent[i]? = some n := ⟨_, List.getElem?_eq_getElem hlt⟩
  obtain ⟨call, hcall⟩ : ∃ call, s.calls[n]? = some call :=
    ⟨_, List.getElem?_eq_getElem (h.known n (List.mem_of_getElem? hn))⟩
  have hserves : Serves s n c := ⟨i, hi, hn⟩
  obtain ⟨rfl, -⟩ : tag = some (.num n 0) ∧ request = call.asked float := by
    simpa [horigin] using (h.served n call c hcall hserves).2
  have hempty : call.responses = [] := by
    by_contra hne
    obtain ⟨j', hj', c', message', hreply, hserves', -⟩ := h.resolved n call hcall hne
    obtain rfl : c = c' := (h.serves_inj hserves hserves').mp rfl
    -- a handler replies once, so it would be this reply
    have hplace : j = j' := by
      have hnodup := hinv.repliedOnce
      have hlt : j < (s.server.master.replies.map Prod.fst).length := by
        rw [List.length_map]
        exact (List.getElem?_eq_some_iff.mp hj).1
      refine (List.getElem?_inj hlt hnodup).mp ?_
      rw [List.getElem?_map, List.getElem?_map, hj, hreply]
      rfl
    exact hfresh (hplace ▸ hj')
  refine ⟨n, call, result, hcall, hserves, hmessage, ?_, hempty⟩
  have hsent := (h.sent n call hcall).mp (List.mem_of_getElem? hn)
  exact (h.callbacks n call hcall).mpr ⟨.inl hsent, hempty⟩

theorem Linked.dispatch (h : Linked float s) (hinv : Rpc.Inv token s.server.master)
    (hcount : s.calls.length ≤ 2 ^ 53) {j : Nat} (hlt : j < s.server.master.replies.length)
    (hfresh : j ∉ s.dispatched) :
    Linked float (next float token s (.dispatch j)) := by
  obtain ⟨⟨c, message⟩, hj⟩ : ∃ reply, s.server.master.replies[j]? = some reply :=
    ⟨_, List.getElem?_eq_getElem hlt⟩
  obtain ⟨n, call, result, hcall, hserves, rfl, hcb, hempty⟩ := h.reply_found hinv hj hfresh
  have hnext : next float token s (.dispatch j) =
      { s with
        callbacks := Function.update s.callbacks n none
        calls := s.calls.modify n fun call =>
          { call with responses := call.responses ++ [some (units (responseOf result))] }
        dispatched := s.dispatched ++ [j] } := by
    have hn : n < s.calls.length := (List.getElem?_eq_some_iff.mp hcall).1
    have hkey : key? (units (.num n 0)) = some n := key?_tag (by omega)
    simp [next, hj, State.dispatch, replyMessage_tag, hkey, hcb, replyMessage_response,
      State.resolve]
  obtain ⟨s', hs'⟩ : ∃ s', s' = next float token s (.dispatch j) := ⟨_, rfl⟩
  rw [← hs']
  rw [hnext] at hs'
  let f (old : RestCall) : RestCall :=
    { old with responses := old.responses ++ [some (units (responseOf result))] }
  have hc : Changed n f s s' := by
    subst hs'
    exact ⟨rfl, rfl, rfl, fun _ => rfl, fun _ => rfl, List.prefix_refl _, rfl⟩
  have hcallbacks : ∀ t, s'.callbacks t = if t = n then none else s.callbacks t := by
    intro t
    rw [hs']
    exact Function.update_apply ..
  have hdispatched : s'.dispatched = s.dispatched ++ [j] := by rw [hs']
  have hstage : ∀ (m : Nat) (old : RestCall),
      (if n = m then f old else old).stage = old.stage := by
    intro m old
    split <;> rfl
  have hnew : ResolvedBy s' n (f call) j := by
    refine ⟨c, _, by rw [hc.server]; exact hj, (hc.handled h).mpr hserves, ?_⟩
    rw [replyMessage_response]
    simp [f, hempty]
  exact {
    counted := hc.counted h
    tags := hc.tags h
    sentOnce := hs' ▸ h.sentOnce
    sent := by
      intro m other hm
      obtain ⟨old, hold, rfl⟩ := hc.get.mp hm
      rw [hstage, hs']
      exact h.sent m old hold
    known := by
      intro m hm
      rw [hc.length]
      rw [hs'] at hm
      exact h.known m hm
    callbacks := by
      intro m other hm
      obtain ⟨old, hold, rfl⟩ := hc.get.mp hm
      rw [hcallbacks]
      by_cases hnm : n = m
      · subst hnm
        simp [f]
      · simp [hnm, Ne.symm hnm, h.callbacks m old hold]
    own := by
      intro t m htm
      rw [hcallbacks] at htm
      rw [hc.length]
      split at htm
      · simp at htm
      · exact h.own t m htm
    early := by
      intro m other hm hother
      obtain ⟨old, hold, rfl⟩ := hc.get.mp hm
      rw [hstage] at hother
      by_cases hnm : n = m
      · -- a call whose reply is dispatched was sent
        subst hnm
        obtain rfl : call = old := Option.some.inj (hcall.symm.trans hold)
        have hsent := ((h.callbacks n call hcall).mp hcb).1
        rcases hother with hother | hother <;> simp [hother] at hsent
      · rw [if_neg hnm]
        exact h.early m old hold hother
    taken := hs' ▸ h.taken
    handlersOnce := hs' ▸ h.handlersOnce
    served := hc.served h
    refused := hc.refused h
    only := hc.only h
    dispatched := by
      intro j' hj'
      rw [hdispatched] at hj'
      rcases List.mem_append.mp hj' with hj' | hj'
      · obtain ⟨m, old, hold, hresolved⟩ := h.dispatched j' hj'
        have hnm : n ≠ m := by
          -- call `n` was given nothing before
          rintro rfl
          obtain rfl : call = old := Option.some.inj (hcall.symm.trans hold)
          obtain ⟨_, _, -, -, hresponse⟩ := hresolved
          simp [hempty] at hresponse
        exact ⟨m, old, hc.get.mpr ⟨old, hold, by rw [if_neg hnm]⟩, hc.resolvedBy h hresolved rfl⟩
      · obtain rfl : j' = j := List.mem_singleton.mp hj'
        exact ⟨n, _, hc.get.mpr ⟨call, hcall, by rw [if_pos rfl]⟩, hnew⟩
    resolved := by
      intro m other hm hne
      obtain ⟨old, hold, rfl⟩ := hc.get.mp hm
      rw [hdispatched]
      by_cases hnm : n = m
      · subst hnm
        obtain rfl : call = old := Option.some.inj (hcall.symm.trans hold)
        rw [if_pos rfl]
        exact ⟨j, List.mem_append_right _ List.mem_cons_self, hnew⟩
      · rw [if_neg hnm] at hne ⊢
        obtain ⟨j', hj', hresolved⟩ := h.resolved m old hold hne
        exact ⟨j', List.mem_append_left _ hj', hc.resolvedBy h hresolved rfl⟩ }

/-! ## Every run -/

theorem dispatch_calls_length (s : State) (message : Value) :
    (s.dispatch message).calls.length = s.calls.length := by
  simp only [State.dispatch]
  split
  · split
    · exact List.length_modify ..
    · rfl
  · rfl

theorem calls_length_le (l : Label) : s.calls.length ≤ (next float token s l).calls.length := by
  cases l with
  | rest type parameter => simp [next]
  | encoded n ok =>
      simp only [next]
      split
      · exact Nat.le_of_eq (List.length_modify ..).symm
      · exact Nat.le_refl _
  | reject n => exact Nat.le_of_eq (List.length_modify ..).symm
  | server l => exact Nat.le_refl _
  | deliver c =>
      simp only [next, State.deliver]
      split
      · split <;> exact Nat.le_refl _
      · exact Nat.le_refl _
  | dispatch j =>
      simp only [next]
      split
      · exact Nat.le_of_eq (dispatch_calls_length s _).symm
      · exact Nat.le_refl _
  | dispatchError => exact Nat.le_refl _

theorem Linked.next (h : Linked float s) {l : Label} (hen : enabled s l)
    (hinv : Rpc.Inv token s.server.master)
    (hcount : (Rest.next float token s l).calls.length ≤ 2 ^ 53) :
    Linked float (Rest.next float token s l) := by
  cases l with
  | rest type parameter =>
      refine h.rest type parameter ?_
      simpa [Rest.next] using hcount
  | encoded n ok =>
      obtain ⟨call, hcall, -⟩ := eq_of_isEncoding hen
      simp only [Rest.next, hcall]
      cases ok with
      | true =>
          refine h.stage (n := n) .sent (by simp) hen rfl rfl rfl ?_ rfl rfl rfl
          intro t
          simp [h.tags n call hcall, Function.update_apply]
      | false =>
          refine h.stage (n := n) .discarded (by simp) hen rfl rfl rfl ?_ rfl rfl rfl
          intro t
          simp [h.tags n call hcall, Function.update_apply]
  | reject n =>
      exact h.stage .rejected (by simp) hen rfl rfl rfl (by simp [Rest.next,
        State.setStage]) rfl rfl rfl
  | server l => exact h.server (seen_server hen.1 hen.2)
  | deliver c =>
      have hlt := hen.1
      obtain ⟨n, hn⟩ : ∃ n, s.sent[s.handlers.length]? = some n :=
        ⟨_, List.getElem?_eq_getElem hlt⟩
      obtain ⟨call, hcall⟩ : ∃ call, s.calls[n]? = some call :=
        ⟨_, List.getElem?_eq_getElem (h.known n (List.mem_of_getElem? hn))⟩
      have hcount' : s.calls.length ≤ 2 ^ 53 :=
        Nat.le_trans (calls_length_le (.deliver c)) hcount
      simp only [Rest.next, hn, Option.bind_some, hcall]
      exact h.deliver hn hcall hen.2 hcount'
  | dispatch j =>
      have hcount' : s.calls.length ≤ 2 ^ 53 :=
        Nat.le_trans (calls_length_le (.dispatch j)) hcount
      exact h.dispatch hinv hcount' hen.1 hen.2
  | dispatchError =>
      -- An answer without a tag is for nobody.
      exact { h with }

/-- Where the message of a call is, if the call was told nothing and can be read: the
master has not begun with it, its handler is at work, or the reply is on its way. -/
def Underway (s : State) (n : Nat) : Prop :=
  ∃ i : Nat, s.sent[i]? = some n ∧ (s.handlers[i]? = none ∨
    ∃ c, s.handlers[i]? = some (some c) ∧ (s.server.master.phase c ≠ .replied ∨
      ∃ (j : Nat) (message : Value), s.server.master.replies[j]? = some (c, message) ∧
        j ∉ s.dispatched))

end

end WebSshTool.Rpc.Rest
