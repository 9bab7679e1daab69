import WebSshTool.Rpc.ClientWebsocket

/-!
# What every call can count on

Three facts about the calls that no bound on the ids has to be paid for. The
lock belongs to the call that sends, as long as a call has it. Once the
connection is closed a callback is only there while its own message is being
refused. And what a call comes to is an answer it was given, an error, or one of
the two answers that are the server's own.
-/

namespace WebSshTool.Rpc

open Json Session

/-- The call goes to the internal client. -/
def Origin.isForwarded : Origin → Bool
  | .browser _ request =>
      match Session.Call.ofRequest request with
      | .forward .. => true
      | _ => false
  | .transfer _ => true

/-- A result that is no error was given to the callback of the call. -/
def Call.Answered (call : Call) (result : Except RequestError Value) : Prop :=
  ∀ value, result = .ok value → call.origin.isForwarded = true → value ∈ call.received

theorem Call.Answered.mono {call call' : Call} {result : Except RequestError Value}
    (h : call.Answered result) (horigin : call'.origin = call.origin)
    (hreceived : call.received ⊆ call'.received) : call'.Answered result := by
  intro value hvalue hforwarded
  rw [horigin] at hforwarded
  exact hreceived (h value hvalue hforwarded)

theorem Call.answered_error (call : Call) (e : RequestError) : call.Answered (.error e) := by
  intro value hvalue
  exact absurd hvalue (by simp)

theorem Call.Answered.error {call : Call} {result : Except RequestError Value}
    (h : call.Answered result) (hforwarded : call.origin.isForwarded = true)
    (hnone : call.received = []) : ∃ e, result = .error e := by
  cases result with
  | error e => exact ⟨e, rfl⟩
  | ok value =>
      have hmem := h value rfl hforwarded
      rw [hnone] at hmem
      exact absurd hmem (by simp)

structure Calls (s : State) : Prop where
  sending : ∀ c, (s.phase c).isSending = true ↔ s.holder = some (.call c)
  closed : s.closed = true → ∀ id c, s.socket.callbacks id = some c →
    ∃ key argument, s.phase c = .sending id key argument
  shell : ∀ c, s.phase c = .shell → (s.calls c).origin.isForwarded = false
  dropped : ∀ c, s.phase c = .dropped → (s.calls c).origin.isBrowser = false
  resolved : ∀ c result, s.phase c = .resolved result → (s.calls c).Answered result
  told : ∀ c, s.phase c = .replied → ∃ message, (c, message) ∈ s.replies
  replied : ∀ c message, (c, message) ∈ s.replies → s.phase c = .replied ∧
    ∃ tag request result, (s.calls c).origin = .browser tag request ∧
      message = replyMessage tag result ∧ (s.calls c).Answered result

theorem Calls.init : Calls State.init where
  sending := by simp [State.init, State.phase, Phase.isSending]
  closed := by simp [State.init]
  shell := by simp [State.init, State.phase]
  dropped := by simp [State.init, State.phase]
  resolved := by simp [State.init, State.phase]
  told := by simp [State.init, State.phase]
  replied := by simp [State.init]

section

variable {token : Text} {s s' : State}

/-- What the new value of one call has to meet. -/
structure Fits (s s' : State) (c : CallId) (call : Call) : Prop where
  calls : s'.calls = Function.update s.calls c call
  sending : call.phase.isSending = true ↔ s'.holder = some (.call c)
  holder : ∀ d, d ≠ c → (s'.holder = some (.call d) ↔ s.holder = some (.call d))
  shell : call.phase = .shell → call.origin.isForwarded = false
  dropped : call.phase = .dropped → call.origin.isBrowser = false
  resolved : ∀ result, call.phase = .resolved result → call.Answered result
  replies : s.replies ⊆ s'.replies
  told : call.phase = .replied → ∃ message, (c, message) ∈ s'.replies
  keeps : s.phase c = .replied → call.phase = .replied ∧
    call.origin = (s.calls c).origin ∧ (s.calls c).received ⊆ call.received

theorem Fits.self {c : CallId} {call : Call} (h : Fits s s' c call) : s'.calls c = call := by
  rw [h.calls, Function.update_self]

theorem Fits.other {c d : CallId} {call : Call} (h : Fits s s' c call) (hd : d ≠ c) :
    s'.calls d = s.calls d := by
  rw [h.calls, Function.update_of_ne hd]

/-- A call moves, and nobody is replied to but perhaps this call. -/
theorem Calls.move (h : Calls s) {c : CallId} {call : Call} (hfits : Fits s s' c call)
    (hclosed : s'.closed = true → ∀ id d, s'.socket.callbacks id = some d →
      ∃ key argument, (s'.calls d).phase = .sending id key argument)
    (hreplies : ∀ d message, (d, message) ∈ s'.replies → (d, message) ∈ s.replies ∨
      d = c ∧ call.phase = .replied ∧ ∃ tag request result,
        call.origin = .browser tag request ∧ message = replyMessage tag result ∧
          call.Answered result) : Calls s' where
  sending d := by
    by_cases hd : d = c
    · subst hd
      rw [State.phase, hfits.self]
      exact hfits.sending
    · rw [State.phase, hfits.other hd, hfits.holder d hd]
      exact h.sending d
  closed := hclosed
  shell d hphase := by
    by_cases hd : d = c
    · subst hd
      rw [State.phase, hfits.self] at hphase
      rw [hfits.self]
      exact hfits.shell hphase
    · rw [State.phase, hfits.other hd] at hphase
      rw [hfits.other hd]
      exact h.shell d hphase
  dropped d hphase := by
    by_cases hd : d = c
    · subst hd
      rw [State.phase, hfits.self] at hphase
      rw [hfits.self]
      exact hfits.dropped hphase
    · rw [State.phase, hfits.other hd] at hphase
      rw [hfits.other hd]
      exact h.dropped d hphase
  resolved d result hphase := by
    by_cases hd : d = c
    · subst hd
      rw [State.phase, hfits.self] at hphase
      rw [hfits.self]
      exact hfits.resolved result hphase
    · rw [State.phase, hfits.other hd] at hphase
      rw [hfits.other hd]
      exact h.resolved d result hphase
  told d hphase := by
    by_cases hd : d = c
    · subst hd
      rw [State.phase, hfits.self] at hphase
      exact hfits.told hphase
    · rw [State.phase, hfits.other hd] at hphase
      obtain ⟨message, hm⟩ := h.told d hphase
      exact ⟨message, hfits.replies hm⟩
  replied d message hm := by
    rw [State.phase]
    rcases hreplies d message hm with hold | ⟨rfl, hphase, hreply⟩
    · obtain ⟨hphase, tag, request, result, horigin, hmessage, hanswered⟩ :=
        h.replied d message hold
      by_cases hd : d = c
      · subst hd
        obtain ⟨hkept, hsame, hreceived⟩ := hfits.keeps hphase
        rw [hfits.self]
        exact ⟨hkept, tag, request, result, hsame.trans horigin, hmessage,
          hanswered.mono hsame hreceived⟩
      · rw [hfits.other hd]
        exact ⟨hphase, tag, request, result, horigin, hmessage, hanswered⟩
    · rw [hfits.self]
      exact ⟨hphase, hreply⟩

/-- Nobody moves. -/
theorem Calls.frame (h : Calls s) (hcalls : s'.calls = s.calls)
    (hreplies : s'.replies = s.replies)
    (hholder : ∀ c, s'.holder = some (.call c) ↔ s.holder = some (.call c))
    (hclosed : s'.closed = true → ∀ id c, s'.socket.callbacks id = some c →
      s.closed = true ∧ s.socket.callbacks id = some c) : Calls s' where
  sending c := by
    rw [State.phase, hcalls, hholder c]
    exact h.sending c
  closed hc id c hcb := by
    obtain ⟨hc, hcb⟩ := hclosed hc id c hcb
    rw [State.phase, hcalls]
    exact h.closed hc id c hcb
  shell c := by
    rw [State.phase, hcalls]
    exact h.shell c
  dropped c := by
    rw [State.phase, hcalls]
    exact h.dropped c
  resolved c result := by
    rw [State.phase, hcalls]
    exact h.resolved c result
  told c := by
    rw [State.phase, hcalls, hreplies]
    exact h.told c
  replied c message hm := by
    rw [State.phase, hcalls]
    rw [hreplies] at hm
    exact h.replied c message hm

/-! ## The steps -/

theorem Calls.not_holder (h : Calls s) {c : CallId} (hphase : (s.phase c).isSending = false) :
    s.holder ≠ some (.call c) := by
  intro hholder
  rw [(h.sending c).mpr hholder] at hphase
  exact absurd hphase (by simp)

/-- The callbacks of a closed connection are not those of a call that sends nothing. -/
theorem Calls.closed_of_ne (h : Calls s) {c : CallId} (hphase : (s.phase c).isSending = false)
    (hcalls : ∀ d, d ≠ c → s'.calls d = s.calls d)
    (hclosed : s'.closed = true → s.closed = true)
    (hsocket : ∀ id d, s'.socket.callbacks id = some d → s.socket.callbacks id = some d) :
    s'.closed = true → ∀ id d, s'.socket.callbacks id = some d →
      ∃ key argument, (s'.calls d).phase = .sending id key argument := by
  intro hc id d hcb
  obtain ⟨key, argument, hsending⟩ := h.closed (hclosed hc) id d (hsocket id d hcb)
  have hd : d ≠ c := by
    intro hd
    rw [← hd, hsending] at hphase
    exact absurd hphase (by simp [Phase.isSending])
  rw [hcalls d hd]
  exact ⟨key, argument, hsending⟩

/-- A call that does not send moves on without the lock. -/
theorem Calls.advance (h : Calls s) {c : CallId} {call : Call}
    (hcalls : s'.calls = Function.update s.calls c call)
    (hholder : s'.holder = s.holder) (hclosed : s'.closed = s.closed)
    (hsocket : s'.socket = s.socket) (hreplies : s'.replies = s.replies)
    (hsending : (s.phase c).isSending = false) (hnow : call.phase.isSending = false)
    (hlive : s.phase c ≠ .replied) (htold : call.phase ≠ .replied)
    (hshell : call.phase = .shell → call.origin.isForwarded = false)
    (hdropped : call.phase = .dropped → call.origin.isBrowser = false)
    (hresolved : ∀ result, call.phase = .resolved result → call.Answered result) :
    Calls s' := by
  have hfits : Fits s s' c call :=
    { calls := hcalls
      sending := by
        rw [hnow, hholder]
        exact ⟨fun hn => absurd hn (by simp), fun hn => absurd hn (h.not_holder hsending)⟩
      holder := fun d _ => by rw [hholder]
      shell := hshell
      dropped := hdropped
      resolved := hresolved
      replies := by
        rw [hreplies]
        exact List.Subset.refl _
      told := fun hr => absurd hr htold
      keeps := fun hr => absurd hr hlive }
  refine h.move hfits (h.closed_of_ne hsending (fun d hd => hfits.other hd)
    (fun hc => hclosed ▸ hc) (fun id d hcb => hsocket ▸ hcb)) fun d message hm => .inl ?_
  rw [hreplies] at hm
  exact hm

theorem ofRequest_shell {tag request : Option Value}
    (h : Phase.ofRequest token request = .shell) :
    (Origin.browser tag request).isForwarded = false := by
  rw [Phase.ofRequest] at h
  rw [Origin.isForwarded]
  split at h <;> simp_all

theorem ofRequest_answered {tag request : Option Value} {result : Except RequestError Value}
    (h : Phase.ofRequest token request = .resolved result) {phase : Phase}
    {received : List Value} : Call.Answered ⟨.browser tag request, phase, received⟩ result := by
  intro value hvalue hforwarded
  simp only [Origin.isForwarded] at hforwarded
  rw [Phase.ofRequest] at h
  split at h <;> simp_all

theorem ofRequest_notSending (request : Option Value) :
    (Phase.ofRequest token request).isSending = false := by
  rw [Phase.ofRequest]
  split <;> rfl

theorem ofRequest_ne_dropped (request : Option Value) :
    Phase.ofRequest token request ≠ .dropped := by
  rw [Phase.ofRequest]
  split <;> simp

theorem Calls.acquire (h : Calls s) {c : CallId} (hfree : s.holder = none) :
    Calls (next token s (.acquire c)) := by
  simp only [next]
  split
  · next key argument hphase =>
      have hfits : Fits s { s.setPhase c (.sending s.socket.nextId key argument) with
          socket := s.socket.register c
          holder := some (.call c)
          issued := s.issued ++ [(s.socket.nextId, c)] } c
          { s.calls c with phase := .sending s.socket.nextId key argument } :=
        { calls := rfl
          sending := by simp [Phase.isSending]
          holder := by
            intro d hd
            rw [hfree]
            simp [Ne.symm hd]
          shell := by simp
          dropped := by simp
          resolved := by simp
          replies := List.Subset.refl _
          told := by simp
          keeps := by
            intro hr
            rw [hr] at hphase
            exact absurd hphase (by simp) }
      refine h.move hfits ?_ fun d message hm => .inl hm
      intro hclosed id d hcb
      simp only [ClientWebsocket.register, Function.update_apply] at hcb
      split at hcb
      · next hid =>
          obtain rfl : c = d := Option.some.inj hcb
          rw [hfits.self]
          exact ⟨key, argument, by rw [hid]⟩
      · obtain ⟨key', argument', hsending⟩ := h.closed hclosed id d hcb
        have hd : d ≠ c := by
          intro hd
          rw [← hd, hsending] at hphase
          exact absurd hphase (by simp)
        rw [hfits.other hd]
        exact ⟨key', argument', hsending⟩
  · exact h

/-- The message of a call is sent or refused, and the lock is given back. -/
theorem Calls.sent (h : Calls s) {c : CallId} {ok : Bool} (hsending : (s.phase c).isSending = true)
    (hok : ok = true → s.closed = false) : Calls (next token s (.sent c ok)) := by
  simp only [next]
  split
  · next id key argument hphase =>
      have hholder : s.holder = some (.call c) := (h.sending c).mp hsending
      have hlive : s.phase c ≠ .replied := by
        rw [hphase]
        simp
      have hothers : ∀ d, d ≠ c → ((none : Option Holder) = some (.call d) ↔
          s.holder = some (.call d)) := by
        intro d hd
        rw [hholder]
        simp [Ne.symm hd]
      cases ok with
      | true =>
          have hfits : Fits s { s.setPhase c (.awaiting id) with
              holder := none
              written := s.written ++ [(id, key, argument)] } c
              { s.calls c with phase := .awaiting id } :=
            { calls := rfl
              sending := by simp [Phase.isSending]
              holder := hothers
              shell := by simp
              dropped := by simp
              resolved := by simp
              replies := List.Subset.refl _
              told := by simp
              keeps := fun hr => absurd hr hlive }
          refine h.move hfits ?_ fun d message hm => .inl hm
          intro hclosed
          rw [cond_true] at hclosed
          exact absurd (hclosed.symm.trans (hok rfl)) (by simp)
      | false =>
          have hfits : Fits s { s.setPhase c (.resolved (.error .sshConnectNotEstablish)) with
              holder := none
              socket := s.socket.forget id } c
              { s.calls c with phase := .resolved (.error .sshConnectNotEstablish) } :=
            { calls := rfl
              sending := by simp [Phase.isSending]
              holder := hothers
              shell := by simp
              dropped := by simp
              resolved := by
                intro result hr
                obtain rfl := Phase.resolved.inj hr
                exact Call.answered_error _ _
              replies := List.Subset.refl _
              told := by simp
              keeps := fun hr => absurd hr hlive }
          refine h.move hfits ?_ fun d message hm => .inl hm
          intro hclosed id' d hcb
          simp only [cond_false, ClientWebsocket.forget, Function.update_apply] at hcb
          split at hcb
          · exact absurd hcb (by simp)
          · next hid =>
              obtain ⟨key', argument', hother⟩ := h.closed hclosed id' d hcb
              have hd : d ≠ c := by
                intro hd
                rw [hd, hphase] at hother
                exact hid (Phase.sending.inj hother).1.symm
              rw [cond_false, hfits.other hd]
              exact ⟨key', argument', hother⟩
  · exact h

theorem Calls.resolve (h : Calls s) {c : CallId} (hawaiting : (s.phase c).isAwaiting = true) :
    Calls (next token s (.resolve c)) := by
  simp only [next]
  split
  · next value hvalue =>
      obtain ⟨id, hphase⟩ := Phase.eq_awaiting hawaiting
      refine h.advance rfl rfl rfl rfl rfl (by rw [hphase]; rfl) rfl (by simp [hphase])
        (by simp) (by simp) (by simp) ?_
      intro result hr v hv _
      obtain rfl := Phase.resolved.inj hr
      obtain rfl : value = v := Except.ok.inj hv
      exact List.mem_of_head? hvalue
  · exact h

theorem Calls.fail (h : Calls s) {c : CallId} {e : RequestError}
    (hsending : (s.phase c).isSending = false) (hlive : s.phase c ≠ .replied) :
    Calls (s.setPhase c (.resolved (.error e))) := by
  refine h.advance rfl rfl rfl rfl rfl hsending rfl hlive (by simp) (by simp) (by simp) ?_
  intro result hr
  obtain rfl := Phase.resolved.inj hr
  exact Call.answered_error _ _

theorem Calls.shellDone (h : Calls s) {c : CallId} {ok : Bool} (hphase : s.phase c = .shell) :
    Calls (next token s (.shellDone c ok)) := by
  simp only [next]
  cases ok with
  | false => exact h.fail (by rw [hphase]; rfl) (by simp [hphase])
  | true =>
      refine h.advance rfl rfl rfl rfl rfl (by rw [hphase]; rfl) rfl (by simp [hphase])
        (by simp) (by simp) (by simp) ?_
      intro result hr v _ hforwarded
      exact absurd hforwarded (by simp [h.shell c hphase])

theorem Calls.reply (h : Calls s) {c : CallId} :
    Calls (next token s (.reply c)) := by
  simp only [next]
  split
  · next tag request result horigin hphase =>
      have hsending : (s.phase c).isSending = false := by
        rw [hphase]
        rfl
      have hfits : Fits s { s.setPhase c .replied with
          replies := s.replies ++ [(c, replyMessage tag result)] } c
          { s.calls c with phase := .replied } :=
        { calls := rfl
          sending := ⟨fun hn => absurd hn (by simp [Phase.isSending]),
            fun hn => absurd hn (h.not_holder hsending)⟩
          holder := fun _ _ => Iff.rfl
          shell := by simp
          dropped := by simp
          resolved := by simp
          replies := List.subset_append_left _ _
          told := fun _ => ⟨_, List.mem_append_right _ List.mem_cons_self⟩
          keeps := fun _ => ⟨rfl, rfl, List.Subset.refl _⟩ }
      refine h.move hfits (h.closed_of_ne hsending (fun d hd => hfits.other hd) id
        fun _ _ hcb => hcb) ?_
      intro d message hm
      rcases List.mem_append.mp hm with hm | hm
      · exact .inl hm
      · obtain ⟨rfl, rfl⟩ : d = c ∧ message = replyMessage tag result := by simpa using hm
        exact .inr ⟨rfl, rfl, tag, request, result, horigin, rfl, h.resolved d result hphase⟩
  · exact h

/-- A handler that is dropped gives the lock back. -/
theorem Calls.drop (h : Calls s) {c : CallId} {buffered : Bool}
    (horigin : (s.calls c).origin.isBrowser = false)
    (hphase : (s.phase c).isLocking = true ∨ (s.phase c).isAwaiting = true ∨
      (s.phase c).isSending = true ∧ s.closed = false) :
    Calls (next token s (.drop c buffered)) := by
  have hlive : s.phase c ≠ .replied := by
    intro hr
    rw [hr] at hphase
    simp [Phase.isLocking, Phase.isAwaiting, Phase.isSending] at hphase
  have hfits : Fits s (next token s (.drop c buffered)) c { s.calls c with phase := .dropped } :=
    { calls := rfl
      sending := by
        simp only [next, Phase.isSending]
        split <;> simp_all
      holder := by
        intro d hd
        simp only [next]
        split
        · next hholder =>
            rw [hholder]
            simp [Ne.symm hd]
        · exact Iff.rfl
      shell := by simp
      dropped := fun _ => horigin
      resolved := by simp
      replies := List.Subset.refl _
      told := by simp
      keeps := fun hr => absurd hr hlive }
  refine h.move hfits ?_ fun d message hm => .inl hm
  intro hclosed id d hcb
  obtain ⟨key, argument, hsending⟩ := h.closed hclosed id d hcb
  have hd : d ≠ c := by
    intro hd
    rw [← hd, hsending] at hphase
    rcases hphase with hn | hn | ⟨-, hopen⟩
    · exact absurd hn (by simp [Phase.isLocking])
    · exact absurd hn (by simp [Phase.isAwaiting])
    · exact absurd (hopen.symm.trans hclosed) (by simp)
  rw [hfits.other hd]
  exact ⟨key, argument, hsending⟩

/-- A response changes what its call has been given and nothing else. -/
theorem Calls.feed (h : Calls s) {c : CallId} {id : Nat} {value : Value} :
    Calls ({ s with socket := s.socket.forget id }.setCall c
      { s.calls c with received := (s.calls c).received ++ [value] }) := by
  have hmore : (s.calls c).received ⊆ (s.calls c).received ++ [value] :=
    List.subset_append_left _ _
  have hfits : Fits s ({ s with socket := s.socket.forget id }.setCall c
      { s.calls c with received := (s.calls c).received ++ [value] }) c
      { s.calls c with received := (s.calls c).received ++ [value] } :=
    { calls := rfl
      sending := h.sending c
      holder := fun _ _ => Iff.rfl
      shell := h.shell c
      dropped := h.dropped c
      resolved := fun result hr => (h.resolved c result hr).mono rfl hmore
      replies := List.Subset.refl _
      told := h.told c
      keeps := fun hr => ⟨hr, rfl, hmore⟩ }
  refine h.move hfits ?_ fun d message hm => .inl hm
  intro hclosed id' d hcb
  simp only [State.setCall, ClientWebsocket.forget, Function.update_apply] at hcb
  split at hcb
  · exact absurd hcb (by simp)
  · obtain ⟨key, argument, hsending⟩ := h.closed hclosed id' d hcb
    by_cases hd : d = c
    · subst hd
      rw [hfits.self]
      exact ⟨key, argument, hsending⟩
    · rw [hfits.other hd]
      exact ⟨key, argument, hsending⟩

theorem Calls.handle (h : Calls s) (hfree : s.holder = none) (incoming : Incoming) :
    Calls (s.handle incoming) := by
  cases incoming with
  | response id value =>
      simp only [State.handle, ClientWebsocket.feedResponse]
      cases hid : id.asU64? with
      | none => exact h
      | some n =>
          cases hcb : s.socket.callbacks n with
          | none => simpa only [hcb] using h
          | some c => simpa only [hcb] using h.feed
  | event value =>
      refine h.frame rfl rfl (fun c => ?_) fun hc id c hcb => ⟨hc, hcb⟩
      rw [hfree]
      simp [State.handle]
  | unknown => exact h

theorem Calls.next (h : Calls s) {l : Label} (hen : enabled s l) :
    Calls (next token s l) := by
  cases l with
  | browser c tag request =>
      have hidle : s.phase c = .idle := Phase.eq_idle hen
      refine h.advance rfl rfl rfl rfl rfl (by rw [hidle]; rfl) (ofRequest_notSending request)
        (by simp [hidle]) (ofRequest_ne_replied request) ofRequest_shell
        (fun hd => absurd hd (ofRequest_ne_dropped request)) ?_
      intro result hr
      exact ofRequest_answered hr
  | transfer c argument =>
      have hidle : s.phase c = .idle := Phase.eq_idle hen
      exact h.advance rfl rfl rfl rfl rfl (by rw [hidle]; rfl) rfl (by simp [hidle]) (by simp)
        (by simp) (by simp) (by simp)
  | acquire c => exact h.acquire hen.2
  | sent c ok => exact h.sent hen.1 hen.2
  | resolve c => exact h.resolve hen.1
  | cancel c =>
      obtain ⟨id, hphase⟩ := State.awaiting_of_orphaned hen
      exact h.fail (by rw [hphase]; rfl) (by simp [hphase])
  | shellDone c ok => exact h.shellDone (Phase.eq_shell hen)
  | reply c => exact h.reply
  | drop c buffered => exact h.drop hen.1 hen.2
  | receive message => exact h.frame rfl rfl (fun _ => Iff.rfl) fun hc id c hcb => ⟨hc, hcb⟩
  | handle i =>
      simp only [Rpc.next]
      split
      · next incoming _ =>
          have hinbox : Calls { s with inbox := s.inbox.eraseIdx i } :=
            h.frame rfl rfl (fun _ => Iff.rfl) fun hc id c hcb => ⟨hc, hcb⟩
          exact hinbox.handle hen.2 incoming
      · exact h
  | forward =>
      refine h.frame rfl rfl (fun c => ?_) fun hc id c hcb => ⟨hc, hcb⟩
      rw [show s.holder = none from hen]
      simp [Rpc.next]
  | forwarded =>
      refine h.frame rfl rfl (fun c => ?_) fun hc id c hcb => ⟨hc, hcb⟩
      rw [show s.holder = some .event from hen]
      simp [Rpc.next]
  | disconnect =>
      refine h.frame rfl rfl (fun c => ?_) fun hc id c hcb => ⟨hc, hcb⟩
      rw [show s.holder = none from hen]
      simp [Rpc.next]
  | disconnected =>
      refine h.frame rfl rfl (fun c => ?_) fun _ id c hcb => absurd hcb (by
        simp [Rpc.next, ClientWebsocket.disconnect])
      rw [show s.holder = some .disconnect from hen]
      simp [Rpc.next]

theorem reachable_calls (hs : (machine token).Reachable s) : Calls s :=
  hs.invariant Calls.init fun _ _ _ h hen _ => h.next hen

end

/-! ## What a step does to one call -/

section

variable {token : Text} {s : State} {c : CallId} {l : Label}

/-- The handler of the call has begun and is not done. -/
def Phase.isLive : Phase → Bool
  | .idle | .replied | .dropped => false
  | _ => true

/-- A call before and after a step. -/
inductive Turned (token : Text) (c : CallId) (call : Call) : Label → Call → Prop
  | same (l : Label) : Turned token c call l call
  | asked (tag request : Option Value) :
      Turned token c call (.browser c tag request)
        ⟨.browser tag request, .ofRequest token request, []⟩
  | called (argument : Value) :
      Turned token c call (.transfer c argument)
        ⟨.transfer argument, .locking (ofString "internal") argument, []⟩
  | acquired (id : Nat) (key : Text) (argument : Value) :
      Turned token c call (.acquire c) { call with phase := .sending id key argument }
  | sent (id : Nat) : Turned token c call (.sent c true) { call with phase := .awaiting id }
  | refused (e : RequestError) :
      Turned token c call (.sent c false) { call with phase := .resolved (.error e) }
  | resolved (value : Value) :
      Turned token c call (.resolve c) { call with phase := .resolved (.ok value) }
  | canceled (e : RequestError) :
      Turned token c call (.cancel c) { call with phase := .resolved (.error e) }
  | served (ok : Bool) (result : Except RequestError Value) :
      Turned token c call (.shellDone c ok) { call with phase := .resolved result }
  | replied : Turned token c call (.reply c) { call with phase := .replied }
  | dropped (buffered : Bool) :
      Turned token c call (.drop c buffered) { call with phase := .dropped }
  | given (i : Nat) (value : Value) :
      Turned token c call (.handle i) { call with received := call.received ++ [value] }

/-- A step of one call is no step of another. -/
theorem Turned.update {calls : CallId → Call} {d : CallId} {call : Call}
    (h : c = d → Turned token c (calls c) l call) :
    Turned token c (calls c) l (Function.update calls d call c) := by
  by_cases hd : c = d
  · rw [← hd, Function.update_self]
    exact h hd
  · rw [Function.update_of_ne hd]
    exact .same l

theorem turned_handle (i : Nat) (incoming : Incoming) :
    Turned token c (s.calls c) (.handle i) ((s.handle incoming).calls c) := by
  cases incoming with
  | event value | unknown => exact .same _
  | response id value =>
      simp only [State.handle]
      split
      · next d socket _ =>
          refine Turned.update fun hd => ?_
          subst hd
          exact .given i value
      · exact .same _

theorem turned_next (l : Label) :
    Turned token c (s.calls c) l ((next token s l).calls c) := by
  cases l with
  | browser d tag request =>
      refine Turned.update fun hd => ?_
      subst hd
      exact .asked tag request
  | transfer d argument =>
      refine Turned.update fun hd => ?_
      subst hd
      exact .called argument
  | acquire d =>
      simp only [next]
      split
      · next key argument _ =>
          refine Turned.update fun hd => ?_
          subst hd
          exact .acquired _ key argument
      · exact .same _
  | sent d ok =>
      simp only [next]
      split
      · next id key argument _ =>
          cases ok with
          | true =>
              refine Turned.update fun hd => ?_
              subst hd
              exact .sent id
          | false =>
              refine Turned.update fun hd => ?_
              subst hd
              exact .refused _
      · exact .same _
  | resolve d =>
      simp only [next]
      split
      · next value _ =>
          refine Turned.update fun hd => ?_
          subst hd
          exact .resolved value
      · exact .same _
  | cancel d =>
      refine Turned.update fun hd => ?_
      subst hd
      exact .canceled _
  | shellDone d ok =>
      refine Turned.update fun hd => ?_
      subst hd
      exact .served ok _
  | reply d =>
      simp only [next]
      split
      · refine Turned.update fun hd => ?_
        subst hd
        exact .replied
      · exact .same _
  | drop d buffered =>
      refine Turned.update fun hd => ?_
      subst hd
      exact .dropped buffered
  | handle i =>
      simp only [next]
      split
      · next incoming _ =>
          exact @turned_handle token { s with inbox := s.inbox.eraseIdx i } c i incoming
      · exact .same _
  | receive | forward | forwarded | disconnect | disconnected => exact .same _

theorem Phase.not_idle {p : Phase} (h : p.isLive = true) : p.isIdle = false := by
  cases p with
  | idle => simp [isLive] at h
  | _ => rfl

/-- A call that has begun keeps its origin. -/
theorem origin_next (hstarted : (s.phase c).isIdle = false) (hen : enabled s l) :
    ((next token s l).calls c).origin = (s.calls c).origin := by
  have hturned : Turned token c (s.calls c) l ((next token s l).calls c) := turned_next l
  generalize (next token s l).calls c = call at hturned
  cases hturned with
  | asked | called => exact absurd (hstarted.symm.trans hen) (by simp)
  | _ => rfl

/-- It is live until it is replied to or dropped. -/
theorem live_next (hlive : (s.phase c).isLive = true) (hreply : l ≠ .reply c)
    (hdrop : ∀ buffered, l ≠ .drop c buffered) (hen : enabled s l) :
    ((next token s l).phase c).isLive = true := by
  have hturned : Turned token c (s.calls c) l ((next token s l).calls c) := turned_next l
  rw [State.phase]
  generalize (next token s l).calls c = call at hturned
  cases hturned with
  | same | given => exact hlive
  | asked | called => exact absurd ((Phase.not_idle hlive).symm.trans hen) (by simp)
  | acquired | sent | refused | resolved | canceled | served => rfl
  | replied => exact absurd rfl hreply
  | dropped buffered => exact absurd rfl (hdrop buffered)

/-- A call begins when a browser or a transfer makes it. -/
theorem idle_next (hidle : (s.phase c).isIdle = true)
    (hasked : ∀ tag request, l ≠ .browser c tag request)
    (hcalled : ∀ argument, l ≠ .transfer c argument) (hen : enabled s l) :
    ((next token s l).phase c).isIdle = true := by
  have hphase := Phase.eq_idle hidle
  have hturned : Turned token c (s.calls c) l ((next token s l).calls c) := turned_next l
  rw [State.phase]
  generalize (next token s l).calls c = call at hturned
  cases hturned with
  | same | given => exact hidle
  | asked tag request => exact absurd rfl (hasked tag request)
  | called argument => exact absurd rfl (hcalled argument)
  | acquired | sent | refused | resolved | replied =>
      exact absurd hen.1 (by simp [hphase, Phase.isLocking, Phase.isSending,
        Phase.isAwaiting, Phase.isResolved])
  | canceled =>
      obtain ⟨id, hawaiting⟩ := State.awaiting_of_orphaned hen
      exact absurd (hphase.symm.trans hawaiting) (by simp)
  | served => exact absurd (hphase.symm.trans (Phase.eq_shell hen)) (by simp)
  | dropped =>
      exact absurd hen.2 (by simp [hphase, Phase.isLocking, Phase.isSending,
        Phase.isAwaiting])

/-- A call is served by a shell from its beginning on. -/
theorem shell_next (hshell : ((next token s l).phase c).isShell = true) (hen : enabled s l) :
    (s.phase c).isShell = true ∧ l ≠ .reply c ∨ ∃ tag request, l = .browser c tag request := by
  have hturned : Turned token c (s.calls c) l ((next token s l).calls c) := turned_next l
  rw [State.phase] at hshell
  generalize (next token s l).calls c = call at hturned hshell
  cases hturned with
  | same =>
      refine .inl ⟨hshell, ?_⟩
      rintro rfl
      have hphase : s.phase c = .shell := Phase.eq_shell hshell
      exact absurd hen.1 (by simp [hphase, Phase.isResolved])
  | given => exact .inl ⟨hshell, by simp⟩
  | asked tag request => exact .inr ⟨tag, request, rfl⟩
  | called | acquired | sent | refused | resolved | canceled | served | replied | dropped =>
      simp [Phase.isShell] at hshell

/-- The call waits for an answer, and its callback for being given one. -/
def State.Unanswered (s : State) (c : CallId) : Prop :=
  ∃ id, s.phase c = .awaiting id ∧ s.socket.callbacks id = some c

theorem callbacks_handle {incoming : Incoming} {id : Nat}
    (h : (s.handle incoming).socket.callbacks id = some c) :
    s.socket.callbacks id = some c := by
  cases incoming with
  | event | unknown => exact h
  | response wireId value =>
      simp only [State.handle, ClientWebsocket.feedResponse] at h
      cases hid : wireId.asU64? with
      | none => simpa only [hid] using h
      | some n =>
          cases hcb : s.socket.callbacks n with
          | none => simpa only [hid, hcb] using h
          | some d =>
              simp only [hid, hcb, State.setCall, ClientWebsocket.forget,
                Function.update_apply] at h
              split at h
              · simp at h
              · exact h

/-- Only a call that gets the lock leaves its callback. -/
theorem callbacks_next {id : Nat} (h : (next token s l).socket.callbacks id = some c) :
    s.socket.callbacks id = some c ∨ l = .acquire c := by
  cases l with
  | acquire d =>
      simp only [next] at h
      split at h
      · simp only [ClientWebsocket.register, Function.update_apply] at h
        split at h
        · obtain rfl : d = c := Option.some.inj h
          exact .inr rfl
        · exact .inl h
      · exact .inl h
  | sent d ok =>
      simp only [next] at h
      split at h
      · cases ok with
        | true => exact .inl h
        | false =>
            simp only [cond_false, ClientWebsocket.forget, Function.update_apply] at h
            split at h
            · simp at h
            · exact .inl h
      · exact .inl h
  | resolve d | reply d =>
      simp only [next] at h
      split at h <;> exact .inl h
  | handle i =>
      simp only [next] at h
      split at h
      · exact .inl (@callbacks_handle { s with inbox := s.inbox.eraseIdx i } c _ id h)
      · exact .inl h
  | disconnected => simp [next, ClientWebsocket.disconnect] at h
  | browser | transfer | cancel | shellDone | drop | receive | forward | forwarded
  | disconnect => exact .inl h

/-- A call comes to wait for its answer when its message is sent. -/
theorem unanswered_next (h : (next token s l).Unanswered c) (hen : enabled s l) :
    s.Unanswered c ∨ l = .sent c true := by
  obtain ⟨id, hphase, hcb⟩ := h
  have hold := callbacks_next hcb
  have hturned : Turned token c (s.calls c) l ((next token s l).calls c) := turned_next l
  rw [State.phase] at hphase
  generalize (next token s l).calls c = call at hturned hphase
  cases hturned with
  | sent => exact .inr rfl
  | same =>
      rcases hold with hold | rfl
      · exact .inl ⟨id, hphase, hold⟩
      · have hlocking := hen.1
        rw [State.phase, hphase] at hlocking
        exact absurd hlocking (by simp [Phase.isLocking])
  | given =>
      rcases hold with hold | hl
      · exact .inl ⟨id, hphase, hold⟩
      · exact absurd hl (by simp)
  | asked tag request =>
      rw [Phase.ofRequest] at hphase
      split at hphase <;> simp at hphase
  | called | acquired | refused | resolved | canceled | served | replied | dropped =>
      simp at hphase

theorem handle_closed (s : State) (incoming : Incoming) :
    (s.handle incoming).closed = s.closed := by
  cases incoming with
  | event | unknown => rfl
  | response id value =>
      simp only [State.handle]
      split <;> rfl

theorem handle_inbox (s : State) (incoming : Incoming) :
    (s.handle incoming).inbox = s.inbox := by
  cases incoming with
  | event | unknown => rfl
  | response id value =>
      simp only [State.handle]
      split <;> rfl

theorem closed_next (h : s.closed = true) : (next token s l).closed = true := by
  cases l with
  | acquire | resolve | reply =>
      simp only [next]
      split <;> exact h
  | sent d ok =>
      simp only [next]
      split
      · cases ok <;> exact h
      · exact h
  | handle i =>
      simp only [next]
      split
      · rw [handle_closed]
        exact h
      · exact h
  | disconnected => rfl
  | browser | transfer | cancel | shellDone | drop | receive | forward | forwarded
  | disconnect => exact h

theorem inbox_next (h : s.inbox = []) (hreceive : ∀ message, l ≠ .receive message) :
    (next token s l).inbox = [] := by
  cases l with
  | acquire | resolve | reply =>
      simp only [next]
      split <;> exact h
  | sent d ok =>
      simp only [next]
      split
      · cases ok <;> exact h
      · exact h
  | handle i =>
      simp only [next]
      split
      · rw [handle_inbox, h]
        rfl
      · exact h
  | receive message => exact absurd rfl (hreceive message)
  | browser | transfer | cancel | shellDone | drop | forward | forwarded | disconnect
  | disconnected => exact h

theorem event_handle {incoming : Incoming} (hfree : s.holder = none)
    (h : (s.handle incoming).holder = some .event) : ∃ value, incoming = .event value := by
  cases incoming with
  | event value => exact ⟨value, rfl⟩
  | unknown => exact absurd (hfree.symm.trans h) (by simp)
  | response id value =>
      simp only [State.handle] at h
      split at h <;> exact absurd (hfree.symm.trans h) (by simp)

/-- An event takes the lock when one is forwarded. -/
theorem event_next (hen : enabled s l) (h : (next token s l).holder = some .event) :
    s.holder = some .event ∨ l = .forward ∨
      ∃ i value, l = .handle i ∧ s.inbox[i]? = some (.event value) := by
  cases l with
  | forward => exact .inr (.inl rfl)
  | acquire d =>
      simp only [next] at h
      split at h
      · simp at h
      · exact .inl h
  | resolve | reply =>
      simp only [next] at h
      split at h <;> exact .inl h
  | sent d ok =>
      simp only [next] at h
      split at h
      · cases ok <;> simp at h
      · exact .inl h
  | handle i =>
      simp only [next] at h
      split at h
      · next incoming hi =>
          obtain ⟨value, rfl⟩ :=
            @event_handle { s with inbox := s.inbox.eraseIdx i } incoming hen.2 h
          exact .inr (.inr ⟨i, value, rfl, hi⟩)
      · exact .inl h
  | drop d buffered =>
      simp only [next] at h
      split at h
      · simp at h
      · exact .inl h
  | forwarded | disconnect | disconnected => simp [next] at h
  | browser | transfer | cancel | shellDone | receive => exact .inl h

end

end WebSshTool.Rpc
