import Mathlib.Data.List.Nodup
import WebSshTool.Rpc.ClientWebsocket

/-!
# Every reply carries the result of its own request

Three numberings meet in a call: the browser's tag, the id `send_request`
takes and the id the internal client echoes. `issued` ties an id to its call
and, as long as no more than 2^64 - 1 ids have been taken, to no other.
A callback is under the id of its own call until it is given a value, and it is
given none before. `Carries` says what a call may be resolved with, whatever
the client sends; a client that is honest about the pending ids makes that the
result of the call's own message.
-/

namespace WebSshTool.Rpc

open Json Session

/-! ## What a call asks for and is told -/

/-- The message of a call. -/
def Asked : Origin → Text → Value → Prop
  | .browser _ request, key, argument =>
      Session.Call.ofRequest request = .forward key argument
  | .transfer a, key, argument => key = ofString "internal" ∧ argument = a

/-- What the handler of a browser's request may come to: `told id value` is a
value that call `c` was given under the id of its own message. -/
def Result (token : Text) (issued : List (Nat × CallId))
    (written : List (Nat × Text × Value)) (told : Nat → Value → Prop) (c : CallId)
    (request : Option Value) (result : Except RequestError Value) : Prop :=
  match Session.Call.ofRequest request with
  | .shell _ => result = .ok .null ∨ result = .error .internalError
  | .token => result = .ok (.str token)
  | .unknown => result = .error .unknownRequest
  | .forward key argument =>
      result = .error .sshConnectNotEstablish ∨ result = .error .internalError ∨
        ∃ id value, (id, c) ∈ issued ∧ (id, key, argument) ∈ written ∧
          told id value ∧ result = .ok value

def Carries (token : Text) (s : State) (c : CallId) (request : Option Value)
    (result : Except RequestError Value) : Prop :=
  Result token s.issued s.written (fun _ value => value ∈ (s.calls c).received) c
    request result

/-- What the phase of a call says about it. -/
def Told (token : Text) (s : State) (c : CallId) : Prop :=
  match s.phase c with
  | .locking key argument => Asked (s.calls c).origin key argument
  | .sending id key argument => (id, c) ∈ s.issued ∧ Asked (s.calls c).origin key argument
  | .awaiting id =>
      (id, c) ∈ s.issued ∧ ∃ key argument,
        Asked (s.calls c).origin key argument ∧ (id, key, argument) ∈ s.written
  | .shell => ∃ tag request value, (s.calls c).origin = .browser tag request ∧
      Session.Call.ofRequest request = .shell value
  | .resolved result => ∀ tag request, (s.calls c).origin = .browser tag request →
      Carries token s c request result
  | .idle | .replied | .dropped => True

theorem Result.mono {token : Text} {issued issued' : List (Nat × CallId)}
    {written written' : List (Nat × Text × Value)} {told told' : Nat → Value → Prop}
    {c : CallId} {request : Option Value} {result : Except RequestError Value}
    (h : Result token issued written told c request result)
    (hissued : issued ⊆ issued') (hwritten : written ⊆ written')
    (htold : ∀ id value, (id, c) ∈ issued → told id value → told' id value) :
    Result token issued' written' told' c request result := by
  unfold Result at h ⊢
  split at h
  · exact h
  · exact h
  · exact h
  · rcases h with h | h | ⟨id, value, hid, hw, ht, hr⟩
    · exact .inl h
    · exact .inr (.inl h)
    · exact .inr (.inr ⟨id, value, hissued hid, hwritten hw, htold id value hid ht, hr⟩)

/-- Call `c` keeps its origin and loses nothing of what it may carry. -/
structure Kept (s s' : State) (c : CallId) : Prop where
  origin : (s'.calls c).origin = (s.calls c).origin
  received : (s.calls c).received ⊆ (s'.calls c).received
  issued : s.issued ⊆ s'.issued
  written : s.written ⊆ s'.written

section

variable {token : Text} {s s' : State} {c : CallId}

theorem Kept.of_calls (hcalls : s'.calls c = s.calls c) (hissued : s.issued ⊆ s'.issued)
    (hwritten : s.written ⊆ s'.written) : Kept s s' c where
  origin := by rw [hcalls]
  received := by
    rw [hcalls]
    exact List.Subset.refl _
  issued := hissued
  written := hwritten

theorem Carries.kept {request : Option Value} {result : Except RequestError Value}
    (h : Carries token s c request result) (hkept : Kept s s' c) :
    Carries token s' c request result :=
  Result.mono h hkept.issued hkept.written fun _ _ _ hv => hkept.received hv

/-- What a call has been told stays true when others move. -/
theorem Told.kept (h : Told token s c) (hphase : s'.phase c = s.phase c)
    (hkept : Kept s s' c) : Told token s' c := by
  unfold Told at h ⊢
  rw [hphase, hkept.origin]
  split at h
  · exact h
  · exact ⟨hkept.issued h.1, h.2⟩
  · obtain ⟨hid, key, argument, hasked, hw⟩ := h
    exact ⟨hkept.issued hid, key, argument, hasked, hkept.written hw⟩
  · exact h
  · exact fun tag request ho => (h tag request ho).kept hkept
  · exact h
  · exact h
  · exact h

end

/-! ## Ids, callbacks and replies -/

structure Inv (token : Text) (s : State) : Prop where
  counted : s.socket.requestId = s.issued.length
  ids : s.issued.map Prod.fst = List.range' 1 s.issued.length
  once : (s.issued.map Prod.snd).Nodup
  started : ∀ id c, (id, c) ∈ s.issued →
    (s.phase c).isIdle = false ∧ (s.phase c).isLocking = false
  pending : ∀ id c, s.socket.callbacks id = some c →
    (id, c) ∈ s.issued ∧ (s.calls c).received = []
  single : ∀ c, (s.calls c).received.length ≤ 1
  given : ∀ c, (s.calls c).received ≠ [] → ∃ id, (id, c) ∈ s.issued
  writtenOnce : (s.written.map Prod.fst).Nodup
  writer : ∀ id key argument, (id, key, argument) ∈ s.written →
    ∃ c, (id, c) ∈ s.issued ∧ (s.phase c).isSending = false
  told : ∀ c, Told token s c
  repliedOnce : (s.replies.map Prod.fst).Nodup
  replied : ∀ c, s.phase c = .replied ↔ c ∈ s.replies.map Prod.fst
  reply : ∀ c message, (c, message) ∈ s.replies → ∃ tag request result,
    (s.calls c).origin = .browser tag request ∧ message = replyMessage tag result ∧
      Carries token s c request result

theorem Inv.init (token : Text) : Inv token State.init where
  counted := rfl
  ids := rfl
  once := .nil
  started := by simp [State.init]
  pending := by simp [State.init, ClientWebsocket.new]
  single := by simp [State.init]
  given := by simp [State.init]
  writtenOnce := .nil
  writer := by simp [State.init]
  told c := by simp [Told, State.init, State.phase]
  repliedOnce := .nil
  replied := by simp [State.init, State.phase]
  reply := by simp [State.init]

section

variable {token : Text} {s s' : State}

/-- An id belongs to one call. -/
theorem Inv.call_unique (h : Inv token s) {id : Nat} {c d : CallId}
    (hc : (id, c) ∈ s.issued) (hd : (id, d) ∈ s.issued) : c = d := by
  have hnodup : (s.issued.map Prod.fst).Nodup := by
    rw [h.ids]
    exact List.nodup_range'
  have hpair := List.inj_on_of_nodup_map hnodup hc hd rfl
  exact congrArg Prod.snd hpair

/-- A call has one id. -/
theorem Inv.id_unique (h : Inv token s) {id id' : Nat} {c : CallId}
    (hid : (id, c) ∈ s.issued) (hid' : (id', c) ∈ s.issued) : id = id' := by
  have hpair := List.inj_on_of_nodup_map h.once hid hid' rfl
  exact congrArg Prod.fst hpair

/-- A call that is not past the lock has none. -/
theorem Inv.ne_of_issued (h : Inv token s) {c : CallId}
    (hphase : (s.phase c).isIdle = true ∨ (s.phase c).isLocking = true) {id : Nat} {d : CallId}
    (hid : (id, d) ∈ s.issued) : d ≠ c := by
  intro hd
  obtain ⟨hidle, hlocking⟩ := h.started id d hid
  rw [hd] at hidle hlocking
  rcases hphase with hphase | hphase
  · exact absurd (hphase.symm.trans hidle) (by simp)
  · exact absurd (hphase.symm.trans hlocking) (by simp)

theorem Inv.not_replied (h : Inv token s) {c : CallId} (hlive : s.phase c ≠ .replied) :
    c ∉ s.replies.map Prod.fst :=
  fun hc => hlive ((h.replied c).mpr hc)

theorem Inv.reply_kept (h : Inv token s) {c : CallId} {message : Value}
    (hm : (c, message) ∈ s.replies) (hkept : Kept s s' c) : ∃ tag request result,
      (s'.calls c).origin = .browser tag request ∧ message = replyMessage tag result ∧
        Carries token s' c request result := by
  obtain ⟨tag, request, result, horigin, hmessage, hcarries⟩ := h.reply c message hm
  exact ⟨tag, request, result, hkept.origin.trans horigin, hmessage, hcarries.kept hkept⟩

/-- A step that moves no call. Callbacks may go. -/
theorem Inv.frame (h : Inv token s) (hcalls : s'.calls = s.calls)
    (hissued : s'.issued = s.issued) (hwritten : s'.written = s.written)
    (hreplies : s'.replies = s.replies)
    (hcount : s'.socket.requestId = s.socket.requestId)
    (hcallbacks : ∀ id c, s'.socket.callbacks id = some c → s.socket.callbacks id = some c) :
    Inv token s' := by
  have hphase : ∀ c, s'.phase c = s.phase c := by
    intro c
    rw [State.phase, State.phase, hcalls]
  have hkept : ∀ c, Kept s s' c := by
    intro c
    refine .of_calls (by rw [hcalls]) ?_ ?_
    · rw [hissued]
      exact List.Subset.refl _
    · rw [hwritten]
      exact List.Subset.refl _
  exact {
    counted := by rw [hcount, hissued, h.counted]
    ids := by rw [hissued, h.ids]
    once := hissued ▸ h.once
    started := by
      intro id c hid
      rw [hphase]
      exact h.started id c (hissued ▸ hid)
    pending := by
      intro id c hc
      rw [hissued, hcalls]
      exact h.pending id c (hcallbacks id c hc)
    single := hcalls ▸ h.single
    given := by
      rw [hcalls, hissued]
      exact h.given
    writtenOnce := hwritten ▸ h.writtenOnce
    writer := by
      intro id key argument hw
      obtain ⟨c, hc, hsending⟩ := h.writer id key argument (hwritten ▸ hw)
      exact ⟨c, hissued ▸ hc, by rw [hphase, hsending]⟩
    told := fun c => (h.told c).kept (hphase c) (hkept c)
    repliedOnce := hreplies ▸ h.repliedOnce
    replied := by
      intro c
      rw [hphase, hreplies]
      exact h.replied c
    reply := fun c message hm => h.reply_kept (hreplies ▸ hm) (hkept c) }

/-- What a move of call `c` writes to the internal client: nothing, or the
message the call was sending. -/
def Writes (s s' : State) (c : CallId) : Prop :=
  s'.written = s.written ∨ ∃ id key argument, s.phase c = .sending id key argument ∧
    s'.written = s.written ++ [(id, key, argument)]

/-- A message is written once, by the call that sends it. -/
theorem Inv.writes (h : Inv token s) {c : CallId} (hwrites : Writes s s' c) :
    s.written ⊆ s'.written ∧ (s'.written.map Prod.fst).Nodup ∧
      ∀ id key argument, (id, key, argument) ∈ s'.written →
        (id, key, argument) ∈ s.written ∨ (id, c) ∈ s.issued := by
  rcases hwrites with hw | ⟨id, key, argument, hsending, hw⟩
  · rw [hw]
    exact ⟨List.Subset.refl _, h.writtenOnce, fun _ _ _ => .inl⟩
  · have hc : (id, c) ∈ s.issued := by
      have := h.told c
      rw [Told, hsending] at this
      exact this.1
    rw [hw]
    refine ⟨List.subset_append_left _ _, ?_, ?_⟩
    · rw [List.map_append]
      refine h.writtenOnce.append (List.nodup_singleton _) ?_
      intro id' hid' hnew
      obtain rfl : id' = id := by simpa using hnew
      obtain ⟨⟨i, k, a⟩, hmem, rfl⟩ := List.mem_map.mp hid'
      obtain ⟨d, hd, hdone⟩ := h.writer i k a hmem
      rw [h.call_unique hd hc, hsending] at hdone
      exact absurd hdone (by simp [Phase.isSending])
    · intro id' key' argument' hmem
      rcases List.mem_append.mp hmem with hmem | hmem
      · exact .inl hmem
      · obtain rfl : id' = id := congrArg Prod.fst (List.mem_singleton.mp hmem)
        exact .inr hc

/-- Call `c` moves on to `p`, which is past `send_request`. -/
theorem Inv.setPhase (h : Inv token s) {c : CallId} {p : Phase}
    (hcalls : s'.calls = (s.setPhase c p).calls) (hissued : s'.issued = s.issued)
    (hcount : s'.socket.requestId = s.socket.requestId)
    (hcallbacks : ∀ id d, s'.socket.callbacks id = some d → s.socket.callbacks id = some d)
    (hp : p.isIdle = false ∧ p.isLocking = false ∧ p.isSending = false)
    (hwrites : Writes s s' c) (htold : Told token s' c)
    (hlive : s.phase c ≠ .replied)
    (hreplies : s'.replies = s.replies ∧ p ≠ .replied ∨
      p = .replied ∧ ∃ tag request result, (s.calls c).origin = .browser tag request ∧
        Carries token s c request result ∧
        s'.replies = s.replies ++ [(c, replyMessage tag result)]) :
    Inv token s' := by
  have hself : s'.calls c = { s.calls c with phase := p } := by
    rw [hcalls]
    exact s.setCall_self ..
  have hother : ∀ d, d ≠ c → s'.calls d = s.calls d := by
    intro d hd
    rw [hcalls]
    exact s.setCall_of_ne _ hd
  have hphase : s'.phase c = p := by rw [State.phase, hself]
  have hphase' : ∀ d, d ≠ c → s'.phase d = s.phase d := by
    intro d hd
    rw [State.phase, State.phase, hother d hd]
  have hrest : ∀ d, (s'.calls d).origin = (s.calls d).origin ∧
      (s'.calls d).received = (s.calls d).received := by
    intro d
    rcases eq_or_ne d c with rfl | hd
    · rw [hself]
      exact ⟨rfl, rfl⟩
    · rw [hother d hd]
      exact ⟨rfl, rfl⟩
  obtain ⟨hsub, hwrittenOnce, hwritten⟩ := h.writes hwrites
  have hkept : ∀ d, Kept s s' d := by
    intro d
    refine ⟨(hrest d).1, ?_, ?_, hsub⟩
    · rw [(hrest d).2]
      exact List.Subset.refl _
    · rw [hissued]
      exact List.Subset.refl _
  exact {
    counted := by rw [hcount, hissued, h.counted]
    ids := by rw [hissued, h.ids]
    once := hissued ▸ h.once
    started := by
      intro id d hid
      rcases eq_or_ne d c with rfl | hd
      · rw [hphase]
        exact ⟨hp.1, hp.2.1⟩
      · rw [hphase' d hd]
        exact h.started id d (hissued ▸ hid)
    pending := by
      intro id d hid
      rw [hissued, (hrest d).2]
      exact h.pending id d (hcallbacks id d hid)
    single := by
      intro d
      rw [(hrest d).2]
      exact h.single d
    given := by
      intro d hd
      rw [hissued]
      exact h.given d ((hrest d).2 ▸ hd)
    writtenOnce := hwrittenOnce
    writer := by
      intro id key argument hw
      rcases hwritten id key argument hw with hold | hold
      · obtain ⟨d, hd, hdone⟩ := h.writer id key argument hold
        refine ⟨d, hissued ▸ hd, ?_⟩
        rcases eq_or_ne d c with rfl | hne
        · rw [hphase]
          exact hp.2.2
        · rw [hphase' d hne]
          exact hdone
      · exact ⟨c, hissued ▸ hold, by rw [hphase]; exact hp.2.2⟩
    told := by
      intro d
      rcases eq_or_ne d c with rfl | hd
      · exact htold
      · exact (h.told d).kept (hphase' d hd) (hkept d)
    repliedOnce := by
      rcases hreplies with ⟨hsame, -⟩ | ⟨-, tag, request, result, -, -, hsame⟩
      · exact hsame ▸ h.repliedOnce
      · rw [hsame, List.map_append]
        refine h.repliedOnce.append (List.nodup_singleton _) ?_
        intro d hd hnew
        obtain rfl : d = c := by simpa using hnew
        exact h.not_replied hlive hd
    replied := by
      intro d
      rcases hreplies with ⟨hsame, hnot⟩ | ⟨his, tag, request, result, -, -, hsame⟩
      · rw [hsame]
        rcases eq_or_ne d c with rfl | hd
        · rw [hphase]
          exact iff_of_false hnot (h.not_replied hlive)
        · rw [hphase' d hd]
          exact h.replied d
      · rw [hsame, List.map_append, List.mem_append]
        rcases eq_or_ne d c with rfl | hd
        · rw [hphase]
          exact iff_of_true his (.inr (by simp))
        · rw [hphase' d hd]
          refine (h.replied d).trans ⟨.inl, fun hor => ?_⟩
          rcases hor with hor | hor
          · exact hor
          · exact absurd (by simpa using hor) hd
    reply := by
      intro d message hm
      rcases hreplies with ⟨hsame, -⟩ | ⟨-, tag, request, result, horigin, hc, hsame⟩
      · exact h.reply_kept (hsame ▸ hm) (hkept d)
      · rw [hsame, List.mem_append, List.mem_singleton] at hm
        rcases hm with hm | hm
        · exact h.reply_kept hm (hkept d)
        · obtain ⟨rfl, rfl⟩ : d = c ∧ message = replyMessage tag result := by simpa using hm
          exact ⟨tag, request, result, (hrest d).1.trans horigin, rfl, hc.kept (hkept d)⟩ }

/-- A handler starts, with a call that was never made. -/
theorem Inv.begin (h : Inv token s) {c : CallId} (hidle : (s.phase c).isIdle = true)
    {origin : Origin} {p : Phase} (hp : p ≠ .replied)
    (htold : Told token (s.setCall c ⟨origin, p, []⟩) c) :
    Inv token (s.setCall c ⟨origin, p, []⟩) := by
  have hself := s.setCall_self c ⟨origin, p, []⟩
  have hother : ∀ d, d ≠ c → (s.setCall c ⟨origin, p, []⟩).calls d = s.calls d :=
    fun d hd => s.setCall_of_ne _ hd
  have hphase : ∀ d, d ≠ c → (s.setCall c ⟨origin, p, []⟩).phase d = s.phase d :=
    fun d hd => congrArg Call.phase (hother d hd)
  have hkept : ∀ d, d ≠ c → Kept s (s.setCall c ⟨origin, p, []⟩) d :=
    fun d hd => .of_calls (hother d hd) (List.Subset.refl _) (List.Subset.refl _)
  have hne : ∀ id d, (id, d) ∈ s.issued → d ≠ c := fun id d hid => h.ne_of_issued (.inl hidle) hid
  have hunreplied : c ∉ s.replies.map Prod.fst := by
    refine h.not_replied fun hreplied => ?_
    rw [hreplied] at hidle
    exact absurd hidle (by simp [Phase.isIdle])
  exact {
    counted := h.counted
    ids := h.ids
    once := h.once
    started := by
      intro id d hid
      rw [hphase d (hne id d hid)]
      exact h.started id d hid
    pending := by
      intro id d hid
      obtain ⟨hissued, hreceived⟩ := h.pending id d hid
      rw [hother d (hne id d hissued)]
      exact ⟨hissued, hreceived⟩
    single := by
      intro d
      rcases eq_or_ne d c with rfl | hd
      · rw [hself]
        exact Nat.zero_le 1
      · rw [hother d hd]
        exact h.single d
    given := by
      intro d hd
      rcases eq_or_ne d c with rfl | hdc
      · rw [hself] at hd
        exact absurd rfl hd
      · rw [hother d hdc] at hd
        exact h.given d hd
    writtenOnce := h.writtenOnce
    writer := by
      intro id key argument hw
      obtain ⟨d, hd, hdone⟩ := h.writer id key argument hw
      exact ⟨d, hd, by rw [hphase d (hne id d hd), hdone]⟩
    told := by
      intro d
      rcases eq_or_ne d c with rfl | hd
      · exact htold
      · exact (h.told d).kept (hphase d hd) (hkept d hd)
    repliedOnce := h.repliedOnce
    replied := by
      intro d
      rcases eq_or_ne d c with rfl | hd
      · rw [State.phase, hself]
        exact iff_of_false hp hunreplied
      · rw [hphase d hd]
        exact h.replied d
    reply := by
      intro d message hm
      refine h.reply_kept hm (hkept d ?_)
      rintro rfl
      exact hunreplied (List.mem_map_of_mem hm) }

/-- A call gets the lock and takes the next id. -/
theorem Inv.acquire (h : Inv token s) {c : CallId} (hlock : (s.phase c).isLocking = true)
    (hcount : s.issued.length + 1 < 2 ^ 64) : Inv token (next token s (.acquire c)) := by
  obtain ⟨key, argument, hlocking⟩ := Phase.eq_locking hlock
  have hid : s.socket.nextId = 1 + s.issued.length := by
    rw [ClientWebsocket.nextId, h.counted, Nat.mod_eq_of_lt hcount, Nat.add_comm]
  have hasked : Asked (s.calls c).origin key argument := by
    have := h.told c
    rw [Told, hlocking] at this
    exact this
  have hne : ∀ id d, (id, d) ∈ s.issued → d ≠ c := fun id d hmem => h.ne_of_issued (.inr hlock) hmem
  have hempty : (s.calls c).received = [] := by
    by_contra hreceived
    obtain ⟨id, hmem⟩ := h.given c hreceived
    exact hne id c hmem rfl
  have hunreplied : c ∉ s.replies.map Prod.fst := h.not_replied (by simp [hlocking])
  obtain ⟨s', hs'⟩ : ∃ s', s' = next token s (.acquire c) := ⟨_, rfl⟩
  rw [← hs']
  simp only [next, hlocking] at hs'
  have hsocket : s'.socket = s.socket.register c := hs' ▸ rfl
  have hissued : s'.issued = s.issued ++ [(s.socket.nextId, c)] := hs' ▸ rfl
  have hwritten : s'.written = s.written := hs' ▸ rfl
  have hreplies : s'.replies = s.replies := hs' ▸ rfl
  have hself : s'.calls c = { s.calls c with phase := .sending s.socket.nextId key argument } := by
    rw [hs']
    exact s.setCall_self ..
  have hother : ∀ d, d ≠ c → s'.calls d = s.calls d := by
    intro d hd
    rw [hs']
    exact s.setCall_of_ne _ hd
  have hphase : s'.phase c = .sending s.socket.nextId key argument := by rw [State.phase, hself]
  have hphase' : ∀ d, d ≠ c → s'.phase d = s.phase d :=
    fun d hd => congrArg Call.phase (hother d hd)
  have hnew : (s.socket.nextId, c) ∈ s'.issued := by simp [hissued]
  have hold : s.issued ⊆ s'.issued := by
    rw [hissued]
    exact List.subset_append_left _ _
  have hkept : ∀ d, d ≠ c → Kept s s' d := by
    intro d hd
    refine .of_calls (hother d hd) hold ?_
    rw [hwritten]
    exact List.Subset.refl _
  exact {
    counted := by simp [hsocket, hissued, ClientWebsocket.register, hid, Nat.add_comm]
    ids := by
      rw [hissued]
      simp only [List.map_append, List.length_append, List.map_cons, List.map_nil,
        List.length_singleton]
      rw [h.ids, hid, List.range'_concat, Nat.one_mul]
    once := by
      rw [hissued]
      simp only [List.map_append, List.map_cons, List.map_nil]
      refine h.once.append (List.nodup_singleton _) ?_
      intro d hd hc
      obtain ⟨⟨id, d⟩, hmem, rfl⟩ := List.mem_map.mp hd
      exact hne id d hmem (by simpa using hc)
    started := by
      intro id d hmem
      rcases eq_or_ne d c with rfl | hd
      · rw [hphase]
        exact ⟨rfl, rfl⟩
      · rw [hphase' d hd]
        rcases List.mem_append.mp (hissued ▸ hmem) with hmem | hmem
        · exact h.started id d hmem
        · exact absurd (congrArg Prod.snd (List.mem_singleton.mp hmem)) hd
    pending := by
      intro id d hcb
      simp only [hsocket, ClientWebsocket.register] at hcb
      rcases eq_or_ne id s.socket.nextId with rfl | hidne
      · obtain rfl : c = d := by simpa using hcb
        rw [hself]
        exact ⟨hnew, hempty⟩
      · rw [Function.update_of_ne hidne] at hcb
        obtain ⟨hmem, hrec⟩ := h.pending id d hcb
        rw [hother d (hne id d hmem)]
        exact ⟨hold hmem, hrec⟩
    single := by
      intro d
      rcases eq_or_ne d c with rfl | hd
      · rw [hself]
        exact h.single d
      · rw [hother d hd]
        exact h.single d
    given := by
      intro d hd
      rcases eq_or_ne d c with rfl | hdc
      · exact ⟨_, hnew⟩
      · rw [hother d hdc] at hd
        obtain ⟨id, hmem⟩ := h.given d hd
        exact ⟨id, hold hmem⟩
    writtenOnce := hwritten ▸ h.writtenOnce
    writer := by
      intro id key' argument' hw
      obtain ⟨d, hd, hdone⟩ := h.writer id key' argument' (hwritten ▸ hw)
      exact ⟨d, hold hd, by rw [hphase' d (hne id d hd), hdone]⟩
    told := by
      intro d
      rcases eq_or_ne d c with rfl | hd
      · rw [Told, hphase, hself]
        exact ⟨hnew, hasked⟩
      · exact (h.told d).kept (hphase' d hd) (hkept d hd)
    repliedOnce := hreplies ▸ h.repliedOnce
    replied := by
      intro d
      rw [hreplies]
      rcases eq_or_ne d c with rfl | hd
      · rw [hphase]
        exact iff_of_false (by simp) hunreplied
      · rw [hphase' d hd]
        exact h.replied d
    reply := by
      intro d message hm
      rw [hreplies] at hm
      refine h.reply_kept hm (hkept d ?_)
      rintro rfl
      exact hunreplied (List.mem_map_of_mem hm) }

/-- A callback is given its value and is gone. -/
theorem Inv.feed (h : Inv token s) {n : Nat} {c : CallId}
    (hpending : s.socket.callbacks n = some c) (value : Value) :
    Inv token ({ s with socket := s.socket.forget n }.setCall c
      { s.calls c with received := (s.calls c).received ++ [value] }) := by
  obtain ⟨hissued, hempty⟩ := h.pending n c hpending
  obtain ⟨s', hs'⟩ : ∃ s', s' = { s with socket := s.socket.forget n }.setCall c
      { s.calls c with received := (s.calls c).received ++ [value] } := ⟨_, rfl⟩
  rw [← hs']
  have hself :
      s'.calls c = { s.calls c with received := (s.calls c).received ++ [value] } := by
    rw [hs']
    exact State.setCall_self ..
  have hother : ∀ d, d ≠ c → s'.calls d = s.calls d := by
    intro d hd
    rw [hs']
    exact State.setCall_of_ne _ _ hd
  have hsocket : s'.socket = s.socket.forget n := hs' ▸ rfl
  have hsameIssued : s'.issued = s.issued := hs' ▸ rfl
  have hsameWritten : s'.written = s.written := hs' ▸ rfl
  have hsameReplies : s'.replies = s.replies := hs' ▸ rfl
  have hphase : ∀ d, s'.phase d = s.phase d := by
    intro d
    rcases eq_or_ne d c with rfl | hd
    · rw [State.phase, hself]
      rfl
    · exact congrArg Call.phase (hother d hd)
  have hkept : ∀ d, Kept s s' d := by
    intro d
    have hissued' : s.issued ⊆ s'.issued := by
      rw [hsameIssued]
      exact List.Subset.refl _
    have hwritten' : s.written ⊆ s'.written := by
      rw [hsameWritten]
      exact List.Subset.refl _
    rcases eq_or_ne d c with rfl | hd
    · refine ⟨by rw [hself], ?_, hissued', hwritten'⟩
      rw [hself]
      exact List.subset_append_left _ _
    · exact .of_calls (hother d hd) hissued' hwritten'
  exact {
    counted := by rw [hsocket, hsameIssued]; exact h.counted
    ids := by rw [hsameIssued, h.ids]
    once := hsameIssued ▸ h.once
    started := by
      intro id d hid
      rw [hphase]
      exact h.started id d (hsameIssued ▸ hid)
    pending := by
      intro id d hid
      simp only [hsocket, ClientWebsocket.forget] at hid
      have hne : id ≠ n := by
        rintro rfl
        simp at hid
      rw [Function.update_of_ne hne] at hid
      obtain ⟨hd, hrec⟩ := h.pending id d hid
      have hdc : d ≠ c := by
        rintro rfl
        exact hne (h.id_unique hd hissued)
      rw [hother d hdc, hsameIssued]
      exact ⟨hd, hrec⟩
    single := by
      intro d
      rcases eq_or_ne d c with rfl | hd
      · rw [hself, hempty]
        exact Nat.le_refl 1
      · rw [hother d hd]
        exact h.single d
    given := by
      intro d hd
      rw [hsameIssued]
      rcases eq_or_ne d c with rfl | hdc
      · exact ⟨n, hissued⟩
      · rw [hother d hdc] at hd
        exact h.given d hd
    writtenOnce := hsameWritten ▸ h.writtenOnce
    writer := by
      intro id key argument hw
      obtain ⟨d, hd, hdone⟩ := h.writer id key argument (hsameWritten ▸ hw)
      exact ⟨d, hsameIssued ▸ hd, by rw [hphase, hdone]⟩
    told := fun d => (h.told d).kept (hphase d) (hkept d)
    repliedOnce := hsameReplies ▸ h.repliedOnce
    replied := by
      intro d
      rw [hphase, hsameReplies]
      exact h.replied d
    reply := fun d message hm => h.reply_kept (hsameReplies ▸ hm) (hkept d) }

/-! ## Every step -/

theorem told_ofRequest (c : CallId) (tag request : Option Value) :
    Told token (s.setCall c ⟨.browser tag request, .ofRequest token request, []⟩) c := by
  let t := s.setCall c ⟨.browser tag request, .ofRequest token request, []⟩
  have hself : t.calls c = ⟨.browser tag request, .ofRequest token request, []⟩ :=
    Function.update_self ..
  have horigin : (t.calls c).origin = .browser tag request := congrArg Call.origin hself
  have hphase : t.phase c = .ofRequest token request := congrArg Call.phase hself
  have hresolved : ∀ result, Phase.ofRequest token request = .resolved result →
      Result token t.issued t.written (fun _ value => value ∈ (t.calls c).received) c
        request result → Told token t c := by
    intro result hp hr
    rw [Told, hphase, hp]
    intro tag' request' ho
    obtain ⟨rfl, rfl⟩ : tag = tag' ∧ request = request' := by
      rw [horigin] at ho
      simpa using ho
    exact hr
  change Told token t c
  cases hcall : Session.Call.ofRequest request with
  | shell value =>
      have hp : Phase.ofRequest token request = .shell := by rw [Phase.ofRequest, hcall]
      rw [Told, hphase, hp]
      exact ⟨tag, request, value, horigin, hcall⟩
  | token =>
      refine hresolved (.ok (.str token)) (by rw [Phase.ofRequest, hcall]) ?_
      rw [Result, hcall]
  | forward key argument =>
      have hp : Phase.ofRequest token request = .locking key argument := by
        rw [Phase.ofRequest, hcall]
      rw [Told, hphase, hp, horigin]
      exact hcall
  | unknown =>
      refine hresolved (.error .unknownRequest) (by rw [Phase.ofRequest, hcall]) ?_
      rw [Result, hcall]

/-- What a resolved call carries when its call to the internal client failed. -/
theorem carries_error {c : CallId} {key : Text} {argument : Value} {e : RequestError}
    (hasked : Asked (s.calls c).origin key argument)
    (he : e = .sshConnectNotEstablish ∨ e = .internalError) {tag request : Option Value}
    (horigin : (s.calls c).origin = .browser tag request) :
    Carries token s c request (.error e) := by
  rw [horigin] at hasked
  unfold Asked at hasked
  simp only [Carries, Result, hasked]
  rcases he with rfl | rfl
  · exact .inl rfl
  · exact .inr (.inl rfl)

theorem setPhase_phase (c : CallId) (p : Phase) : (s.setPhase c p).phase c = p := by
  simp only [State.phase, State.setPhase, State.setCall, Function.update_self]

theorem setPhase_rest (c d : CallId) (p : Phase) :
    ((s.setPhase c p).calls d).origin = (s.calls d).origin ∧
      ((s.setPhase c p).calls d).received = (s.calls d).received := by
  simp only [State.setPhase, State.setCall]
  rcases eq_or_ne d c with rfl | hd
  · rw [Function.update_self]
    exact ⟨rfl, rfl⟩
  · rw [Function.update_of_ne hd]
    exact ⟨rfl, rfl⟩

/-- A call is resolved with something it may carry. -/
theorem Inv.resolve (h : Inv token s) {c : CallId}
    (result : Except RequestError Value)
    (hcalls : s'.calls = (s.setPhase c (.resolved result)).calls)
    (hissued : s'.issued = s.issued) (hwritten : s'.written = s.written)
    (hreplies : s'.replies = s.replies)
    (hcount : s'.socket.requestId = s.socket.requestId)
    (hcallbacks : ∀ id d, s'.socket.callbacks id = some d → s.socket.callbacks id = some d)
    (hlive : s.phase c ≠ .replied)
    (hcarries : ∀ tag request, (s.calls c).origin = .browser tag request →
      Carries token s c request result) : Inv token s' := by
  refine h.setPhase hcalls hissued hcount hcallbacks ⟨rfl, rfl, rfl⟩ (.inl hwritten) ?_ hlive
    (.inl ⟨hreplies, by simp⟩)
  have hphase : s'.phase c = .resolved result := by
    rw [State.phase, hcalls]
    exact setPhase_phase c _
  rw [Told, hphase, hcalls, (setPhase_rest c c _).1]
  intro tag request horigin
  refine (hcarries tag request horigin).kept ⟨?_, ?_, ?_, ?_⟩
  · rw [hcalls, (setPhase_rest c c _).1]
  · rw [hcalls, (setPhase_rest c c _).2]
    exact List.Subset.refl _
  · rw [hissued]
    exact List.Subset.refl _
  · rw [hwritten]
    exact List.Subset.refl _

theorem Inv.sent (h : Inv token s) {c : CallId} (hsend : (s.phase c).isSending = true)
    (ok : Bool) : Inv token (next token s (.sent c ok)) := by
  obtain ⟨id, key, argument, hphase⟩ := Phase.eq_sending hsend
  have htold := h.told c
  rw [Told, hphase] at htold
  obtain ⟨hid, hasked⟩ := htold
  simp only [next, hphase]
  cases ok with
  | true =>
      refine h.setPhase (p := .awaiting id) rfl rfl rfl (fun _ _ hc => hc) ⟨rfl, rfl, rfl⟩
        (.inr ⟨id, key, argument, hphase, rfl⟩) ?_ (by simp [hphase]) (.inl ⟨rfl, by simp⟩)
      simp only [cond_true, Told]
      rw [show State.phase { s.setPhase c (.awaiting id) with
        holder := none, written := s.written ++ [(id, key, argument)] } c = .awaiting id from
          setPhase_phase c _]
      refine ⟨hid, key, argument, ?_, List.mem_append_right _ List.mem_cons_self⟩
      rw [(setPhase_rest c c _).1]
      exact hasked
  | false =>
      refine h.resolve (.error .sshConnectNotEstablish) rfl rfl rfl rfl rfl ?_
        (by simp [hphase]) fun tag request horigin => carries_error hasked (.inl rfl) horigin
      intro n d hd
      simp only [cond_false, ClientWebsocket.forget] at hd
      rcases eq_or_ne n id with rfl | hn
      · simp at hd
      · rw [Function.update_of_ne hn] at hd
        exact hd

theorem Inv.answer (h : Inv token s) {c : CallId} (hwait : (s.phase c).isAwaiting = true)
    (hgiven : (s.calls c).received.isEmpty = false) : Inv token (next token s (.resolve c)) := by
  obtain ⟨id, hphase⟩ := Phase.eq_awaiting hwait
  have htold := h.told c
  rw [Told, hphase] at htold
  obtain ⟨hid, key, argument, hasked, hw⟩ := htold
  cases hreceived : (s.calls c).received with
  | nil => simp [hreceived] at hgiven
  | cons value rest =>
      simp only [next, hreceived, List.head?_cons]
      refine h.resolve _ rfl rfl rfl rfl rfl (fun _ _ hc => hc) (by simp [hphase]) ?_
      intro tag request horigin
      rw [horigin] at hasked
      unfold Asked at hasked
      rw [Carries, Result, hasked]
      exact .inr (.inr ⟨id, value, hid, hw, by simp [hreceived], rfl⟩)

theorem Inv.cancel (h : Inv token s) {c : CallId} (horphan : s.orphaned c = true) :
    Inv token (next token s (.cancel c)) := by
  obtain ⟨id, hphase⟩ := State.awaiting_of_orphaned horphan
  have htold := h.told c
  rw [Told, hphase] at htold
  obtain ⟨-, key, argument, hasked, -⟩ := htold
  exact h.resolve _ rfl rfl rfl rfl rfl (fun _ _ hc => hc) (by simp [hphase])
    fun tag request horigin => carries_error hasked (.inr rfl) horigin

theorem Inv.shellDone (h : Inv token s) {c : CallId} (hshell : (s.phase c).isShell = true)
    (ok : Bool) : Inv token (next token s (.shellDone c ok)) := by
  have hphase : s.phase c = .shell := by
    cases hp : s.phase c with
    | shell => rfl
    | _ => simp [hp, Phase.isShell] at hshell
  have htold := h.told c
  rw [Told, hphase] at htold
  obtain ⟨tag, request, value, horigin, hcall⟩ := htold
  refine h.resolve _ rfl rfl rfl rfl rfl (fun _ _ hc => hc) (by simp [hphase]) ?_
  intro tag' request' horigin'
  obtain ⟨rfl, rfl⟩ : tag = tag' ∧ request = request' := by
    rw [horigin] at horigin'
    simpa using horigin'
  rw [Carries, Result, hcall]
  cases ok with
  | true => exact .inl rfl
  | false => exact .inr rfl

theorem Inv.replies (h : Inv token s) {c : CallId} (hdone : (s.phase c).isResolved = true)
    (hbrowser : (s.calls c).origin.isBrowser = true) :
    Inv token (next token s (.reply c)) := by
  obtain ⟨result, hphase⟩ := Phase.eq_resolved hdone
  have htold := h.told c
  rw [Told, hphase] at htold
  cases horigin : (s.calls c).origin with
  | browser tag request =>
      simp only [next, hphase, horigin]
      refine h.setPhase (p := .replied) rfl rfl rfl (fun _ _ hc => hc) ⟨rfl, rfl, rfl⟩ (.inl rfl)
        ?_ (by simp [hphase])
        (.inr ⟨rfl, tag, request, result, horigin, htold tag request horigin, rfl⟩)
      rw [Told]
      rw [show State.phase { s.setPhase c .replied with
        replies := s.replies ++ [(c, replyMessage tag result)] } c = .replied from
          setPhase_phase c _]
      trivial
  | transfer a => simp [horigin, Origin.isBrowser] at hbrowser

theorem Inv.drop (h : Inv token s) {c : CallId} (hlive : s.phase c ≠ .replied)
    (buffered : Bool) : Inv token (next token s (.drop c buffered)) := by
  refine h.setPhase (p := .dropped) rfl rfl rfl (fun _ _ hc => hc) ⟨rfl, rfl, rfl⟩ ?_ ?_ hlive
    (.inl ⟨rfl, by simp⟩)
  · simp only [Writes, next]
    split
    · next id key argument hphase => exact .inr ⟨id, key, argument, hphase, rfl⟩
    · exact .inl rfl
  · rw [Told]
    rw [show (next token s (.drop c buffered)).phase c = .dropped from setPhase_phase c _]
    trivial

theorem Inv.handle (h : Inv token s) (incoming : Incoming) : Inv token (s.handle incoming) := by
  cases incoming with
  | event value => exact h.frame rfl rfl rfl rfl rfl fun _ _ hc => hc
  | unknown => exact h
  | response id value =>
      simp only [State.handle, ClientWebsocket.feedResponse]
      cases hid : id.asU64? with
      | none => exact h
      | some n =>
          cases hcb : s.socket.callbacks n with
          | none => simpa only [hcb] using h
          | some c => simpa only [hcb] using h.feed hcb value

/-- Only a call that gets the lock takes an id. -/
theorem issued_next (token : Text) (s : State) (l : Label) :
    (next token s l).issued = s.issued ∨
    ∃ c, l = .acquire c ∧ (s.phase c).isLocking = true ∧
      (next token s l).issued = s.issued ++ [(s.socket.nextId, c)] := by
  cases l with
  | acquire c =>
      simp only [next]
      split
      · next key argument hphase => exact .inr ⟨c, rfl, by rw [hphase]; rfl, rfl⟩
      · exact .inl rfl
  | sent c ok =>
      simp only [next]
      split
      · cases ok <;> exact .inl rfl
      · exact .inl rfl
  | resolve c | reply c =>
      simp only [next]
      split <;> exact .inl rfl
  | handle i =>
      simp only [next]
      split
      · next incoming _ =>
          cases incoming with
          | response id value =>
              simp only [State.handle]
              split <;> exact .inl rfl
          | event | unknown => exact .inl rfl
      · exact .inl rfl
  | _ => exact .inl rfl

theorem issued_length_le (l : Label) : s.issued.length ≤ (next token s l).issued.length := by
  rcases issued_next token s l with h | ⟨c, -, -, h⟩
  · rw [h]
  · rw [h, List.length_append]
    exact Nat.le_add_right _ _

theorem Inv.next (h : Inv token s) {l : Label} (hen : enabled s l)
    (hcount : (next token s l).issued.length < 2 ^ 64) : Inv token (next token s l) := by
  cases l with
  | browser c tag request =>
      exact h.begin hen (ofRequest_ne_replied request) (told_ofRequest c tag request)
  | transfer c argument =>
      refine h.begin hen (by simp) ?_
      simp only [Told, State.phase, State.setCall, Function.update_self]
      exact ⟨rfl, rfl⟩
  | acquire c =>
      refine h.acquire hen.1 ?_
      cases hphase : s.phase c with
      | locking key argument => simpa [WebSshTool.Rpc.next, hphase] using hcount
      | _ =>
          have hlock := hen.1
          simp [hphase, Phase.isLocking] at hlock
  | sent c ok => exact h.sent hen.1 ok
  | resolve c => exact h.answer hen.1 hen.2
  | cancel c => exact h.cancel hen
  | shellDone c ok => exact h.shellDone hen ok
  | reply c => exact h.replies hen.1 hen.2
  | drop c buffered =>
      refine h.drop ?_ buffered
      intro hphase
      obtain ⟨-, hlive⟩ := hen
      simp [hphase, Phase.isLocking, Phase.isAwaiting, Phase.isSending] at hlive
  | handle i =>
      simp only [WebSshTool.Rpc.next]
      split
      · next incoming _ =>
          have hinbox : Inv token { s with inbox := s.inbox.eraseIdx i } :=
            h.frame rfl rfl rfl rfl rfl fun _ _ hc => hc
          exact hinbox.handle incoming
      · exact h
  | receive message | forward | forwarded | disconnect =>
      exact h.frame rfl rfl rfl rfl rfl fun _ _ hc => hc
  | disconnected =>
      refine h.frame rfl rfl rfl rfl rfl fun id c hc => ?_
      simp [WebSshTool.Rpc.next, ClientWebsocket.disconnect] at hc

/-- The ids of a run with fewer than 2^64 calls never wrap. -/
theorem reachable_inv (hs : (machine token).Reachable s) (hcount : s.issued.length < 2 ^ 64) :
    Inv token s := by
  revert hcount
  refine hs.invariant (I := fun s => s.issued.length < 2 ^ 64 → Inv token s)
    (fun _ => Inv.init token) ?_
  intro s l _ h hen _ hcount
  exact (h (Nat.lt_of_le_of_lt (issued_length_le l) hcount)).next hen hcount

end

/-! ## An honest client -/

/-- The client answers a pending id with the result of the request it got under
that id. Responses under other ids, or under none, are whatever they are. -/
def Honest (result : Nat → Value) (s : State) : Label → Prop
  | .handle i => ∀ id value n, s.inbox[i]? = some (.response id value) →
      id.asU64? = some n → (s.socket.callbacks n).isSome = true → value = result n
  | _ => True

section

variable {token : Text} {s : State}

/-- A callback is given a value by the handler of a response, and by no other step. -/
theorem received_next {l : Label} {c : CallId} {value : Value}
    (hv : value ∈ ((next token s l).calls c).received) :
    value ∈ (s.calls c).received ∨ ∃ i id n, l = .handle i ∧
      s.inbox[i]? = some (.response id value) ∧ id.asU64? = some n ∧
        s.socket.callbacks n = some c := by
  have hset : ∀ d p, value ∈ ((s.setPhase d p).calls c).received →
      value ∈ (s.calls c).received := by
    intro d p hv
    rw [(setPhase_rest d c p).2] at hv
    exact hv
  cases l with
  | browser d tag request | transfer d argument =>
      simp only [next, State.setCall] at hv
      rcases eq_or_ne c d with rfl | hd
      · simp at hv
      · rw [Function.update_of_ne hd] at hv
        exact .inl hv
  | acquire d =>
      simp only [next] at hv
      split at hv
      · exact .inl (hset d _ hv)
      · exact .inl hv
  | sent d ok =>
      simp only [next] at hv
      split at hv
      · cases ok with
        | true | false => exact .inl (hset d _ hv)
      · exact .inl hv
  | resolve d | reply d =>
      simp only [next] at hv
      split at hv
      · exact .inl (hset d _ hv)
      · exact .inl hv
  | cancel d | shellDone d ok | drop d buffered => exact .inl (hset d _ hv)
  | handle i =>
      simp only [next] at hv
      split at hv
      · next incoming hi =>
          cases incoming with
          | response id v =>
              simp only [State.handle, ClientWebsocket.feedResponse] at hv
              cases hid : id.asU64? with
              | none => exact .inl (by simpa only [hid] using hv)
              | some n =>
                  cases hcb : s.socket.callbacks n with
                  | none => exact .inl (by simpa only [hid, hcb] using hv)
                  | some d =>
                      simp only [hid, hcb, State.setCall] at hv
                      rcases eq_or_ne c d with rfl | hd
                      · rw [Function.update_self] at hv
                        rcases List.mem_append.mp hv with hv | hv
                        · exact .inl hv
                        · obtain rfl := List.mem_singleton.mp hv
                          exact .inr ⟨i, id, n, rfl, hi, hid, hcb⟩
                      · rw [Function.update_of_ne hd] at hv
                        exact .inl hv
          | event | unknown => exact .inl hv
      · exact .inl hv
  | receive | forward | forwarded | disconnect | disconnected => exact .inl hv

theorem honest_received {result : Nat → Value}
    (hs : (machine token).Reaches (Honest result) s) (hcount : s.issued.length < 2 ^ 64) :
    ∀ id c value, (id, c) ∈ s.issued → value ∈ (s.calls c).received → value = result id := by
  revert hcount
  refine hs.invariant (I := fun s => s.issued.length < 2 ^ 64 → ∀ id c value,
    (id, c) ∈ s.issued → value ∈ (s.calls c).received → value = result id) ?_ ?_
  · intro _ id c value hid
    simp [machine, State.init] at hid
  · intro s l hs ih hen hok hcount id c value hid hv
    have hold : s.issued.length < 2 ^ 64 := Nat.lt_of_le_of_lt (issued_length_le l) hcount
    have hinv : Inv token s := reachable_inv hs.reachable hold
    have hissued : (id, c) ∈ s.issued ∨ l = .acquire c ∧ (s.phase c).isLocking = true := by
      rcases issued_next token s l with h | ⟨d, rfl, hlock, h⟩
      · exact .inl (h ▸ hid)
      · simp only [machine, h, List.mem_append, List.mem_singleton] at hid
        rcases hid with hid | hid
        · exact .inl hid
        · obtain rfl : c = d := congrArg Prod.snd hid
          exact .inr ⟨rfl, hlock⟩
    rcases received_next hv with hgot | ⟨i, id', n, rfl, hi, hn, hcb⟩
    · rcases hissued with hid | ⟨-, hlock⟩
      · exact ih hold id c value hid hgot
      · obtain ⟨id', hid'⟩ := hinv.given c (List.ne_nil_of_mem hgot)
        have hstarted := (hinv.started id' c hid').2
        rw [hlock] at hstarted
        exact absurd hstarted (by simp)
    · rcases hissued with hid | ⟨hl, -⟩
      · rw [hinv.id_unique hid (hinv.pending n c hcb).1]
        exact hok id' value n hi hn (by rw [hcb]; rfl)
      · exact absurd hl (by simp)

/-! ## One value for a callback, one reply for a message -/

/-- The response cannot be given to anyone: its id is malformed or not pending. -/
def Unknown (s : State) (id : Value) : Prop :=
  ∀ n, id.asU64? = some n → s.socket.callbacks n = none

/-- Whatever the client sends: a callback is given at most one value, an id is
taken and written once, and every message is replied to once and only once its
handler is done. -/
structure Correlated (s : State) : Prop where
  atMostOne : ∀ c, (s.calls c).received.length ≤ 1
  idsDiffer : (s.issued.map Prod.fst).Nodup ∧ (s.issued.map Prod.snd).Nodup
  writtenOnce : (s.written.map Prod.fst).Nodup
  repliedOnce : (s.replies.map Prod.fst).Nodup
  replied : ∀ c, s.phase c = .replied ↔ c ∈ s.replies.map Prod.fst

/-- The reply to a message has the tag of that message and the result of its
request: what the client answered under the id of the call, and under that id it
was sent the request and nothing else. -/
def RepliesMatch (token : Text) (result : Nat → Value) (s : State) : Prop :=
  ∀ c message, (c, message) ∈ s.replies → ∃ tag request outcome,
    (s.calls c).origin = .browser tag request ∧ message = replyMessage tag outcome ∧
      Result token s.issued s.written (fun id value => value = result id) c request outcome

theorem feed_unknown {i : Nat} {id value : Value}
    (hi : s.inbox[i]? = some (.response id value)) (hunknown : Unknown s id) :
    (next token s (.handle i)).socket = s.socket ∧
      (next token s (.handle i)).calls = s.calls := by
  simp only [next, hi, State.handle, ClientWebsocket.feedResponse]
  cases hid : id.asU64? with
  | none => exact ⟨rfl, rfl⟩
  | some n =>
      simp only [hunknown n hid]
      exact ⟨trivial, trivial⟩

theorem rpc_correlates (hs : (machine token).Reachable s)
    (hcount : s.issued.length < 2 ^ 64) :
    Correlated s ∧
      (∀ i id value, s.inbox[i]? = some (.response id value) → Unknown s id →
        (next token s (.handle i)).socket = s.socket ∧
          (next token s (.handle i)).calls = s.calls) ∧
      ∀ result, (machine token).Reaches (Honest result) s → RepliesMatch token result s := by
  have hinv : Inv token s := reachable_inv hs hcount
  refine ⟨⟨hinv.single, ⟨?_, hinv.once⟩, hinv.writtenOnce, hinv.repliedOnce, hinv.replied⟩,
    fun i id value hi hunknown => feed_unknown hi hunknown, ?_⟩
  · rw [hinv.ids]
    exact List.nodup_range'
  · intro result hs c message hm
    obtain ⟨tag, request, outcome, horigin, hmessage, hcarries⟩ := hinv.reply c message hm
    refine ⟨tag, request, outcome, horigin, hmessage, ?_⟩
    exact Result.mono hcarries (List.Subset.refl _) (List.Subset.refl _)
      fun id value hid hv => honest_received hs hcount id c value hid hv

end

def existsRequest (path : Nat) : Option Value :=
  some (.obj [(ofString "fs.exists", .str [path])])

/-- Two requests, tagged 7 and 8, whose results come back in the other order. -/
def crossed : List Label :=
  [.browser 0 (some (.num 7 0)) (existsRequest 0x61),
    .browser 1 (some (.num 8 0)) (existsRequest 0x62), .acquire 0, .sent 0 true, .acquire 1,
    .sent 1 true, .receive (clientResponse (.num 2 0) (.bool false)),
    .receive (clientResponse (.num 1 0) (.bool true))]

def crossedEnd : List Label :=
  [.handle 0, .handle 0, .resolve 0, .resolve 1, .reply 1, .reply 0]

def crossedResult (n : Nat) : Value := .bool (n == 1)

theorem crossed_honest : (machine [0x74]).Reaches (Honest crossedResult)
    (crossedEnd.foldl (next [0x74]) (crossed.foldl (next [0x74]) State.init)) := by
  have hstart : (machine [0x74]).Reaches (Honest crossedResult)
      (crossed.foldl (next [0x74]) State.init) := by
    refine Machine.reaches_of_path (M := machine [0x74]) ?_
    refine ⟨⟨by decide, trivial⟩, ⟨by decide, trivial⟩, ⟨by decide, trivial⟩,
      ⟨by decide, trivial⟩, ⟨by decide, trivial⟩, ⟨by decide, trivial⟩,
      ⟨by decide, trivial⟩, ⟨by decide, trivial⟩, trivial⟩
  refine hstart.path ⟨⟨by decide, ?_⟩, ⟨by decide, ?_⟩, ⟨by decide, trivial⟩,
    ⟨by decide, trivial⟩, ⟨by decide, trivial⟩, ⟨by decide, trivial⟩, trivial⟩
  · intro id value n hi hn _
    obtain ⟨rfl, rfl⟩ : Value.num 2 0 = id ∧ Value.bool false = value :=
      Incoming.response.inj (Option.some.inj hi)
    obtain rfl : 2 = n := Option.some.inj hn
    rfl
  · intro id value n hi hn _
    obtain ⟨rfl, rfl⟩ : Value.num 1 0 = id ∧ Value.bool true = value :=
      Incoming.response.inj (Option.some.inj hi)
    obtain rfl : 1 = n := Option.some.inj hn
    rfl

theorem rpc_correlates_crossed :
    RepliesMatch [0x74] crossedResult
      (crossedEnd.foldl (next [0x74]) (crossed.foldl (next [0x74]) State.init)) :=
  (rpc_correlates crossed_honest.reachable (by decide)).2.2 crossedResult crossed_honest

end WebSshTool.Rpc
