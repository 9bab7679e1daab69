import WebSshTool.Cleanup.Calls
import WebSshTool.Cleanup.Session

/-!
# When both ends are gone

A session comes to rest when no task of the server has a step to take. Cleanup
stands at the end of a chain: the lock of the connection has to come free,
every handler of a request has to be done, the stream of the browser has to be
drained, and only then does the peer leave the map and drop what it still
keeps.

The chain breaks in three places, and `Meets` names the step each takes. The
internal client's stream may end while a request of the browser is still
without an answer: nothing drops its callback, so its handler waits and the
stream is never drained. An event may be forwarded when the token could not be
sent: nobody polls the channel, so the lock never comes free. And a transfer
that registers behind the clearing of the queue waits for a PUT request that no
longer finds its peer.

What is left after that is up to the shells. A handler that waits for one keeps
the stream from being drained, so a session that is otherwise at rest is cleaned
up exactly if nobody waits so.
-/

namespace WebSshTool.Cleanup

open Json Rpc

namespace Session

variable {token : Text} {s : Session}

/-! ## What holds in every run -/

structure Linked (token : Text) (s : Session) : Prop where
  rpc : (Rpc.machine token).Reachable s.rpc
  before : ∀ t, (s.transfers t).isLookup = true ∨ (s.transfers t).isRegistering = true →
    (s.rpc.phase t).isIdle = true
  calling : ∀ t, (s.transfers t).isCalling = true →
    (s.rpc.calls t).origin.isBrowser = false ∧ (s.rpc.phase t).isLive = true
  serving : ∀ c, c ∈ s.serving →
    (s.rpc.calls c).origin.isBrowser = true ∧ (s.rpc.phase c).isLive = true
  nodup : s.serving.Nodup
  client : s.clientDone = true → s.clientEnded = true ∧ s.rpc.inbox = []
  kept : s.receiver = .kept → s.browser ≠ .serving ∧ s.browser ≠ .gone
  inMap : s.inMap = true → s.browser ≠ .disconnecting ∧ s.browser ≠ .gone
  gone : s.browser = .gone → s.rpc.closed = true ∧ s.cleared = true
  shell : ∀ c, (s.rpc.phase c).isShell = true → c ∈ s.serving
  served : s.serving ≠ [] → s.browser = .serving
  mapped : s.browser = .replying ∨ s.browser = .serving → s.inMap = true

theorem Linked.init : Linked token Session.init where
  rpc := .init
  before := by simp [Session.init, HttpPhase.isLookup, HttpPhase.isRegistering]
  calling := by simp [Session.init, HttpPhase.isCalling]
  serving := by simp [Session.init]
  nodup := .nil
  client := by simp [Session.init]
  kept := by simp [Session.init]
  inMap := by simp [Session.init]
  gone := by simp [Session.init]
  shell := by simp [Session.init, Rpc.State.init, Rpc.State.phase, Phase.isShell]
  served := by simp [Session.init]
  mapped := by simp [Session.init]

theorem ofRequest_live (request : Option Value) :
    (Phase.ofRequest token request).isLive = true := by
  rw [Phase.ofRequest]
  split <;> rfl

/-- A call of a transfer or a request goes on for as long as its handler does. -/
theorem live_follow {l : Rpc.Label} {c : CallId} {b : Bool}
    (h : (s.rpc.calls c).origin.isBrowser = b ∧ (s.rpc.phase c).isLive = true)
    (hen : Rpc.enabled s.rpc l) (hreply : l ≠ .reply c)
    (hdrop : ∀ buffered, l ≠ .drop c buffered) :
    ((Rpc.next token s.rpc l).calls c).origin.isBrowser = b ∧
      ((Rpc.next token s.rpc l).phase c).isLive = true := by
  obtain ⟨horigin, hlive⟩ := h
  rw [origin_next (Phase.not_idle hlive) hen]
  exact ⟨horigin, live_next hlive hreply hdrop hen⟩

theorem follow_serving (h : Linked token s) {l : Rpc.Label} (hen : Rpc.enabled s.rpc l)
    {c : CallId} (hc : c ∈ (s.follow token l).serving) :
    ((Rpc.next token s.rpc l).calls c).origin.isBrowser = true ∧
      ((Rpc.next token s.rpc l).phase c).isLive = true := by
  have hold : c ∈ s.serving → l ≠ .reply c →
      ((Rpc.next token s.rpc l).calls c).origin.isBrowser = true ∧
        ((Rpc.next token s.rpc l).phase c).isLive = true := by
    intro hc hreply
    refine live_follow (h.serving c hc) hen hreply ?_
    rintro buffered rfl
    exact absurd ((h.serving c hc).1.symm.trans hen.1) (by simp)
  cases l with
  | browser d tag request =>
      rcases List.mem_cons.mp hc with rfl | hc
      · simp only [Rpc.next, Rpc.State.setCall, Rpc.State.phase, Function.update_self]
        exact ⟨rfl, ofRequest_live request⟩
      · exact hold hc (by simp)
  | reply d =>
      obtain ⟨hne, hmem⟩ := (h.nodup.mem_erase_iff).mp hc
      exact hold hmem (by simpa using Ne.symm hne)
  | transfer | acquire | sent | resolve | cancel | shellDone | drop | receive | handle
  | forward | forwarded | disconnect | disconnected => exact hold hc (by simp)

theorem follow_nodup (h : Linked token s) {l : Rpc.Label} (hen : Rpc.enabled s.rpc l) :
    (s.follow token l).serving.Nodup := by
  cases l with
  | browser d tag request =>
      refine List.nodup_cons.mpr ⟨fun hd => ?_, h.nodup⟩
      have hstarted := Phase.not_idle (h.serving d hd).2
      exact absurd (hstarted.symm.trans hen) (by simp)
  | reply d => exact h.nodup.erase d
  | transfer | acquire | sent | resolve | cancel | shellDone | drop | receive | handle
  | forward | forwarded | disconnect | disconnected => exact h.nodup

/-- Whoever waits for a shell is among the handlers. -/
theorem follow_shell (h : Linked token s) {l : Rpc.Label} (hen : Rpc.enabled s.rpc l) {c : CallId}
    (hshell : ((Rpc.next token s.rpc l).phase c).isShell = true) :
    c ∈ (s.follow token l).serving := by
  rcases shell_next hshell hen with ⟨hold, hreply⟩ | ⟨tag, request, rfl⟩
  · have hmem : c ∈ s.serving := h.shell c hold
    cases l with
    | browser d tag request => exact List.mem_cons_of_mem _ hmem
    | reply d =>
        refine (h.nodup.mem_erase_iff).mpr ⟨?_, hmem⟩
        rintro rfl
        exact hreply rfl
    | transfer | acquire | sent | resolve | cancel | shellDone | drop | receive | handle
    | forward | forwarded | disconnect | disconnected => exact hmem
  · exact List.mem_cons_self

/-- Requests are taken up while the browser is served. -/
theorem follow_served (h : Linked token s) {l : Rpc.Label} (hadmits : s.admits l)
    (hne : (s.follow token l).serving ≠ []) : s.browser = .serving := by
  cases l with
  | browser d tag request => exact hadmits.1
  | reply d =>
      refine h.served ?_
      rintro hnil
      exact hne (by simp [follow, hnil])
  | transfer | acquire | sent | resolve | cancel | shellDone | drop | receive | handle
  | forward | forwarded | disconnect | disconnected => exact h.served hne

theorem isFinished_of_isCalling {p : HttpPhase} (h : p.isCalling = true) :
    p.isFinished = false := by
  cases p with
  | finished => simp [HttpPhase.isCalling] at h
  | _ => rfl

/-- A transfer that has not yet registered. -/
theorem begun_of_before {p : HttpPhase} (h : p.isLookup = true ∨ p.isRegistering = true) :
    p.isFinished = false ∧ p.isIdle = false := by
  cases p with
  | idle | finished => simp [HttpPhase.isLookup, HttpPhase.isRegistering] at h
  | _ => exact ⟨rfl, rfl⟩

/-- A transfer that a step of the websocket leaves as it was, if it is not dropped. -/
theorem follow_transfers (token : Text) (l : Rpc.Label) {t : TransferId}
    (h : ((s.follow token l).transfers t).isFinished = false) :
    (s.follow token l).transfers t = s.transfers t ∧ ∀ buffered, l ≠ .drop t buffered := by
  cases l with
  | drop d buffered =>
      simp only [follow, Function.update_apply] at h ⊢
      split at h
      · simp [HttpPhase.isFinished] at h
      · next hd => exact ⟨if_neg hd, fun b hl => hd (by simpa using (Rpc.Label.drop.inj hl).1.symm)⟩
  | browser | transfer | acquire | sent | resolve | cancel | shellDone | reply | receive
  | handle | forward | forwarded | disconnect | disconnected => exact ⟨rfl, by simp⟩

/-- Whoever does not poll the events goes on so. -/
theorem follow_kept {l : Rpc.Label} (h : (s.follow token l).receiver = .kept) :
    s.receiver = .kept := by
  cases l with
  | forwarded =>
      simp only [follow] at h
      cases hr : s.receiver with
      | kept => rfl
      | polling => cases hc : s.rpc.closed <;> simp [hr, hc] at h
      | sending | dropped => simp [hr] at h
  | _ => exact h

theorem Linked.follow (h : Linked token s) {l : Rpc.Label} (hen : Rpc.enabled s.rpc l)
    (hadmits : s.admits l) : Linked token (s.follow token l) where
  rpc := .step h.rpc hen trivial
  before t ht := by
    rw [(follow_transfers token l (begun_of_before ht).1).1] at ht
    refine idle_next (h.before t ht) ?_ ?_ hen
    · rintro tag request rfl
      exact absurd ((begun_of_before ht).2.symm.trans hadmits.2.2.2) (by simp)
    · rintro argument rfl
      exact hadmits
  calling t ht := by
    have hsame := follow_transfers token l (isFinished_of_isCalling ht)
    rw [hsame.1] at ht
    refine live_follow (h.calling t ht) hen ?_ hsame.2
    rintro rfl
    exact absurd ((h.calling t ht).1.symm.trans hen.2) (by simp)
  serving c hc := follow_serving h hen hc
  nodup := follow_nodup h hen
  client hdone := by
    obtain ⟨hended, hinbox⟩ := h.client hdone
    refine ⟨hended, inbox_next hinbox ?_⟩
    rintro message rfl
    exact absurd (hended.symm.trans hadmits) (by simp)
  kept hkept := h.kept (follow_kept hkept)
  inMap := h.inMap
  gone hgone := ⟨closed_next (h.gone hgone).1, (h.gone hgone).2⟩
  shell _ hshell := follow_shell h hen hshell
  served := follow_served h hadmits
  mapped := h.mapped

/-- A transfer moves on. -/
theorem Linked.setTransfer (h : Linked token s) {t : TransferId} {phase : HttpPhase}
    (hbefore : phase.isLookup = true ∨ phase.isRegistering = true →
      (s.rpc.phase t).isIdle = true) (hcalling : phase.isCalling = false) :
    Linked token (s.setTransfer t phase) :=
  { h with
    before := by
      intro x hx
      simp only [Session.setTransfer, Function.update_apply] at hx
      split at hx
      · next heq =>
          rw [heq]
          exact hbefore hx
      · exact h.before x hx
    calling := by
      intro x hx
      simp only [Session.setTransfer, Function.update_apply] at hx
      split at hx
      · exact absurd (hcalling.symm.trans hx) (by simp)
      · exact h.calling x hx }

theorem Linked.register (h : Linked token s) {t : TransferId}
    (hen : (s.transfers t).isRegistering = true) : Linked token (s.next token (.register t)) := by
  simp only [Session.next]
  split
  · next apiCall _ =>
      let l : Rpc.Label := .transfer t (internalCall s.http.requestId apiCall).2
      have hstep : Rpc.enabled s.rpc l := h.before t (.inr hen)
      have hlive : ∀ x b, (s.rpc.calls x).origin.isBrowser = b ∧ (s.rpc.phase x).isLive = true →
          ((Rpc.next token s.rpc l).calls x).origin.isBrowser = b ∧
            ((Rpc.next token s.rpc l).phase x).isLive = true :=
        fun x b hx => live_follow hx hstep (by simp [l]) (by simp [l])
      have hidle : ∀ x, x ≠ t → (s.rpc.phase x).isIdle = true →
          ((Rpc.next token s.rpc l).phase x).isIdle = true :=
        fun x hne hx => idle_next hx (by simp [l]) (by simp [l, Ne.symm hne]) hstep
      exact
        { h with
          rpc := .step h.rpc hstep trivial
          before := by
            intro x hx
            simp only [Session.setTransfer, Function.update_apply] at hx
            split at hx
            · simp [HttpPhase.isLookup, HttpPhase.isRegistering] at hx
            · next hne => exact hidle x hne (h.before x hx)
          calling := by
            intro x hx
            simp only [Session.setTransfer, Function.update_apply] at hx
            split at hx
            · next heq =>
                subst heq
                simp only [Rpc.next, Rpc.State.setCall, Rpc.State.phase, Function.update_self]
                exact ⟨rfl, rfl⟩
            · exact hlive x false (h.calling x hx)
          serving := fun c hc => hlive c true (h.serving c hc)
          shell := by
            intro c hc
            rcases @shell_next token _ c l hc hstep with ⟨hold, -⟩ | ⟨tag, request, hl⟩
            · exact h.shell c hold
            · exact absurd hl (by simp [l]) }
  · exact h

theorem Linked.served_absurd (h : Linked token s) {p : BrowserPhase} (hp : s.browser = p)
    (hne : p ≠ .serving) {P : Prop} (hserving : s.serving ≠ []) : P :=
  absurd (hp.symm.trans (h.served hserving)) hne

theorem Linked.next (h : Linked token s) {l : SessionLabel} (hen : s.enabled l) :
    Linked token (s.next token l) := by
  cases l with
  | rpc l => exact h.follow hen.1 hen.2
  | insert =>
      exact { h with
        kept := fun _ => ⟨by simp [Session.next], by simp [Session.next]⟩
        inMap := fun _ => ⟨by simp [Session.next], by simp [Session.next]⟩
        gone := by simp [Session.next]
        served := h.served_absurd hen (by simp)
        mapped := fun _ => rfl }
  | tokenReply ok =>
      cases ok with
      | true =>
          exact { h with
            kept := by simp [Session.next]
            inMap := fun _ => ⟨by simp [Session.next], by simp [Session.next]⟩
            gone := by simp [Session.next]
            served := fun _ => rfl
            mapped := fun _ => h.mapped (.inl hen) }
      | false =>
          exact { h with
            kept := fun _ => ⟨by simp [Session.next], by simp [Session.next]⟩
            inMap := fun _ => ⟨by simp [Session.next], by simp [Session.next]⟩
            gone := by simp [Session.next]
            served := h.served_absurd hen (by simp)
            mapped := by simp [Session.next] }
  | eventSent ok =>
      have hkept : (bif ok then Receiver.polling else .dropped) ≠ .kept := by cases ok <;> simp
      exact { h with kept := fun hk => absurd hk hkept }
  | pollDone => exact { h with kept := by simp [Session.next] }
  | browserEnds => exact { h with }
  | drained =>
      exact { h with
        kept := fun _ => ⟨by simp [Session.next], by simp [Session.next]⟩
        inMap := fun _ => ⟨by simp [Session.next], by simp [Session.next]⟩
        gone := by simp [Session.next]
        served := fun hne => absurd hen.2.2 hne
        mapped := by simp [Session.next] }
  | leave =>
      exact { h with
        kept := fun _ => ⟨by simp [Session.next], by simp [Session.next]⟩
        inMap := by simp [Session.next]
        gone := by simp [Session.next]
        served := h.served_absurd hen (by simp)
        mapped := by simp [Session.next] }
  | clear =>
      exact { h with gone := fun hg => absurd (hen.1.symm.trans hg) (by simp) }
  | left =>
      exact { h with
        kept := by
          intro hk
          simp only [Session.next] at hk
          split at hk
          · simp at hk
          · next hne => exact absurd hk hne
        inMap := fun hm => absurd hen.1 (h.inMap hm).1
        gone := fun _ => hen.2
        served := h.served_absurd hen.1 (by simp)
        mapped := by simp [Session.next] }
  | clientEnds => exact { h with client := fun hd => ⟨rfl, (h.client hd).2⟩ }
  | clientDone =>
      exact { h with client := fun _ => ⟨hen.1, List.isEmpty_iff.mp hen.2.2.1⟩ }
  | request t apiCall => exact h.setTransfer (fun _ => hen.2) rfl
  | lookup t =>
      simp only [Session.next]
      split
      · cases s.inMap with
        | true => exact h.setTransfer (fun _ => h.before t (.inl hen.1)) rfl
        | false => exact h.setTransfer (fun _ => h.before t (.inl hen.1)) rfl
      · exact h
  | register t => exact h.register hen
  | settle t =>
      simp only [Session.next]
      split
      · next id value _ _ =>
          cases value.isNull with
          | true => exact h.setTransfer (by simp [HttpPhase.isLookup, HttpPhase.isRegistering]) rfl
          | false =>
              exact h.setTransfer (by simp [HttpPhase.isLookup, HttpPhase.isRegistering]) rfl
      · exact h.setTransfer (by simp [HttpPhase.isLookup, HttpPhase.isRegistering]) rfl
      · exact h
  | cancel t =>
      simp only [Session.next]
      split
      · have hfinished : Linked token (s.setTransfer t .finished) :=
          h.setTransfer (by simp [HttpPhase.isLookup, HttpPhase.isRegistering]) rfl
        exact { hfinished with }
      · exact h
  | receive t | drop t =>
      exact h.setTransfer (by simp [HttpPhase.isLookup, HttpPhase.isRegistering]) rfl
  | put u id => exact { h with }
  | feed u =>
      simp only [Session.next]
      split
      · exact { h with }
      · exact h

/-- The token could not be sent, and `disconnect` has not yet closed the channel
that nobody polls. -/
def Unpolled (s : Session) : Prop :=
  s.receiver = .kept ∧ (s.browser = .leaving ∨ s.browser = .disconnecting) ∧
    s.rpc.closed = false

/-- A PUT request that has found the peer is on its way to the registration. -/
def Sought (s : Session) (id : Nat) : Prop := ∃ u, s.puts u = some id

/-- The steps after which a session comes to rest with everything gone. -/
def Meets (s : Session) : SessionLabel → Prop
  -- `on_client` comes to its end without dropping the callbacks
  | .clientDone =>
      ∀ c, (s.rpc.calls c).origin.isBrowser = true → ¬ s.rpc.Unanswered c
  | .rpc (.sent c true) => s.clientDone = true → (s.rpc.calls c).origin.isBrowser = false
  -- nobody takes the event
  | .rpc (.handle i) => s.Unpolled → ∀ value, s.rpc.inbox[i]? ≠ some (.event value)
  | .tokenReply false => s.rpc.holder ≠ some .event
  -- the queue has been cleared, and the peer is not in the map any more
  | .settle t =>
      s.cleared = true → ∀ id, s.transfers t = .calling id →
        s.rpc.phase t = .resolved (.ok .null) → s.http.queue id = some t → s.Sought id
  | _ => True

structure Met (s : Session) : Prop where
  answered : s.clientDone = true → ∀ c, (s.rpc.calls c).origin.isBrowser = true →
    ¬ s.rpc.Unanswered c
  polled : s.Unpolled → s.rpc.holder ≠ some .event
  sought : s.cleared = true → ∀ t id, s.transfers t = .waiting id →
    s.http.queue id = some t → s.Sought id

theorem Met.init : Met Session.init where
  answered := by simp [Session.init]
  polled := by simp [Session.init, Unpolled]
  sought := by simp [Session.init]

theorem unanswered_idle {s : Rpc.State} {c : CallId} (h : s.Unanswered c) :
    (s.phase c).isIdle = false := by
  obtain ⟨id, hphase, -⟩ := h
  rw [hphase]
  rfl

/-- Once `on_client` is done, no request of the browser comes to wait. -/
theorem Met.answered_next (h : Met s) (token : Text) {l : Rpc.Label} (hen : Rpc.enabled s.rpc l)
    (hok : ∀ c, l = .sent c true → s.clientDone = true →
      (s.rpc.calls c).origin.isBrowser = false)
    (hdone : s.clientDone = true) {c : CallId}
    (horigin : ((Rpc.next token s.rpc l).calls c).origin.isBrowser = true) :
    ¬ (Rpc.next token s.rpc l).Unanswered c := by
  intro hunanswered
  rcases unanswered_next hunanswered hen with hold | rfl
  · rw [origin_next (unanswered_idle hold) hen] at horigin
    exact h.answered hdone c horigin hold
  · obtain ⟨id, key, argument, hsending⟩ := Phase.eq_sending hen.1
    rw [origin_next (by rw [hsending]; rfl) hen] at horigin
    exact absurd ((hok c rfl hdone).symm.trans horigin) (by simp)

theorem Met.follow (h : Met s) {l : Rpc.Label} (hen : Rpc.enabled s.rpc l)
    (hadmits : s.admits l) (hok : s.Meets (.rpc l)) : Met (s.follow token l) where
  answered hdone c := by
    refine h.answered_next token hen ?_ hdone
    rintro d rfl
    exact hok
  polled hunpolled hholder := by
    have hold : s.Unpolled := by
      obtain ⟨hkept, hbrowser, hclosed⟩ := hunpolled
      refine ⟨?_, hbrowser, ?_⟩
      · exact follow_kept hkept
      · by_contra hne
        have hnow : (s.follow token l).rpc.closed = true := closed_next (by simpa using hne)
        exact absurd (hnow.symm.trans hclosed) (by simp)
    rcases event_next hen hholder with hheld | rfl | ⟨i, value, rfl, hi⟩
    · exact h.polled hold hheld
    · exact hadmits hold.1
    · exact hok hold value hi
  sought hcleared t id hwaiting hqueue := by
    have hsame := (follow_transfers token l (by rw [hwaiting]; rfl)).1
    exact h.sought hcleared t id (hsame.symm.trans hwaiting) hqueue

/-- A transfer that did not wait for its PUT request does not do so now. -/
theorem Met.setTransfer (h : Met s) {t : TransferId} {phase : HttpPhase}
    (hphase : s.cleared = true → ∀ id, phase = .waiting id → s.http.queue id = some t →
      s.Sought id) : Met (s.setTransfer t phase) :=
  { h with
    sought := by
      intro hcleared x id hwaiting hqueue
      simp only [Session.setTransfer, Function.update_apply] at hwaiting
      split at hwaiting
      · next heq =>
          subst heq
          exact hphase hcleared id hwaiting hqueue
      · exact h.sought hcleared x id hwaiting hqueue }

/-- The connection does not notice that a transfer calls. -/
theorem Met.register (h : Met s) (hlinked : Linked token s) {t : TransferId}
    (hen : (s.transfers t).isRegistering = true) : Met (s.next token (.register t)) := by
  simp only [Session.next]
  split
  · next apiCall _ =>
      have hstep : Rpc.enabled s.rpc
          (.transfer t (internalCall s.http.requestId apiCall).2) := hlinked.before t (.inr hen)
      refine ⟨fun hdone c => h.answered_next token hstep (by simp) hdone, h.polled, ?_⟩
      intro hcleared x id hwaiting hqueue
      simp only [Session.setTransfer, Function.update_apply] at hwaiting
      split at hwaiting
      · simp at hwaiting
      · next hne =>
          simp only [ClientHttp.register, Function.update_apply] at hqueue
          split at hqueue
          · exact absurd (Option.some.inj hqueue).symm hne
          · exact h.sought hcleared x id hwaiting hqueue
  · exact h

/-- A registration that goes is not waited for. -/
theorem Met.remove (h : Met s) {n : Nat} {puts : PutId → Option Nat}
    (hputs : ∀ id, id ≠ n → s.Sought id → ∃ u, puts u = some id) :
    Met { s with http := s.http.remove n, puts } :=
  { h with
    sought := by
      intro hcleared t id hwaiting hqueue
      simp only [ClientHttp.remove, Function.update_apply] at hqueue
      split at hqueue
      · simp at hqueue
      · next hne => exact hputs id hne (h.sought hcleared t id hwaiting hqueue) }

theorem Met.settle (h : Met s) {t : TransferId} (hok : s.Meets (.settle t)) :
    Met (s.next token (.settle t)) := by
  simp only [Session.next]
  split
  · next id value hcalling hresolved =>
      refine h.setTransfer fun hcleared n hn hqueue => ?_
      cases value with
      | null =>
          obtain rfl : id = n := HttpPhase.waiting.inj hn
          exact hok hcleared id hcalling hresolved hqueue
      | _ => simp [Value.isNull] at hn
  · exact h.setTransfer (by simp)
  · exact h

theorem Met.next (h : Met s) (hlinked : Linked token s) {l : SessionLabel}
    (hen : s.enabled l) (hok : s.Meets l) : Met (s.next token l) := by
  cases l with
  | rpc l => exact h.follow hen.1 hen.2 hok
  | insert =>
      exact { h with polled := fun ⟨_, hb, _⟩ => by simp [Session.next] at hb }
  | tokenReply ok =>
      cases ok with
      | true => exact { h with polled := fun ⟨hk, _, _⟩ => by simp [Session.next] at hk }
      | false => exact { h with polled := fun _ => hok }
  | eventSent ok =>
      refine { h with polled := fun ⟨hk, _, _⟩ => ?_ }
      cases ok <;> simp [Session.next] at hk
  | pollDone => exact { h with polled := fun ⟨hk, _, _⟩ => by simp [Session.next] at hk }
  | browserEnds => exact { h with }
  | drained =>
      exact { h with
        polled := fun ⟨hk, _, _⟩ => absurd hen.1 (hlinked.kept hk).1 }
  | leave =>
      exact { h with polled := fun ⟨hk, _, hc⟩ => h.polled ⟨hk, .inl hen, hc⟩ }
  | clear =>
      exact { h with sought := by simp [Session.next, ClientHttp.disconnect] }
  | left =>
      exact { h with polled := fun ⟨_, hb, _⟩ => by simp [Session.next] at hb }
  | clientEnds => exact { h with }
  | clientDone => exact { h with answered := fun _ => hok }
  | request t apiCall => exact h.setTransfer (by simp)
  | lookup t =>
      simp only [Session.next]
      split
      · cases s.inMap with
        | true => exact h.setTransfer (by simp)
        | false => exact h.setTransfer (by simp)
      · exact h
  | register t => exact h.register hlinked hen
  | settle t => exact h.settle hok
  | cancel t =>
      simp only [Session.next]
      split
      · have hfinished : Met (s.setTransfer t .finished) := h.setTransfer (by simp)
        exact hfinished.remove fun _ _ hsought => hsought
      · exact h
  | receive t | drop t => exact h.setTransfer (by simp)
  | put u id =>
      refine { h with sought := fun hcleared t n hwaiting hqueue => ?_ }
      obtain ⟨v, hv⟩ := h.sought hcleared t n hwaiting hqueue
      refine ⟨v, ?_⟩
      simp only [Session.next]
      rw [Function.update_of_ne]
      · exact hv
      · rintro rfl
        exact absurd (hv.symm.trans hen.1) (by simp)
  | feed u =>
      simp only [Session.next]
      split
      · next n hn =>
          refine h.remove fun id hne ⟨v, hv⟩ => ⟨v, ?_⟩
          rw [Function.update_of_ne]
          · exact hv
          · rintro rfl
            exact hne (Option.some.inj (hv.symm.trans hn))
      · exact h

/-- No task of the server has a step to take. -/
def Quiet (s : Session) : Prop := ∀ l, l.isTask = true → ¬ s.enabled l

/-- No handler waits in `shell::handle_request`. -/
def ShellsServed (s : Session) : Prop := ∀ c, (s.rpc.phase c).isShell = false

structure AtRest (token : Text) (s : Session) : Prop where
  linked : Linked token s
  met : Met s
  quiet : s.Quiet
  shells : s.ShellsServed

theorem AtRest.calls (h : AtRest token s) : Calls s.rpc := reachable_calls h.linked.rpc

/-- A call that was never given an answer comes to an error. -/
def Settled (call : Rpc.Call) (result : Except RequestError Value) : Prop :=
  call.origin.isForwarded = true → call.received = [] → ∃ e, result = .error e

def existsRequest : Option Value := some (.obj [(ofString "fs.exists", .str [0x61])])

/-- A request and a transfer, both answered, and then both websockets end. -/
def served : List SessionLabel :=
  [.insert, .tokenReply true, .rpc (.browser 0 none existsRequest), .rpc (.acquire 0),
    .rpc (.sent 0 true), .request 1 .null, .lookup 1, .register 1, .rpc (.acquire 1),
    .rpc (.sent 1 true), .rpc (.receive (clientResponse (.num 2 0) .null)),
    .rpc (.handle 0), .rpc (.resolve 1)]

end Session

end WebSshTool.Cleanup
