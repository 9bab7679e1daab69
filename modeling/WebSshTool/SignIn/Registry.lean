import WebSshTool.SignIn.Deadlock

/-!
# What the two maps of tokens may hold

A token moves from `suspended_clients` to the handler that takes the callback
there, from it through the oneshot to the attempt, and from the attempt into
`websocket_peers`; or the five seconds end first and the attempt takes its
own entry out again. The check that a token is new is made under both locks,
but only `websocket_peers` stays locked until the entry is made, and the
token generator is trusted with nothing: two attempts may well draw one
token.

The history kept here says who took whose callback, who was handed a
connection, whose five seconds ended and whom an attempt adopted. The
argument is that an attempt keeps the guard of `websocket_peers` from the
check to the insertion, so from the check on its token is its own, and that
its callback is parked once and taken at most once. `next_attempt` says once
how a step can move an attempt; the phases that matter are closed under those
moves, and the maps and the history agree with the phases.
-/

namespace WebSshTool.SignIn

open Mutex

variable {τ : Type*}

/-! ## What a run leaves behind -/

inductive Event (τ : Type*) where
  /-- The handler of client `c`, whose websocket named `t`, took the callback
  that attempt `a` had parked under `t`. -/
  | took (c : ClientId) (t : τ) (a : AttemptId)
  /-- `callback.send` succeeded. -/
  | handed (c : ClientId) (t : τ) (a : AttemptId)
  /-- The five seconds of attempt `a` ended without a value. -/
  | timedOut (a : AttemptId)
  /-- Attempt `a` got the connection of client `c` out of its oneshot. -/
  | adopted (a : AttemptId) (c : ClientId)
  deriving DecidableEq, Repr

/-- Attempt `a` adopted a client in this event. -/
def Event.adoptedBy (a : AttemptId) : Event τ → Bool
  | .adopted b _ => b == a
  | _ => false

/-- Attempt `a` was handed a connection in this event. -/
def Event.handedTo (a : AttemptId) : Event τ → Bool
  | .handed _ _ b => b == a
  | _ => false

def note (s : State τ) : Label τ → List (Event τ)
  | .clientRemove c t => (s.suspendedClients t).toList.map (.took c t)
  | .clientSend c t a =>
      if (s.attempts a).listening then [.handed c t a] else []
  | .timeout a _ => [.timedOut a]
  | .receive a _ c => [.adopted a c]
  | _ => []

namespace Attempt

/-- The token under which the attempt's callback may be parked. -/
def parked : Attempt τ → Option τ
  | .waiting t | .timedOut t | .removing t => some t
  | _ => none

/-- The token the attempt has checked and not yet stored a peer under. -/
def claims : Attempt τ → Option τ
  | .waiting t | .timedOut t | .removing t | .adopted t _ => some t
  | _ => none

/-- The token of a session whose peer is stored. -/
def stored : Attempt τ → Option τ
  | .session t | .closing t => some t
  | _ => none

/-- Past the check of its token. -/
def checked : Attempt τ → Bool
  | .signingIn | .locking _ _ _ => false
  | _ => true

/-- Its five seconds are over, or it failed before them. -/
def expired : Attempt τ → Bool
  | .timedOut _ | .removing _ | .failing | .failed => true
  | _ => false

/-- Has adopted a client. -/
def adopting : Attempt τ → Bool
  | .adopted _ _ | .session _ | .closing _ | .disconnecting _ | .finished => true
  | _ => false

/-- How a step moves attempt `a`. -/
inductive Moves (s : State τ) (a : AttemptId) :
    Label τ → Attempt τ → Attempt τ → Prop
  | start {t : τ} :
      Moves s a (.start a t) .signingIn (.locking t false false)
  | lockMap {t : τ} {k : Bool} :
      Moves s a (.lockMap a t k) (.locking t false k) (.locking t true k)
  | lockClients {t : τ} {m : Bool} :
      Moves s a (.lockClients a t m) (.locking t m false) (.locking t m true)
  | parks {t : τ} (hp : s.websocketPeers t = none)
      (hc : s.suspendedClients t = none) :
      Moves s a (.check a t) (.locking t true true) (.waiting t)
  | collides {t : τ} :
      Moves s a (.check a t) (.locking t true true) .failed
  | timeout {t : τ} : Moves s a (.timeout a t) (.waiting t) (.timedOut t)
  | relockClients {t : τ} :
      Moves s a (.relockClients a t) (.timedOut t) (.removing t)
  | removeClient {t : τ} : Moves s a (.removeClient a t) (.removing t) .failing
  | fail : Moves s a (.fail a) .failing .failed
  | receive {t : τ} {c : ClientId} (hc : s.callbacks a = some c) :
      Moves s a (.receive a t c) (.waiting t) (.adopted t c)
  | insertPeer {t : τ} {c : ClientId} :
      Moves s a (.insertPeer a t c) (.adopted t c) (.session t)
  | leave {t : τ} : Moves s a (.leave a t) (.session t) (.closing t)
  | removePeer {t : τ} {c : ClientId} :
      Moves s a (.removePeer a t) (.closing t) (.disconnecting c)
  | noPeer {t : τ} (hp : s.websocketPeers t = none) :
      Moves s a (.removePeer a t) (.closing t) .finished
  | disconnected {c : ClientId} :
      Moves s a (.disconnected a c) (.disconnecting c) .finished

end Attempt

section

variable [DecidableEq τ]

omit [DecidableEq τ] in
theorem update_attempt {s : State τ} {a : AttemptId} {l : Label τ}
    {q p : Attempt τ} (hq : s.attempts a = q) (hm : Attempt.Moves s a l q p)
    (b : AttemptId) :
    Function.update s.attempts a p b = s.attempts b ∨
      Attempt.Moves s b l (s.attempts b) (Function.update s.attempts a p b) := by
  by_cases hba : b = a
  · subst hba
    right
    rw [Function.update_self, hq]
    exact hm
  · exact .inl (Function.update_of_ne hba _ _)

/-- A step moves at most the attempt it names, and only along `Moves`. -/
theorem next_attempt {s : State τ} {l : Label τ} (hen : enabled s l)
    (b : AttemptId) : (next s l).attempts b = s.attempts b ∨
      Attempt.Moves s b l (s.attempts b) ((next s l).attempts b) := by
  cases l with
  | start a t => exact update_attempt hen .start b
  | lockMap a t k => exact update_attempt hen.1 .lockMap b
  | lockClients a t m => exact update_attempt hen.1 .lockClients b
  | check a t =>
      simp only [next]
      split
      · next h => exact update_attempt hen (.parks h.1 h.2) b
      · exact update_attempt hen .collides b
  | timeout a t => exact update_attempt hen .timeout b
  | relockClients a t => exact update_attempt hen.1 .relockClients b
  | removeClient a t => exact update_attempt hen .removeClient b
  | fail a => exact update_attempt hen .fail b
  | receive a t c => exact update_attempt hen.1 (.receive hen.2) b
  | insertPeer a t c => exact update_attempt hen .insertPeer b
  | leave a t => exact update_attempt hen .leave b
  | removePeer a t =>
      simp only [next]
      split
      · exact update_attempt hen.1 .removePeer b
      · next h => exact update_attempt hen.1 (.noPeer h) b
  | disconnected a c => exact update_attempt hen.1 .disconnected b
  | clientRemove c t =>
      left
      simp only [next]
      split <;> rfl
  | clientSend c t a =>
      left
      simp only [next]
      split <;> rfl
  | arrive _ _ | clientLock _ _ | stick _ => exact .inl rfl

/-- `suspended_clients` gains an entry only where there was none, and then
its attempt has just passed the check. -/
theorem next_suspended (s : State τ) (l : Label τ) (t : τ) :
    (next s l).suspendedClients t = s.suspendedClients t ∨
      (next s l).suspendedClients t = none ∨
      ∃ a, s.suspendedClients t = none ∧ (next s l).suspendedClients t = some a ∧
        l = .check a t ∧ (next s l).attempts a = .waiting t := by
  cases l with
  | check a u =>
      simp only [next]
      split
      · next h =>
          by_cases htu : t = u
          · subst htu
            exact .inr (.inr ⟨a, h.2, Function.update_self .., rfl,
              Function.update_self ..⟩)
          · exact .inl (Function.update_of_ne htu _ _)
      · exact .inl rfl
  | removeClient a u =>
      by_cases htu : t = u
      · subst htu
        exact .inr (.inl (Function.update_self ..))
      · exact .inl (Function.update_of_ne htu _ _)
  | clientRemove c u =>
      simp only [next]
      split
      · by_cases htu : t = u
        · subst htu
          exact .inr (.inl (Function.update_self ..))
        · exact .inl (Function.update_of_ne htu _ _)
      · exact .inl rfl
  | removePeer a u =>
      left
      simp only [next]
      split <;> rfl
  | clientSend c u a =>
      left
      simp only [next]
      split <;> rfl
  | start _ _ | lockMap _ _ _ | lockClients _ _ _ | timeout _ _
  | relockClients _ _ | fail _ | receive _ _ _ | insertPeer _ _ _ | leave _ _
  | disconnected _ _ | arrive _ _ | clientLock _ _ | stick _ =>
      exact .inl rfl

/-- `websocket_peers` changes by the insertion of an attempt that has adopted
a client and by removals. -/
theorem next_peers (s : State τ) (l : Label τ) (t : τ) :
    (next s l).websocketPeers t = s.websocketPeers t ∨
      (next s l).websocketPeers t = none ∨
      ∃ a c, l = .insertPeer a t c ∧
        (next s l).websocketPeers t = some (a, c) := by
  cases l with
  | insertPeer a u c =>
      by_cases htu : t = u
      · subst htu
        exact .inr (.inr ⟨a, c, rfl, Function.update_self ..⟩)
      · exact .inl (Function.update_of_ne htu _ _)
  | removePeer a u =>
      simp only [next]
      split
      · by_cases htu : t = u
        · subst htu
          exact .inr (.inl (Function.update_self ..))
        · exact .inl (Function.update_of_ne htu _ _)
      · exact .inl rfl
  | check a u =>
      left
      simp only [next]
      split <;> rfl
  | clientRemove c u =>
      left
      simp only [next]
      split <;> rfl
  | clientSend c u a =>
      left
      simp only [next]
      split <;> rfl
  | start _ _ | lockMap _ _ _ | lockClients _ _ _ | timeout _ _
  | relockClients _ _ | removeClient _ _ | fail _ | receive _ _ _ | leave _ _
  | disconnected _ _ | arrive _ _ | clientLock _ _ | stick _ =>
      exact .inl rfl

theorem next_calling {s : State τ} {l : Label τ} {c : ClientId} {t : τ}
    {a : AttemptId} (h : (next s l).clients c = .calling t a) :
    s.clients c = .calling t a ∨
      l = .clientRemove c t ∧ s.suspendedClients t = some a := by
  have hmoved : ∀ {d : ClientId} {p : Client τ}, p ≠ .calling t a →
      Function.update s.clients d p c = .calling t a →
      s.clients c = .calling t a := by
    intro d p hp hu
    by_cases hcd : c = d
    · subst hcd
      rw [Function.update_self] at hu
      exact absurd hu hp
    · rwa [Function.update_of_ne hcd] at hu
  cases l with
  | arrive d u => exact .inl (hmoved (by simp) h)
  | clientLock d u => exact .inl (hmoved (by simp) h)
  | clientRemove d u =>
      simp only [next] at h
      split at h
      · next b hb =>
          by_cases hcd : c = d
          · subst hcd
            have heq : Client.calling u b = .calling t a := by
              simpa [State.setClient, State.release] using h
            cases heq
            exact .inr ⟨rfl, hb⟩
          · left
            simpa [State.setClient, State.release, hcd] using h
      · exact .inl (hmoved (by simp) h)
  | clientSend d u b =>
      simp only [next] at h
      split at h
      · exact .inl (hmoved (by simp) h)
      · exact .inl (hmoved (by simp) h)
  | check b u =>
      simp only [next] at h
      split at h <;> exact .inl h
  | removePeer b u =>
      simp only [next] at h
      split at h <;> exact .inl h
  | start _ _ | lockMap _ _ _ | lockClients _ _ _ | timeout _ _
  | relockClients _ _ | removeClient _ _ | fail _ | receive _ _ _
  | insertPeer _ _ _ | leave _ _ | disconnected _ _ | stick _ =>
      exact .inl h

/-- A connected handler stays connected: it only reads messages. -/
theorem next_connected {s : State τ} {l : Label τ} (hen : enabled s l)
    {c : ClientId} {t : τ} (h : s.clients c = .connected t) :
    (next s l).clients c = .connected t := by
  have hmoved : ∀ {d : ClientId} {p q : Client τ}, s.clients d = q →
      q ≠ .connected t → Function.update s.clients d p c = .connected t := by
    intro d p q hq hne
    have hcd : c ≠ d := by
      intro hcd
      rw [hcd, hq] at h
      exact hne h
    rw [Function.update_of_ne hcd, h]
  cases l with
  | arrive d u => exact hmoved hen (by simp)
  | clientLock d u => exact hmoved hen.1 (by simp)
  | clientRemove d u =>
      simp only [next]
      split <;> exact hmoved hen (by simp)
  | clientSend d u b =>
      simp only [next]
      split <;> exact hmoved hen (by simp)
  | check b u =>
      simp only [next]
      split <;> exact h
  | removePeer b u =>
      simp only [next]
      split <;> exact h
  | start _ _ | lockMap _ _ _ | lockClients _ _ _ | timeout _ _
  | relockClients _ _ | removeClient _ _ | fail _ | receive _ _ _
  | insertPeer _ _ _ | leave _ _ | disconnected _ _ | stick _ => exact h

theorem next_callback {s : State τ} {l : Label τ} {a : AttemptId}
    {c : ClientId} (h : (next s l).callbacks a = some c) :
    s.callbacks a = some c ∨ ∃ t, .handed c t a ∈ note s l := by
  cases l with
  | clientSend d u b =>
      simp only [next] at h
      split at h
      · next hl =>
          by_cases hab : a = b
          · subst hab
            have hcd : d = c := by simpa [State.setClient] using h
            subst hcd
            exact .inr ⟨u, by simp [note, hl]⟩
          · left
            simpa [State.setClient, hab] using h
      · exact .inl h
  | clientRemove d u =>
      simp only [next] at h
      split at h <;> exact .inl h
  | check b u =>
      simp only [next] at h
      split at h <;> exact .inl h
  | removePeer b u =>
      simp only [next] at h
      split at h <;> exact .inl h
  | start _ _ | lockMap _ _ _ | lockClients _ _ _ | timeout _ _
  | relockClients _ _ | removeClient _ _ | fail _ | receive _ _ _
  | insertPeer _ _ _ | leave _ _ | disconnected _ _ | arrive _ _
  | clientLock _ _ | stick _ => exact .inl h

end

/-! ## What a step adds to the history -/

theorem took_mem_note {s : State τ} {l : Label τ} {c : ClientId} {t : τ}
    {a : AttemptId} (h : .took c t a ∈ note s l) :
    l = .clientRemove c t ∧ s.suspendedClients t = some a := by
  cases l with
  | clientRemove d u =>
      simp only [note, List.mem_map, Option.mem_toList] at h
      obtain ⟨b, hb, heq⟩ := h
      cases heq
      exact ⟨rfl, hb⟩
  | clientSend d u b =>
      simp only [note] at h
      split at h <;> simp at h
  | _ => simp [note] at h

theorem handed_mem_note {s : State τ} {l : Label τ} {c : ClientId} {t : τ}
    {a : AttemptId} (h : .handed c t a ∈ note s l) :
    l = .clientSend c t a ∧ (s.attempts a).listening = true := by
  cases l with
  | clientSend d u b =>
      simp only [note] at h
      split at h
      · next hl =>
          simp only [List.mem_singleton, Event.handed.injEq] at h
          obtain ⟨rfl, rfl, rfl⟩ := h
          exact ⟨rfl, hl⟩
      · simp at h
  | _ => simp [note] at h

theorem timedOut_mem_note {s : State τ} {l : Label τ} {a : AttemptId}
    (h : .timedOut a ∈ note s l) : ∃ t, l = .timeout a t := by
  cases l with
  | timeout b t =>
      simp only [note, List.mem_singleton, Event.timedOut.injEq] at h
      exact ⟨t, by rw [h]⟩
  | clientSend d u b =>
      simp only [note] at h
      split at h <;> simp at h
  | _ => simp [note] at h

theorem adopted_mem_note {s : State τ} {l : Label τ} {a : AttemptId}
    {c : ClientId} (h : .adopted a c ∈ note s l) :
    ∃ t, l = .receive a t c := by
  cases l with
  | receive b t d =>
      simp only [note, List.mem_singleton, Event.adopted.injEq] at h
      exact ⟨t, by rw [h.1, h.2]⟩
  | clientSend d u b =>
      simp only [note] at h
      split at h <;> simp at h
  | _ => simp [note] at h

/-- A step notes one event at most. -/
theorem length_note_le (s : State τ) (l : Label τ) : (note s l).length ≤ 1 := by
  cases l with
  | clientRemove c t =>
      simp only [note, List.length_map]
      cases s.suspendedClients t <;> simp
  | clientSend c t a =>
      simp only [note]
      split <;> simp
  | _ => simp [note]

/-- What happens at most once, and not again once it is in the history. -/
theorem countP_append_le_one {h xs : List (Event τ)} {p : Event τ → Bool}
    (hh : h.countP p ≤ 1) (hxs : xs.length ≤ 1)
    (hnew : ∀ e ∈ xs, p e = true → ∀ f ∈ h, p f = false) :
    (h ++ xs).countP p ≤ 1 := by
  rw [List.countP_append]
  by_cases hx : xs.countP p = 0
  · omega
  · obtain ⟨e, he, hpe⟩ := List.countP_pos_iff.mp (Nat.pos_of_ne_zero hx)
    have hz : h.countP p = 0 := by
      rw [List.countP_eq_zero]
      intro f hf
      rw [hnew e he hpe f hf]
      exact Bool.false_ne_true
    have hle := List.countP_le_length (p := p) (l := xs)
    omega

/-! ## The maps and the history agree with the phases -/

structure Inv (s : State τ) (h : List (Event τ)) : Prop where
  parked : ∀ t a, s.suspendedClients t = some a →
    (s.attempts a).parked = some t
  fresh : ∀ a t, (s.attempts a).claims = some t → s.websocketPeers t = none
  stored : ∀ t a c, s.websocketPeers t = some (a, c) →
    (s.attempts a).stored = some t
  took : ∀ c t a, .took c t a ∈ h → (s.attempts a).checked = true ∧
    ∀ u, s.suspendedClients u ≠ some a
  tookOnce : ∀ c t d u a, .took c t a ∈ h → .took d u a ∈ h → c = d ∧ t = u
  calling : ∀ c t a, s.clients c = .calling t a → .took c t a ∈ h
  handed : ∀ c t a, .handed c t a ∈ h →
    .took c t a ∈ h ∧ s.clients c = .connected t
  callback : ∀ a c, s.callbacks a = some c → ∃ t, .handed c t a ∈ h
  timedOut : ∀ a, .timedOut a ∈ h → (s.attempts a).expired = true
  adopted : ∀ a c, .adopted a c ∈ h → (s.attempts a).adopting = true ∧
    ∃ t, .handed c t a ∈ h
  handedOnce : ∀ a, h.countP (Event.handedTo a) ≤ 1
  adoptedOnce : ∀ a, h.countP (Event.adoptedBy a) ≤ 1

theorem init_inv : Inv (init (τ := τ)) [] where
  parked _ _ h := by simp [init] at h
  fresh _ _ _ := rfl
  stored _ _ _ h := by simp [init] at h
  took _ _ _ h := by simp at h
  tookOnce _ _ _ _ _ h := by simp at h
  calling _ _ _ h := by simp [init] at h
  handed _ _ _ h := by simp at h
  callback _ _ h := by simp [init] at h
  timedOut _ h := by simp at h
  adopted _ _ h := by simp at h
  handedOnce _ := by simp
  adoptedOnce _ := by simp

/-- The token of an attempt is its own for as long as it keeps the guard of
`websocket_peers`. -/
theorem Attempt.holds_of_claims {p : Attempt τ} {t : τ} (h : p.claims = some t) :
    p.holds .websocketPeers = true := by
  cases p <;> simp_all [Attempt.claims, Attempt.holds]

theorem Attempt.checked_of_parked {p : Attempt τ} {t : τ}
    (h : p.parked = some t) : p.checked = true := by
  cases p <;> simp_all [Attempt.parked, Attempt.checked]

theorem Attempt.Moves.checked {s : State τ} {a : AttemptId} {l : Label τ}
    {q p : Attempt τ} (hm : Attempt.Moves s a l q p) (hq : q.checked = true) :
    p.checked = true := by
  cases hm <;> simp_all [Attempt.checked]

theorem Attempt.Moves.expired {s : State τ} {a : AttemptId} {l : Label τ}
    {q p : Attempt τ} (hm : Attempt.Moves s a l q p) (hq : q.expired = true) :
    p.expired = true := by
  cases hm <;> simp_all [Attempt.expired]

theorem Attempt.Moves.adopting {s : State τ} {a : AttemptId} {l : Label τ}
    {q p : Attempt τ} (hm : Attempt.Moves s a l q p) (hq : q.adopting = true) :
    p.adopting = true := by
  cases hm <;> simp_all [Attempt.adopting]

/-- An attempt whose callback was taken has nothing parked, and one that
still waits has taken nothing out of its oneshot. -/
theorem Inv.callback_none {s : State τ} {h : List (Event τ)} (hi : Inv s h)
    {t : τ} {a : AttemptId} (ht : s.suspendedClients t = some a) :
    s.callbacks a = none := by
  cases hc : s.callbacks a with
  | none => rfl
  | some c =>
      obtain ⟨u, hu⟩ := hi.callback a c hc
      exact absurd ht ((hi.took _ _ _ (hi.handed _ _ _ hu).1).2 t)

/-- While a handler is about to send, nobody was handed to its attempt. -/
theorem Inv.not_handed {s : State τ} {h : List (Event τ)} (hi : Inv s h)
    {c : ClientId} {t : τ} {a : AttemptId} (hc : s.clients c = .calling t a)
    (d : ClientId) (u : τ) : .handed d u a ∉ h := by
  intro hd
  obtain ⟨htook, hconn⟩ := hi.handed d u a hd
  obtain ⟨rfl, rfl⟩ := hi.tookOnce _ _ _ _ _ htook (hi.calling c t a hc)
  rw [hc] at hconn
  cases hconn

section

variable [DecidableEq τ] {s : State τ} {h : List (Event τ)} {l : Label τ}

theorem Inv.next_parked (hi : Inv s h) (hen : enabled s l) (t : τ)
    (a : AttemptId) (ht : (next s l).suspendedClients t = some a) :
    ((next s l).attempts a).parked = some t := by
  rcases next_suspended s l t with hsame | hnone | ⟨b, -, hb, -, hwait⟩
  · rw [hsame] at ht
    have hp := hi.parked t a ht
    rcases next_attempt hen a with hstay | hmove
    · rw [hstay, hp]
    · -- Of the moves out of a parked phase, one is not enabled while the
      -- callback is parked, and one takes the entry along.
      have hcb := hi.callback_none ht
      rw [← hsame] at ht
      generalize hq : s.attempts a = q at hmove hp
      generalize (next s l).attempts a = p at hmove
      cases hmove with
      | timeout | relockClients => exact hp
      | receive hc =>
          rw [hcb] at hc
          cases hc
      | removeClient =>
          cases hp
          simp [next, Function.update_self] at ht
      | _ => cases hp
  · rw [hnone] at ht
    cases ht
  · rw [hb] at ht
    cases ht
    rw [hwait]
    rfl

theorem Inv.next_fresh (hi : Inv s h) (ho : Owned s.locks s.holds)
    (hen : enabled s l) (a : AttemptId) (t : τ)
    (hc : ((next s l).attempts a).claims = some t) :
    (next s l).websocketPeers t = none := by
  rcases next_peers s l t with hsame | hnone | ⟨b, c, rfl, -⟩
  · rw [hsame]
    rcases next_attempt hen a with hstay | hmove
    · rw [hstay] at hc
      exact hi.fresh a t hc
    · generalize hq : s.attempts a = q at hmove
      generalize (next s l).attempts a = p at hmove hc
      have hfresh := hi.fresh a t
      rw [hq] at hfresh
      cases hmove with
      | parks hp _ =>
          cases hc
          exact hp
      | timeout | relockClients | receive => exact hfresh hc
      | _ => cases hc
  · exact hnone
  · -- Another attempt that inserts keeps the guard this one keeps.
    exfalso
    have hb : s.attempts b = .adopted t c := hen
    by_cases hab : a = b
    · subst hab
      simp [next, State.setAttempt, State.release, Attempt.claims] at hc
    · have ha : (next s (.insertPeer b t c)).attempts a = s.attempts a :=
        Function.update_of_ne hab _ _
      rw [ha] at hc
      have heq : Task.attempt a = Task.attempt b :=
        ho.unique (l := .websocketPeers) (Attempt.holds_of_claims hc)
          (by simp only [State.holds, hb]; rfl)
      cases heq
      exact hab rfl

theorem Inv.next_stored (hi : Inv s h) (hen : enabled s l) (t : τ)
    (a : AttemptId) (c : ClientId)
    (ht : (next s l).websocketPeers t = some (a, c)) :
    ((next s l).attempts a).stored = some t := by
  rcases next_peers s l t with hsame | hnone | ⟨b, d, rfl, hb⟩
  · rw [hsame] at ht
    have hp := hi.stored t a c ht
    rcases next_attempt hen a with hstay | hmove
    · rw [hstay, hp]
    · have hafter : (next s l).websocketPeers t = some (a, c) := by
        rw [hsame, ht]
      generalize hq : s.attempts a = q at hmove hp
      generalize (next s l).attempts a = p at hmove
      cases hmove with
      | leave => exact hp
      | removePeer =>
          cases hp
          simp [next, ht, Function.update_self] at hafter
      | noPeer hno =>
          cases hp
          rw [ht] at hno
          cases hno
      | _ => cases hp
  · rw [hnone] at ht
    cases ht
  · rw [hb] at ht
    cases ht
    simp [next, State.setAttempt, State.release, Attempt.stored]

theorem Inv.next_took (hi : Inv s h) (hen : enabled s l) (c : ClientId) (t : τ)
    (a : AttemptId) (hc : .took c t a ∈ h ++ note s l) :
    ((next s l).attempts a).checked = true ∧
      ∀ u, (next s l).suspendedClients u ≠ some a := by
  rcases List.mem_append.mp hc with hold | hnew
  · obtain ⟨hchecked, hnone⟩ := hi.took c t a hold
    constructor
    · rcases next_attempt hen a with hstay | hmove
      · rw [hstay, hchecked]
      · exact hmove.checked hchecked
    · intro u hu
      rcases next_suspended s l u with hsame | hgone | ⟨b, -, hb, rfl, -⟩
      · rw [hsame] at hu
        exact hnone u hu
      · rw [hgone] at hu
        cases hu
      · -- It would have to pass the check again.
        rw [hb] at hu
        cases hu
        rw [show s.attempts a = .locking u true true from hen] at hchecked
        cases hchecked
  · obtain ⟨rfl, ht⟩ := took_mem_note hnew
    have hp := hi.parked t a ht
    have hatt : (next s (.clientRemove c t)).attempts = s.attempts := by
      simp only [next, ht]
      rfl
    constructor
    · rw [hatt]
      exact Attempt.checked_of_parked hp
    · intro u hu
      by_cases hut : u = t
      · subst hut
        simp [next, ht] at hu
      · have hsame : s.suspendedClients u = some a := by
          simpa [next, ht, hut] using hu
        have hp' := hi.parked u a hsame
        rw [hp] at hp'
        cases hp'
        exact hut rfl

omit [DecidableEq τ] in
theorem Inv.next_tookOnce (hi : Inv s h) (c : ClientId) (t : τ) (d : ClientId)
    (u : τ) (a : AttemptId) (hc : .took c t a ∈ h ++ note s l)
    (hd : .took d u a ∈ h ++ note s l) : c = d ∧ t = u := by
  rcases List.mem_append.mp hc with hc | hc
  · rcases List.mem_append.mp hd with hd | hd
    · exact hi.tookOnce c t d u a hc hd
    · exact absurd (took_mem_note hd).2 ((hi.took c t a hc).2 u)
  · rcases List.mem_append.mp hd with hd | hd
    · exact absurd (took_mem_note hc).2 ((hi.took d u a hd).2 t)
    · have heq := (took_mem_note hc).1.symm.trans (took_mem_note hd).1
      cases heq
      exact ⟨rfl, rfl⟩

theorem Inv.next_calling (hi : Inv s h) (c : ClientId) (t : τ) (a : AttemptId)
    (hc : (next s l).clients c = .calling t a) :
    .took c t a ∈ h ++ note s l := by
  rcases SignIn.next_calling hc with hold | ⟨rfl, ht⟩
  · exact List.mem_append_left _ (hi.calling c t a hold)
  · exact List.mem_append_right _ (by simp [note, ht])

theorem Inv.next_handed (hi : Inv s h) (hen : enabled s l) (c : ClientId)
    (t : τ) (a : AttemptId) (hc : .handed c t a ∈ h ++ note s l) :
    .took c t a ∈ h ++ note s l ∧ (next s l).clients c = .connected t := by
  rcases List.mem_append.mp hc with hold | hnew
  · obtain ⟨htook, hconn⟩ := hi.handed c t a hold
    exact ⟨List.mem_append_left _ htook, next_connected hen hconn⟩
  · obtain ⟨rfl, hl⟩ := handed_mem_note hnew
    have hcall : s.clients c = .calling t a := hen
    refine ⟨List.mem_append_left _ (hi.calling c t a hcall), ?_⟩
    simp [next, hl, State.setClient]

theorem Inv.next_callback (hi : Inv s h) (a : AttemptId) (c : ClientId)
    (hc : (next s l).callbacks a = some c) :
    ∃ t, .handed c t a ∈ h ++ note s l := by
  rcases SignIn.next_callback hc with hold | ⟨t, hnew⟩
  · obtain ⟨t, ht⟩ := hi.callback a c hold
    exact ⟨t, List.mem_append_left _ ht⟩
  · exact ⟨t, List.mem_append_right _ hnew⟩

theorem Inv.next_timedOut (hi : Inv s h) (hen : enabled s l) (a : AttemptId)
    (ha : .timedOut a ∈ h ++ note s l) :
    ((next s l).attempts a).expired = true := by
  rcases List.mem_append.mp ha with hold | hnew
  · rcases next_attempt hen a with hstay | hmove
    · rw [hstay, hi.timedOut a hold]
    · exact hmove.expired (hi.timedOut a hold)
  · obtain ⟨t, rfl⟩ := timedOut_mem_note hnew
    simp [next, State.setAttempt, Attempt.expired]

theorem Inv.next_adopted (hi : Inv s h) (hen : enabled s l) (a : AttemptId)
    (c : ClientId) (ha : .adopted a c ∈ h ++ note s l) :
    ((next s l).attempts a).adopting = true ∧
      ∃ t, .handed c t a ∈ h ++ note s l := by
  rcases List.mem_append.mp ha with hold | hnew
  · obtain ⟨hadopt, t, ht⟩ := hi.adopted a c hold
    refine ⟨?_, t, List.mem_append_left _ ht⟩
    rcases next_attempt hen a with hstay | hmove
    · rw [hstay, hadopt]
    · exact hmove.adopting hadopt
  · obtain ⟨t, rfl⟩ := adopted_mem_note hnew
    obtain ⟨u, hu⟩ := hi.callback a c hen.2
    refine ⟨?_, u, List.mem_append_left _ hu⟩
    simp [next, State.setAttempt, Attempt.adopting]

omit [DecidableEq τ] in
theorem Inv.next_handedOnce (hi : Inv s h) (hen : enabled s l) (a : AttemptId) :
    (h ++ note s l).countP (Event.handedTo a) ≤ 1 := by
  refine countP_append_le_one (hi.handedOnce a) (length_note_le s l) ?_
  intro e he hpe f hf
  cases e with
  | handed c t b =>
      obtain rfl : b = a := by simpa [Event.handedTo] using hpe
      obtain ⟨rfl, -⟩ := handed_mem_note he
      cases f with
      | handed d u b' =>
          by_contra hpf
          obtain rfl : b' = b := by simpa [Event.handedTo] using hpf
          exact hi.not_handed hen d u hf
      | _ => rfl
  | _ => cases hpe

omit [DecidableEq τ] in
theorem Inv.next_adoptedOnce (hi : Inv s h) (hen : enabled s l) (a : AttemptId) :
    (h ++ note s l).countP (Event.adoptedBy a) ≤ 1 := by
  refine countP_append_le_one (hi.adoptedOnce a) (length_note_le s l) ?_
  intro e he hpe f hf
  cases e with
  | adopted b c =>
      obtain rfl : b = a := by simpa [Event.adoptedBy] using hpe
      obtain ⟨t, rfl⟩ := adopted_mem_note he
      cases f with
      | adopted b' d =>
          by_contra hpf
          obtain rfl : b' = b := by simpa [Event.adoptedBy] using hpf
          have hadopt := (hi.adopted _ d hf).1
          rw [show s.attempts _ = .waiting t from hen.1] at hadopt
          cases hadopt
      | _ => rfl
  | _ => cases hpe

theorem Inv.next (hi : Inv s h) (ho : Owned s.locks s.holds)
    (hen : enabled s l) : Inv (SignIn.next s l) (h ++ note s l) where
  parked := hi.next_parked hen
  fresh := hi.next_fresh ho hen
  stored := hi.next_stored hen
  took := hi.next_took hen
  tookOnce := hi.next_tookOnce
  calling := hi.next_calling
  handed := hi.next_handed hen
  callback := hi.next_callback
  timedOut := hi.next_timedOut hen
  adopted := hi.next_adopted hen
  handedOnce := hi.next_handedOnce hen
  adoptedOnce := hi.next_adoptedOnce hen

end

/-! ## Safety of the registry -/

section

variable [DecidableEq τ]

/-- The sign-ins of one server with their history. -/
def recorded : Machine (State τ × List (Event τ)) (Label τ) :=
  machine.record note

theorem reachable_inv {p : State τ × List (Event τ)}
    (hp : recorded.Reachable p) : Inv p.1 p.2 := by
  refine hp.invariant (I := fun p => Inv p.1 p.2) init_inv ?_
  intro p l hp hi hen _
  exact hi.next (reachable_owned (Machine.Reaches.of_record hp)) hen

instance (p : State τ × List (Event τ)) (l : Label τ) :
    Decidable (recorded.enabled p l) :=
  inferInstanceAs (Decidable (enabled p.1 l))

/-- What the registry promises about a state and the history that led to it. -/
structure Safe (s : State τ) (h : List (Event τ)) : Prop where
  /-- One sign-in is handed one connection at most, and adopts at most one. -/
  adopts_once : ∀ a, h.countP (Event.handedTo a) ≤ 1 ∧
    h.countP (Event.adoptedBy a) ≤ 1
  /-- No step that can be taken here puts another entry over one that is there. -/
  never_overwrites : ∀ l, enabled s l → ∀ t,
    (s.websocketPeers t ≠ none →
      (next s l).websocketPeers t = s.websocketPeers t ∨
        (next s l).websocketPeers t = none) ∧
    (s.suspendedClients t ≠ none →
      (next s l).suspendedClients t = s.suspendedClients t ∨
        (next s l).suspendedClients t = none)
  /-- A stored peer belongs to a handler that has yet to remove it. -/
  peer_of_handler : ∀ t a c, s.websocketPeers t = some (a, c) →
    s.attempts a = .session t ∨ s.attempts a = .closing t
  failed_leaves_nothing : ∀ a, s.attempts a = .failed → ∀ t,
    s.suspendedClients t ≠ some a ∧ ∀ c, s.websocketPeers t ≠ some (a, c)
  /-- Neither a client processed before its attempt timed out nor one that is
  processed afterwards is adopted by it. -/
  late_not_adopted : ∀ a c, .timedOut a ∈ h → .adopted a c ∉ h
  /-- Whoever adopts a client had the token its websocket named suspended at
  the moment the client was processed. -/
  adopted_took : ∀ a c, .adopted a c ∈ h → ∃ t, .took c t a ∈ h

theorem registry_safe {s : State τ} {h : List (Event τ)}
    (hs : recorded.Reachable (s, h)) : Safe s h := by
  have hi : Inv s h := reachable_inv hs
  constructor
  · intro a
    exact ⟨hi.handedOnce a, hi.adoptedOnce a⟩
  · intro l hen t
    constructor
    · intro ht
      rcases next_peers s l t with hsame | hnone | ⟨a, c, rfl, -⟩
      · exact .inl hsame
      · exact .inr hnone
      · have hfresh := hi.fresh a t
        rw [show s.attempts a = .adopted t c from hen] at hfresh
        exact absurd (hfresh rfl) ht
    · intro ht
      rcases next_suspended s l t with hsame | hnone | ⟨a, hfree, -⟩
      · exact .inl hsame
      · exact .inr hnone
      · exact absurd hfree ht
  · intro t a c ht
    have hst := hi.stored t a c ht
    generalize s.attempts a = p at hst ⊢
    cases p with
    | session u =>
        cases hst
        exact .inl rfl
    | closing u =>
        cases hst
        exact .inr rfl
    | _ => cases hst
  · intro a ha t
    constructor
    · intro ht
      have hp := hi.parked t a ht
      rw [ha] at hp
      cases hp
    · intro c ht
      have hst := hi.stored t a c ht
      rw [ha] at hst
      cases hst
  · intro a c htime hadopt
    have hexp := hi.timedOut a htime
    have hado := (hi.adopted a c hadopt).1
    generalize s.attempts a = p at hexp hado
    cases p <;> simp [Attempt.expired, Attempt.adopting] at hexp hado
  · intro a c hadopt
    obtain ⟨t, ht⟩ := (hi.adopted a c hadopt).2
    exact ⟨t, (hi.handed c t a ht).1⟩

end

/-- Two sign-ins draw token 7: the first is not adopted in time and its
client comes late, the second is adopted by the next client that names it. -/
def lateClient : List (Label Nat) :=
  [.start 0 7, .lockMap 0 7 false, .lockClients 0 7 true, .check 0 7,
    .timeout 0 7, .arrive 0 7, .clientLock 0 7, .clientRemove 0 7,
    .clientSend 0 7 0, .relockClients 0 7, .removeClient 0 7, .fail 0,
    .start 1 7, .lockMap 1 7 false, .lockClients 1 7 true, .check 1 7,
    .arrive 1 7, .clientLock 1 7, .clientRemove 1 7, .clientSend 1 7 1,
    .receive 1 7 1, .insertPeer 1 7 1]

theorem registry_safe_lateClient :
    (lateClient.foldl recorded.next recorded.init).2 =
      [.timedOut 0, .took 0 7 0, .took 1 7 1, .handed 1 7 1, .adopted 1 1] ∧
    Safe (lateClient.foldl recorded.next recorded.init).1
      (lateClient.foldl recorded.next recorded.init).2 :=
  ⟨by decide, registry_safe (Machine.reaches_of_path (by decide))⟩

end WebSshTool.SignIn
