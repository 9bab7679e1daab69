import WebSshTool.Rpc.TransferSteps

/-!
# A PUT request meets the transfer it is for

An entry of a queue is the registration of its transfer and of no other, a
transfer is handed a PUT request when its entry goes, and a PUT request is fed
once, to the peer whose token it carries. So a request reaches one transfer at
most, and a transfer that has returned has no entry left.

A client that sends Null only after its own PUT request was answered cannot
leave a transfer waiting: the request found the peer and took the entry out, or
found none, and then the lock of `websocket_peers` says that the peer has
disconnected, callbacks included.

The ids are 64-bit numbers. Only a peer with more than 2^64 registrations gives
one out twice, and what depends on that is said where it matters.
-/

namespace WebSshTool.Rpc

open Json Session

namespace TransferPhase

/-- The registration a transfer has in this phase. -/
def place : TransferPhase → Option (PeerId × Nat)
  | .calling p id _ | .awaiting p id | .cancelling p id _ | .waiting p id => some (p, id)
  | _ => none

/-- The same, while the transfer relies on it. -/
def waits : TransferPhase → Option (PeerId × Nat)
  | .calling p id _ | .awaiting p id | .waiting p id => some (p, id)
  | _ => none

/-- Before the registration. -/
def isEarly : TransferPhase → Bool
  | .idle | .lookup .. | .registering .. => true
  | _ => false

theorem place_of_waits {ph : TransferPhase} {x : PeerId × Nat} (h : ph.waits = some x) :
    ph.place = some x := by
  cases ph with
  | calling | awaiting | waiting => exact h
  | _ => simp [waits] at h

theorem isOver_of_waits {ph : TransferPhase} {x : PeerId × Nat} (h : ph.waits = some x) :
    ph.isOver = false := by
  cases ph with
  | calling | awaiting | waiting => rfl
  | _ => simp [waits] at h

end TransferPhase

namespace Server

variable {s : Server} {l : ServerLabel}

/-! ## Tokens and the lock of `websocket_peers` -/

structure Locks (s : Server) : Prop where
  listed : ∀ token p, s.tokens token = some p →
    (s.peers p).token = token ∧ (s.peers p).phase = .live
  live : ∀ p, (s.peers p).phase = .live →
    s.tokens (s.peers p).token = some p ∧ (s.peers p).closed = false ∧
      (s.peers p).cleared = false
  held : ∀ p, (s.peers p).phase = .disconnecting → s.peersHeld = some p
  gone : ∀ p, (s.peers p).phase = .gone →
    (s.peers p).closed = true ∧ (s.peers p).cleared = true

/-- What a peer shows is what it showed, unless the step is its own. -/
theorem status_eq {p : PeerId} (h : peerOf l ≠ some p) :
    ((s.next l).peers p).token = (s.peers p).token ∧
      ((s.next l).peers p).phase = (s.peers p).phase ∧
      ((s.next l).peers p).closed = (s.peers p).closed ∧
      ((s.next l).peers p).cleared = (s.peers p).cleared := by
  have hstatus := status_next (s := s) p h
  simp only [status, Prod.mk.injEq] at hstatus
  exact hstatus

theorem Locks.frame {s' : Server} (h : Locks s) (htokens : s'.tokens = s.tokens)
    (hheld : s'.peersHeld = s.peersHeld)
    (hsame : ∀ p, (s'.peers p).token = (s.peers p).token ∧
      (s'.peers p).phase = (s.peers p).phase ∧ (s'.peers p).closed = (s.peers p).closed ∧
      (s'.peers p).cleared = (s.peers p).cleared) : Locks s' where
  listed token p hp := by
    obtain ⟨htoken, hphase, -, -⟩ := hsame p
    rw [htoken, hphase]
    exact h.listed token p (htokens ▸ hp)
  live p hp := by
    obtain ⟨htoken, hphase, hclosed, hcleared⟩ := hsame p
    rw [htoken, htokens, hclosed, hcleared]
    exact h.live p (hphase ▸ hp)
  held p hp := by
    rw [hheld]
    exact h.held p ((hsame p).2.1 ▸ hp)
  gone p hp := by
    obtain ⟨-, hphase, hclosed, hcleared⟩ := hsame p
    rw [hclosed, hcleared]
    exact h.gone p (hphase ▸ hp)

/-- Two peers never have one token at a time. -/
theorem Locks.token_ne (h : Locks s) {p q : PeerId} (hp : (s.peers p).phase = .live)
    (hq : (s.peers q).phase = .live) (hne : q ≠ p) :
    (s.peers q).token ≠ (s.peers p).token := by
  intro hsame
  have hlist := (h.live q hq).1
  rw [hsame, (h.live p hp).1] at hlist
  exact hne (Option.some.inj hlist).symm

theorem Locks.signIn (h : Locks s) {p : PeerId} {token : Text}
    (hen : s.enabled (.signIn p token)) : Locks (s.next (.signIn p token)) := by
  obtain ⟨habsent, hnone, hfree⟩ := hen
  have hother : ∀ q, q ≠ p → (s.next (.signIn p token)).peers q = s.peers q :=
    fun q hq => Function.update_of_ne hq _ _
  have hself : (s.next (.signIn p token)).peers p =
      ⟨token, .live, .new, 0, false, false, []⟩ := Function.update_self ..
  refine ⟨?_, ?_, ?_, ?_⟩
  · intro tok q hq
    simp only [next, Function.update_apply] at hq
    split at hq
    · next htok =>
        obtain rfl : p = q := Option.some.inj hq
        rw [hself, htok]
        exact ⟨rfl, rfl⟩
    · obtain ⟨htoken, hlive⟩ := h.listed tok q hq
      have hne : q ≠ p := by
        rintro rfl
        rw [habsent] at hlive
        exact absurd hlive (by simp)
      rw [hother q hne]
      exact ⟨htoken, hlive⟩
  · intro q hq
    rcases eq_or_ne q p with rfl | hne
    · rw [hself]
      exact ⟨Function.update_self .., rfl, rfl⟩
    · rw [hother q hne] at hq ⊢
      obtain ⟨hlist, hflags⟩ := h.live q hq
      have htok : (s.peers q).token ≠ token := by
        intro htok
        rw [htok, hnone] at hlist
        exact absurd hlist (by simp)
      exact ⟨(Function.update_of_ne htok _ _).trans hlist, hflags⟩
  · intro q hq
    rcases eq_or_ne q p with rfl | hne
    · rw [hself] at hq
      exact absurd hq (by simp)
    · rw [hother q hne] at hq
      have hheld := h.held q hq
      rw [hfree] at hheld
      exact absurd hheld (by simp)
  · intro q hq
    rcases eq_or_ne q p with rfl | hne
    · rw [hself] at hq
      exact absurd hq (by simp)
    · rw [hother q hne] at hq ⊢
      exact h.gone q hq

theorem Locks.leave (h : Locks s) {p : PeerId} (hen : s.enabled (.leave p)) :
    Locks (s.next (.leave p)) := by
  obtain ⟨hlive, hlist, hfree⟩ := hen
  have hother : ∀ q, q ≠ p → (s.next (.leave p)).peers q = s.peers q :=
    fun q hq => Function.update_of_ne hq _ _
  have hself : (s.next (.leave p)).peers p = { s.peers p with phase := .disconnecting } :=
    Function.update_self ..
  refine ⟨?_, ?_, ?_, ?_⟩
  · intro tok q hq
    simp only [next, Function.update_apply] at hq
    split at hq
    · simp at hq
    · next htok =>
        obtain ⟨htoken, hphase⟩ := h.listed tok q hq
        have hne : q ≠ p := by
          rintro rfl
          exact htok htoken.symm
        rw [hother q hne]
        exact ⟨htoken, hphase⟩
  · intro q hq
    rcases eq_or_ne q p with rfl | hne
    · rw [hself] at hq
      exact absurd hq (by simp)
    · rw [hother q hne] at hq ⊢
      obtain ⟨hq', hflags⟩ := h.live q hq
      exact ⟨(Function.update_of_ne (h.token_ne hlive hq hne) _ _).trans hq', hflags⟩
  · intro q hq
    rcases eq_or_ne q p with rfl | hne
    · rfl
    · rw [hother q hne] at hq
      have hheld := h.held q hq
      rw [hfree] at hheld
      exact absurd hheld (by simp)
  · intro q hq
    rcases eq_or_ne q p with rfl | hne
    · rw [hself] at hq
      exact absurd hq (by simp)
    · rw [hother q hne] at hq ⊢
      exact h.gone q hq

/-- A disconnecting peer goes on: it is not live and stays the owner of the lock. -/
theorem Locks.goOn {s' : Server} (h : Locks s) {p : PeerId} {peer : Peer}
    (hpeers : s'.peers = Function.update s.peers p peer) (htokens : s'.tokens = s.tokens)
    (hphase : (s.peers p).phase = .disconnecting) (hlive : peer.phase ≠ .live)
    (hheld : ∀ q, (s'.peers q).phase = .disconnecting → s'.peersHeld = some q)
    (hgone : peer.phase = .gone → peer.closed = true ∧ peer.cleared = true) : Locks s' := by
  have hother : ∀ q, q ≠ p → s'.peers q = s.peers q := fun q hq => by
    rw [hpeers]
    exact Function.update_of_ne hq _ _
  have hself : s'.peers p = peer := by
    rw [hpeers]
    exact Function.update_self ..
  refine ⟨?_, ?_, hheld, ?_⟩
  · intro tok q hq
    rw [htokens] at hq
    obtain ⟨htoken, hq'⟩ := h.listed tok q hq
    have hne : q ≠ p := by
      rintro rfl
      rw [hphase] at hq'
      exact absurd hq' (by simp)
    rw [hother q hne]
    exact ⟨htoken, hq'⟩
  · intro q hq
    have hne : q ≠ p := by
      rintro rfl
      exact hlive (hself ▸ hq)
    rw [hother q hne] at hq ⊢
    rw [htokens]
    exact h.live q hq
  · intro q hq
    rcases eq_or_ne q p with rfl | hne
    · rw [hself] at hq ⊢
      exact hgone hq
    · rw [hother q hne] at hq ⊢
      exact h.gone q hq

theorem Locks.next (h : Locks s) (hen : s.enabled l) : Locks (s.next l) := by
  cases hpeer : peerOf l with
  | none =>
      obtain ⟨htokens, hheld⟩ := tokens_next (s := s) hpeer
      exact h.frame htokens hheld fun p => status_eq (by simp [hpeer])
  | some p =>
      have hheld : ∀ {peer : Peer}, (s.peers p).phase = .disconnecting → ∀ q,
          (Function.update s.peers p peer q).phase = .disconnecting →
            s.peersHeld = some q := by
        intro peer hphase q hq
        rcases eq_or_ne q p with rfl | hne
        · exact h.held q hphase
        · rw [Function.update_of_ne hne] at hq
          exact h.held q hq
      cases l with
      | signIn x token => exact h.signIn hen
      | leave x => exact h.leave hen
      | close x =>
          obtain rfl : x = p := Option.some.inj hpeer
          refine h.goOn (p := x) rfl rfl hen.1 ?_ (hheld hen.1) ?_ <;> simp [hen.1]
      | clear x =>
          obtain rfl : x = p := Option.some.inj hpeer
          refine h.goOn (p := x) rfl rfl hen.1 ?_ (hheld hen.1) ?_ <;> simp [hen.1]
      | left x =>
          obtain rfl : x = p := Option.some.inj hpeer
          refine h.goOn (p := x) rfl rfl hen.1 (by simp) ?_ fun _ => hen.2
          intro q hq
          rcases eq_or_ne q x with rfl | hne
          · simp [WebSshTool.Rpc.Server.next, setPeer] at hq
          · simp only [WebSshTool.Rpc.Server.next, setPeer, Function.update_of_ne hne] at hq
            have hx := h.held x hen.1
            rw [h.held q hq] at hx
            exact absurd (Option.some.inj hx) hne
      | _ => simp [peerOf] at hpeer

theorem Locks.init : Locks Server.init where
  listed := by simp [Server.init]
  live := by simp [Server.init]
  held := by simp [Server.init]
  gone := by simp [Server.init]

/-- A peer that has signed in keeps its token, and what it has done stays done. -/
theorem peer_stable (hen : s.enabled l) {p : PeerId} (hp : (s.peers p).phase ≠ .absent) :
    ((s.next l).peers p).phase ≠ .absent ∧ ((s.next l).peers p).token = (s.peers p).token ∧
      ((s.peers p).closed = true → ((s.next l).peers p).closed = true) ∧
      ((s.peers p).cleared = true → ((s.next l).peers p).cleared = true) ∧
      (s.peers p).registrations ≤ ((s.next l).peers p).registrations := by
  have hcount : (s.peers p).registrations ≤ ((s.next l).peers p).registrations := by
    rcases count_next (s := s) (l := l) p with ⟨hr, -⟩ | ⟨t, a, -, -, hr, -⟩ | ⟨token, rfl, -⟩
    · rw [hr]
    · omega
    · exact absurd hen.1 hp
  by_cases hpeer : peerOf l = some p
  · cases l with
    | signIn x token =>
        obtain rfl : x = p := Option.some.inj hpeer
        exact absurd hen.1 hp
    | leave x | close x | clear x | left x =>
        obtain rfl : x = p := Option.some.inj hpeer
        simp only [next, setPeer, Function.update_self] at hcount ⊢
        refine ⟨?_, trivial, ?_, ?_, ?_⟩ <;> simp_all
    | _ => simp [peerOf] at hpeer
  · obtain ⟨htoken, hphase, hclosed, hcleared⟩ := status_eq (s := s) hpeer
    rw [htoken, hphase, hclosed, hcleared]
    exact ⟨hp, rfl, fun h => h, fun h => h, hcount⟩

/-! ## Registrations -/

theorem place_next {t : TransferId} {p : PeerId} {id : Nat}
    (h : ((s.next l).phase t).place = some (p, id)) :
    (s.phase t).place = some (p, id) ∨ ∃ apiCall, l = .register t ∧
      s.phase t = .registering p apiCall ∧ id = (s.peers p).http.requestId := by
  rcases phase_next (s := s) (l := l) t with hsame | hmoved
  · rw [hsame] at h
    exact .inl h
  · generalize (s.next l).phase t = ph at hmoved h
    cases hmoved with
    | registers hphase =>
        obtain ⟨rfl, rfl⟩ : _ = p ∧ _ = id := by simpa [TransferPhase.place] using h
        exact .inr ⟨_, rfl, hphase, rfl⟩
    | sends hphase | fails hphase | accepts hphase | rejects hphase | loses hphase =>
        rw [hphase]
        exact .inl h
    | _ => simp [TransferPhase.place] at h

theorem waits_next {t : TransferId} {p : PeerId} {id : Nat}
    (h : ((s.next l).phase t).waits = some (p, id)) :
    (s.phase t).waits = some (p, id) ∨ ∃ apiCall, l = .register t ∧
      s.phase t = .registering p apiCall ∧ id = (s.peers p).http.requestId := by
  rcases phase_next (s := s) (l := l) t with hsame | hmoved
  · rw [hsame] at h
    exact .inl h
  · generalize (s.next l).phase t = ph at hmoved h
    cases hmoved with
    | registers hphase =>
        obtain ⟨rfl, rfl⟩ : _ = p ∧ _ = id := by simpa [TransferPhase.waits] using h
        exact .inr ⟨_, rfl, hphase, rfl⟩
    | sends hphase | accepts hphase =>
        rw [hphase]
        exact .inl h
    | _ => simp [TransferPhase.waits] at h

theorem isEarly_next {t : TransferId} (hen : s.enabled l)
    (h : ((s.next l).phase t).isEarly = true) :
    (s.phase t).isEarly = true ∧ ∀ p apiCall, s.phase t = .registering p apiCall →
      l ≠ .register t := by
  rcases phase_next (s := s) (l := l) t with hsame | hmoved
  · rw [hsame] at h
    refine ⟨h, ?_⟩
    rintro p apiCall hphase rfl
    have hnext : (s.next (.register t)).phase t =
        .calling p (s.peers p).http.requestId apiCall := by
      simp only [next, hphase, setTransfer_phase, if_pos]
    rw [hsame, hphase] at hnext
    exact absurd hnext (by simp)
  · generalize (s.next l).phase t = ph at hmoved h
    cases hmoved with
    | requested token apiCall =>
        have hidle : s.ready t (.request t token apiCall) = true := hen
        cases hphase : s.phase t with
        | idle => exact ⟨rfl, by simp⟩
        | _ => simp [ready, hphase] at hidle
    | found hphase htoken =>
        rw [hphase]
        exact ⟨rfl, by simp⟩
    | _ => simp [TransferPhase.isEarly] at h

/-- The registrations and the entries of the queues agree. -/
structure Registry (s : Server) : Prop where
  placed : ∀ t p id, (s.phase t).place = some (p, id) → s.registered t = some (p, id)
  early : ∀ t, (s.phase t).isEarly = true → s.registered t = none
  handler : ∀ t p apiCall, s.phase t = .registering p apiCall →
    (s.peers p).phase ≠ .absent
  registrant : ∀ t p id, s.registered t = some (p, id) → (s.peers p).phase ≠ .absent
  entry : ∀ p id t, s.queue p id = some t → s.registered t = some (p, id)
  counted : ∀ p, (s.peers p).http.requestId = (s.peers p).registrations % 2 ^ 64
  numbered : ∀ t p id, s.registered t = some (p, id) →
    (s.peers p).registrations ≤ 2 ^ 64 → id < (s.peers p).registrations
  unique : ∀ t x p id, s.registered t = some (p, id) → s.registered x = some (p, id) →
    (s.peers p).registrations ≤ 2 ^ 64 → t = x

theorem Registry.init : Registry Server.init where
  placed := by simp [Server.init, phase, TransferPhase.place]
  early := by simp [Server.init, registered]
  handler := by simp [Server.init, phase]
  registrant := by simp [Server.init, registered]
  entry := by simp [Server.init, queue, ClientHttp.new]
  counted := by simp [Server.init, ClientHttp.new]
  numbered := by simp [Server.init, registered]
  unique := by simp [Server.init, registered]

/-- What a registration does. -/
theorem register_effect {t : TransferId} {p : PeerId} {apiCall : Value}
    (h : s.phase t = .registering p apiCall) :
    (s.next (.register t)).registered t = some (p, (s.peers p).http.requestId) ∧
      ((s.next (.register t)).peers p).registrations = (s.peers p).registrations + 1 := by
  simp only [next, h, registered, setTransfer_apply, setTransfer_peers, setPeer_apply, if_pos]
  exact ⟨trivial, trivial⟩

theorem registered_cases {t : TransferId} {p : PeerId} {id : Nat}
    (hr : (s.next l).registered t = some (p, id)) :
    s.registered t = some (p, id) ∨ ∃ apiCall, l = .register t ∧
      s.phase t = .registering p apiCall ∧ id = (s.peers p).http.requestId := by
  rcases registered_next (s := s) (l := l) t with hsame | ⟨q, apiCall, hl, hphase, hnew⟩
  · rw [hsame] at hr
    exact .inl hr
  · rw [hnew] at hr
    obtain ⟨rfl, rfl⟩ : q = p ∧ _ = id := by simpa using hr
    exact .inr ⟨apiCall, hl, hphase, rfl⟩

/-- A transfer has its registration for good, and had none before it made it. -/
theorem Registry.registered_mono (h : Registry s) {t : TransferId} {x : PeerId × Nat}
    (hr : s.registered t = some x) : (s.next l).registered t = some x := by
  rcases registered_next (s := s) (l := l) t with hsame | ⟨q, apiCall, -, hphase, -⟩
  · rw [hsame]
    exact hr
  · rw [h.early t (by rw [hphase]; rfl)] at hr
    exact absurd hr (by simp)

theorem Registry.next (h : Registry s) (hlocks : Locks s) (hen : s.enabled l) :
    Registry (s.next l) := by
  have hnumber : ∀ {t p apiCall}, s.phase t = .registering p apiCall →
      (s.peers p).registrations + 1 ≤ 2 ^ 64 →
      (s.peers p).http.requestId = (s.peers p).registrations := by
    intro t p apiCall _ hle
    rw [h.counted p]
    exact Nat.mod_eq_of_lt hle
  have hhandler : ∀ {t p apiCall}, s.phase t = .registering p apiCall →
      ((s.next l).peers p).phase ≠ .absent :=
    fun hphase => (peer_stable hen (h.handler _ _ _ hphase)).1
  exact {
    placed := by
      intro t p id ht
      rcases place_next ht with hold | ⟨apiCall, rfl, hphase, rfl⟩
      · exact h.registered_mono (h.placed t p id hold)
      · exact (register_effect hphase).1
    early := by
      intro t ht
      obtain ⟨hearly, hnot⟩ := isEarly_next hen ht
      rcases registered_next (s := s) (l := l) t with hsame | ⟨p, apiCall, hl, hphase, -⟩
      · rw [hsame]
        exact h.early t hearly
      · exact absurd hl (hnot p apiCall hphase)
    handler := by
      intro t p apiCall ht
      rcases phase_next (s := s) (l := l) t with hsame | hmoved
      · rw [hsame] at ht
        exact hhandler ht
      · rw [ht] at hmoved
        cases hmoved with
        | found hphase htoken =>
            have hlive : (s.peers p).phase ≠ .absent := by
              rw [(hlocks.listed _ p htoken).2]
              simp
            exact (peer_stable hen hlive).1
    registrant := by
      intro t p id ht
      rcases registered_cases ht with hold | ⟨apiCall, -, hphase, -⟩
      · exact (peer_stable hen (h.registrant t p id hold)).1
      · exact hhandler hphase
    entry := by
      intro p id t ht
      rcases queue_next ht with hold | ⟨apiCall, rfl, hphase, rfl⟩
      · exact h.registered_mono (h.entry p id t hold)
      · exact (register_effect hphase).1
    counted := by
      intro p
      have hcounted := h.counted p
      rcases count_next (s := s) (l := l) p with ⟨hr, hid⟩ | ⟨_, _, -, -, hr, hid⟩ |
        ⟨_, -, hr, hid⟩
      · rw [hr, hid]
        exact hcounted
      · rw [hr, hid]
        omega
      · rw [hr, hid, Nat.zero_mod]
    numbered := by
      intro t p id ht hle
      rcases registered_cases ht with hold | ⟨apiCall, rfl, hphase, rfl⟩
      · have hmono := (peer_stable hen (h.registrant t p id hold)).2.2.2.2
        have hlt := h.numbered t p id hold (hmono.trans hle)
        omega
      · have hcount := (register_effect hphase).2
        rw [hcount] at hle ⊢
        rw [hnumber hphase hle]
        exact Nat.lt_succ_self _
    unique := by
      intro t x p id ht hx hle
      rcases registered_cases ht with hold | ⟨apiCall, rfl, hphase, rfl⟩
      · rcases registered_cases hx with hold' | ⟨apiCall, rfl, hphase, rfl⟩
        · have hmono := (peer_stable hen (h.registrant t p id hold)).2.2.2.2
          exact h.unique t x p id hold hold' (hmono.trans hle)
        · have hcount := (register_effect hphase).2
          rw [hcount] at hle
          have hlt := h.numbered t p _ hold (Nat.le_of_succ_le hle)
          rw [hnumber hphase hle] at hlt
          exact absurd hlt (Nat.lt_irrefl _)
      · rcases registered_cases hx with hold' | ⟨apiCall', hl, -, -⟩
        · have hcount := (register_effect hphase).2
          rw [hcount] at hle
          have hlt := h.numbered x p _ hold' (Nat.le_of_succ_le hle)
          rw [hnumber hphase hle] at hlt
          exact absurd hlt (Nat.lt_irrefl _)
        · simpa using hl }

/-! ## PUT requests and what they are handed to -/

/-- The headers of a PUT request name a registration, and it came from loopback. -/
def Aimed (s : Server) (put : Put) (p : PeerId) (id : Nat) : Prop :=
  put.loopback = true ∧ put.peer = some (s.peers p).token ∧
    put.id.bind parseU64 = some id ∧ (s.peers p).phase ≠ .absent

theorem Aimed.next {put : Put} {p : PeerId} {id : Nat} (h : s.Aimed put p id)
    (hen : s.enabled l) : (s.next l).Aimed put p id := by
  obtain ⟨hloop, hpeer, hid, hlive⟩ := h
  obtain ⟨hlive', htoken, -⟩ := peer_stable hen hlive
  exact ⟨hloop, hpeer.trans (by rw [htoken]), hid, hlive'⟩

/-- PUT requests are fed once, to the registration they name, and a transfer that
was handed one, or has returned, has no entry left. -/
structure Meeting (s : Server) : Prop where
  aimed : ∀ u p id, (s.puts u).target = some (p, id) → s.Aimed (s.puts u) p id
  feeding : ∀ u p id, (s.puts u).phase = .feeding p id → (s.puts u).target = some (p, id)
  looking : ∀ u, (s.puts u).phase = .lookup →
    (s.puts u).loopback = true ∧ (s.puts u).target = none
  delivered : ∀ t u, s.handed t = some u → (s.puts u).phase = .responded ∧ ∃ p id,
    s.registered t = some (p, id) ∧ (s.puts u).target = some (p, id) ∧
      s.queue p id ≠ some t
  single : ∀ t x u, s.handed t = some u → s.handed x = some u → t = x
  done : ∀ t result p id, s.phase t = .finished result → s.registered t = some (p, id) →
    s.queue p id ≠ some t

theorem Meeting.init : Meeting Server.init where
  aimed := by simp [Server.init]
  feeding := by simp [Server.init]
  looking := by simp [Server.init]
  delivered := by simp [Server.init, handed]
  single := by simp [Server.init, handed]
  done := by simp [Server.init, phase]

/-- An entry that is gone does not come back. -/
theorem Registry.queue_ne_next (h : Registry s) {t : TransferId} {p : PeerId} {id : Nat}
    (hr : s.registered t = some (p, id)) (hq : s.queue p id ≠ some t) :
    (s.next l).queue p id ≠ some t := by
  intro hnew
  rcases queue_next hnew with hold | ⟨apiCall, -, hphase, -⟩
  · exact hq hold
  · rw [h.early t (by rw [hphase]; rfl)] at hr
    exact absurd hr (by simp)

/-- A PUT request goes on to the peer it names, or is answered with nothing done. -/
theorem lookUp_cases (put : Put) :
    (∃ p id token, put.peer = some token ∧ s.tokens token = some p ∧
      put.id.bind parseU64 = some id ∧
      s.lookUp put = { put with phase := .feeding p id, target := some (p, id) }) ∨
    (put.peer.bind s.tokens = none ∨ put.id.bind parseU64 = none) ∧
      s.lookUp put = { put with phase := .responded } := by
  unfold lookUp
  split
  · next p id hpeer hid =>
      obtain ⟨token, htoken, hp⟩ := Option.bind_eq_some_iff.mp hpeer
      exact .inl ⟨p, id, token, htoken, hp, hid, rfl⟩
  · next hnot =>
      refine .inr ⟨?_, rfl⟩
      cases hp : put.peer.bind s.tokens with
      | none => exact .inl rfl
      | some p =>
          cases hid : put.id.bind parseU64 with
          | none => exact .inr rfl
          | some id => exact absurd hid (hnot p id hp)

theorem feed_put {u : PutId} {p : PeerId} {id : Nat} (h : (s.puts u).phase = .feeding p id) :
    (s.next (.feed u)).puts u = { s.puts u with phase := .responded } := by
  have hputs : (s.feed u p id).puts = s.puts := by
    unfold feed
    split <;> rfl
  simp only [next, h, setPut_apply, if_pos]

theorem ready_receive {t : TransferId} (h : s.enabled (.receive t)) :
    ∃ p id, s.phase t = .waiting p id ∧ ((s.handed t).isSome = true ∨ s.queue p id ≠ some t) := by
  simp only [enabled, ready] at h
  cases hphase : s.phase t with
  | waiting p id =>
      refine ⟨p, id, rfl, ?_⟩
      simpa [hphase, handed, queue] using h
  | _ => simp [hphase] at h

/-- An answered PUT request stays what it is. -/
theorem put_responded (hen : s.enabled l) {u : PutId} (h : (s.puts u).phase = .responded) :
    (s.next l).puts u = s.puts u := by
  rcases put_next hen u with hsame | ⟨_, _, _, _, -, hidle, -⟩ | ⟨-, hlook, -⟩ |
    ⟨_, _, -, hfeed, -⟩
  · exact hsame
  · simp [h] at hidle
  · simp [h] at hlook
  · simp [h] at hfeed

theorem Meeting.next (h : Meeting s) (hregistry : Registry s) (hlocks : Locks s)
    (hen : s.enabled l) : Meeting (s.next l) := by
  exact {
    aimed := by
      intro u p id ht
      rcases put_next hen u with hsame | ⟨_, _, _, _, -, -, -, hnew⟩ | ⟨-, hlook, -, hnew⟩ |
        ⟨_, _, -, -, hnew⟩
      · rw [hsame] at ht ⊢
        exact (h.aimed u p id ht).next hen
      · rw [hnew] at ht
        exact absurd ht (by simp)
      · obtain ⟨hloop, hnone⟩ := h.looking u hlook
        rcases lookUp_cases (s := s) (s.puts u) with ⟨q, n, token, hpeer, htoken, hid, heq⟩ |
          ⟨-, heq⟩
        · rw [hnew, heq] at ht ⊢
          obtain ⟨rfl, rfl⟩ : q = p ∧ n = id := by simpa using ht
          obtain ⟨htok, hphase⟩ := hlocks.listed token q htoken
          refine Aimed.next ⟨hloop, hpeer.trans (by rw [htok]), hid, ?_⟩ hen
          rw [hphase]
          simp
        · rw [hnew, heq] at ht
          rw [show (s.puts u).target = some (p, id) from ht] at hnone
          exact absurd hnone (by simp)
      · rw [hnew] at ht ⊢
        exact (h.aimed u p id ht).next hen
    feeding := by
      intro u p id hu
      rcases put_next hen u with hsame | ⟨_, _, _, _, -, -, -, hnew⟩ | ⟨-, -, -, hnew⟩ |
        ⟨_, _, -, -, hnew⟩
      · rw [hsame] at hu ⊢
        exact h.feeding u p id hu
      · rw [hnew] at hu
        simp only at hu
        split at hu <;> simp at hu
      · rcases lookUp_cases (s := s) (s.puts u) with ⟨q, n, token, -, -, -, heq⟩ | ⟨-, heq⟩
        · rw [hnew, heq] at hu ⊢
          obtain ⟨rfl, rfl⟩ : q = p ∧ n = id := by simpa using hu
          rfl
        · rw [hnew, heq] at hu
          exact absurd hu (by simp)
      · rw [hnew] at hu
        exact absurd hu (by simp)
    looking := by
      intro u hu
      rcases put_next hen u with hsame | ⟨loopback, _, _, _, -, -, -, hnew⟩ | ⟨-, -, -, hnew⟩ |
        ⟨_, _, -, -, hnew⟩
      · rw [hsame] at hu ⊢
        exact h.looking u hu
      · rw [hnew] at hu ⊢
        simp only at hu
        split at hu
        · next hall =>
            simp only [Bool.and_eq_true] at hall
            exact ⟨hall.1.1, rfl⟩
        · simp at hu
      · rcases lookUp_cases (s := s) (s.puts u) with ⟨q, n, token, -, -, -, heq⟩ | ⟨-, heq⟩
        · rw [hnew, heq] at hu
          exact absurd hu (by simp)
        · rw [hnew, heq] at hu
          exact absurd hu (by simp)
      · rw [hnew] at hu
        exact absurd hu (by simp)
    delivered := by
      intro t u ht
      rcases handed_next (s := s) (l := l) t with hsame | ⟨v, p, id, rfl, hphase, hentry, hnew⟩
      · rw [hsame] at ht
        obtain ⟨hresponded, p, id, hr, htarget, hq⟩ := h.delivered t u ht
        rw [put_responded hen hresponded]
        exact ⟨hresponded, p, id, hregistry.registered_mono hr, htarget,
          hregistry.queue_ne_next hr hq⟩
      · rw [hnew] at ht
        obtain rfl : v = u := Option.some.inj ht
        rw [feed_put hphase]
        refine ⟨rfl, p, id, hregistry.registered_mono (hregistry.entry p id t hentry),
          h.feeding v p id hphase, ?_⟩
        rw [feed_queue hphase]
        simp
    single := by
      intro t x u ht hx
      rcases handed_next (s := s) (l := l) t with hsame | ⟨v, p, id, rfl, hphase, hentry, hnew⟩
      · rw [hsame] at ht
        rcases handed_next (s := s) (l := l) x with hsame' | ⟨w, q, n, rfl, hphase, -, hnew⟩
        · rw [hsame'] at hx
          exact h.single t x u ht hx
        · rw [hnew] at hx
          obtain rfl : w = u := Option.some.inj hx
          have hdone := (h.delivered t w ht).1
          rw [hphase] at hdone
          exact absurd hdone (by simp)
      · rw [hnew] at ht
        obtain rfl : v = u := Option.some.inj ht
        rcases handed_next (s := s) (l := .feed v) x with hsame' |
          ⟨w, q, n, hw, hphase', hentry', -⟩
        · rw [hsame'] at hx
          have hdone := (h.delivered x v hx).1
          rw [hphase] at hdone
          exact absurd hdone (by simp)
        · obtain rfl : v = w := by simpa using hw
          rw [hphase] at hphase'
          obtain ⟨rfl, rfl⟩ : p = q ∧ id = n := by simpa using hphase'
          rw [hentry] at hentry'
          exact Option.some.inj hentry'
    done := by
      intro t result p id hdone hr
      rcases phase_next (s := s) (l := l) t with hsame | hmoved
      · rw [hsame] at hdone
        rcases registered_cases hr with hold | ⟨_, -, hphase, -⟩
        · exact hregistry.queue_ne_next hold (h.done t result p id hdone hold)
        · rw [hdone] at hphase
          exact absurd hphase (by simp)
      · rw [hdone] at hmoved
        have hplace : ∀ {q n}, (s.phase t).place = some (q, n) → q = p ∧ n = id := by
          intro q n hplaced
          have hmono := hregistry.registered_mono (l := l) (hregistry.placed t q n hplaced)
          rw [hr] at hmono
          simpa [eq_comm] using hmono
        cases hmoved with
        | takesBack hphase =>
            obtain ⟨rfl, rfl⟩ := hplace (by rw [hphase]; rfl)
            rw [cancel_queue hphase]
            simp
        | receives result =>
            obtain ⟨q, n, hphase, hcase⟩ := ready_receive hen
            obtain ⟨rfl, rfl⟩ := hplace (by rw [hphase]; rfl)
            have hold : s.registered t = some (q, n) :=
              hregistry.placed t q n (by rw [hphase]; rfl)
            refine hregistry.queue_ne_next hold ?_
            rcases hcase with hsome | hq
            · obtain ⟨u, hu⟩ := Option.isSome_iff_exists.mp hsome
              obtain ⟨-, q', n', hr', -, hq⟩ := h.delivered t u hu
              rw [hold] at hr'
              obtain ⟨rfl, rfl⟩ : q = q' ∧ n = n' := by simpa using hr'
              exact hq
            · exact hq }

/-! ## Internal calls -/

/-- Every call under "internal" carries the registration of a transfer of this peer. -/
def CallsRegistered (s : Server) : Prop :=
  ∀ p call, call ∈ (s.peers p).written → call.1 = ofString "internal" →
    ∃ t id apiCall, s.registered t = some (p, id) ∧ call = internalCall id apiCall

theorem CallsRegistered.next (h : s.CallsRegistered) (hregistry : Registry s) :
    (s.next l).CallsRegistered := by
  intro p call hc hkey
  rcases written_next hc with hold | ⟨request, hrequest⟩ | ⟨t, id, apiCall, hphase, rfl⟩
  · obtain ⟨t, id, apiCall, hr, rfl⟩ := h p call hold hkey
    exact ⟨t, id, apiCall, hregistry.registered_mono hr, rfl⟩
  · exact absurd hkey (Session.Call.ofRequest_ne_internal hrequest)
  · exact ⟨t, id, apiCall,
      hregistry.registered_mono (hregistry.placed t p id (by rw [hphase]; rfl)), rfl⟩

/-! ## What became of an entry -/

/-- A transfer that relies on its registration still has its entry, or was handed a
request, or the queue was cleared, or the ids have gone round. -/
def Kept (s : Server) : Prop :=
  ∀ t p id, (s.phase t).waits = some (p, id) →
    s.queue p id = some t ∨ s.handed t ≠ none ∨ (s.peers p).cleared = true ∨
      2 ^ 64 < (s.peers p).registrations

theorem Kept.next (h : s.Kept) (hregistry : Registry s) (hen : s.enabled l) :
    (s.next l).Kept := by
  intro t p id hw
  rcases waits_next hw with hwaits | ⟨apiCall, rfl, hphase, rfl⟩
  · have hr : s.registered t = some (p, id) :=
      hregistry.placed t p id (TransferPhase.place_of_waits hwaits)
    obtain ⟨-, -, -, hcleared, hcount⟩ := peer_stable hen (hregistry.registrant t p id hr)
    -- two registrations of one id are one, or the ids have gone round
    have hround : ∀ x, s.registered x = some (p, id) → x ≠ t →
        2 ^ 64 < (s.peers p).registrations := by
      intro x hx hne
      by_contra hle
      exact hne (hregistry.unique x t p id hx hr (Nat.le_of_not_lt hle))
    rcases h t p id hwaits with hq | hhanded | hc | hwrap
    · rcases queue_kept (l := l) hq with hkept | ⟨token, rfl⟩ | rfl |
        ⟨x, error, rfl, hphase⟩ | ⟨u, rfl, hphase⟩ | ⟨x, apiCall, rfl, hphase, hid⟩
      · exact .inl hkept
      · exact absurd hen.1 (hregistry.registrant t p id hr)
      · refine .inr (.inr (.inl ?_))
        simp [WebSshTool.Rpc.Server.next, setPeer_apply]
      · have hx := hregistry.placed x p id (by rw [hphase]; rfl)
        have hne : x ≠ t := by
          rintro rfl
          rw [hphase] at hwaits
          exact absurd hwaits (by simp [TransferPhase.waits])
        exact .inr (.inr (.inr (Nat.lt_of_lt_of_le (hround x hx hne) hcount)))
      · rw [feed_handed hphase hq (TransferPhase.isOver_of_waits hwaits)]
        exact .inr (.inl (by simp))
      · refine .inr (.inr (.inr ?_))
        have hr' := (register_effect hphase).2
        have hcounted := hregistry.counted p
        have hnumbered := hregistry.numbered t p id hr
        omega
    · rcases handed_next (s := s) (l := l) t with hsame | ⟨u, _, _, -, -, -, hnew⟩
      · rw [hsame]
        exact .inr (.inl hhanded)
      · rw [hnew]
        exact .inr (.inl (by simp))
    · exact .inr (.inr (.inl (hcleared hc)))
    · exact .inr (.inr (.inr (Nat.lt_of_lt_of_le hwrap hcount)))
  · exact .inl (register_queue hphase)

/-! ## The PUT request of a call -/

/-- Once the client's own PUT request for a call is answered, the entry of the call
is gone, or the peer has disconnected. -/
structure Answered (s : Server) : Prop where
  named : ∀ u t, (s.puts u).source = some t → ∃ p id,
    s.registered t = some (p, id) ∧ s.Aimed (s.puts u) p id
  looked : ∀ u t p id, (s.puts u).source = some t → s.registered t = some (p, id) →
    ∀ q n, (s.puts u).phase = .feeding q n →
      q = p ∧ n = id ∨ (s.peers p).closed = true
  answered : ∀ u t p id, (s.puts u).source = some t → s.registered t = some (p, id) →
    (s.puts u).phase = .responded → (s.peers p).closed = true ∨ s.queue p id ≠ some t

theorem Answered.init : Answered Server.init where
  named := by simp [Server.init]
  looked := by simp [Server.init]
  answered := by simp [Server.init]

theorem names_aimed {loopback : Bool} {peer id : Option Text} {t : TransferId}
    (h : s.names loopback peer id t = true) : ∃ p n token text,
      s.registered t = some (p, n) ∧ loopback = true ∧ peer = some token ∧
        token = (s.peers p).token ∧ id = some text ∧ parseU64 text = some n := by
  unfold names at h
  split at h
  · next p n hr =>
      simp only [Bool.and_eq_true, beq_iff_eq] at h
      obtain ⟨⟨⟨-, hloop⟩, hpeer⟩, hid⟩ := h
      obtain ⟨text, htext, hparse⟩ := Option.bind_eq_some_iff.mp hid
      exact ⟨p, n, _, text, hr, hloop, hpeer, rfl, htext, hparse⟩
  · simp at h

/-- A peer that is not among the tokens, with the lock free, has disconnected. -/
theorem Locks.closed_of_unlisted (h : Locks s) {p : PeerId} (hfree : s.peersHeld = none)
    (hlive : (s.peers p).phase ≠ .absent)
    (hlist : s.tokens (s.peers p).token ≠ some p) : (s.peers p).closed = true := by
  cases hphase : (s.peers p).phase with
  | absent => exact absurd hphase hlive
  | live => exact absurd (h.live p hphase).1 hlist
  | disconnecting =>
      have hheld := h.held p hphase
      rw [hfree] at hheld
      exact absurd hheld (by simp)
  | gone => exact (h.gone p hphase).1

theorem Answered.next (h : Answered s) (hregistry : Registry s) (hlocks : Locks s)
    (hen : s.enabled l) : Answered (s.next l) := by
  have hclosed : ∀ {t p id}, s.registered t = some (p, id) → (s.peers p).closed = true →
      ((s.next l).peers p).closed = true :=
    fun hr hc => (peer_stable hen (hregistry.registrant _ _ _ hr)).2.2.1 hc
  -- a source has its registration before the request is sent
  have hold : ∀ {u t p id}, (s.puts u).source = some t →
      (s.next l).registered t = some (p, id) →
      s.registered t = some (p, id) ∧ s.Aimed (s.puts u) p id := by
    intro u t p id hu hr
    obtain ⟨q, n, hr', haimed⟩ := h.named u t hu
    rw [hregistry.registered_mono hr'] at hr
    obtain ⟨rfl, rfl⟩ : q = p ∧ n = id := by simpa using hr
    exact ⟨hr', haimed⟩
  refine ⟨?_, ?_, ?_⟩
  · intro u t hu
    have hmono : (s.puts u).source = some t → ∃ p id,
        (s.next l).registered t = some (p, id) ∧ (s.next l).Aimed (s.puts u) p id := by
      intro hu
      obtain ⟨p, id, hr, haimed⟩ := h.named u t hu
      exact ⟨p, id, hregistry.registered_mono hr, haimed.next hen⟩
    rcases put_next hen u with hsame | ⟨loopback, peer, hid, source, -, -, hnames, hnew⟩ |
      ⟨-, -, -, hnew⟩ | ⟨_, _, -, -, hnew⟩
    · rw [hsame] at hu ⊢
      exact hmono hu
    · rw [hnew] at hu ⊢
      obtain ⟨p, n, token, text, hr, hloop, hpeer, htoken, hid, hparse⟩ :=
        names_aimed (hnames t hu)
      refine ⟨p, n, hregistry.registered_mono hr, Aimed.next ⟨hloop, ?_, ?_, ?_⟩ hen⟩
      · rw [hpeer, htoken]
      · rw [hid]
        exact hparse
      · exact hregistry.registrant t p n hr
    · rcases lookUp_cases (s := s) (s.puts u) with ⟨q, n, token, -, -, -, heq⟩ | ⟨-, heq⟩
      · rw [hnew, heq] at hu ⊢
        exact hmono hu
      · rw [hnew, heq] at hu ⊢
        exact hmono hu
    · rw [hnew] at hu ⊢
      exact hmono hu
  · intro u t p id hu hr q n hphase
    rcases put_next hen u with hsame | ⟨_, _, _, _, -, -, -, hnew⟩ | ⟨-, -, hfree, hnew⟩ |
      ⟨_, _, -, -, hnew⟩
    · rw [hsame] at hu hphase
      obtain ⟨hr', -⟩ := hold hu hr
      rcases h.looked u t p id hu hr' q n hphase with hsame | hc
      · exact .inl hsame
      · exact .inr (hclosed hr' hc)
    · rw [hnew] at hphase
      simp only at hphase
      split at hphase <;> simp at hphase
    · rcases lookUp_cases (s := s) (s.puts u) with ⟨q', n', token, hpeer, htoken, hid, heq⟩ |
        ⟨-, heq⟩
      · rw [hnew, heq] at hu hphase
        obtain ⟨rfl, rfl⟩ : q' = q ∧ n' = n := by simpa using hphase
        obtain ⟨hr', haimed⟩ := hold hu hr
        obtain ⟨-, hpeer', hid', hlive⟩ := haimed
        obtain rfl : n' = id := by
          rw [hid] at hid'
          exact Option.some.inj hid'
        obtain rfl : token = (s.peers p).token := by
          rw [hpeer] at hpeer'
          exact Option.some.inj hpeer'
        by_cases hqp : q' = p
        · exact .inl ⟨hqp, rfl⟩
        · refine .inr (hclosed hr' (hlocks.closed_of_unlisted hfree hlive ?_))
          rw [htoken]
          exact fun he => hqp (Option.some.inj he)
      · rw [hnew, heq] at hphase
        exact absurd hphase (by simp)
    · rw [hnew] at hphase
      exact absurd hphase (by simp)
  · intro u t p id hu hr hphase
    have hmono : s.registered t = some (p, id) →
        (s.peers p).closed = true ∨ s.queue p id ≠ some t →
        ((s.next l).peers p).closed = true ∨ (s.next l).queue p id ≠ some t := by
      intro hr' hcase
      rcases hcase with hc | hq
      · exact .inl (hclosed hr' hc)
      · exact .inr (hregistry.queue_ne_next hr' hq)
    rcases put_next hen u with hsame | ⟨loopback, peer, hid, source, -, -, hnames, hnew⟩ |
      ⟨-, -, hfree, hnew⟩ | ⟨q, n, rfl, hfeeding, hnew⟩
    · rw [hsame] at hu hphase
      obtain ⟨hr', -⟩ := hold hu hr
      exact hmono hr' (h.answered u t p id hu hr' hphase)
    · rw [hnew] at hu hphase
      obtain ⟨_, _, token, text, -, hloop, hpeer, -, hid, -⟩ := names_aimed (hnames t hu)
      simp [hloop, hpeer, hid] at hphase
    · rcases lookUp_cases (s := s) (s.puts u) with ⟨q', n', token, -, -, -, heq⟩ | ⟨hno, heq⟩
      · rw [hnew, heq] at hphase
        exact absurd hphase (by simp)
      · rw [hnew, heq] at hu
        obtain ⟨hr', haimed⟩ := hold hu hr
        obtain ⟨-, hpeer', hid', hlive⟩ := haimed
        refine .inl (hclosed hr' (hlocks.closed_of_unlisted hfree hlive ?_))
        rcases hno with hno | hno
        · rw [hpeer'] at hno
          rw [show s.tokens (s.peers p).token = none from hno]
          simp
        · rw [hid'] at hno
          exact absurd hno (by simp)
    · rw [hnew] at hu
      obtain ⟨hr', -⟩ := hold hu hr
      rcases h.looked u t p id hu hr' q n hfeeding with ⟨rfl, rfl⟩ | hc
      · rw [feed_queue hfeeding]
        exact .inr (by simp)
      · exact .inl (hclosed hr' hc)

/-! ## An honest client -/

/-- A client that replies Null to a call has had an answer to the PUT request it
sent for that call. -/
def Honest (s : Server) : ServerLabel → Prop
  | .reply t value => value.isNull = true →
      ∃ u, (s.puts u).source = some t ∧ (s.puts u).phase = .responded
  | _ => True

/-- Only a transfer in its first `rx.await` is given a reply, and one in its second
has been given Null. -/
structure Replied (s : Server) : Prop where
  unasked : ∀ t, (s.phase t).isEarly = true → (s.transfers t).reply = none
  nulled : ∀ t p id, s.phase t = .waiting p id → ∃ value,
    (s.transfers t).reply = some value ∧ value.isNull = true

theorem ready_reply {t : TransferId} {value : Value} (h : s.enabled (.reply t value)) :
    ∃ p id, s.phase t = .awaiting p id ∧ (s.peers p).closed = false := by
  simp only [enabled, ready] at h
  cases hphase : s.phase t with
  | awaiting p id =>
      simp only [hphase, Bool.and_eq_true, Bool.not_eq_true'] at h
      exact ⟨p, id, rfl, h.1⟩
  | _ => simp [hphase] at h

theorem Replied.init : Replied Server.init where
  unasked := by simp [Server.init]
  nulled := by simp [Server.init, phase]

theorem Replied.next (h : Replied s) (hen : s.enabled l) : Replied (s.next l) := by
  refine ⟨?_, ?_⟩
  · intro t ht
    have hearly := (isEarly_next hen ht).1
    rcases reply_next (s := s) (l := l) t with hsame | ⟨value, rfl, -⟩
    · rw [hsame]
      exact h.unasked t hearly
    · obtain ⟨p, id, hphase, -⟩ := ready_reply hen
      rw [hphase] at hearly
      exact absurd hearly (by simp [TransferPhase.isEarly])
  · intro t p id ht
    rcases phase_next (s := s) (l := l) t with hsame | hmoved
    · rw [hsame] at ht
      rcases reply_next (s := s) (l := l) t with hreply | ⟨value, rfl, -⟩
      · rw [hreply]
        exact h.nulled t p id ht
      · obtain ⟨q, n, hphase, -⟩ := ready_reply hen
        rw [ht] at hphase
        exact absurd hphase (by simp)
    · rw [ht] at hmoved
      cases hmoved with
      | accepts hphase hreply hnull =>
          rcases reply_next (s := s) (l := .resume t) t with hsame | ⟨_, hl, -⟩
          · rw [hsame]
            exact ⟨_, hreply, hnull⟩
          · exact absurd hl (by simp)

/-- A transfer that was given Null has no entry left to wait for. -/
def NullFed (s : Server) : Prop :=
  ∀ t value p id, (s.transfers t).reply = some value → value.isNull = true →
    s.registered t = some (p, id) → s.queue p id ≠ some t

theorem NullFed.next (h : s.NullFed) (hregistry : Registry s) (hreplied : Replied s)
    (hanswered : Answered s) (hen : s.enabled l) (hok : s.Honest l) : (s.next l).NullFed := by
  intro t value p id hreply hnull hr
  rcases reply_next (s := s) (l := l) t with hsame | ⟨v, rfl, hnew⟩
  · rw [hsame] at hreply
    rcases registered_cases hr with hold | ⟨_, -, hphase, -⟩
    · exact hregistry.queue_ne_next hold (h t value p id hreply hnull hold)
    · rw [hreplied.unasked t (by rw [hphase]; rfl)] at hreply
      exact absurd hreply (by simp)
  · rw [hnew] at hreply
    obtain rfl : v = value := Option.some.inj hreply
    obtain ⟨q, n, hphase, hopen⟩ := ready_reply hen
    have hplaced := hregistry.placed t q n (by rw [hphase]; rfl)
    rw [hregistry.registered_mono hplaced] at hr
    obtain ⟨rfl, rfl⟩ : q = p ∧ n = id := by simpa using hr
    obtain ⟨u, hu, hresponded⟩ := hok hnull
    rcases hanswered.answered u t q n hu hplaced hresponded with hc | hq
    · rw [hopen] at hc
      exact absurd hc (by simp)
    · exact hregistry.queue_ne_next hplaced hq

/-! ## A PUT request and the call it is handed to -/

structure Inv (s : Server) : Prop where
  locks : Locks s
  registry : Registry s
  meeting : Meeting s
  calls : s.CallsRegistered
  kept : s.Kept
  answered : Answered s
  replied : Replied s

theorem reachable_inv (hs : machine.Reachable s) : Inv s := by
  refine hs.invariant (I := Inv) ?_ ?_
  · exact ⟨.init, .init, .init, by simp [CallsRegistered, machine, Server.init],
      by simp [Kept, machine, Server.init, phase, TransferPhase.waits], .init, .init⟩
  · intro s l _ h hen _
    exact ⟨h.locks.next hen, h.registry.next h.locks hen,
      h.meeting.next h.registry h.locks hen, h.calls.next h.registry,
      h.kept.next h.registry hen, h.answered.next h.registry h.locks hen,
      h.replied.next hen⟩

theorem honest_nullFed (hs : machine.Reaches Honest s) : s.NullFed := by
  refine hs.invariant (I := NullFed) (by simp [NullFed, machine, Server.init]) ?_
  intro s l hs h hen hok
  have hinv := reachable_inv hs.reachable
  exact h.next hinv.registry hinv.replied hinv.answered hen hok

/-- What holds of the rendezvous whatever the internal clients, and whoever else
sends PUT requests, do. -/
structure Rendezvous (s : Server) : Prop where
  /-- A request is handed to one transfer. -/
  once : ∀ t x u, s.handed t = some u → s.handed x = some u → t = x
  /-- It is the one whose registration the request names, with its peer's token. -/
  right : ∀ t u, s.handed t = some u → ∃ p id,
    s.registered t = some (p, id) ∧ s.Aimed (s.puts u) p id
  /-- A transfer that returned has left the queue, and its id with it. -/
  returned : ∀ t result p id, s.phase t = .finished result →
    s.registered t = some (p, id) → s.queue p id ≠ some t ∧
      ((s.peers p).registrations ≤ 2 ^ 64 → s.queue p id = none)
  calls : s.CallsRegistered

/-- A transfer that was given Null has nothing to wait for: it can go on. -/
def NullSettles (s : Server) : Prop :=
  (∀ t p id, s.phase t = .waiting p id → s.enabled (.receive t)) ∧
    ∀ t value p id, (s.transfers t).reply = some value → value.isNull = true →
      s.registered t = some (p, id) → s.queue p id ≠ some t ∧
        ((s.phase t).waits = some (p, id) → s.handed t ≠ none ∨
          (s.peers p).cleared = true ∨ 2 ^ 64 < (s.peers p).registrations)

theorem Inv.rendezvous (h : Inv s) : Rendezvous s where
  once := h.meeting.single
  right t u ht := by
    obtain ⟨-, p, id, hr, htarget, -⟩ := h.meeting.delivered t u ht
    exact ⟨p, id, hr, h.meeting.aimed u p id htarget⟩
  returned t result p id hdone hr := by
    have hne := h.meeting.done t result p id hdone hr
    refine ⟨hne, fun hle => ?_⟩
    cases hq : s.queue p id with
    | none => rfl
    | some x =>
        obtain rfl := h.registry.unique x t p id (h.registry.entry p id x hq) hr hle
        exact absurd hq hne
  calls := h.calls

theorem Inv.nullSettles (h : Inv s) (hfed : s.NullFed) : s.NullSettles := by
  have hgone : ∀ t value p id, (s.transfers t).reply = some value → value.isNull = true →
      s.registered t = some (p, id) → s.queue p id ≠ some t := hfed
  refine ⟨?_, ?_⟩
  · intro t p id hphase
    obtain ⟨value, hreply, hnull⟩ := h.replied.nulled t p id hphase
    have hq := hgone t value p id hreply hnull
      (h.registry.placed t p id (by rw [hphase]; rfl))
    simp only [queue] at hq
    simp [enabled, ready, hphase, hq]
  · intro t value p id hreply hnull hr
    have hq := hgone t value p id hreply hnull hr
    refine ⟨hq, fun hw => ?_⟩
    rcases h.kept t p id hw with hkept | hrest
    · exact absurd hkept hq
    · exact hrest

theorem rendezvous_safe (hs : machine.Reachable s) :
    Rendezvous s ∧
      (∀ request key value, Session.Call.ofRequest request = .forward key value →
        key ≠ ofString "internal") ∧
      (machine.Reaches Honest s → s.NullSettles) :=
  ⟨(reachable_inv hs).rendezvous, fun _ _ _ h => Session.Call.ofRequest_ne_internal h,
    fun hhonest => (reachable_inv hs).nullSettles (honest_nullFed hhonest)⟩

/-- A transfer, the PUT request of its internal client and its reply. -/
def download : List ServerLabel :=
  [.signIn 0 [0x74], .request 0 [0x74] .null, .lookup 0, .register 0, .sent 0 true,
    .put 0 true (some [0x74]) (some [0x30]) (some 0), .putLookup 0, .feed 0]

theorem rendezvous_safe_download :
    Rendezvous (([.reply 0 .null, .resume 0, .receive 0] : List ServerLabel).foldl next
        (download.foldl next Server.init)) ∧
      NullSettles (([.reply 0 .null, .resume 0, .receive 0] : List ServerLabel).foldl next
        (download.foldl next Server.init)) := by
  have hstart : machine.Reaches Honest (download.foldl next Server.init) :=
    Machine.reaches_of_path (M := machine) ⟨⟨by decide, trivial⟩, ⟨by decide, trivial⟩,
      ⟨by decide, trivial⟩, ⟨by decide, trivial⟩, ⟨by decide, trivial⟩, ⟨by decide, trivial⟩,
      ⟨by decide, trivial⟩, ⟨by decide, trivial⟩, trivial⟩
  have hs := @Machine.Reaches.path _ _ _ _ _ hstart [.reply 0 .null, .resume 0, .receive 0]
    ⟨⟨by decide, fun _ => ⟨0, by decide, by decide⟩⟩, ⟨by decide, trivial⟩,
      ⟨by decide, trivial⟩, trivial⟩
  obtain ⟨hmeet, -, hsettle⟩ := rendezvous_safe hs.reachable
  exact ⟨hmeet, hsettle hs⟩

/-! ## When the ids go round -/

/-- A transfer up to its registration. -/
def ask (t : TransferId) : List ServerLabel :=
  [.request t [] .null, .lookup t, .register t]

theorem ask_effect {t : TransferId} {p : PeerId} (hidle : s.phase t = .idle)
    (htoken : s.tokens [] = some p) (hfree : s.peersHeld = none) :
    machine.Path (fun _ _ => True) s (ask t) ∧
      ((ask t).foldl next s).tokens = s.tokens ∧ ((ask t).foldl next s).peersHeld = none ∧
      ((ask t).foldl next s).phase t = .calling p (s.peers p).http.requestId .null ∧
      (((ask t).foldl next s).peers p).http = (s.peers p).http.register t ∧
      ∀ x, x ≠ t → ((ask t).foldl next s).transfers x = s.transfers x := by
  let s₁ := s.setPhase t (.lookup [] .null)
  let s₂ := s₁.setPhase t (.registering p .null)
  let s₃ := s₂.next (.register t)
  have h₁ : s₁.phase t = .lookup [] .null := by simp [s₁, setPhase_phase]
  have h₂ : s₂.phase t = .registering p .null := by simp [s₂, setPhase_phase]
  have h₃ : s₃.phase t = .calling p (s.peers p).http.requestId .null := by
    simp only [s₃, next, h₂, setTransfer_phase, if_pos]
    rfl
  have e₁ : s.next (.request t [] .null) = s₁ := rfl
  have e₂ : s₁.next (.lookup t) = s₂ := by
    have htok : s₁.tokens [] = some p := htoken
    simp only [next, h₁, htok]
    rfl
  have hfold : (ask t).foldl next s = s₃ := by
    simp only [ask, List.foldl_cons, List.foldl_nil, e₁, e₂, s₃]
  have hhttp : (s₃.peers p).http = (s.peers p).http.register t := by
    simp only [s₃, next, h₂, setTransfer_peers, setPeer_apply, if_pos]
    rfl
  have hother : ∀ x, x ≠ t → s₃.transfers x = s.transfers x := by
    intro x hx
    calc s₃.transfers x = s₂.transfers x := by
          simp only [s₃, next, h₂, setTransfer_apply, if_neg hx, setPeer_transfers]
      _ = s.transfers x := by
          simp only [s₂, s₁, setPhase_apply, if_neg hx]
  have htokens : s₃.tokens = s.tokens ∧ s₃.peersHeld = none := by
    simp only [s₃, next, h₂]
    exact ⟨rfl, hfree⟩
  refine ⟨⟨⟨?_, trivial⟩, ⟨?_, trivial⟩, ⟨?_, trivial⟩, trivial⟩, ?_⟩
  · simp [machine, enabled, ready, hidle]
  · have hheld : s₁.peersHeld = none := hfree
    simp [machine, enabled, ready, e₁, h₁, hheld]
  · simp [machine, enabled, ready, e₁, e₂, h₂]
  · rw [hfold]
    exact ⟨htokens.1, htokens.2, h₃, hhttp, hother⟩

/-- A call that cannot be sent: the registration is taken back. -/
def fail (t : TransferId) : List ServerLabel := [.sent t false, .cancel t]

theorem fail_effect {t : TransferId} {p : PeerId} {id : Nat}
    (hphase : s.phase t = .calling p id .null) :
    machine.Path (fun _ _ => True) s (fail t) ∧
      ((fail t).foldl next s).tokens = s.tokens ∧
      ((fail t).foldl next s).peersHeld = s.peersHeld ∧
      (((fail t).foldl next s).peers p).http = (s.peers p).http.remove id ∧
      ∀ x, x ≠ t → ((fail t).foldl next s).transfers x = s.transfers x := by
  let s₁ := s.setPhase t (.cancelling p id .lostInternalClientConnection)
  have h₁ : s₁.phase t = .cancelling p id .lostInternalClientConnection := by
    simp [s₁, setPhase_phase]
  have e₁ : s.next (.sent t false) = s₁ := by
    simp only [next, hphase]
    rfl
  have hfold : (fail t).foldl next s = s₁.next (.cancel t) := by
    simp only [fail, List.foldl_cons, List.foldl_nil, e₁]
  refine ⟨⟨⟨?_, trivial⟩, ⟨?_, trivial⟩, trivial⟩, ?_⟩
  · simp [machine, enabled, ready, hphase]
  · simp [machine, enabled, ready, e₁, h₁]
  · rw [hfold]
    simp only [next, h₁]
    refine ⟨rfl, rfl, ?_, ?_⟩
    · simp only [setPhase_peers, setHttp, setPeer_apply, if_pos]
      rfl
    · intro x hx
      simp only [setPhase_apply, if_neg hx, setHttp_transfers, s₁]

/-- Transfer 0 waits for its PUT request, and all later ones have failed so far. -/
structure Waiting (s : Server) (k : Nat) : Prop where
  reachable : machine.Reachable s
  token : s.tokens [] = some 0
  free : s.peersHeld = none
  count : (s.peers 0).http.requestId = k % 2 ^ 64
  phase : s.phase 0 = .waiting 0 0
  unhanded : s.handed 0 = none
  registered : s.registered 0 = some (0, 0)
  entry : s.queue 0 0 = some 0
  idle : ∀ t, k ≤ t → s.phase t = .idle

/-- Transfer 0 registers, calls and is given Null. -/
def waitRun : List ServerLabel :=
  [.signIn 0 [], .request 0 [] .null, .lookup 0, .register 0, .sent 0 true, .reply 0 .null,
    .resume 0]

theorem waiting_one : Waiting (waitRun.foldl next Server.init) 1 where
  reachable := Machine.reaches_of_path (M := machine) (by decide)
  token := rfl
  free := rfl
  count := rfl
  phase := rfl
  unhanded := rfl
  registered := rfl
  entry := rfl
  idle t ht := by
    have hne : ∀ l ∈ waitRun, transferOf l ≠ some t := by
      have ht0 : (0 : TransferId) ≠ t := Nat.ne_of_lt ht
      simp [waitRun, transferOf, ht0]
    rw [phase_foldl hne]
    rfl

theorem Waiting.succ {k : Nat} (h : Waiting s k) (hpos : 0 < k) (hlt : k < 2 ^ 64) :
    Waiting ((fail k).foldl next ((ask k).foldl next s)) (k + 1) := by
  obtain ⟨hask, htokens, hfree, hphase, hhttp, hother⟩ :=
    ask_effect (h.idle k (Nat.le_refl k)) h.token h.free
  obtain ⟨hfail, htokens', hfree', hhttp', hother'⟩ := fail_effect hphase
  have hid : (s.peers 0).http.requestId = k := by rw [h.count, Nat.mod_eq_of_lt hlt]
  rw [hhttp, hid] at hhttp'
  have hsame : ∀ x, x ≠ k →
      ((fail k).foldl next ((ask k).foldl next s)).transfers x = s.transfers x :=
    fun x hx => (hother' x hx).trans (hother x hx)
  have h0 := hsame 0 (Nat.ne_of_lt hpos)
  exact
    { reachable := (h.reachable.path hask).path hfail
      token := by rw [htokens', htokens, h.token]
      free := by rw [hfree', hfree]
      count := by
        rw [hhttp']
        simp only [ClientHttp.remove, ClientHttp.register]
        rw [hid]
      phase := by
        rw [Server.phase, h0]
        exact h.phase
      unhanded := by
        rw [handed, h0]
        exact h.unhanded
      registered := by
        rw [Server.registered, h0]
        exact h.registered
      entry := by
        rw [queue, hhttp']
        simp only [ClientHttp.remove, ClientHttp.register, hid,
          Function.update_of_ne (Nat.ne_of_lt hpos)]
        exact h.entry
      idle := by
        intro t ht
        rw [Server.phase, hsame t (Nat.ne_of_gt ht)]
        exact h.idle t (Nat.le_of_succ_le ht) }

theorem exists_waiting (k : Nat) (hk : k + 1 ≤ 2 ^ 64) : ∃ s, Waiting s (k + 1) := by
  induction k with
  | zero => exact ⟨_, waiting_one⟩
  | succ k ih =>
      obtain ⟨s, hs⟩ := ih (Nat.le_of_succ_le hk)
      exact ⟨_, hs.succ (Nat.succ_pos k) hk⟩

/-- After 2^64 - 1 more registrations the id of transfer 0 is given out again, and
transfer 0 returns with an error while its id is in the queue. -/
theorem returned_id_in_queue : ¬ ∀ s : Server, machine.Reachable s →
    ∀ t result p id, s.phase t = .finished result → s.registered t = some (p, id) →
      s.queue p id = none := by
  intro h
  obtain ⟨s, hs⟩ := exists_waiting (2 ^ 64 - 1) (Nat.le_refl _)
  generalize hk : 2 ^ 64 - 1 + 1 = k at hs
  have hpos : 0 < k := by omega
  have hzero : (s.peers 0).http.requestId = 0 := by
    rw [hs.count]
    omega
  obtain ⟨hask, -, -, -, hhttp, hother⟩ :=
    ask_effect (hs.idle k (Nat.le_refl k)) hs.token hs.free
  have h0 := hother 0 (Nat.ne_of_lt hpos)
  have hentry : ((ask k).foldl next s).queue 0 0 = some k := by
    rw [queue, hhttp]
    simp [ClientHttp.register, hzero]
  have hphase : ((ask k).foldl next s).phase 0 = .waiting 0 0 := by
    rw [Server.phase, h0]
    exact hs.phase
  have hhanded : (((ask k).foldl next s).transfers 0).handed = none := by
    rw [h0]
    exact hs.unhanded
  have hregistered : ((ask k).foldl next s).registered 0 = some (0, 0) := by
    rw [Server.registered, h0]
    exact hs.registered
  have hreceive : machine.enabled ((ask k).foldl next s) (.receive 0) := by
    have hne : ((ask k).foldl next s).queue 0 0 ≠ some 0 := by
      rw [hentry]
      exact fun he => Nat.ne_of_gt hpos (Option.some.inj he)
    simp only [queue] at hne
    simp [machine, enabled, ready, hphase, hne]
  have hnone := h _ ((hs.reachable.path hask).step hreceive trivial) 0
    (.error .unknown) 0 0
    (by simp [machine, WebSshTool.Rpc.Server.next, hhanded, setPhase_phase])
    (by simpa [machine, WebSshTool.Rpc.Server.next, hhanded] using hregistered)
  have hsome : (((ask k).foldl next s).next (.receive 0)).queue 0 0 = some k := by
    simpa [WebSshTool.Rpc.Server.next, hhanded, queue] using hentry
  rw [show (((ask k).foldl next s).next (.receive 0)).queue 0 0 = none from hnone] at hsome
  exact absurd hsome (by simp)

end Server

end WebSshTool.Rpc
