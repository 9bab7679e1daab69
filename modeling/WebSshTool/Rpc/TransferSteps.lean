import WebSshTool.Rpc.Transfers

/-!
# What one step of a transfer can do

A step moves at most one transfer, one peer and one PUT request, and what it
makes of each is said once. Each part of the state that the rendezvous depends
on then has one lemma that says which labels change it, and how: the phase of a
transfer, its registration, its reply and what it was handed; the entries of a
queue, the numbers and the calls of a peer and its status; and the PUT requests.
-/

namespace WebSshTool.Rpc

open Json Session

namespace Server

variable {s : Server} {l : ServerLabel}

/-! ## The parts of the state -/

def queue (s : Server) (p : PeerId) (id : Nat) : Option TransferId :=
  (s.peers p).http.queue id

def registered (s : Server) (t : TransferId) : Option (PeerId × Nat) :=
  (s.transfers t).registered

def handed (s : Server) (t : TransferId) : Option PutId := (s.transfers t).handed

@[simp] theorem setPeer_transfers (p : PeerId) (peer : Peer) :
    (s.setPeer p peer).transfers = s.transfers := rfl

@[simp] theorem setHttp_transfers (p : PeerId) (http : ClientHttp) :
    (s.setHttp p http).transfers = s.transfers := rfl

@[simp] theorem setPut_transfers (u : PutId) (put : Put) :
    (s.setPut u put).transfers = s.transfers := rfl

@[simp] theorem setTransfer_peers (t : TransferId) (transfer : Transfer) :
    (s.setTransfer t transfer).peers = s.peers := rfl

@[simp] theorem setPhase_peers (t : TransferId) (phase : TransferPhase) :
    (s.setPhase t phase).peers = s.peers := rfl

theorem setTransfer_apply (t x : TransferId) (transfer : Transfer) :
    (s.setTransfer t transfer).transfers x = if x = t then transfer else s.transfers x :=
  Function.update_apply ..

theorem setPhase_apply (t x : TransferId) (phase : TransferPhase) :
    (s.setPhase t phase).transfers x =
      if x = t then { s.transfers t with phase } else s.transfers x :=
  Function.update_apply ..

theorem setPeer_apply (p x : PeerId) (peer : Peer) :
    (s.setPeer p peer).peers x = if x = p then peer else s.peers x :=
  Function.update_apply ..

@[simp] theorem setPhase_registered (t x : TransferId) (phase : TransferPhase) :
    (s.setPhase t phase).registered x = s.registered x := by
  simp only [registered, setPhase_apply]
  split
  · next h => rw [h]
  · rfl

theorem remove_queue (p x : PeerId) (id n : Nat) :
    (s.setHttp p ((s.peers p).http.remove id)).queue x n =
      if x = p ∧ n = id then none else s.queue x n := by
  simp only [queue, setHttp, setPeer_apply]
  by_cases hx : x = p
  · subst hx
    simp [ClientHttp.remove, Function.update_apply]
  · simp [hx]

/-! ## What a step makes of a transfer -/

/-- How a transfer gets to a phase. -/
inductive Moved (s : Server) (t : TransferId) : ServerLabel → TransferPhase → Prop
  | requested (token : Text) (apiCall : Value) :
      Moved s t (.request t token apiCall) (.lookup token apiCall)
  | found {token : Text} {apiCall : Value} {p : PeerId}
      (hphase : s.phase t = .lookup token apiCall) (htoken : s.tokens token = some p) :
      Moved s t (.lookup t) (.registering p apiCall)
  | notFound : Moved s t (.lookup t) .notFound
  | registers {p : PeerId} {apiCall : Value} (hphase : s.phase t = .registering p apiCall) :
      Moved s t (.register t) (.calling p (s.peers p).http.requestId apiCall)
  | sends {p : PeerId} {id : Nat} {apiCall : Value}
      (hphase : s.phase t = .calling p id apiCall) : Moved s t (.sent t true) (.awaiting p id)
  | fails {p : PeerId} {id : Nat} {apiCall : Value}
      (hphase : s.phase t = .calling p id apiCall) :
      Moved s t (.sent t false) (.cancelling p id .lostInternalClientConnection)
  | accepts {p : PeerId} {id : Nat} {value : Value} (hphase : s.phase t = .awaiting p id)
      (hreply : (s.transfers t).reply = some value) (hnull : value.isNull = true) :
      Moved s t (.resume t) (.waiting p id)
  | rejects {p : PeerId} {id : Nat} (hphase : s.phase t = .awaiting p id) :
      Moved s t (.resume t) (.cancelling p id .internalClientRejectConnection)
  | loses {p : PeerId} {id : Nat} (hphase : s.phase t = .awaiting p id) :
      Moved s t (.canceled t) (.cancelling p id .internalClientRejectConnection)
  | takesBack {p : PeerId} {id : Nat} {error : ConnectionError}
      (hphase : s.phase t = .cancelling p id error) :
      Moved s t (.cancel t) (.finished (.error error))
  | receives (result : Except ConnectionError PutId) :
      Moved s t (.receive t) (.finished result)
  | drops (buffered : Bool) : Moved s t (.drop t buffered) .dropped

/-- The transfer a label is about. -/
def transferOf : ServerLabel → Option TransferId
  | .request t _ _ | .lookup t | .register t | .sent t _ | .reply t _ | .resume t
  | .canceled t | .cancel t | .receive t | .drop t _ => some t
  | _ => none

theorem Moved.transferOf {t : TransferId} {ph : TransferPhase} (h : Moved s t l ph) :
    transferOf l = some t := by
  cases h <;> rfl

theorem setTransfer_phase (t x : TransferId) (transfer : Transfer) :
    (s.setTransfer t transfer).phase x = if x = t then transfer.phase else s.phase x := by
  simp only [phase, setTransfer_apply]
  split <;> rfl

theorem setPhase_phase (t x : TransferId) (ph : TransferPhase) :
    (s.setPhase t ph).phase x = if x = t then ph else s.phase x :=
  setTransfer_phase ..

/-- What a step makes of a transfer. -/
inductive Advanced (s : Server) (t : TransferId) : ServerLabel → Transfer → Prop
  | moves {l : ServerLabel} {ph : TransferPhase} (h : Moved s t l ph) :
      Advanced s t l { s.transfers t with phase := ph }
  | registers {p : PeerId} {apiCall : Value} (hphase : s.phase t = .registering p apiCall) :
      Advanced s t (.register t)
        { s.transfers t with
          phase := .calling p (s.peers p).http.requestId apiCall
          registered := some (p, (s.peers p).http.requestId) }
  | sends {p : PeerId} {id : Nat} {apiCall : Value} (hphase : s.phase t = .calling p id apiCall) :
      Advanced s t (.sent t true)
        { s.transfers t with phase := .awaiting p id, called := true }
  | drops : Advanced s t (.drop t true)
      { s.transfers t with phase := .dropped, called := true }
  | replied (value : Value) :
      Advanced s t (.reply t value) { s.transfers t with reply := some value }
  | fed {u : PutId} {p : PeerId} {id : Nat} (hphase : (s.puts u).phase = .feeding p id)
      (hentry : s.queue p id = some t) :
      Advanced s t (.feed u)
        { s.transfers t with
          handed := if (s.phase t).isOver then (s.transfers t).handed else some u }

/-- A step that sets one transfer advances that one. -/
theorem Advanced.of_transfers {s' : Server} {x t : TransferId} {transfer : Transfer}
    (h : Advanced s x l transfer)
    (htransfers : s'.transfers = Function.update s.transfers x transfer) :
    s'.transfers t = s.transfers t ∨ Advanced s t l (s'.transfers t) := by
  rw [htransfers, Function.update_apply]
  split
  · next hx =>
      subst hx
      exact .inr h
  · exact .inl rfl

theorem transfers_next (t : TransferId) :
    (s.next l).transfers t = s.transfers t ∨ Advanced s t l ((s.next l).transfers t) := by
  cases l with
  | request x token apiCall =>
      exact Advanced.of_transfers (.moves (.requested token apiCall)) rfl
  | lookup x =>
      simp only [next]
      split
      · next token apiCall hphase =>
          split
          · next p htoken => exact Advanced.of_transfers (.moves (.found hphase htoken)) rfl
          · exact Advanced.of_transfers (.moves .notFound) rfl
      · exact .inl rfl
  | register x =>
      simp only [next]
      split
      · next p apiCall hphase => exact Advanced.of_transfers (.registers hphase) rfl
      · exact .inl rfl
  | sent x ok =>
      simp only [next]
      split
      · next p id apiCall hphase =>
          cases ok with
          | true => exact Advanced.of_transfers (.sends hphase) rfl
          | false => exact Advanced.of_transfers (.moves (.fails hphase)) rfl
      · exact .inl rfl
  | reply x value => exact Advanced.of_transfers (.replied value) rfl
  | resume x =>
      simp only [next]
      split
      · next p id value hphase hreply =>
          split
          · next hnull =>
              exact Advanced.of_transfers (.moves (.accepts hphase hreply hnull)) rfl
          · exact Advanced.of_transfers (.moves (.rejects hphase)) rfl
      · exact .inl rfl
  | canceled x =>
      simp only [next]
      split
      · next p id hphase => exact Advanced.of_transfers (.moves (.loses hphase)) rfl
      · exact .inl rfl
  | cancel x =>
      simp only [next]
      split
      · next p id error hphase => exact Advanced.of_transfers (.moves (.takesBack hphase)) rfl
      · exact .inl rfl
  | receive x =>
      simp only [next]
      split <;> exact Advanced.of_transfers (.moves (.receives _)) rfl
  | drop x buffered =>
      simp only [next]
      split
      · split
        · exact Advanced.of_transfers (.moves (.drops _)) rfl
        · exact Advanced.of_transfers .drops rfl
      · exact Advanced.of_transfers (.moves (.drops _)) rfl
  | feed u =>
      simp only [next, feed]
      split
      · next p id hphase =>
          split
          · next x hentry => exact Advanced.of_transfers (.fed hphase hentry) rfl
          · exact .inl rfl
      · exact .inl rfl
  | browser p request =>
      simp only [next]
      split <;> exact .inl rfl
  | signIn | leave | close | clear | left | put | putLookup => exact .inl rfl

theorem phase_next (t : TransferId) :
    (s.next l).phase t = s.phase t ∨ Moved s t l ((s.next l).phase t) := by
  simp only [phase]
  rcases transfers_next (s := s) (l := l) t with hsame | h
  · exact .inl (congrArg Transfer.phase hsame)
  · generalize (s.next l).transfers t = transfer at h
    cases h with
    | moves h => exact .inr h
    | registers hphase => exact .inr (.registers hphase)
    | sends hphase => exact .inr (.sends hphase)
    | drops => exact .inr (.drops true)
    | replied | fed => exact .inl rfl

/-- A transfer moves by its own steps only. -/
theorem phase_foldl {t : TransferId} {ls : List ServerLabel}
    (h : ∀ l ∈ ls, transferOf l ≠ some t) : (ls.foldl next s).phase t = s.phase t := by
  induction ls generalizing s with
  | nil => rfl
  | cons l ls ih =>
      rw [List.foldl_cons, ih fun l' hl' => h l' (List.mem_cons_of_mem _ hl')]
      rcases phase_next (s := s) (l := l) t with hsame | hmoved
      · exact hsame
      · exact absurd hmoved.transferOf (h l List.mem_cons_self)

/-- A transfer has the registration it made, for good. -/
theorem registered_next (t : TransferId) :
    (s.next l).registered t = s.registered t ∨ ∃ p apiCall, l = .register t ∧
      s.phase t = .registering p apiCall ∧
        (s.next l).registered t = some (p, (s.peers p).http.requestId) := by
  simp only [registered]
  rcases transfers_next (s := s) (l := l) t with hsame | h
  · exact .inl (congrArg Transfer.registered hsame)
  · generalize (s.next l).transfers t = transfer at h
    cases h with
    | registers hphase => exact .inr ⟨_, _, rfl, hphase, rfl⟩
    | moves | sends | drops | replied | fed => exact .inl rfl

/-- A registration is fed by the handler of a PUT request that names it. -/
theorem handed_next (t : TransferId) :
    (s.next l).handed t = s.handed t ∨ ∃ u p id, l = .feed u ∧
      (s.puts u).phase = .feeding p id ∧ s.queue p id = some t ∧
        (s.next l).handed t = some u := by
  simp only [handed]
  rcases transfers_next (s := s) (l := l) t with hsame | h
  · exact .inl (congrArg Transfer.handed hsame)
  · generalize (s.next l).transfers t = transfer at h
    cases h with
    | fed hphase hentry =>
        by_cases hover : (s.phase t).isOver = true
        · exact .inl (if_pos hover)
        · exact .inr ⟨_, _, _, rfl, hphase, hentry, if_neg hover⟩
    | moves | registers | sends | drops | replied => exact .inl rfl

theorem reply_next (t : TransferId) :
    ((s.next l).transfers t).reply = (s.transfers t).reply ∨ ∃ value,
      l = .reply t value ∧ ((s.next l).transfers t).reply = some value := by
  rcases transfers_next (s := s) (l := l) t with hsame | h
  · exact .inl (congrArg Transfer.reply hsame)
  · generalize (s.next l).transfers t = transfer at h
    cases h with
    | replied value => exact .inr ⟨value, rfl, rfl⟩
    | moves | registers | sends | drops | fed => exact .inl rfl

/-! ## What a step makes of a peer -/

/-- What a step makes of a peer. -/
inductive Treated (s : Server) (p : PeerId) : ServerLabel → Peer → Prop
  | signsIn (token : Text) :
      Treated s p (.signIn p token) ⟨token, .live, .new, 0, false, false, []⟩
  | leaves : Treated s p (.leave p) { s.peers p with phase := .disconnecting }
  | closes : Treated s p (.close p) { s.peers p with closed := true }
  | clears : Treated s p (.clear p)
      { s.peers p with cleared := true, http := (s.peers p).http.disconnect }
  | goes : Treated s p (.left p) { s.peers p with phase := .gone }
  | forwards {request : Option Value} {key : Text} {argument : Value}
      (hcall : Session.Call.ofRequest request = .forward key argument) :
      Treated s p (.browser p request)
        { s.peers p with written := (s.peers p).written ++ [(key, argument)] }
  | sends {t : TransferId} {id : Nat} {apiCall : Value}
      (hphase : s.phase t = .calling p id apiCall) :
      Treated s p (.sent t true)
        { s.peers p with written := (s.peers p).written ++ [internalCall id apiCall] }
  | flushes {t : TransferId} {id : Nat} {apiCall : Value}
      (hphase : s.phase t = .calling p id apiCall) :
      Treated s p (.drop t true)
        { s.peers p with written := (s.peers p).written ++ [internalCall id apiCall] }
  | registers {t : TransferId} {apiCall : Value} (hphase : s.phase t = .registering p apiCall) :
      Treated s p (.register t)
        { s.peers p with
          http := (s.peers p).http.register t
          registrations := (s.peers p).registrations + 1 }
  | takesBack {t : TransferId} {id : Nat} {error : ConnectionError}
      (hphase : s.phase t = .cancelling p id error) :
      Treated s p (.cancel t) { s.peers p with http := (s.peers p).http.remove id }
  | feeds {u : PutId} {id : Nat} (hphase : (s.puts u).phase = .feeding p id) :
      Treated s p (.feed u) { s.peers p with http := (s.peers p).http.remove id }

/-- A step that sets one peer treats that one. -/
theorem Treated.of_peers {s' : Server} {x p : PeerId} {peer : Peer} (h : Treated s x l peer)
    (hpeers : s'.peers = Function.update s.peers x peer) :
    s'.peers p = s.peers p ∨ Treated s p l (s'.peers p) := by
  rw [hpeers, Function.update_apply]
  split
  · next hx =>
      subst hx
      exact .inr h
  · exact .inl rfl

theorem peers_next (p : PeerId) :
    (s.next l).peers p = s.peers p ∨ Treated s p l ((s.next l).peers p) := by
  cases l with
  | signIn x token => exact Treated.of_peers (.signsIn token) rfl
  | leave x => exact Treated.of_peers .leaves rfl
  | close x => exact Treated.of_peers .closes rfl
  | clear x => exact Treated.of_peers .clears rfl
  | left x => exact Treated.of_peers .goes rfl
  | browser x request =>
      simp only [next]
      split
      · next key argument hcall => exact Treated.of_peers (.forwards hcall) rfl
      · exact .inl rfl
  | register x =>
      simp only [next]
      split
      · next q apiCall hphase => exact Treated.of_peers (.registers hphase) rfl
      · exact .inl rfl
  | sent x ok =>
      simp only [next]
      split
      · next q id apiCall hphase =>
          cases ok with
          | true => exact Treated.of_peers (.sends hphase) rfl
          | false => exact .inl rfl
      · exact .inl rfl
  | drop x buffered =>
      simp only [next]
      split
      · next q id apiCall hphase =>
          split
          · exact .inl rfl
          · exact Treated.of_peers (.flushes hphase) rfl
      · exact .inl rfl
  | cancel x =>
      simp only [next]
      split
      · next q id error hphase => exact Treated.of_peers (.takesBack hphase) rfl
      · exact .inl rfl
  | feed u =>
      simp only [next, feed]
      split
      · next q id hphase =>
          split
          · exact Treated.of_peers (.feeds hphase) rfl
          · exact .inl rfl
      · exact .inl rfl
  | lookup x | resume x | canceled x | receive x | putLookup x =>
      simp only [next]
      repeat' split
      all_goals exact .inl rfl
  | request | reply | put => exact .inl rfl

/-- An entry of a queue is the registration its transfer just made. -/
theorem queue_next {p : PeerId} {id : Nat} {t : TransferId}
    (h : (s.next l).queue p id = some t) :
    s.queue p id = some t ∨ ∃ apiCall, l = .register t ∧
      s.phase t = .registering p apiCall ∧ id = (s.peers p).http.requestId := by
  simp only [queue] at h
  rcases peers_next (s := s) (l := l) p with hsame | htreated
  · rw [hsame] at h
    exact .inl h
  · generalize (s.next l).peers p = peer at h htreated
    cases htreated with
    | signsIn | clears => exact absurd h (by simp [ClientHttp.new, ClientHttp.disconnect])
    | registers hphase =>
        simp only [ClientHttp.register, Function.update_apply] at h
        split at h
        · next hid =>
            obtain rfl := Option.some.inj h
            exact .inr ⟨_, rfl, hphase, hid⟩
        · exact .inl h
    | takesBack hphase | feeds hphase =>
        simp only [ClientHttp.remove, Function.update_apply] at h
        split at h
        · exact absurd h (by simp)
        · exact .inl h
    | leaves | closes | goes | forwards | sends | flushes => exact .inl h

/-- How the entry of a transfer leaves its queue. -/
theorem queue_kept {p : PeerId} {id : Nat} {t : TransferId} (h : s.queue p id = some t) :
    (s.next l).queue p id = some t ∨ (∃ token, l = .signIn p token) ∨ l = .clear p ∨
      (∃ x error, l = .cancel x ∧ s.phase x = .cancelling p id error) ∨
      (∃ u, l = .feed u ∧ (s.puts u).phase = .feeding p id) ∨
      ∃ x apiCall, l = .register x ∧ s.phase x = .registering p apiCall ∧
        (s.peers p).http.requestId = id := by
  have hremove (n : Nat) (hne : n ≠ id) : ((s.peers p).http.remove n).queue id = some t := by
    simp only [ClientHttp.remove, Function.update_of_ne hne.symm]
    exact h
  simp only [queue]
  rcases peers_next (s := s) (l := l) p with hsame | htreated
  · exact .inl (hsame ▸ h)
  · generalize (s.next l).peers p = peer at htreated
    cases htreated with
    | signsIn token => exact .inr (.inl ⟨token, rfl⟩)
    | clears => exact .inr (.inr (.inl rfl))
    | @takesBack x n error hphase =>
        rcases eq_or_ne n id with rfl | hne
        · exact .inr (.inr (.inr (.inl ⟨x, error, rfl, hphase⟩)))
        · exact .inl (hremove n hne)
    | @feeds u n hphase =>
        rcases eq_or_ne n id with rfl | hne
        · exact .inr (.inr (.inr (.inr (.inl ⟨u, rfl, hphase⟩))))
        · exact .inl (hremove n hne)
    | @registers x apiCall hphase =>
        rcases eq_or_ne (s.peers p).http.requestId id with hid | hne
        · exact .inr (.inr (.inr (.inr (.inr ⟨x, apiCall, rfl, hphase, hid⟩))))
        · refine .inl ?_
          simp only [ClientHttp.register, Function.update_of_ne hne.symm]
          exact h
    | leaves | closes | goes | forwards | sends | flushes => exact .inl h

theorem feed_queue {u : PutId} {p : PeerId} {id : Nat}
    (h : (s.puts u).phase = .feeding p id) : (s.next (.feed u)).queue p id = none := by
  simp only [next, h, feed]
  split
  · have hq := remove_queue (s := s) p p id id
    rw [if_pos ⟨rfl, rfl⟩] at hq
    exact hq
  · next hnone => exact hnone

theorem cancel_queue {t : TransferId} {p : PeerId} {id : Nat} {error : ConnectionError}
    (h : s.phase t = .cancelling p id error) : (s.next (.cancel t)).queue p id = none := by
  simp only [next, h]
  have hq := remove_queue (s := s) p p id id
  rw [if_pos ⟨rfl, rfl⟩] at hq
  exact hq

/-- What a peer shows of itself apart from its queue and its calls. -/
def status (s : Server) (p : PeerId) : Text × PeerPhase × Bool × Bool :=
  ((s.peers p).token, (s.peers p).phase, (s.peers p).closed, (s.peers p).cleared)

/-- The peer whose phase a step changes. -/
def peerOf : ServerLabel → Option PeerId
  | .signIn p _ | .leave p | .close p | .clear p | .left p => some p
  | _ => none

/-- Other steps leave every peer's status and the tokens alone. -/
theorem status_next (p : PeerId) (h : peerOf l ≠ some p) :
    (s.next l).status p = s.status p := by
  simp only [status]
  rcases peers_next (s := s) (l := l) p with hsame | htreated
  · rw [hsame]
  · generalize (s.next l).peers p = peer at htreated
    cases htreated with
    | signsIn | leaves | closes | clears | goes => exact absurd rfl h
    | forwards | sends | flushes | registers | takesBack | feeds => rfl

theorem tokens_next (h : peerOf l = none) :
    (s.next l).tokens = s.tokens ∧ (s.next l).peersHeld = s.peersHeld := by
  cases l with
  | signIn | leave | close | clear | left => simp [peerOf] at h
  | sent x ok =>
      simp only [next]
      split
      · cases ok <;> exact ⟨rfl, rfl⟩
      · exact ⟨rfl, rfl⟩
  | feed u =>
      simp only [next, feed]
      repeat' split
      all_goals exact ⟨rfl, rfl⟩
  | browser | register | cancel | drop | lookup | resume | canceled | receive | putLookup =>
      simp only [next]
      repeat' split
      all_goals exact ⟨rfl, rfl⟩
  | request | reply | put => exact ⟨rfl, rfl⟩

/-- The numbers of a `ClientHttp` change where a transfer registers, and start
anew with the peer. -/
theorem count_next (p : PeerId) :
    ((s.next l).peers p).registrations = (s.peers p).registrations ∧
        ((s.next l).peers p).http.requestId = (s.peers p).http.requestId ∨
      (∃ t apiCall, l = .register t ∧ s.phase t = .registering p apiCall ∧
        ((s.next l).peers p).registrations = (s.peers p).registrations + 1 ∧
        ((s.next l).peers p).http.requestId = ((s.peers p).http.requestId + 1) % 2 ^ 64) ∨
      ∃ token, l = .signIn p token ∧ ((s.next l).peers p).registrations = 0 ∧
        ((s.next l).peers p).http.requestId = 0 := by
  rcases peers_next (s := s) (l := l) p with hsame | htreated
  · exact .inl (by rw [hsame]; exact ⟨rfl, rfl⟩)
  · generalize (s.next l).peers p = peer at htreated
    cases htreated with
    | signsIn token => exact .inr (.inr ⟨token, rfl, rfl, rfl⟩)
    | registers hphase => exact .inr (.inl ⟨_, _, rfl, hphase, rfl, rfl⟩)
    | leaves | closes | clears | goes | forwards | sends | flushes | takesBack | feeds =>
        exact .inl ⟨rfl, rfl⟩

/-- A call that goes out is a forwarded request or the call of a transfer. -/
theorem written_next {p : PeerId} {call : Text × Value}
    (h : call ∈ ((s.next l).peers p).written) :
    call ∈ (s.peers p).written ∨
      (∃ request, Session.Call.ofRequest request = .forward call.1 call.2) ∨
      ∃ t id apiCall, s.phase t = .calling p id apiCall ∧ call = internalCall id apiCall := by
  rcases peers_next (s := s) (l := l) p with hsame | htreated
  · exact .inl (hsame ▸ h)
  · generalize (s.next l).peers p = peer at h htreated
    cases htreated with
    | signsIn token => exact absurd h (by simp)
    | forwards hcall =>
        rcases List.mem_append.mp h with hold | hnew
        · exact .inl hold
        · obtain rfl := List.mem_singleton.mp hnew
          exact .inr (.inl ⟨_, hcall⟩)
    | sends hphase | flushes hphase =>
        rcases List.mem_append.mp h with hold | hnew
        · exact .inl hold
        · exact .inr (.inr ⟨_, _, _, hphase, List.mem_singleton.mp hnew⟩)
    | leaves | closes | clears | goes | registers | takesBack | feeds => exact .inl h

/-! ## What a step makes of a PUT request -/

theorem setPut_apply (u x : PutId) (put : Put) :
    (s.setPut u put).puts x = if x = u then put else s.puts x :=
  Function.update_apply ..

/-- A PUT request arrives, looks up its peer and is fed, in this order. -/
theorem put_next (hen : s.enabled l) (u : PutId) :
    (s.next l).puts u = s.puts u ∨
      (∃ loopback peer id source, l = .put u loopback peer id source ∧
        (s.puts u).phase = .idle ∧ (∀ t ∈ source, s.names loopback peer id t = true) ∧
        (s.next l).puts u =
          ⟨if loopback && peer.isSome && id.isSome then .lookup else .responded,
            loopback, peer, id, source, none⟩) ∨
      (l = .putLookup u ∧ (s.puts u).phase = .lookup ∧ s.peersHeld = none ∧
        (s.next l).puts u = s.lookUp (s.puts u)) ∨
      ∃ p id, l = .feed u ∧ (s.puts u).phase = .feeding p id ∧
        (s.next l).puts u = { s.puts u with phase := .responded } := by
  cases l with
  | put x loopback peer id source =>
      simp only [next, setPut_apply]
      split
      · next hx =>
          subst hx
          exact .inr (.inl ⟨loopback, peer, id, source, rfl, hen.1, hen.2, rfl⟩)
      · exact .inl rfl
  | putLookup x =>
      simp only [next, setPut_apply]
      split
      · next hx =>
          subst hx
          exact .inr (.inr (.inl ⟨rfl, hen.1, hen.2, rfl⟩))
      · exact .inl rfl
  | feed x =>
      simp only [next]
      split
      · next p id hphase =>
          have hputs : (s.feed x p id).puts = s.puts := by
            unfold feed
            split <;> rfl
          simp only [setPut_apply, hputs]
          split
          · next hx =>
              subst hx
              exact .inr (.inr (.inr ⟨p, id, rfl, hphase, rfl⟩))
          · exact .inl rfl
      · exact .inl rfl
  | sent x ok =>
      simp only [next]
      split
      · cases ok <;> exact .inl rfl
      · exact .inl rfl
  | register x | drop x buffered | lookup x | resume x | canceled x | receive x | cancel x =>
      simp only [next]
      repeat' split
      all_goals exact .inl rfl
  | browser p request =>
      simp only [next]
      split <;> exact .inl rfl
  | signIn | leave | close | clear | left | request | reply => exact .inl rfl

/-! ## The entry of a transfer -/

theorem register_queue {t : TransferId} {p : PeerId} {apiCall : Value}
    (h : s.phase t = .registering p apiCall) :
    (s.next (.register t)).queue p (s.peers p).http.requestId = some t := by
  simp only [next, h, queue, setTransfer_peers, setPeer_apply, if_pos, ClientHttp.register,
    Function.update_self]

theorem feed_handed {u : PutId} {p : PeerId} {id : Nat} {t : TransferId}
    (hphase : (s.puts u).phase = .feeding p id) (hentry : s.queue p id = some t)
    (hlive : (s.phase t).isOver = false) : (s.next (.feed u)).handed t = some u := by
  have hq : (s.peers p).http.queue id = some t := hentry
  simp only [next, hphase, feed, hq, handed, setPut_transfers, setTransfer_apply, if_pos]
  simp [hlive]

end Server

end WebSshTool.Rpc
