import WebSshTool.Lib.Unwinding
import WebSshTool.Rpc.Rendezvous

/-!
# A session is alone on the server

The sessions share the three maps of the server and the lock of one of them. What
keeps them apart is the token: a peer signs in under one, a transfer asks with
one, and a PUT request carries one in its header. A label that names another
token leaves the session of this one as it is, and a label that names it does
to the session what it would do on a server with nobody else on it. So a
session's part of a run is a run, and nothing of what others ask for, answer or
cut off can be told from it.

The token a peer, a transfer or a PUT request goes by is read off the run: it is
the one in the label that started it, of which there is one at most.
-/

namespace WebSshTool.Rpc

open Json Session

/-- The token that each party of a run goes by. -/
structure Parties where
  peer : PeerId → Text
  transfer : TransferId → Text
  put : PutId → Option Text

namespace Parties

def signedIn (p : PeerId) : ServerLabel → Option Text
  | .signIn q token => if q = p then some token else none
  | _ => none

def asked (t : TransferId) : ServerLabel → Option Text
  | .request x token _ => if x = t then some token else none
  | _ => none

def header (u : PutId) : ServerLabel → Option (Option Text)
  | .put x _ peer _ _ => if x = u then some peer else none
  | _ => none

/-- The parties of a run. -/
def of (ls : List ServerLabel) : Parties where
  peer p := (ls.findSome? (signedIn p)).getD []
  transfer t := (ls.findSome? (asked t)).getD []
  put u := (ls.findSome? (header u)).join

/-- The token a step is about. -/
def token (ν : Parties) : ServerLabel → Option Text
  | .signIn p _ | .leave p | .close p | .clear p | .left p | .browser p _ => some (ν.peer p)
  | .request t _ _ | .lookup t | .register t | .sent t _ | .reply t _ | .resume t
  | .canceled t | .cancel t | .receive t | .drop t _ => some (ν.transfer t)
  | .put u _ _ _ _ | .putLookup u | .feed u => ν.put u

/-- The step is about the session of this token. -/
def concerns (ν : Parties) (k : Text) (l : ServerLabel) : Bool := ν.token l == some k

/-- The label that starts a party gives it its token. -/
def Fits (ν : Parties) : ServerLabel → Prop
  | .signIn p token => ν.peer p = token
  | .request t token _ => ν.transfer t = token
  | .put u _ peer _ _ => ν.put u = peer
  | _ => True

end Parties

namespace Server

variable {s : Server} {l : ServerLabel} {ν : Parties} {k : Text}

/-! ## A run fits its own parties -/

theorem phase_ne_idle {t : TransferId} (h : ¬ (s.phase t).isIdle = true) (hen : s.enabled l) :
    ¬ ((s.next l).phase t).isIdle = true := by
  rcases phase_next (s := s) (l := l) t with hsame | hmoved
  · rwa [hsame]
  · generalize (s.next l).phase t = ph at hmoved
    cases hmoved <;> simp [TransferPhase.isIdle]

theorem put_ne_idle {u : PutId} (h : (s.puts u).phase ≠ .idle) (hen : s.enabled l) :
    ((s.next l).puts u).phase ≠ .idle := by
  rcases put_next hen u with hsame | ⟨_, _, _, _, -, hidle, -⟩ | ⟨-, -, -, hnew⟩ |
    ⟨_, _, -, -, hnew⟩
  · rwa [hsame]
  · exact absurd hidle h
  · rw [hnew]
    rcases lookUp_cases (s := s) (s.puts u) with ⟨_, _, _, -, -, -, heq⟩ | ⟨-, heq⟩ <;>
      simp [heq]
  · simp [hnew]

theorem fits_of {ls : List ServerLabel} (h : machine.Path (fun _ _ => True) init ls) :
    ∀ l ∈ ls, (Parties.of ls).Fits l := by
  have hpeer := fun p => Machine.findSome?_of_path (M := machine) (f := Parties.signedIn p)
    (fun s l hen (hs : (s.peers p).phase ≠ .absent) => (peer_stable hen hs).1)
    (fun s l a hen ha => by
      cases l with
      | signIn q token =>
          obtain ⟨rfl, rfl⟩ : q = p ∧ token = a := by simpa [Parties.signedIn] using ha
          exact ⟨not_not_intro hen.1, by simp [machine, next]⟩
      | _ => simp [Parties.signedIn] at ha) h
  have htransfer := fun t => Machine.findSome?_of_path (M := machine) (f := Parties.asked t)
    (fun s l hen (hs : ¬ (s.phase t).isIdle = true) => phase_ne_idle hs hen)
    (fun s l a hen ha => by
      cases l with
      | request x token apiCall =>
          obtain ⟨rfl, rfl⟩ : x = t ∧ token = a := by simpa [Parties.asked] using ha
          refine ⟨not_not_intro ?_, by simp [machine, next, setPhase_phase, TransferPhase.isIdle]⟩
          have hready : s.ready x (.request x token apiCall) = true := hen
          cases hphase : s.phase x <;> simp [ready, hphase] at hready ⊢
          rfl
      | _ => simp [Parties.asked] at ha) h
  have hput := fun u => Machine.findSome?_of_path (M := machine) (f := Parties.header u)
    (fun s l hen (hs : (s.puts u).phase ≠ .idle) => put_ne_idle hs hen)
    (fun s l a hen ha => by
      cases l with
      | put x loopback peer id source =>
          obtain ⟨rfl, rfl⟩ : x = u ∧ peer = a := by simpa [Parties.header] using ha
          refine ⟨not_not_intro hen.1, ?_⟩
          simp only [machine, next, setPut_apply, if_pos]
          split <;> simp
      | _ => simp [Parties.header] at ha) h
  intro l hl
  cases l with
  | signIn p token =>
      simp [Parties.Fits, Parties.of, hpeer p _ hl token (by simp [Parties.signedIn])]
  | request t token apiCall =>
      simp [Parties.Fits, Parties.of, htransfer t _ hl token (by simp [Parties.asked])]
  | put u loopback peer id source =>
      simp [Parties.Fits, Parties.of, hput u _ hl peer (by simp [Parties.header])]
  | _ => trivial

/-! ## What refers to what goes by one token -/

structure Sorted (ν : Parties) (s : Server) : Prop where
  peer : ∀ p, (s.peers p).phase ≠ .absent → (s.peers p).token = ν.peer p
  asked : ∀ t token apiCall, s.phase t = .lookup token apiCall → token = ν.transfer t
  going : ∀ t p apiCall, s.phase t = .registering p apiCall → ν.peer p = ν.transfer t
  registrant : ∀ t p id, s.registered t = some (p, id) → ν.peer p = ν.transfer t
  put : ∀ u, (s.puts u).phase ≠ .idle → (s.puts u).peer = ν.put u

theorem Sorted.init : Sorted ν Server.init where
  peer := by simp [Server.init]
  asked := by simp [Server.init, phase]
  going := by simp [Server.init, phase]
  registrant := by simp [Server.init, registered]
  put := by simp [Server.init]

theorem Sorted.next (h : Sorted ν s) (hlocks : Locks s) (hen : s.enabled l) (hfits : ν.Fits l) :
    Sorted ν (s.next l) where
  peer p hp := by
    by_cases habsent : (s.peers p).phase = .absent
    · by_cases hpeer : peerOf l = some p
      · cases l with
        | signIn q token =>
            obtain rfl : q = p := Option.some.inj hpeer
            simpa [Server.next] using hfits.symm
        | leave q | close q | clear q | left q =>
            obtain rfl : q = p := Option.some.inj hpeer
            exact absurd habsent (by simp [hen.1])
        | _ => simp [peerOf] at hpeer
      · exact absurd ((status_eq hpeer).2.1.trans habsent) hp
    · exact (peer_stable hen habsent).2.1.trans (h.peer p habsent)
  asked t token apiCall hphase := by
    rcases phase_next (s := s) (l := l) t with hsame | hmoved
    · exact h.asked t token apiCall (hsame.symm.trans hphase)
    · rw [hphase] at hmoved
      cases hmoved with
      | requested => exact hfits.symm
  going t p apiCall hphase := by
    rcases phase_next (s := s) (l := l) t with hsame | hmoved
    · exact h.going t p apiCall (hsame.symm.trans hphase)
    · rw [hphase] at hmoved
      cases hmoved with
      | found hlookup htoken =>
          obtain ⟨hname, hlive⟩ := hlocks.listed _ _ htoken
          rw [← h.peer p (by simp [hlive]), hname, h.asked t _ _ hlookup]
  registrant t p id hr := by
    rcases registered_cases hr with hold | ⟨apiCall, -, hphase, -⟩
    · exact h.registrant t p id hold
    · exact h.going t p apiCall hphase
  put u hu := by
    rcases put_next hen u with hsame | ⟨_, _, _, _, rfl, -, -, hnew⟩ | ⟨-, hlook, -, hnew⟩ |
      ⟨_, _, -, hfeed, hnew⟩
    · rw [hsame] at hu ⊢
      exact h.put u hu
    · rw [hnew]
      exact hfits.symm
    · rw [hnew]
      have hpeer := h.put u (by simp [hlook])
      rcases lookUp_cases (s := s) (s.puts u) with ⟨_, _, _, -, -, -, heq⟩ | ⟨-, heq⟩ <;>
        simpa [heq] using hpeer
    · rw [hnew]
      exact h.put u (by simp [hfeed])

/-! ## The part of the state that belongs to one token -/

/-- What there would be of the server if there were nothing but this token. -/
def only (ν : Parties) (k : Text) (s : Server) : Server where
  tokens token := if token = k then s.tokens token else none
  peersHeld := s.peersHeld.filter fun p => ν.peer p == k
  peers p := if ν.peer p = k then s.peers p else init.peers p
  transfers t := if ν.transfer t = k then s.transfers t else init.transfers t
  puts u := if ν.put u = some k then s.puts u else init.puts u

theorem only_init : init.only ν k = init := by
  simp only [only, init, ite_self, Option.filter_none]

theorem only_peers {p : PeerId} (h : ν.peer p = k) : (s.only ν k).peers p = s.peers p := if_pos h

theorem only_transfers {t : TransferId} (h : ν.transfer t = k) :
    (s.only ν k).transfers t = s.transfers t := if_pos h

theorem only_puts {u : PutId} (h : ν.put u = some k) : (s.only ν k).puts u = s.puts u := if_pos h

theorem only_phase {t : TransferId} (h : ν.transfer t = k) :
    (s.only ν k).phase t = s.phase t := congrArg Transfer.phase (only_transfers h)

theorem only_tokens : (s.only ν k).tokens k = s.tokens k := if_pos rfl

theorem only_free (h : s.peersHeld = none) : (s.only ν k).peersHeld = none := by
  simp [only, h]

theorem ite_update {α β : Type*} [DecidableEq α] (f g : α → β) (P : α → Prop) [DecidablePred P]
    (a : α) (b : β) :
    (fun x => if P x then Function.update f a b x else g x) =
      if P a then Function.update (fun x => if P x then f x else g x) a b
      else fun x => if P x then f x else g x := by
  funext x
  rcases eq_or_ne x a with rfl | hne
  · by_cases h : P x <;> simp [h]
  · by_cases h : P a <;> simp [h, hne]

theorem only_setPeer (p : PeerId) (peer : Peer) :
    (s.setPeer p peer).only ν k =
      if ν.peer p = k then (s.only ν k).setPeer p peer else s.only ν k := by
  simp only [only, setPeer, ite_update s.peers]
  split <;> rfl

theorem only_setTransfer (t : TransferId) (transfer : Transfer) :
    (s.setTransfer t transfer).only ν k =
      if ν.transfer t = k then (s.only ν k).setTransfer t transfer else s.only ν k := by
  simp only [only, setTransfer, ite_update s.transfers]
  split <;> rfl

theorem only_setPut (u : PutId) (put : Put) :
    (s.setPut u put).only ν k =
      if ν.put u = some k then (s.only ν k).setPut u put else s.only ν k := by
  simp only [only, setPut, ite_update s.puts]
  split <;> rfl

theorem only_setPhase (t : TransferId) (ph : TransferPhase) :
    (s.setPhase t ph).only ν k =
      if ν.transfer t = k then (s.only ν k).setPhase t ph else s.only ν k := by
  rw [setPhase, only_setTransfer]
  split
  · next h => rw [setPhase, only_transfers h]
  · rfl

theorem only_setHttp (p : PeerId) (http : ClientHttp) :
    (s.setHttp p http).only ν k =
      if ν.peer p = k then (s.only ν k).setHttp p http else s.only ν k := by
  rw [setHttp, only_setPeer]
  split
  · next h => rw [setHttp, only_peers h]
  · rfl

theorem only_write (p : PeerId) (call : Text × Value) :
    (s.write p call).only ν k =
      if ν.peer p = k then (s.only ν k).write p call else s.only ν k := by
  rw [write, only_setPeer]
  split
  · next h => rw [write, only_peers h]
  · rfl

/-! ## Whose steps are whose -/

theorem Sorted.placed (h : Sorted ν s) (hregistry : Registry s) {t : TransferId} {p : PeerId}
    {id : Nat} (hplace : (s.phase t).place = some (p, id)) : ν.peer p = ν.transfer t :=
  h.registrant t p id (hregistry.placed t p id hplace)

theorem Sorted.entry (h : Sorted ν s) (hregistry : Registry s) {t : TransferId} {p : PeerId}
    {id : Nat} (hentry : (s.peers p).http.queue id = some t) : ν.peer p = ν.transfer t :=
  h.registrant t p id (hregistry.entry p id t hentry)

theorem Sorted.fed (h : Sorted ν s) (hmeeting : Meeting s) {u : PutId} {p : PeerId} {id : Nat}
    (hphase : (s.puts u).phase = .feeding p id) : ν.put u = some (ν.peer p) := by
  obtain ⟨-, hpeer, -, hlive⟩ := hmeeting.aimed u p id (hmeeting.feeding u p id hphase)
  rw [← h.put u (by simp [hphase]), hpeer, h.peer p hlive]

/-- A step that names another token does nothing to this one. -/
theorem only_next_other (h : Sorted ν s) (hinv : Inv s) (hen : s.enabled l) (hfits : ν.Fits l)
    (hother : ν.token l ≠ some k) : (s.next l).only ν k = s.only ν k := by
  cases l with
  | signIn p token =>
      obtain rfl : ν.peer p = token := hfits
      have hp : ν.peer p ≠ k := fun hk => hother (congrArg some hk)
      simp only [next, only, ite_update s.peers, ite_update s.tokens, if_neg hp]
  | leave p =>
      have hp : ν.peer p ≠ k := fun hk => hother (congrArg some hk)
      have htoken : (s.peers p).token = ν.peer p := h.peer p (by simp [hen.1])
      simp only [next, setPeer, only, htoken, ite_update s.peers, ite_update s.tokens, if_neg hp,
        hen.2.2, Option.filter_some, Option.filter_none, beq_eq_false_iff_ne.mpr hp,
        Bool.false_eq_true, if_false]
  | left p =>
      have hp : ν.peer p ≠ k := fun hk => hother (congrArg some hk)
      simp only [next, setPeer, only, ite_update s.peers, if_neg hp, hinv.locks.held p hen.1,
        Option.filter_some, Option.filter_none, beq_eq_false_iff_ne.mpr hp, Bool.false_eq_true,
        if_false]
  | close p | clear p =>
      have hp : ν.peer p ≠ k := fun hk => hother (congrArg some hk)
      simp only [next, only_setPeer, if_neg hp]
  | browser p request =>
      have hp : ν.peer p ≠ k := fun hk => hother (congrArg some hk)
      simp only [next]
      split
      · rw [only_write, if_neg hp]
      · rfl
  | register t =>
      have ht : ν.transfer t ≠ k := fun hk => hother (congrArg some hk)
      simp only [next]
      split
      · next p apiCall hphase =>
          rw [only_setTransfer, if_neg ht, only_setPeer, h.going t p apiCall hphase, if_neg ht]
      · rfl
  | sent t ok =>
      have ht : ν.transfer t ≠ k := fun hk => hother (congrArg some hk)
      simp only [next]
      split
      · next p id apiCall hphase =>
          have hp : ν.peer p = ν.transfer t := h.placed hinv.registry (by rw [hphase]; rfl)
          cases ok with
          | true => simp only [cond_true, only_setTransfer, only_write, hp, if_neg ht]
          | false => simp only [cond_false, only_setPhase, if_neg ht]
      · rfl
  | cancel t =>
      have ht : ν.transfer t ≠ k := fun hk => hother (congrArg some hk)
      simp only [next]
      split
      · next p id error hphase =>
          have hp : ν.peer p = ν.transfer t := h.placed hinv.registry (by rw [hphase]; rfl)
          simp only [only_setPhase, only_setHttp, hp, if_neg ht]
      · rfl
  | drop t buffered =>
      have ht : ν.transfer t ≠ k := fun hk => hother (congrArg some hk)
      simp only [next]
      split
      · next p id apiCall hphase =>
          have hp : ν.peer p = ν.transfer t := h.placed hinv.registry (by rw [hphase]; rfl)
          split
          · rw [only_setPhase, if_neg ht]
          · simp only [only_setTransfer, only_write, hp, if_neg ht]
      · rw [only_setPhase, if_neg ht]
  | request t token apiCall | reply t value =>
      have ht : ν.transfer t ≠ k := fun hk => hother (congrArg some hk)
      simp only [next, only_setPhase, only_setTransfer, if_neg ht]
  | lookup t | resume t | canceled t | receive t =>
      have ht : ν.transfer t ≠ k := fun hk => hother (congrArg some hk)
      simp only [next]
      repeat' split
      all_goals first | rfl | rw [only_setPhase, if_neg ht]
  | put u loopback peer id source => exact (only_setPut u _).trans (if_neg hother)
  | putLookup u => exact (only_setPut u _).trans (if_neg hother)
  | feed u =>
      have hu : ν.put u ≠ some k := hother
      simp only [next]
      split
      · next p id hphase =>
          have hp : ν.peer p ≠ k := fun hk =>
            hu ((h.fed hinv.meeting hphase).trans (congrArg some hk))
          rw [only_setPut, if_neg hu, feed]
          split
          · next t hentry =>
              simp only [only_setTransfer, only_setHttp, ← h.entry hinv.registry hentry, if_neg hp]
          · rfl
      · rfl

/-- The handler of a transfer finds nothing else where it looks. -/
theorem only_ready (h : Sorted ν s) (hregistry : Registry s) {t : TransferId}
    (ht : ν.transfer t = k) (hready : s.ready t l = true) : (s.only ν k).ready t l = true := by
  have hpeer {p : PeerId} {id : Nat} (hplace : (s.phase t).place = some (p, id)) :
      (s.only ν k).peers p = s.peers p :=
    only_peers ((h.placed hregistry hplace).trans ht)
  cases hphase : s.phase t with
  | idle => cases l <;> simp_all [ready, only_phase ht]
  | lookup token apiCall =>
      cases l with
      | lookup x =>
          have hfree : s.peersHeld = none := by simpa [ready, hphase] using hready
          simp [ready, only_phase ht, hphase, only_free hfree]
      | _ => simp_all [ready, only_phase ht]
  | registering p apiCall => cases l <;> simp_all [ready, only_phase ht]
  | calling p id apiCall =>
      have hp := hpeer (by rw [hphase]; rfl)
      cases l <;> simp_all [ready, only_phase ht]
  | awaiting p id =>
      have hp := hpeer (by rw [hphase]; rfl)
      cases l <;> simp_all [ready, only_phase ht, only_transfers ht]
  | cancelling p id error => cases l <;> simp_all [ready, only_phase ht]
  | waiting p id =>
      have hp := hpeer (by rw [hphase]; rfl)
      cases l <;> simp_all [ready, only_phase ht, only_transfers ht]
  | finished | notFound | dropped => cases l <;> simp_all [ready, only_phase ht]

/-- A PUT request is sent for a transfer of its own token. -/
theorem only_names (h : Sorted ν s) (hregistry : Registry s) {loopback : Bool}
    {peer id : Option Text} {t : TransferId} (hpeer : peer = some k)
    (hnames : s.names loopback peer id t = true) :
    (s.only ν k).names loopback peer id t = true := by
  unfold names at hnames
  split at hnames
  · next p n hr =>
      simp only [Bool.and_eq_true, beq_iff_eq] at hnames
      have hp : ν.peer p = k := by
        rw [← h.peer p (hregistry.registrant t p n hr)]
        exact Option.some.inj (hnames.1.2.symm.trans hpeer)
      have ht : ν.transfer t = k := (h.registrant t p n hr).symm.trans hp
      simp only [names, only_transfers ht, only_peers hp, hr, Bool.and_eq_true, beq_iff_eq]
      exact hnames
  · exact absurd hnames (by simp)

/-- A step that names this token can be taken without the others. -/
theorem only_enabled (h : Sorted ν s) (hinv : Inv s) (hen : s.enabled l) (hfits : ν.Fits l)
    (hown : ν.token l = some k) : (s.only ν k).enabled l := by
  cases l with
  | signIn p token =>
      obtain rfl : ν.peer p = token := hfits
      have hp : ν.peer p = k := Option.some.inj hown
      simp only [enabled, only_peers hp, hp, only_tokens, only_free hen.2.2]
      exact ⟨hen.1, hp ▸ hen.2.1, trivial⟩
  | leave p =>
      have hp : ν.peer p = k := Option.some.inj hown
      have htoken : (s.peers p).token = k := (h.peer p (by simp [hen.1])).trans hp
      simp only [enabled, only_peers hp, htoken, only_tokens, only_free hen.2.2]
      exact ⟨hen.1, htoken ▸ hen.2.1, trivial⟩
  | close p | clear p | left p | browser p request =>
      have hp : ν.peer p = k := Option.some.inj hown
      simp only [enabled, only_peers hp]
      exact hen
  | request t token apiCall | lookup t | register t | sent t ok | reply t value | resume t
  | canceled t | cancel t | receive t | drop t buffered =>
      exact only_ready h hinv.registry (Option.some.inj hown) hen
  | put u loopback peer id source =>
      have hu : ν.put u = some k := hown
      simp only [enabled, only_puts hu]
      exact ⟨hen.1, fun t ht =>
        only_names h hinv.registry (hfits.symm.trans hu) (hen.2 t ht)⟩
  | putLookup u =>
      simp only [enabled, only_puts (ν := ν) (k := k) hown]
      exact ⟨hen.1, only_free hen.2⟩
  | feed u =>
      simp only [enabled, only_puts (ν := ν) (k := k) hown]
      exact hen

/-- And it does the same. -/
theorem only_next_own (h : Sorted ν s) (hinv : Inv s) (hen : s.enabled l) (hfits : ν.Fits l)
    (hown : ν.token l = some k) : (s.only ν k).next l = (s.next l).only ν k := by
  cases l with
  | signIn p token =>
      obtain rfl : ν.peer p = token := hfits
      have hp : ν.peer p = k := Option.some.inj hown
      simp only [next, only, ite_update s.peers, ite_update s.tokens, if_pos hp]
  | leave p =>
      have hp : ν.peer p = k := Option.some.inj hown
      have htoken : (s.peers p).token = ν.peer p := h.peer p (by simp [hen.1])
      simp only [next, only_peers hp, htoken]
      simp only [only, setPeer, ite_update s.peers, ite_update s.tokens, if_pos hp,
        Option.filter_some, beq_iff_eq]
  | left p =>
      have hp : ν.peer p = k := Option.some.inj hown
      simp only [next, only_peers hp]
      simp only [only, setPeer, ite_update s.peers, if_pos hp, Option.filter_none]
  | close p | clear p =>
      have hp : ν.peer p = k := Option.some.inj hown
      simp only [next, only_setPeer, if_pos hp, only_peers hp]
  | browser p request =>
      have hp : ν.peer p = k := Option.some.inj hown
      simp only [next]
      split
      · rw [only_write, if_pos hp]
      · rfl
  | request t token apiCall | reply t value =>
      have ht : ν.transfer t = k := Option.some.inj hown
      simp only [next, only_setPhase, only_setTransfer, if_pos ht, only_transfers ht]
  | lookup t =>
      have ht : ν.transfer t = k := Option.some.inj hown
      simp only [next, only_phase ht]
      split
      · next token apiCall hphase =>
          obtain rfl : token = k := (h.asked t token apiCall hphase).trans ht
          rw [only_tokens]
          split <;> rw [only_setPhase, if_pos ht]
      · rfl
  | register t =>
      have ht : ν.transfer t = k := Option.some.inj hown
      simp only [next, only_phase ht]
      split
      · next p apiCall hphase =>
          have hp : ν.peer p = k := (h.going t p apiCall hphase).trans ht
          rw [only_setTransfer, if_pos ht, only_setPeer, if_pos hp, only_peers hp,
            only_transfers ht]
      · rfl
  | sent t ok =>
      have ht : ν.transfer t = k := Option.some.inj hown
      simp only [next, only_phase ht]
      split
      · next p id apiCall hphase =>
          have hp : ν.peer p = k := (h.placed hinv.registry (by rw [hphase]; rfl)).trans ht
          cases ok with
          | true =>
              simp only [cond_true, only_setTransfer, only_write, if_pos ht, if_pos hp,
                only_transfers ht]
          | false => simp only [cond_false, only_setPhase, if_pos ht]
      · rfl
  | resume t =>
      have ht : ν.transfer t = k := Option.some.inj hown
      simp only [next, only_phase ht, only_transfers ht]
      split
      · split <;> rw [only_setPhase, if_pos ht]
      · rfl
  | canceled t =>
      have ht : ν.transfer t = k := Option.some.inj hown
      simp only [next, only_phase ht]
      split
      · rw [only_setPhase, if_pos ht]
      · rfl
  | cancel t =>
      have ht : ν.transfer t = k := Option.some.inj hown
      simp only [next, only_phase ht]
      split
      · next p id error hphase =>
          have hp : ν.peer p = k := (h.placed hinv.registry (by rw [hphase]; rfl)).trans ht
          simp only [only_setPhase, only_setHttp, if_pos ht, if_pos hp, only_peers hp]
      · rfl
  | receive t =>
      have ht : ν.transfer t = k := Option.some.inj hown
      simp only [next, only_transfers ht]
      split <;> rw [only_setPhase, if_pos ht]
  | drop t buffered =>
      have ht : ν.transfer t = k := Option.some.inj hown
      simp only [next, only_phase ht]
      split
      · next p id apiCall hphase =>
          have hp : ν.peer p = k := (h.placed hinv.registry (by rw [hphase]; rfl)).trans ht
          rw [only_peers hp]
          split
          · rw [only_setPhase, if_pos ht]
          · simp only [only_setTransfer, only_write, if_pos ht, if_pos hp, only_transfers ht]
      · rw [only_setPhase, if_pos ht]
  | put u loopback peer id source => exact ((only_setPut u _).trans (if_pos hown)).symm
  | putLookup u =>
      have hu : ν.put u = some k := hown
      have hlook : (s.only ν k).lookUp (s.puts u) = s.lookUp (s.puts u) := by
        simp only [lookUp, (h.put u (by simp [hen.1])).trans hu, Option.bind_some, only_tokens]
      simp only [next, only_setPut, if_pos hu, only_puts hu, hlook]
  | feed u =>
      have hu : ν.put u = some k := hown
      simp only [next, only_puts hu]
      split
      · next p id hphase =>
          have hp : ν.peer p = k :=
            Option.some.inj ((h.fed hinv.meeting hphase).symm.trans hu)
          rw [only_setPut, if_pos hu, feed, feed, only_peers hp]
          split
          · next t hentry =>
              have ht : ν.transfer t = k := (h.entry hinv.registry hentry).symm.trans hp
              simp only [only_setTransfer, only_setHttp, if_pos ht, if_pos hp, only_transfers ht,
                only_phase ht]
          · rfl
      · rfl

/-- For every run and every token: the steps that name the token are a run by
themselves, and what it leaves is exactly what the whole run leaves of the token's
session, with its transfers and the PUT requests for it. -/
theorem session_alone (ls : List ServerLabel) (h : machine.Path (fun _ _ => True) init ls)
    (k : Text) :
    machine.Path (fun _ _ => True) init (ls.filter ((Parties.of ls).concerns k)) ∧
      (ls.filter ((Parties.of ls).concerns k)).foldl next init =
        (ls.foldl next init).only (Parties.of ls) k := by
  have hrun : machine.Path (fun _ l => (Parties.of ls).Fits l) init ls :=
    h.mono fun _ l hl _ => fits_of h l hl
  have hview := Machine.path_filter (M := machine)
    (J := fun s => machine.Reachable s ∧ Sorted (Parties.of ls) s)
    (only (Parties.of ls) k) ((Parties.of ls).concerns k)
    (fun s l hs hen hfits => ⟨hs.1.step hen trivial,
      hs.2.next (reachable_inv hs.1).locks hen hfits⟩)
    (fun s l hs hen hfits hkeep => only_next_other hs.2 (reachable_inv hs.1) hen hfits
      fun hk => by simp [Parties.concerns, hk] at hkeep)
    (fun s l hs hen hfits hkeep =>
      have hk := beq_iff_eq.mp hkeep
      ⟨only_enabled hs.2 (reachable_inv hs.1) hen hfits hk,
        only_next_own hs.2 (reachable_inv hs.1) hen hfits hk⟩)
    init ⟨.init, .init⟩ hrun
  rwa [only_init] at hview

/-- Two sessions: the second asks for a transfer with a token that nobody has, and leaves
while the first one's transfer is under way. -/
def twoSessions : List ServerLabel :=
  [.signIn 0 [0x74], .signIn 1 [0x75], .request 0 [0x74] .null, .request 1 [0x76] .null,
    .lookup 0, .browser 1 none, .register 0, .lookup 1, .sent 0 true, .leave 1, .close 1,
    .clear 1, .left 1, .put 0 true (some [0x74]) (some [0x30]) (some 0), .putLookup 0, .feed 0]

theorem session_alone_twoSessions :
    machine.Path (fun _ _ => True) init
        (twoSessions.filter ((Parties.of twoSessions).concerns [0x74])) ∧
      (twoSessions.filter ((Parties.of twoSessions).concerns [0x74])).foldl next init =
        (twoSessions.foldl next init).only (Parties.of twoSessions) [0x74] :=
  session_alone twoSessions (by decide +kernel) [0x74]

end Server

end WebSshTool.Rpc
