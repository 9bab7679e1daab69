import WebSshTool.Connection.Service
import Mathlib.Data.List.Chain

/-!
# One connection at a time

There is never more than one websocket that is not closed, and never more than one
delay under way; together they are always one while the page is mounted. The
handlers of a websocket could not tell that an event is for an older one, and they
need not: a websocket is opened by the close event of the one before it, which is its
last event, so every other is closed for good and only `_ws` has events left.

What the websockets leave behind is kept apart from the state of the last of them.
A step that only moves the last one leaves that history alone.
-/

namespace WebSshTool.Connection

/-! ## The websockets one after the other -/

namespace State

/-- What a websocket leaves behind. -/
abbrev Trace := Cause × Option Nat

/-- The next websocket waits for two seconds if this one was a retry and never opened. -/
def Follows (x y : Trace) : Prop :=
  y.1 = if x.1 ≠ .mount ∧ x.2 = none then .delayed else .atOnce

structure History (xs : List Trace) (nextId : Nat) : Prop where
  follows : xs.IsChain Follows
  ids : xs.Pairwise fun x y => ∀ a ∈ x.2, ∀ b ∈ y.2, a < b
  lt : ∀ x ∈ xs, ∀ a ∈ x.2, a < nextId

theorem History.singleton (cause : Cause) : History [(cause, none)] 0 :=
  ⟨.singleton _, List.pairwise_singleton _ _, by simp⟩

theorem History.concat {xs : List Trace} {x y : Trace} {n : Nat} (h : History (xs ++ [x]) n)
    (hfollows : Follows x y) (hy : y.2 = none) : History (xs ++ [x] ++ [y]) n where
  follows := by
    refine List.isChain_append.mpr ⟨h.follows, .singleton _, ?_⟩
    simpa using hfollows
  ids := by
    refine List.pairwise_append.mpr ⟨h.ids, List.pairwise_singleton _ _, fun a _ b hb => ?_⟩
    obtain rfl := List.mem_singleton.mp hb
    simp [hy]
  lt z hz := by
    rcases List.mem_append.mp hz with hz | hz
    · exact h.lt z hz
    · obtain rfl := List.mem_singleton.mp hz
      simp [hy]

theorem History.opened {xs : List Trace} {cause : Cause} {server : Option Nat} {n : Nat}
    (h : History (xs ++ [(cause, server)]) n) : History (xs ++ [(cause, some n)]) (n + 1) where
  follows := by
    obtain ⟨hxs, -, hlast⟩ := List.isChain_append.mp h.follows
    exact List.isChain_append.mpr ⟨hxs, .singleton _, by simpa [Follows] using hlast⟩
  ids := by
    refine List.pairwise_append.mpr ⟨(List.pairwise_append.mp h.ids).1,
      List.pairwise_singleton _ _, fun x hx y hy a ha b hb => ?_⟩
    obtain rfl := List.mem_singleton.mp hy
    obtain rfl := Option.mem_some.mp hb
    exact h.lt x (List.mem_append_left _ hx) a ha
  lt z hz a ha := by
    rcases List.mem_append.mp hz with hz | hz
    · exact Nat.lt_succ_of_lt (h.lt z (List.mem_append_left _ hz) a ha)
    · obtain rfl := List.mem_singleton.mp hz
      obtain rfl := Option.mem_some.mp ha
      exact Nat.lt_succ_self n

end State

def Socket.trace (x : Socket) : State.Trace := (x.cause, x.server)

theorem Socket.safeClose_trace (x : Socket) : x.safeClose.trace = x.trace := by
  unfold safeClose
  split <;> rfl

theorem Socket.safeClose_closed {x : Socket} (h : x.readyState = .closed) : x.safeClose = x := by
  simp [safeClose, h]

theorem Socket.safeClose_readyState (x : Socket) :
    x.safeClose.readyState = if x.readyState = .closed then .closed else .closing := by
  unfold safeClose
  cases h : x.readyState <;> simp [h]

theorem modify_concat {α : Type*} (f : α → α) (xs : List α) (x : α) :
    (xs ++ [x]).modify xs.length f = xs ++ [f x] :=
  List.modifyTailIdx_add (List.modifyHead f) 0 xs [x]

theorem modify_of_fixed {α : Type*} {f : α → α} {xs : List α} {i : Nat}
    (h : ∀ x, xs[i]? = some x → f x = x) : xs.modify i f = xs := by
  refine List.ext_getElem? fun j => ?_
  rw [List.getElem?_modify]
  split
  · next hij =>
      subst hij
      cases hx : xs[i]? with
      | none => rfl
      | some x => exact congrArg some (h x hx)
  · simp

namespace State

variable {s : State} {earlier : List Socket} {last : Socket}

/-- The page is or was mounted, and `last` is its `_ws`. -/
structure Started (s : State) (earlier : List Socket) (last : Socket) : Prop where
  started : s.started = true
  sockets : s.sockets = earlier ++ [last]
  ws : s.ws = some earlier.length
  closed : ∀ x ∈ earlier, x.readyState = .closed
  history : History (s.sockets.map Socket.trace) s.nextId
  mayBeLost : s.connectionMayBeLost = true ↔ last.cause ≠ .mount ∧ last.server = none

/-- The same between two tasks. -/
structure Alive (s : State) (earlier : List Socket) (last : Socket) : Prop
    extends Started s earlier last where
  delay : s.delays = 0 ∨
    s.delays = 1 ∧ last.readyState = .closed ∧ s.connectionMayBeLost = true
  mounted : s.mounted = true → last.readyState = .closed → s.delays = 1
  unmounted : s.mounted = false → last.readyState = .closing ∨ last.readyState = .closed
  server : s.mounted = true → ∀ a, s.server = some a →
    a.ws = earlier.length ∧ last.server = some a.id ∧
      (last.readyState = .opened ∨ last.readyState = .closing)

/-- A websocket that is not closed is the last one. -/
theorem Started.last_of_live (h : Started s earlier last) {i : Nat} {r : ReadyState}
    (hr : s.readyState i = some r) (hlive : r ≠ .closed) :
    i = earlier.length ∧ last.readyState = r := by
  obtain ⟨x, hx, rfl⟩ := Option.map_eq_some_iff.mp hr
  rw [h.sockets] at hx
  rcases Nat.lt_or_ge i earlier.length with hlt | hge
  · rw [List.getElem?_append_left hlt] at hx
    exact absurd (h.closed x (List.mem_of_getElem? hx)) hlive
  · rw [List.getElem?_append_right hge, List.getElem?_singleton] at hx
    split at hx
    · exact ⟨by omega, by rw [Option.some.inj hx]⟩
    · exact absurd hx (by simp)

/-- `wsSafeClose` of any websocket is of consequence for the last one alone. -/
theorem Alive.safeClose (h : Alive s earlier last) (ws : Option Nat) :
    s.safeClose ws = s ∨
      ws = some earlier.length ∧
        s.safeClose ws = { s with sockets := earlier ++ [last.safeClose] } := by
  cases ws with
  | none => exact .inl rfl
  | some i =>
      simp only [State.safeClose]
      rcases eq_or_ne i earlier.length with rfl | hne
      · exact .inr ⟨rfl, by rw [h.sockets, modify_concat]⟩
      · rw [modify_of_fixed]
        · exact .inl rfl
        · intro x hx
          by_contra hlive
          have hr : s.readyState i = some x.readyState := by rw [readyState, hx]; rfl
          exact hne (h.last_of_live hr fun hc => hlive (Socket.safeClose_closed hc)).1

/-- `wsSafeClose` of the last websocket. -/
theorem Alive.closing (h : Alive s earlier last) :
    Alive { s with sockets := earlier ++ [last.safeClose] } earlier last.safeClose where
  started := h.started
  sockets := rfl
  ws := h.ws
  closed := h.closed
  history := by
    have hhistory := h.history
    simpa only [h.sockets, List.map_append, List.map_cons, List.map_nil,
      Socket.safeClose_trace] using hhistory
  mayBeLost := by
    have htrace := Socket.safeClose_trace last
    simp only [Socket.trace, Prod.mk.injEq] at htrace
    rw [htrace.1, htrace.2]
    exact h.mayBeLost
  delay := h.delay.imp_right fun ⟨hone, hclosed, hlost⟩ =>
    ⟨hone, by rw [Socket.safeClose_closed hclosed, hclosed], hlost⟩
  mounted hmounted hclosed := h.mounted hmounted (by
    rw [Socket.safeClose_readyState] at hclosed
    split at hclosed
    · assumption
    · exact absurd hclosed (by simp))
  unmounted _ := by
    rw [Socket.safeClose_readyState]
    split <;> simp
  server hmounted a ha := by
    obtain ⟨hws, hid, hstate⟩ := h.server hmounted a ha
    have htrace := Socket.safeClose_trace last
    simp only [Socket.trace, Prod.mk.injEq] at htrace
    refine ⟨hws, htrace.2.trans hid, .inr ?_⟩
    rw [Socket.safeClose_readyState, if_neg]
    rcases hstate with hstate | hstate <;> simp [hstate]

/-- The connection that comes after a closed one. -/
theorem Started.connect (h : Started s earlier last) (hclosed : last.readyState = .closed)
    (hmounted : s.mounted = true) (cause : Cause)
    (hcause : cause = if s.connectionMayBeLost then .delayed else .atOnce) :
    Alive ({ s with connectionMayBeLost := true, delays := 0, server := none }.connect cause)
      (earlier ++ [last]) ⟨.connecting, cause, none⟩ where
  started := h.started
  sockets := by simp [State.connect, h.sockets]
  ws := by simp [State.connect, h.sockets]
  closed x hx := by
    rcases List.mem_append.mp hx with hx | hx
    · exact h.closed x hx
    · rw [List.mem_singleton.mp hx, hclosed]
  history := by
    have hhistory := h.history
    simp only [State.connect, h.sockets, List.map_append, List.map_cons, List.map_nil]
      at hhistory ⊢
    refine hhistory.concat ?_ rfl
    simp only [Follows, Socket.trace, ← h.mayBeLost, hcause]
  mayBeLost := by
    simp only [State.connect, hcause]
    split <;> simp
  delay := .inl rfl
  mounted _ hc := absurd hc (by simp)
  unmounted hm := absurd (hmounted.symm.trans hm) (by simp)
  server _ a ha := absurd ha (by simp [State.connect])

theorem Alive.willUnmount (h : Alive s earlier last) :
    Alive (s.next .willUnmount) earlier last.safeClose := by
  have hnext : s.next .willUnmount =
      { s with mounted := false, sockets := earlier ++ [last.safeClose] } := by
    simp only [State.next, h.ws, State.safeClose, h.sockets, modify_concat]
  have hclosing := h.closing
  rw [hnext]
  exact { hclosing with
    mounted := fun hm => absurd hm (by simp)
    unmounted := fun _ => by
      rw [Socket.safeClose_readyState]
      split <;> simp
    server := fun hm => absurd hm (by simp) }

theorem Alive.opened (h : Alive s earlier last) {i : Nat}
    (hen : s.readyState i = some .connecting) :
    Alive (s.next (.opened i)) earlier
      { last with readyState := .opened, server := some s.nextId } := by
  obtain ⟨rfl, hlast⟩ := h.last_of_live hen (by simp)
  have hmounted : s.mounted = true := by
    by_contra hm
    rcases h.unmounted (Bool.eq_false_iff.mpr hm) with hc | hc <;> simp [hlast] at hc
  have hdelays : s.delays = 0 := h.delay.resolve_right fun hc => by simp [hlast] at hc
  simp only [State.next, onOpen, h.sockets, modify_concat, h.ws, Option.map_some]
  have hhistory := h.history
  simp only [h.sockets, List.map_append, List.map_cons, List.map_nil, Socket.trace]
    at hhistory
  exact {
    started := h.started
    sockets := rfl
    ws := rfl
    closed := h.closed
    history := by
      simp only [List.map_append, List.map_cons, List.map_nil, Socket.trace]
      exact hhistory.opened
    mayBeLost := by simp
    delay := .inl hdelays
    mounted := fun _ hc => absurd hc (by simp)
    unmounted := fun hm => absurd (hmounted.symm.trans hm) (by simp)
    server := fun _ a ha => by
      obtain rfl := Option.some.inj ha
      exact ⟨rfl, rfl, .inl rfl⟩ }

/-- The websocket that has closed is the last one, and closing it again is nothing. -/
theorem Started.onClose (h : Started s earlier last) (hclosed : last.readyState = .closed)
    (failed : Bool) : (bif failed then s.onError else s).onClose =
      if s.mounted then
        if s.connectionMayBeLost then { s with server := none, delays := s.delays + 1 }
        else { s with connectionMayBeLost := true, server := none }.connect .atOnce
      else s := by
  have hsame : s.safeClose s.ws = s := by
    rw [h.ws, State.safeClose, modify_of_fixed]
    intro x hx
    rw [h.sockets, List.getElem?_concat_length] at hx
    obtain rfl := Option.some.inj hx
    exact Socket.safeClose_closed hclosed
  have herror : (bif failed then s.onError else s) = s := by
    cases failed with
    | true => exact hsame
    | false => rfl
  rw [herror, State.onClose, hsame]

theorem Alive.close (h : Alive s earlier last) {i : Nat} (failed : Bool)
    (hen : s.enabled (.closed i failed)) :
    ∃ earlier' last', Alive (s.next (.closed i failed)) earlier' last' := by
  obtain ⟨r, hr⟩ := Option.ne_none_iff_exists'.mp hen.1
  obtain ⟨rfl, hlast⟩ := h.last_of_live hr fun hc => hen.2 (hr.trans (congrArg some hc))
  have hdelays : s.delays = 0 := h.delay.resolve_right fun hc =>
    hen.2 (hr.trans (congrArg some (hlast.symm.trans hc.2.1)))
  have hnow : Started { s with sockets := earlier ++ [{ last with readyState := .closed }] }
      earlier { last with readyState := .closed } := by
    have hhistory := h.history
    simp only [h.sockets, List.map_append, List.map_cons, List.map_nil] at hhistory
    exact {
      started := h.started
      sockets := rfl
      ws := h.ws
      closed := h.closed
      history := by
        simp only [List.map_append, List.map_cons, List.map_nil]
        exact hhistory
      mayBeLost := h.mayBeLost }
  simp only [State.next, h.sockets, modify_concat, hnow.onClose rfl]
  rcases Bool.eq_false_or_eq_true s.mounted with hmounted | hmounted
  · rw [if_pos hmounted]
    rcases Bool.eq_false_or_eq_true s.connectionMayBeLost with hlost | hlost
    · rw [if_pos hlost]
      exact ⟨earlier, { last with readyState := .closed }, { hnow with
        delay := .inr ⟨congrArg (· + 1) hdelays, rfl, hlost⟩
        mounted := fun _ _ => congrArg (· + 1) hdelays
        unmounted := fun hm => absurd (hmounted.symm.trans hm) (by simp)
        server := fun _ a ha => absurd ha (by simp) }⟩
    · rw [if_neg (by simp [hlost])]
      have hconnect := hnow.connect rfl hmounted .atOnce (by simp [hlost])
      exact ⟨_, _, by simpa only [hdelays] using hconnect⟩
  · rw [if_neg (by simp [hmounted])]
    exact ⟨earlier, { last with readyState := .closed }, { hnow with
      delay := .inl hdelays
      mounted := fun hm => absurd (hmounted.symm.trans hm) (by simp)
      unmounted := fun _ => .inr rfl
      server := fun hm => absurd (hmounted.symm.trans hm) (by simp) }⟩

theorem Alive.elapse (h : Alive s earlier last) (hen : s.enabled .elapsed) :
    ∃ earlier' last', Alive (s.next .elapsed) earlier' last' := by
  have hpos : 0 < s.delays := hen
  obtain ⟨hone, hclosed, hlost⟩ := h.delay.resolve_left (by omega)
  have hnext : s.next .elapsed =
      if s.mounted then { s with delays := 0, connectionMayBeLost := true }.connect .delayed
      else { s with delays := 0 } := by
    rw [State.next, afterDelay, hone]
  rw [hnext]
  rcases Bool.eq_false_or_eq_true s.mounted with hmounted | hmounted
  · rw [if_pos hmounted]
    have hserver : s.server = none := by
      cases hs : s.server with
      | none => rfl
      | some a =>
          rcases (h.server hmounted a hs).2.2 with hc | hc <;> simp [hclosed] at hc
    have hconnect := h.connect hclosed hmounted .delayed (by simp [hlost])
    exact ⟨_, _, by simpa only [hserver] using hconnect⟩
  · rw [if_neg (by simp [hmounted])]
    exact ⟨earlier, last, { h with
      delay := .inl rfl
      mounted := fun hm => absurd (hmounted.symm.trans hm) (by simp)
      server := fun hm => absurd (hmounted.symm.trans hm) (by simp) }⟩

/-- Before and after `componentDidMount`. -/
def Inv (s : State) : Prop := s = init ∨ ∃ earlier last, Alive s earlier last

theorem Inv.next (h : Inv s) {l : Label} (hen : s.enabled l) : Inv (s.next l) := by
  right
  rcases h with rfl | ⟨earlier, last, h⟩
  · cases l with
    | didMount =>
        exact ⟨[], ⟨.connecting, .mount, none⟩, {
          started := rfl
          sockets := rfl
          ws := rfl
          closed := by simp
          history := .singleton .mount
          mayBeLost := by simp [State.next, State.connect, init]
          delay := .inl rfl
          mounted := fun _ hc => absurd hc (by simp)
          unmounted := fun hm => absurd hm (by simp [State.next, State.connect, init])
          server := fun _ a ha => absurd ha (by simp [State.next, State.connect, init]) }⟩
    | _ => simp [enabled, init, readyState] at hen
  · cases l with
    | didMount => exact absurd (h.started.symm.trans hen) (by simp)
    | willUnmount => exact ⟨_, _, h.willUnmount⟩
    | opened i => exact ⟨_, _, h.opened hen⟩
    | closed i failed => exact h.close failed hen
    | elapsed => exact h.elapse hen
    | signOut i =>
        rcases h.safeClose (some i) with hsame | ⟨-, hnew⟩
        · exact ⟨earlier, last, by rwa [State.next, hsame]⟩
        · exact ⟨earlier, last.safeClose, by rw [State.next, hnew]; exact h.closing⟩

theorem reachable_inv (hs : machine.Reachable s) : Inv s :=
  hs.invariant (M := machine) (I := Inv) (.inl rfl) fun _ _ _ h hen _ => h.next hen

theorem length_safeClose (ws : Option Nat) :
    (s.safeClose ws).sockets.length = s.sockets.length ∧ (s.safeClose ws).mounted = s.mounted := by
  cases ws with
  | none => exact ⟨rfl, rfl⟩
  | some i => exact ⟨List.length_modify .., rfl⟩

/-- An unmounted page opens nothing any more. -/
theorem next_unmounted {l : Label} (hen : s.enabled l) (hstarted : s.started = true)
    (hmounted : s.mounted = false) :
    (s.next l).sockets.length = s.sockets.length ∧ (s.next l).mounted = false := by
  cases l with
  | didMount => exact absurd (hstarted.symm.trans hen) (by simp)
  | willUnmount => exact absurd (hmounted.symm.trans hen.2) (by simp)
  | opened i => exact ⟨List.length_modify .., hmounted⟩
  | closed i failed =>
      have hclose (t : State) (ht : t.mounted = false) :
          t.onClose.sockets.length = t.sockets.length ∧ t.onClose.mounted = false := by
        obtain ⟨hlength, hsame⟩ := length_safeClose (s := t) t.ws
        rw [onClose, if_neg (by simp [hsame, ht])]
        exact ⟨hlength, hsame.trans ht⟩
      simp only [State.next]
      cases failed with
      | true =>
          obtain ⟨hlength, hsame⟩ := length_safeClose (s := { s with
            sockets := s.sockets.modify i fun x => { x with readyState := .closed } }) s.ws
          obtain ⟨hlength', hmounted'⟩ := hclose _ (hsame.trans hmounted)
          exact ⟨hlength'.trans (hlength.trans (List.length_modify ..)), hmounted'⟩
      | false =>
          obtain ⟨hlength, hmounted'⟩ := hclose { s with
            sockets := s.sockets.modify i fun x => { x with readyState := .closed } } hmounted
          exact ⟨hlength.trans (List.length_modify ..), hmounted'⟩
  | elapsed =>
      simp [State.next, afterDelay, hmounted]
  | signOut i =>
      obtain ⟨hlength, hsame⟩ := length_safeClose (s := s) (some i)
      exact ⟨hlength, hsame.trans hmounted⟩

theorem started_of_unmounted (h : Inv s) (hmounted : s.mounted = false) : s.started = true := by
  rcases h with rfl | ⟨earlier, last, h⟩
  · exact absurd hmounted (by simp [init])
  · exact h.started

/-- What can be relied on of the page's connection. -/
structure Supervised (s : State) : Prop where
  /-- A websocket that is not closed is the one in `_ws`. -/
  live : ∀ i r, s.readyState i = some r → r ≠ .closed → s.ws = some i
  /-- The children are shown the server of that websocket, which has opened. -/
  shown : ∀ a, s.shown = some a → s.ws = some a.ws ∧
    s.sockets[a.ws]?.bind Socket.server = some a.id ∧
      (s.readyState a.ws = some .opened ∨ s.readyState a.ws = some .closing)
  /-- A mounted page has a websocket that is not closed or a delay, and not both. -/
  trying : s.started = true → s.mounted = true →
    s.delays = 0 ∧ (∃ i r, s.readyState i = some r ∧ r ≠ .closed) ∨
      s.delays = 1 ∧ ∀ i r, s.readyState i = some r → r = .closed
  /-- An unmounted one is closing its websocket, and never opens another. -/
  afterwards : s.mounted = false →
    (∀ i r, s.readyState i = some r → r = .closing ∨ r = .closed) ∧
      ∀ t, machine.Leads (fun _ _ => True) s t →
        t.sockets.length = s.sockets.length ∧ t.shown = none
  /-- It waits before a websocket exactly if the last one was a retry that never
  opened, and no id is given to two servers. -/
  history : History (s.sockets.map Socket.trace) s.nextId

theorem Alive.readyState_last (h : Alive s earlier last) :
    s.readyState earlier.length = some last.readyState := by
  rw [readyState, h.sockets, List.getElem?_concat_length]
  rfl

theorem Inv.afterwards (h : Inv s) (hmounted : s.mounted = false) {t : State}
    (ht : machine.Leads (fun _ _ => True) s t) :
    t.sockets.length = s.sockets.length ∧ t.shown = none := by
  have hinv := ht.invariant (M := machine)
    (I := fun t => Inv t ∧ t.mounted = false ∧ t.sockets.length = s.sockets.length)
    (fun t l ⟨hinv, hm, hlength⟩ hen _ =>
      have hnext := next_unmounted hen (started_of_unmounted hinv hm) hm
      ⟨hinv.next hen, hnext.2, hnext.1.trans hlength⟩) ⟨h, hmounted, rfl⟩
  exact ⟨hinv.2.2, by rw [State.shown, hinv.2.1]; rfl⟩

/-- In every reachable state, whatever the websockets do and whoever closes them. -/
theorem connection_supervised (hs : machine.Reachable s) : Supervised s := by
  have hinv := reachable_inv hs
  rcases hinv with rfl | ⟨earlier, last, h⟩
  · exact {
      live := fun i r hr => absurd hr (by simp [readyState, init])
      shown := fun a ha => absurd ha (by simp [State.shown, init])
      trying := fun hstarted => absurd hstarted (by simp [init])
      afterwards := fun hm => absurd hm (by simp [init])
      history := ⟨.nil, .nil, by simp [init]⟩ }
  · have hlast := h.readyState_last
    exact {
      live := fun i r hr hlive => by
        rw [h.ws, (h.last_of_live hr hlive).1]
      shown := fun a ha => by
        cases hmounted : s.mounted with
        | false => simp [State.shown, hmounted] at ha
        | true =>
            obtain ⟨hws, hid, hstate⟩ :=
              h.server hmounted a (by simpa [State.shown, hmounted] using ha)
            refine ⟨by rw [h.ws, hws], ?_, ?_⟩
            · rw [hws, h.sockets, List.getElem?_concat_length]
              exact hid
            · rw [hws, hlast]
              exact hstate.imp (congrArg some) (congrArg some)
      trying := fun _ hmounted => by
        by_cases hclosed : last.readyState = .closed
        · refine .inr ⟨h.mounted hmounted hclosed, fun i r hr => ?_⟩
          by_contra hlive
          exact hlive ((h.last_of_live hr hlive).2.symm.trans hclosed)
        · exact .inl ⟨h.delay.resolve_right fun hc => hclosed hc.2.1, _, _, hlast, hclosed⟩
      afterwards := fun hmounted => by
        refine ⟨fun i r hr => ?_, fun t ht => Inv.afterwards (.inr ⟨_, _, h⟩) hmounted ht⟩
        by_cases hlive : r = .closed
        · exact .inr hlive
        · rw [← (h.last_of_live hr hlive).2]
          exact h.unmounted hmounted
      history := h.history }

/-- The first websocket fails, the second opens and is lost, the third fails, and the
page is unmounted while it waits for the fourth. -/
def lostTwice : List Label :=
  [.didMount, .closed 0 true, .opened 1, .closed 1 false, .closed 2 true, .willUnmount]

theorem connection_supervised_lostTwice : Supervised (lostTwice.foldl next init) :=
  connection_supervised (Machine.reaches_of_path (M := machine) (by decide +kernel))

end State

end WebSshTool.Connection
