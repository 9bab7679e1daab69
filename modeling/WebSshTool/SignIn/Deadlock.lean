import WebSshTool.Lib.Mutex
import WebSshTool.SignIn.Tokens

/-!
# The two locks of a sign-in can be waited for in a circle

`join!` takes `websocket_peers` and `suspended_clients` in whichever order
they come free and keeps the first while it waits for the second. An attempt
that has parked its callback keeps `websocket_peers` alone, and once its five
seconds are over it wants `suspended_clients` back. So a task can keep either
lock and want the other, and two tasks that do so in opposite directions wait
for each other for good. No circle is needed where the owner of
`websocket_peers` waits for something else: a session that disconnects its peer
keeps the guard until `disconnect` comes back, and on a stuck connection it
never does.

What is proved is exactly which steps close a circle or begin such a
`disconnect`. `Meets` names them, `reachable_owned` is the bookkeeping that says
a mutex is owned by the one task whose phase keeps its guard, and
`signIn_noDeadlock` puts the two together: runs whose steps all meet the
condition never wait in a circle and always have a step to take, and a step that
breaks the condition leads to one of the two, which no later step mends.
-/

namespace WebSshTool.SignIn

open Mutex

variable {τ : Type*}

/-! ## Owners and phases agree -/

/-- An attempt moves to phase `p`, whatever else changes but the owners. -/
theorem Owned.attempt {s s' : State τ} (h : Owned s.locks s.holds)
    {a : AttemptId} {p q : Attempt τ} (hq : s.attempts a = q)
    (hp : s'.attempts = Function.update s.attempts a p)
    (hc : s'.clients = s.clients)
    (hfree : ∀ l, p.holds l = true → q.holds l = true ∨ s.locks l = none)
    (hl : ∀ l, s'.locks l = bif q.holds l == p.holds l then s.locks l
      else bif p.holds l then some (.attempt a) else none) :
    Owned s'.locks s'.holds := by
  subst hq
  refine h.step (.attempt a) ?_ ?_ ?_
  · intro u hu l
    cases u with
    | attempt b =>
        have hba : b ≠ a := fun hb => hu (by rw [hb])
        simp [State.holds, hp, Function.update_of_ne hba]
    | client c => simp [State.holds, hc]
  · intro l
    simpa [State.holds, hp] using hfree l
  · intro l
    simpa [State.holds, hp] using hl l

/-- The same for the handler of an internal client. -/
theorem Owned.client {s s' : State τ} (h : Owned s.locks s.holds)
    {c : ClientId} {p q : Client τ} (hq : s.clients c = q)
    (hp : s'.clients = Function.update s.clients c p)
    (ha : s'.attempts = s.attempts)
    (hfree : ∀ l, p.holds l = true → q.holds l = true ∨ s.locks l = none)
    (hl : ∀ l, s'.locks l = bif q.holds l == p.holds l then s.locks l
      else bif p.holds l then some (.client c) else none) :
    Owned s'.locks s'.holds := by
  subst hq
  refine h.step (.client c) ?_ ?_ ?_
  · intro u hu l
    cases u with
    | client b =>
        have hbc : b ≠ c := fun hb => hu (by rw [hb])
        simp [State.holds, hp, Function.update_of_ne hbc]
    | attempt a => simp [State.holds, ha]
  · intro l
    simpa [State.holds, hp] using hfree l
  · intro l
    simpa [State.holds, hp] using hl l

theorem init_owned : Owned (init (τ := τ)).locks (init (τ := τ)).holds := by
  intro l t
  cases t <;> cases l <;> simp [init, State.holds, Attempt.holds, Client.holds]

section

variable [DecidableEq τ]

theorem next_owned {s : State τ} {l : Label τ} (h : Owned s.locks s.holds)
    (hen : enabled s l) : Owned (next s l).locks (next s l).holds := by
  cases l with
  | start a t | timeout a t | leave a t =>
      refine Owned.attempt h hen rfl rfl ?_ ?_ <;> rintro ⟨⟩ <;>
        simp [next, State.setAttempt, Attempt.holds]
  | receive a t c =>
      refine Owned.attempt h hen.1 rfl rfl ?_ ?_ <;> rintro ⟨⟩ <;>
        simp [next, State.setAttempt, Attempt.holds]
  | lockMap a t _ | lockClients a t _ | relockClients a t =>
      refine Owned.attempt h hen.1 rfl rfl ?_ ?_ <;> rintro ⟨⟩ <;>
        simp +contextual [next, State.setAttempt, State.acquire, Attempt.holds, hen.2]
  | removeClient a t | insertPeer a t c | fail a =>
      refine Owned.attempt h hen rfl rfl ?_ ?_ <;> rintro ⟨⟩ <;>
        simp [next, State.setAttempt, State.release, Attempt.holds]
  | disconnected a c =>
      refine Owned.attempt h hen.1 rfl rfl ?_ ?_ <;> rintro ⟨⟩ <;>
        simp [next, State.setAttempt, State.release, Attempt.holds]
  | check a t =>
      by_cases hmaps : s.websocketPeers t = none ∧ s.suspendedClients t = none
      · simp only [next, if_pos hmaps]
        refine Owned.attempt h hen (p := .waiting t) rfl rfl ?_ ?_ <;>
          rintro ⟨⟩ <;> simp [State.setAttempt, State.release, Attempt.holds]
      · simp only [next, if_neg hmaps]
        refine Owned.attempt h hen (p := .failed) rfl rfl ?_ ?_ <;>
          rintro ⟨⟩ <;> simp [State.setAttempt, State.release, Attempt.holds]
  | removePeer a t =>
      simp only [next]
      split
      · next c _ =>
          refine Owned.attempt h hen.1 (p := .disconnecting c) rfl rfl ?_ ?_ <;>
            rintro ⟨⟩ <;> simp [State.setAttempt, State.acquire, Attempt.holds, hen.2]
      · refine Owned.attempt h hen.1 (p := .finished) rfl rfl ?_ ?_ <;>
          rintro ⟨⟩ <;> simp [State.setAttempt, Attempt.holds]
  | arrive c t =>
      refine Owned.client h hen rfl rfl ?_ ?_ <;> rintro ⟨⟩ <;>
        simp [next, State.setClient, Client.holds]
  | clientLock c t =>
      refine Owned.client h hen.1 rfl rfl ?_ ?_ <;> rintro ⟨⟩ <;>
        simp [next, State.setClient, State.acquire, Client.holds, hen.2]
  | clientRemove c t =>
      simp only [next]
      split <;> refine Owned.client h hen rfl rfl ?_ ?_ <;> rintro ⟨⟩ <;>
        simp [State.setClient, State.release, Client.holds]
  | clientSend c t a =>
      simp only [next]
      split <;> refine Owned.client h hen rfl rfl ?_ ?_ <;> rintro ⟨⟩ <;>
        simp [State.setClient, Client.holds]
  | stick c =>
      intro l t
      cases t <;> exact h l _

theorem reachable_owned {s : State τ} (hs : machine.Reachable s) :
    Owned s.locks s.holds :=
  hs.invariant (I := fun s => Owned s.locks s.holds) init_owned
    fun _ _ _ h hen _ => next_owned h hen

end

/-! ## Waiting in a circle -/

/-- Two tasks, each keeping the mutex the other waits for. -/
def CyclicWait (s : State τ) : Prop :=
  ∃ t u l m, t ≠ u ∧ l ≠ m ∧ s.holds t l = true ∧ s.waits t m = true ∧
    s.holds u m = true ∧ s.waits u l = true

/-- Keeps `websocket_peers` and wants `suspended_clients`. -/
def Attempt.mapFirst (p : Attempt τ) : Bool :=
  p.holds .websocketPeers && p.waits .suspendedClients

/-- Keeps `suspended_clients` and wants `websocket_peers`. -/
def Attempt.clientsFirst (p : Attempt τ) : Bool :=
  p.holds .suspendedClients && p.waits .websocketPeers

/-- No task waits for a mutex whose guard it keeps. -/
theorem Attempt.not_waits_of_holds (p : Attempt τ) (l : Lock)
    (h : p.holds l = true) : p.waits l = false := by
  revert h
  cases p <;> cases l <;> simp [Attempt.holds, Attempt.waits]

theorem Attempt.not_clientsFirst_of_mapFirst (p : Attempt τ)
    (h : p.mapFirst = true) : p.clientsFirst = false := by
  simp only [Attempt.mapFirst, Bool.and_eq_true] at h
  simp [Attempt.clientsFirst, p.not_waits_of_holds _ h.1]

/-- The handler of an internal client keeps no guard while it waits. -/
theorem Client.not_waits_of_holds (p : Client τ) (l m : Lock)
    (h : p.holds l = true) : p.waits m = false := by
  revert h
  cases p <;> cases l <;> simp [Client.holds, Client.waits]

/-- Handlers of internal clients keep one mutex and never want the other, so
a circle is two attempts that took the two mutexes in opposite orders. -/
theorem cyclicWait_iff {s : State τ} : CyclicWait s ↔
    ∃ a b, (s.attempts a).mapFirst = true ∧
      (s.attempts b).clientsFirst = true := by
  constructor
  · rintro ⟨t, u, l, m, -, hlm, htl, htm, hum, hul⟩
    cases t with
    | client c =>
        rw [State.waits, (s.clients c).not_waits_of_holds _ _ htl] at htm
        exact absurd htm (by simp)
    | attempt a =>
        cases u with
        | client c =>
            rw [State.waits, (s.clients c).not_waits_of_holds _ _ hum] at hul
            exact absurd hul (by simp)
        | attempt b =>
            simp only [State.holds, State.waits] at htl htm hum hul
            cases l <;> cases m
            · exact absurd rfl hlm
            · exact ⟨a, b, by simp [Attempt.mapFirst, htl, htm],
                by simp [Attempt.clientsFirst, hum, hul]⟩
            · exact ⟨b, a, by simp [Attempt.mapFirst, hum, hul],
                by simp [Attempt.clientsFirst, htl, htm]⟩
            · exact absurd rfl hlm
  · rintro ⟨a, b, ha, hb⟩
    simp only [Attempt.mapFirst, Attempt.clientsFirst, Bool.and_eq_true] at ha hb
    refine ⟨.attempt a, .attempt b, .websocketPeers, .suspendedClients, ?_, by decide,
      ha.1, ha.2, hb.1, hb.2⟩
    rintro ⟨rfl⟩
    rw [(s.attempts a).not_waits_of_holds _ ha.1] at hb
    exact absurd hb.2 (by simp)

/-- An attempt waits in `disconnect` for a connection that is stuck. -/
def Stranded (s : State τ) : Prop :=
  ∃ a c, s.attempts a = .disconnecting c ∧ s.stuck c = true

/-- What a step must find so that it closes no circle. Three steps leave an
attempt with one mutex while it wants the other: the first guard of `join!`,
whichever it is, and the end of the five seconds. -/
def InOrder (s : State τ) : Label τ → Prop
  | .lockMap _ _ false | .timeout _ _ =>
      ∀ b, (s.attempts b).clientsFirst = false
  | .lockClients _ _ false => ∀ b, (s.attempts b).mapFirst = false
  | _ => True

/-- What it must find so that every `disconnect` comes back. -/
def Returns (s : State τ) : Label τ → Prop
  | .removePeer _ t => ∀ a c, s.websocketPeers t = some (a, c) → s.stuck c = false
  | .stick c => ∀ a, s.attempts a ≠ .disconnecting c
  | _ => True

def Meets (s : State τ) (l : Label τ) : Prop := InOrder s l ∧ Returns s l

/-- A step that moves only attempt `a`, to a phase that does not keep one
mutex while it wants the other, closes no circle. -/
theorem not_cyclicWait_of_attempt {s s' : State τ} (h : ¬ CyclicWait s)
    {a : AttemptId} {p : Attempt τ}
    (hs : s'.attempts = Function.update s.attempts a p)
    (hm : p.mapFirst = true → ∀ b, b ≠ a → (s.attempts b).clientsFirst = false)
    (hc : p.clientsFirst = true → ∀ b, b ≠ a → (s.attempts b).mapFirst = false) :
    ¬ CyclicWait s' := by
  rw [cyclicWait_iff] at h ⊢
  rintro ⟨b, c, hb, hcc⟩
  rw [hs] at hb hcc
  by_cases hba : b = a
  · subst hba
    rw [Function.update_self] at hb
    by_cases hca : c = b
    · subst hca
      rw [Function.update_self, p.not_clientsFirst_of_mapFirst hb] at hcc
      exact absurd hcc (by simp)
    · rw [Function.update_of_ne hca, hm hb c hca] at hcc
      exact absurd hcc (by simp)
  · rw [Function.update_of_ne hba] at hb
    by_cases hca : c = a
    · subst hca
      rw [Function.update_self] at hcc
      rw [hc hcc b hba] at hb
      exact absurd hb (by simp)
    · rw [Function.update_of_ne hca] at hcc
      exact h ⟨b, c, hb, hcc⟩

section

variable [DecidableEq τ]

/-- The condition is exact: from a state without a circle, a step closes one
exactly when it breaks the condition. -/
theorem inOrder_iff_not_cyclicWait {s : State τ} {l : Label τ}
    (h : ¬ CyclicWait s) (hen : enabled s l) :
    InOrder s l ↔ ¬ CyclicWait (next s l) := by
  have hquiet : ∀ {s' : State τ} {a p}, s'.attempts = Function.update s.attempts a p →
      p.mapFirst = false → p.clientsFirst = false → ¬ CyclicWait s' := by
    intro s' a p hs hm hc
    exact not_cyclicWait_of_attempt h hs (by simp [hm]) (by simp [hc])
  have hcross : ∀ {s' : State τ} a p, s'.attempts = Function.update s.attempts a p →
      p.mapFirst = true → p.clientsFirst = false →
      (s.attempts a).clientsFirst = false →
      ((∀ b, (s.attempts b).clientsFirst = false) ↔ ¬ CyclicWait s') := by
    intro s' a p hs hm hc ha
    refine ⟨fun hno => not_cyclicWait_of_attempt h hs (fun _ b _ => hno b)
      (by simp [hc]), fun hno b => ?_⟩
    rw [cyclicWait_iff] at hno
    by_contra hb
    have hba : b ≠ a := by
      rintro rfl
      exact hb ha
    exact hno ⟨a, b, by rw [hs, Function.update_self]; exact hm,
      by rw [hs, Function.update_of_ne hba]; simpa using hb⟩
  have hcross' : ∀ {s' : State τ} a p, s'.attempts = Function.update s.attempts a p →
      p.clientsFirst = true → p.mapFirst = false →
      (s.attempts a).mapFirst = false →
      ((∀ b, (s.attempts b).mapFirst = false) ↔ ¬ CyclicWait s') := by
    intro s' a p hs hc hm ha
    refine ⟨fun hno => not_cyclicWait_of_attempt h hs (by simp [hm])
      (fun _ b _ => hno b), fun hno b => ?_⟩
    rw [cyclicWait_iff] at hno
    by_contra hb
    have hba : b ≠ a := by
      rintro rfl
      exact hb ha
    exact hno ⟨b, a, by rw [hs, Function.update_of_ne hba]; simpa using hb,
      by rw [hs, Function.update_self]; exact hc⟩
  have hclient : ∀ {s' : State τ}, s'.attempts = s.attempts → ¬ CyclicWait s' := by
    intro s' hs
    rw [cyclicWait_iff] at h ⊢
    rw [hs]
    exact h
  cases l with
  | lockMap a t clients =>
      cases clients with
      | true => exact ⟨fun _ => hquiet rfl rfl rfl, fun _ => trivial⟩
      | false => exact hcross a _ rfl rfl rfl (by rw [hen.1]; rfl)
  | lockClients a t map =>
      cases map with
      | true => exact ⟨fun _ => hquiet rfl rfl rfl, fun _ => trivial⟩
      | false => exact hcross' a _ rfl rfl rfl (by rw [hen.1]; rfl)
  | timeout a t => exact hcross a _ rfl rfl rfl (by rw [show s.attempts a = _ from hen]; rfl)
  | check a t =>
      refine ⟨fun _ => ?_, fun _ => trivial⟩
      simp only [next]
      split
      · exact hquiet rfl rfl rfl
      · exact hquiet rfl rfl rfl
  | removePeer a t =>
      refine ⟨fun _ => ?_, fun _ => trivial⟩
      simp only [next]
      split
      · exact hquiet rfl rfl rfl
      · exact hquiet rfl rfl rfl
  | clientRemove c t =>
      refine ⟨fun _ => ?_, fun _ => trivial⟩
      simp only [next]
      split <;> exact hclient rfl
  | clientSend c t a =>
      refine ⟨fun _ => ?_, fun _ => trivial⟩
      simp only [next]
      split <;> exact hclient rfl
  | start a t | relockClients a t | removeClient a t | fail a | receive a t c
  | insertPeer a t c | leave a t | disconnected a c =>
      exact ⟨fun _ => hquiet rfl rfl rfl, fun _ => trivial⟩
  | arrive c t | clientLock c t | stick c =>
      exact ⟨fun _ => hclient rfl, fun _ => trivial⟩

/-- And so is the other: only the step that breaks it strands an attempt. -/
theorem returns_iff_not_stranded {s : State τ} {l : Label τ} (h : ¬ Stranded s) :
    Returns s l ↔ ¬ Stranded (next s l) := by
  have hmoved : ∀ {s' : State τ} {a p}, s'.attempts = Function.update s.attempts a p →
      s'.stuck = s.stuck → (∀ c, p ≠ .disconnecting c) → ¬ Stranded s' := by
    rintro s' a p hs hstuck hp ⟨b, c, hb, hc⟩
    rw [hs] at hb
    rw [hstuck] at hc
    by_cases hba : b = a
    · rw [hba, Function.update_self] at hb
      exact hp c hb
    · rw [Function.update_of_ne hba] at hb
      exact h ⟨b, c, hb, hc⟩
  cases l with
  | removePeer a t =>
      simp only [next, Returns]
      split
      · next b c hpeer =>
          constructor
          · rintro hfree ⟨d, e, hd, he⟩
            by_cases hda : d = a
            · have heq : Attempt.disconnecting c = .disconnecting (τ := τ) e := by
                simpa [hda, State.setAttempt, State.acquire] using hd
              rw [← Attempt.disconnecting.inj heq] at he
              exact absurd ((hfree b c hpeer).symm.trans he) (by simp)
            · exact h ⟨d, e, by simpa [hda, State.setAttempt, State.acquire] using hd, he⟩
          · intro hno b' c' hpeer'
            obtain ⟨-, rfl⟩ := Prod.mk.inj (Option.some.inj (hpeer.symm.trans hpeer'))
            by_contra hstuck
            exact hno ⟨a, c, by simp [State.setAttempt, State.acquire],
              by simpa [State.setAttempt, State.acquire] using hstuck⟩
      · next hnone =>
          refine iff_of_true (fun b c hpeer => ?_) (hmoved rfl rfl (by simp))
          exact absurd (hnone.symm.trans hpeer) (by simp)
  | stick c =>
      constructor
      · rintro hfree ⟨a, d, ha, hd⟩
        by_cases hdc : d = c
        · exact hfree a (hdc ▸ ha)
        · exact h ⟨a, d, ha, by simpa [next, hdc] using hd⟩
      · intro hno a ha
        exact hno ⟨a, c, ha, by simp [next]⟩
  | check a t =>
      refine iff_of_true trivial ?_
      simp only [next]
      split <;> exact hmoved rfl rfl (by simp)
  | clientRemove c t | clientSend c t a =>
      refine iff_of_true trivial ?_
      simp only [next]
      split <;> exact h
  | start a t | lockMap a t k | lockClients a t m | timeout a t | relockClients a t
  | removeClient a t | fail a | receive a t c | insertPeer a t c | leave a t
  | disconnected a c =>
      exact iff_of_true trivial (hmoved rfl rfl (by simp))
  | arrive c t | clientLock c t => exact iff_of_true trivial h

/-- A circle stays closed: neither of the two can take the mutex it wants,
and no other step moves them. -/
theorem next_cyclicWait {s : State τ} {l : Label τ} (h : Owned s.locks s.holds)
    (hc : CyclicWait s) (hen : enabled s l) : CyclicWait (next s l) := by
  rw [cyclicWait_iff] at hc ⊢
  obtain ⟨a, b, ha, hb⟩ := hc
  have hmap : s.locks .websocketPeers = some (.attempt a) :=
    (h _ _).mpr (by simp only [Attempt.mapFirst, Bool.and_eq_true] at ha; exact ha.1)
  have hclients : s.locks .suspendedClients = some (.attempt b) :=
    (h _ _).mpr (by simp only [Attempt.clientsFirst, Bool.and_eq_true] at hb; exact hb.1)
  have hmoved : ∀ {s' : State τ} {x q p}, s.attempts x = q →
      s'.attempts = Function.update s.attempts x p →
      q.mapFirst = false → q.clientsFirst = false →
      ∃ a b, (s'.attempts a).mapFirst = true ∧ (s'.attempts b).clientsFirst = true := by
    intro s' x q p hq hs hm hcl
    have hax : a ≠ x := by
      rintro rfl
      rw [hq, hm] at ha
      exact absurd ha (by simp)
    have hbx : b ≠ x := by
      rintro rfl
      rw [hq, hcl] at hb
      exact absurd hb (by simp)
    exact ⟨a, b, by rw [hs, Function.update_of_ne hax]; exact ha,
      by rw [hs, Function.update_of_ne hbx]; exact hb⟩
  cases l with
  | lockMap | removePeer => exact absurd (hen.2.symm.trans hmap) (by simp)
  | lockClients | relockClients => exact absurd (hen.2.symm.trans hclients) (by simp)
  | start | timeout | removeClient | fail | insertPeer | leave =>
      exact hmoved hen rfl rfl rfl
  | receive | disconnected => exact hmoved hen.1 rfl rfl rfl
  | check a t =>
      simp only [next]
      split
      · exact hmoved hen rfl rfl rfl
      · exact hmoved hen rfl rfl rfl
  | arrive | clientLock | stick => exact ⟨a, b, ha, hb⟩
  | clientRemove | clientSend =>
      simp only [next]
      split <;> exact ⟨a, b, ha, hb⟩

/-- Nor does a stuck connection come free, and its attempt keeps `websocket_peers`. -/
theorem next_stranded {s : State τ} {l : Label τ} (h : Stranded s) (hen : enabled s l) :
    Stranded (next s l) := by
  obtain ⟨a, c, ha, hc⟩ := h
  have hmoved : ∀ {s' : State τ} {x q p}, s.attempts x = q →
      s'.attempts = Function.update s.attempts x p → s'.stuck = s.stuck →
      q ≠ .disconnecting c → Stranded s' := by
    intro s' x q p hq hs hstuck hne
    have hax : a ≠ x := by
      rintro rfl
      exact hne (hq.symm.trans ha)
    exact ⟨a, c, by rw [hs, Function.update_of_ne hax]; exact ha, by rw [hstuck]; exact hc⟩
  cases l with
  | start | timeout | removeClient | fail | insertPeer | leave =>
      exact hmoved hen rfl rfl (by simp)
  | lockMap | lockClients | relockClients | receive => exact hmoved hen.1 rfl rfl (by simp)
  | disconnected b d =>
      refine hmoved hen.1 rfl rfl fun heq => ?_
      rw [← Attempt.disconnecting.inj heq] at hc
      exact absurd (hen.2.symm.trans hc) (by simp)
  | check b t =>
      simp only [next]
      split <;> exact hmoved hen rfl rfl (by simp)
  | removePeer b t =>
      simp only [next]
      split <;> exact hmoved hen.1 rfl rfl (by simp)
  | stick d =>
      refine ⟨a, c, ha, ?_⟩
      by_cases hcd : c = d <;> simp [next, hcd, hc]
  | arrive | clientLock => exact ⟨a, c, ha, hc⟩
  | clientRemove | clientSend =>
      simp only [next]
      split <;> exact ⟨a, c, ha, hc⟩

end

/-! ## Some task can always go on

A mutex that is not free has an owner, and the owner's phase says what it can
do next: give the mutex back, wait for the other one, or wait for a connection.
Without a circle the owner of that other one can move, and a connection that is
not stuck lets `disconnect` come back. -/

/-- A websocket comes in or goes away, or a connection gets stuck; every other
step is a task's own. -/
def Label.external : Label τ → Bool
  | .start _ _ | .leave _ _ | .arrive _ _ | .stick _ => true
  | _ => false

/-- Some task has a step of its own to take. -/
def Live (s : State τ) : Prop := ∃ l, l.external = false ∧ enabled s l

/-- Whoever keeps `websocket_peers` without wanting `suspended_clients` has a
step of its own. -/
theorem live_of_holds_map {s : State τ} (hs : ¬ Stranded s) {a : AttemptId}
    (hp : (s.attempts a).holds .websocketPeers = true)
    (hm : (s.attempts a).mapFirst = false) : Live s := by
  cases hq : s.attempts a with
  | locking t map clients =>
      rw [hq] at hp hm
      obtain rfl : map = true := hp
      obtain rfl : clients = true := by
        simpa [Attempt.mapFirst, Attempt.holds, Attempt.waits] using hm
      exact ⟨.check a t, rfl, hq⟩
  | waiting t => exact ⟨.timeout a t, rfl, hq⟩
  | timedOut t => simp [hq, Attempt.mapFirst, Attempt.holds, Attempt.waits] at hm
  | removing t => exact ⟨.removeClient a t, rfl, hq⟩
  | failing => exact ⟨.fail a, rfl, hq⟩
  | adopted t c => exact ⟨.insertPeer a t c, rfl, hq⟩
  | disconnecting c =>
      refine ⟨.disconnected a c, rfl, hq, ?_⟩
      by_contra hstuck
      exact hs ⟨a, c, hq, by simpa using hstuck⟩
  | signingIn | session | closing | finished | failed =>
      simp [hq, Attempt.holds] at hp

/-- Whoever keeps `suspended_clients` without wanting `websocket_peers` has a
step of its own. -/
theorem live_of_holds_clients {s : State τ} {t : Task}
    (hp : s.holds t .suspendedClients = true)
    (hm : s.waits t .websocketPeers = false) : Live s := by
  cases t with
  | client c =>
      cases hq : s.clients c with
      | removing t => exact ⟨.clientRemove c t, rfl, hq⟩
      | _ => simp [State.holds, hq, Client.holds] at hp
  | attempt a =>
      cases hq : s.attempts a with
      | locking t map clients =>
          rw [State.holds, hq] at hp
          rw [State.waits, hq] at hm
          obtain rfl : clients = true := hp
          obtain rfl : map = true := by simpa [Attempt.waits] using hm
          exact ⟨.check a t, rfl, hq⟩
      | removing t => exact ⟨.removeClient a t, rfl, hq⟩
      | _ => simp [State.holds, hq, Attempt.holds] at hp

theorem live_of_clients_owned {s : State τ} (h : Owned s.locks s.holds)
    (hc : ¬ CyclicWait s) (hs : ¬ Stranded s) {t : Task} (ht : s.locks .suspendedClients = some t) :
    Live s := by
  have hold : s.holds t .suspendedClients = true := (h _ _).mp ht
  cases hw : s.waits t .websocketPeers with
  | false => exact live_of_holds_clients hold hw
  | true =>
      cases t with
      | client c => simp [State.waits, Client.waits] at hw
      | attempt b =>
          obtain ⟨tok, hb⟩ : ∃ tok, s.attempts b = .locking tok false true := by
            cases hq : s.attempts b <;>
              simp_all [State.holds, State.waits, Attempt.holds, Attempt.waits]
          cases hm : s.locks .websocketPeers with
          | none => exact ⟨.lockMap b tok true, rfl, hb, hm⟩
          | some u =>
              have hu : s.holds u .websocketPeers = true := (h _ _).mp hm
              cases u with
              | client c => cases hq : s.clients c <;> simp [State.holds, hq, Client.holds] at hu
              | attempt a =>
                  refine live_of_holds_map hs hu ?_
                  -- `b` waits for what `a` keeps, so `a` must not wait for `b`.
                  by_contra hcon
                  exact hc (cyclicWait_iff.mpr ⟨a, b, by simpa using hcon,
                    by rw [hb]; rfl⟩)

theorem live_of_map_owned {s : State τ} (h : Owned s.locks s.holds)
    (hc : ¬ CyclicWait s) (hs : ¬ Stranded s) {t : Task} (ht : s.locks .websocketPeers = some t) :
    Live s := by
  have hold : s.holds t .websocketPeers = true := (h _ _).mp ht
  cases t with
  | client c => cases hq : s.clients c <;> simp [State.holds, hq, Client.holds] at hold
  | attempt a =>
      cases hm : (s.attempts a).mapFirst with
      | false => exact live_of_holds_map hs hold hm
      | true =>
          cases hl : s.locks .suspendedClients with
          | some u => exact live_of_clients_owned h hc hs hl
          | none =>
              cases hq : s.attempts a with
              | locking t map clients =>
                  obtain ⟨rfl, rfl⟩ : map = true ∧ clients = false := by
                    simpa [hq, Attempt.mapFirst, Attempt.holds, Attempt.waits] using hm
                  exact ⟨.lockClients a t true, rfl, hq, hl⟩
              | timedOut t => exact ⟨.relockClients a t, rfl, hq, hl⟩
              | _ => simp [hq, Attempt.mapFirst, Attempt.holds, Attempt.waits] at hm

/-- Without a circle and with nobody stranded, an attempt that is not finished
never leaves the server with nothing to do. -/
theorem live_of_unfinished {s : State τ} (h : Owned s.locks s.holds)
    (hc : ¬ CyclicWait s) (hs : ¬ Stranded s) {a : AttemptId}
    (ha : (s.attempts a).unfinished = true) : Live s := by
  have hkeeps : (s.attempts a).holds .websocketPeers = true → Live s := fun hp =>
    live_of_map_owned h hc hs ((h .websocketPeers (.attempt a)).mpr hp)
  cases hq : s.attempts a with
  | locking t map clients =>
      cases map with
      | true => exact hkeeps (by rw [hq]; rfl)
      | false =>
          cases hl : s.locks .websocketPeers with
          | some u => exact live_of_map_owned h hc hs hl
          | none => exact ⟨.lockMap a t clients, rfl, hq, hl⟩
  | closing t =>
      cases hl : s.locks .websocketPeers with
      | some u => exact live_of_map_owned h hc hs hl
      | none => exact ⟨.removePeer a t, rfl, hq, hl⟩
  | waiting | timedOut | removing | failing | adopted | disconnecting =>
      exact hkeeps (by rw [hq]; rfl)
  | signingIn | session | finished | failed =>
      simp [hq, Attempt.unfinished] at ha

/-! ## Runs without a deadlock -/

/-- No circle, and a step to take for as long as some attempt is unfinished. -/
def NoDeadlock (s : State τ) : Prop :=
  ¬ CyclicWait s ∧ ((∃ a, (s.attempts a).unfinished = true) → Live s)

section

variable [DecidableEq τ]

/-- What has gone wrong stays wrong. -/
theorem lost_of_leads {s t : State τ} (hs : machine.Reachable s)
    (hlost : CyclicWait s ∨ Stranded s) (ht : machine.Leads (fun _ _ => True) s t) :
    CyclicWait t ∨ Stranded t := by
  have hkept : machine.Reachable t ∧ (CyclicWait t ∨ Stranded t) := by
    refine ht.invariant (M := machine)
      (I := fun s => machine.Reachable s ∧ (CyclicWait s ∨ Stranded s)) ?_ ⟨hs, hlost⟩
    rintro s l ⟨hs, hlost⟩ hen -
    refine ⟨.step hs hen trivial, hlost.imp (fun hc => ?_) fun h => next_stranded h hen⟩
    exact next_cyclicWait (reachable_owned hs) hc hen
  exact hkept.2

theorem meets_iff {s : State τ} {l : Label τ} (hc : ¬ CyclicWait s) (hs : ¬ Stranded s)
    (hen : enabled s l) :
    Meets s l ↔ ¬ CyclicWait (next s l) ∧ ¬ Stranded (next s l) :=
  and_congr (inOrder_iff_not_cyclicWait hc hen) (returns_iff_not_stranded hs)

/-- Along a run whose steps all meet the condition nothing deadlocks. At every
state of it the condition separates the steps that close a circle or strand an
attempt from those that do not, and what is closed or stranded stays so. -/
theorem signIn_noDeadlock {s : State τ} (hs : machine.Reaches Meets s) :
    NoDeadlock s ∧ ∀ l, enabled s l →
      (Meets s l ↔ ¬ CyclicWait (next s l) ∧ ¬ Stranded (next s l)) ∧
      (¬ Meets s l → ∀ t, machine.Leads (fun _ _ => True) (next s l) t →
        CyclicWait t ∨ Stranded t) := by
  have howned : Owned s.locks s.holds := reachable_owned hs.reachable
  have hgood : ¬ CyclicWait s ∧ ¬ Stranded s := by
    refine hs.invariant (I := fun s => ¬ CyclicWait s ∧ ¬ Stranded s) ⟨?_, ?_⟩ ?_
    · rw [cyclicWait_iff]
      rintro ⟨a, b, ha, -⟩
      exact absurd ha (by simp [machine, init, Attempt.mapFirst, Attempt.holds])
    · rintro ⟨a, c, ha, -⟩
      exact absurd ha (by simp [machine, init])
    · intro s l _ h hen hok
      exact (meets_iff h.1 h.2 hen).mp hok
  refine ⟨⟨hgood.1, fun ⟨a, ha⟩ => live_of_unfinished howned hgood.1 hgood.2 ha⟩,
    fun l hen => ⟨meets_iff hgood.1 hgood.2 hen, fun hbroken t ht => ?_⟩⟩
  have hlost : CyclicWait (next s l) ∨ Stranded (next s l) := by
    by_contra hneither
    exact hbroken ((meets_iff hgood.1 hgood.2 hen).mpr (not_or.mp hneither))
  have hreached : machine.Reachable (next s l) := .step hs.reachable hen trivial
  exact lost_of_leads hreached hlost ht

/-- One attempt comes back for `suspended_clients` after its five seconds,
another took that mutex first in its `join!`. -/
def crossedRun : List (Label String) :=
  [.start 0 "t0", .start 1 "t1", .lockMap 0 "t0" false, .lockClients 0 "t0" true,
    .check 0 "t0", .lockClients 1 "t1" false, .arrive 0 "t0", .timeout 0 "t0"]

/-- A session ends whose connection is stuck, while another attempt has taken
`suspended_clients` in its `join!`. -/
def strandedRun : List (Label String) :=
  [.start 0 "t0", .lockMap 0 "t0" false, .lockClients 0 "t0" true, .check 0 "t0",
    .arrive 0 "t0", .clientLock 0 "t0", .clientRemove 0 "t0", .clientSend 0 "t0" 0,
    .receive 0 "t0" 0, .insertPeer 0 "t0" 0, .start 1 "t1", .lockClients 1 "t1" false,
    .leave 0 "t0", .stick 0, .removePeer 0 "t0"]

theorem signIn_deadlocks :
    (¬ ∀ s : State String, machine.Reachable s → ¬ CyclicWait s) ∧
      ¬ ∀ s : State String, machine.Reachable s → ¬ CyclicWait s →
        (∃ a, (s.attempts a).unfinished = true) → Live s := by
  constructor
  · intro h
    have hs : machine.Reachable (crossedRun.foldl next init) :=
      Machine.reaches_of_path (M := machine) (by decide)
    refine h _ hs (cyclicWait_iff.mpr ⟨0, 1, ?_, ?_⟩) <;> decide
  · intro h
    have hs : machine.Reachable (strandedRun.foldl next init) :=
      Machine.reaches_of_path (M := machine) (by decide)
    have hattempts : ∀ a, (strandedRun.foldl next init).attempts a =
        if a = 0 then .disconnecting 0 else
          if a = 1 then .locking "t1" false true else .signingIn := by
      intro a
      rcases a with _ | _ | a <;> rfl
    have hclients : ∀ c, (strandedRun.foldl next init).clients c =
        if c = 0 then .connected "t0" else .absent := by
      intro c
      rcases c with _ | c <;> rfl
    have hpeers : (strandedRun.foldl next init).locks .websocketPeers = some (.attempt 0) := rfl
    have hclosed : ¬ CyclicWait (strandedRun.foldl next init) := by
      rw [cyclicWait_iff]
      rintro ⟨a, -, ha, -⟩
      rw [hattempts] at ha
      split at ha
      · simp [Attempt.mapFirst, Attempt.waits] at ha
      · split at ha <;> simp [Attempt.mapFirst, Attempt.holds] at ha
    obtain ⟨l, hown, hen⟩ := h _ hs hclosed ⟨0, rfl⟩
    have hattempt : ∀ {a q}, (strandedRun.foldl next init).attempts a = q →
        q = .disconnecting 0 ∨ q = .locking "t1" false true ∨ q = .signingIn := by
      intro a q hq
      rw [← hq, hattempts]
      split
      · exact .inl rfl
      · split
        · exact .inr (.inl rfl)
        · exact .inr (.inr rfl)
    have hclient : ∀ {c q}, (strandedRun.foldl next init).clients c = q →
        q = .connected "t0" ∨ q = .absent := by
      intro c q hq
      rw [← hq, hclients]
      split
      · exact .inl rfl
      · exact .inr rfl
    cases l with
    | start | leave | arrive | stick => simp [Label.external] at hown
    | lockMap => exact absurd (hpeers.symm.trans hen.2) (by simp)
    | lockClients | relockClients | removePeer | receive =>
        exact absurd (hattempt hen.1) (by simp)
    | check | timeout | removeClient | fail | insertPeer =>
        exact absurd (hattempt hen) (by simp)
    | disconnected a c =>
        obtain ⟨ha, hfree⟩ := hen
        obtain rfl : c = 0 := by simpa using hattempt ha
        exact absurd hfree (by decide)
    | clientLock => exact absurd (hclient hen.1) (by simp)
    | clientRemove | clientSend => exact absurd (hclient hen) (by simp)

/-- Two sign-ins, the second of which takes `suspended_clients` first while
the first, already adopted, still keeps `websocket_peers`. -/
theorem signIn_noDeadlock_two :
    NoDeadlock (([.start 0 "t0", .lockMap 0 "t0" false, .lockClients 0 "t0" true,
      .check 0 "t0", .start 1 "t1", .arrive 0 "t0", .clientLock 0 "t0",
      .clientRemove 0 "t0", .clientSend 0 "t0" 0, .receive 0 "t0" 0,
      .lockClients 1 "t1" false] : List (Label String)).foldl next init) := by
  refine (signIn_noDeadlock (Machine.reaches_of_path (M := machine) ?_)).1
  refine ⟨⟨by decide, trivial, trivial⟩, ⟨by decide, ?_, trivial⟩,
    ⟨by decide, trivial, trivial⟩, ⟨by decide, trivial, trivial⟩,
    ⟨by decide, trivial, trivial⟩, ⟨by decide, trivial, trivial⟩,
    ⟨by decide, trivial, trivial⟩, ⟨by decide, trivial, trivial⟩,
    ⟨by decide, trivial, trivial⟩, ⟨by decide, trivial, trivial⟩,
    ⟨by decide, ?_, trivial⟩, trivial⟩
  · intro b
    rcases b with _ | b <;> rfl
  · intro b
    rcases b with _ | _ | b <;> rfl

end

end WebSshTool.SignIn
