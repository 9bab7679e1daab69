import WebSshTool.Session.ShellMap

/-!
# Terminal input in arrival order

What a shell must be given is read off the messages alone: the data of those
about its id that came after the one that opened it and before the next that
closes it. `Intake` computes it message by message, and the account of a shell
says that what it has been given, what its task, its channel and the handler
with the lock have for it, and what the messages still without the lock add to
that, is all of it.

The account survives every step but two kinds. A handler that gets the lock
ahead of an earlier message about the same shell swaps the two, or drops its
own where it was ahead of the message that opens the shell. And a shell that
ends takes with it the data that is still in its channel, or that a handler
sends to it from then on. `Meets` is the negation of both.
-/

namespace WebSshTool.Session

open Json

/-! ## What a shell must be given -/

/-- The shell whose input a message is part of: a mere resize is part of none. -/
def Arrival.shell? (a : Arrival) : Option Text :=
  match a.command with
  | some (.start id) | some (.close id) => some id
  | some (.input id messages) =>
      if messages.any PollChannelData.isData then some id else none
  | some .ignored | none => none

def Arrival.about (id : Text) (a : Arrival) : Bool := a.shell? == some id

structure Intake where
  closed : Bool
  data : List PollChannelData
  deriving DecidableEq, Repr

def dataIn (messages : List PollChannelData) : List PollChannelData :=
  messages.filter PollChannelData.isData

/-- One more message about the shell. -/
def Intake.take (t : Intake) (a : Arrival) : Intake :=
  match a.command with
  | some (.close _) => { t with closed := true }
  | some (.input _ messages) =>
      if t.closed then t else { t with data := t.data ++ dataIn messages }
  | _ => t

namespace State

/-- The messages about a shell that came after the one numbered `openedBy`. -/
def since (s : State) (id : Text) (openedBy : Nat) : List Arrival :=
  (s.arrived.filter (Arrival.about id)).filter (openedBy < ·.number)

/-- The data between the message that opened shell `n` and its close. -/
def expected (s : State) (n : Nat) : List PollChannelData :=
  ((s.since (s.channel n).id (s.channel n).openedBy).foldl Intake.take ⟨false, []⟩).data

/-- The messages about a shell whose handlers have not had the lock. -/
def pending (s : State) (id : Text) : List Arrival :=
  (s.locking ++ s.stream).filter (Arrival.about id)

/-- What the handler with the lock is yet to send to shell `n`. -/
def remaining (s : State) (n : Nat) : List PollChannelData :=
  match s.holder with
  | some (_, .sending k messages) | some (_, .flushing k messages) =>
      if k = n then dataIn messages else []
  | _ => []

end State

namespace Shell

def inHand (c : Shell) : List PollChannelData :=
  match c.task with
  | .sending message => [message]
  | _ => []

/-- The data the SSH channel has been given. -/
def handedData (c : Shell) : List PollChannelData := dataIn c.handed

/-- The data that got as far as the channel of the shell. -/
def passed (c : Shell) : List PollChannelData :=
  dataIn (c.handed ++ c.inHand ++ c.slot.toList)

end Shell

/-- Nothing about shell `n` is on its way. -/
def State.Settled (s : State) (n : Nat) : Prop :=
  s.pending (s.channel n).id = [] ∧ s.remaining n = [] ∧
    (s.channel n).passed = (s.channel n).handedData

/-- Every shell has been given the beginning of its input, in order and without
a gap, and all of it where nothing is on its way. -/
def State.InOrder (s : State) : Prop :=
  ∀ n < s.opened, (s.channel n).handedData <+: s.expected n ∧
    (s.Settled n → (s.channel n).handedData = s.expected n)

/-- What a step must find so that no input is swapped or lost. -/
def Meets (s : State) : Label → Prop
  | .lock a =>
      a.shell? ≠ none → ∀ b ∈ s.locking, b.number < a.number → b.shell? ≠ a.shell?
  | .put _ n messages => (s.channel n).task = .ended → dataIn messages = []
  | .sendFailed n _ =>
      dataIn ((s.channel n).inHand ++ (s.channel n).slot.toList) = []
  | .forwardFailed n _ | .closeForwarded n _ => dataIn (s.channel n).slot.toList = []
  | _ => True

instance (s : State) (l : Label) : Decidable (Meets s l) := by
  induction l using Label.casesOn <;> unfold Meets <;> infer_instance

/-! ## Folding the messages -/

theorem Intake.take_closed {t : Intake} (h : t.closed = true) (l : List Arrival) :
    l.foldl Intake.take t = t := by
  induction l with
  | nil => rfl
  | cons a l ih =>
      have ha : t.take a = t := by
        unfold Intake.take
        split
        · rw [← h]
        · rw [if_pos h]
        · rfl
      rw [List.foldl_cons, ha]
      exact ih

theorem Intake.data_prefix_take (t : Intake) (a : Arrival) :
    t.data <+: (t.take a).data := by
  unfold Intake.take
  split
  · exact List.prefix_rfl
  · split
    · exact List.prefix_rfl
    · exact List.prefix_append _ _
  · exact List.prefix_rfl

theorem Intake.data_prefix_foldl (t : Intake) (l : List Arrival) :
    t.data <+: (l.foldl Intake.take t).data := by
  induction l generalizing t with
  | nil => exact List.prefix_rfl
  | cons a l ih => exact (t.data_prefix_take a).trans (ih (t.take a))

@[simp] theorem dataIn_append (l l' : List PollChannelData) :
    dataIn (l ++ l') = dataIn l ++ dataIn l' := List.filter_append ..

@[simp] theorem dataIn_nil : dataIn [] = [] := rfl

/-- The first of the messages that wait comes off the front when no earlier
one about the same shell is among them. -/
theorem exists_cons_of_first {l : List Arrival} {a : Arrival}
    (hsort : l.Pairwise (·.number < ·.number)) (ha : a ∈ l)
    (hfirst : ∀ b ∈ l, ¬ b.number < a.number) : ∃ rest, l = a :: rest := by
  cases l with
  | nil => simp at ha
  | cons b rest =>
      rcases List.mem_cons.mp ha with rfl | hrest
      · exact ⟨rest, rfl⟩
      · exact absurd (List.rel_of_pairwise_cons hsort hrest)
          (hfirst b List.mem_cons_self)

/-- In a list sorted by number the messages after one are those behind it. -/
theorem filter_after_of_suffix {l rest : List Arrival} {a : Arrival}
    (hsort : l.Pairwise (·.number < ·.number)) (h : a :: rest <:+ l) :
    l.filter (a.number < ·.number) = rest := by
  obtain ⟨front, rfl⟩ := h
  obtain ⟨-, hback, hcross⟩ := List.pairwise_append.mp hsort
  have hfront : front.filter (a.number < ·.number) = [] := by
    rw [List.filter_eq_nil_iff]
    intro b hb
    have := hcross b hb a List.mem_cons_self
    simpa using Nat.le_of_lt this
  have hrest : rest.filter (a.number < ·.number) = rest := by
    rw [List.filter_eq_self]
    intro b hb
    simpa using List.rel_of_pairwise_cons hback hb
  rw [List.filter_append, hfront, List.nil_append,
    List.filter_cons_of_neg (by simp), hrest]

/-! ## The account of every shell -/

/-- What has arrived for shell `n` is what it has been given, with all that is
on its way. -/
def State.Accounted (s : State) (n : Nat) : Prop :=
  (s.since (s.channel n).id (s.channel n).openedBy).foldl Intake.take ⟨false, []⟩ =
    (s.pending (s.channel n).id).foldl Intake.take
      ⟨(s.channel n).closed, (s.channel n).passed ++ s.remaining n⟩

structure Inv (s : State) : Prop where
  sorted : s.arrived.Pairwise (·.number < ·.number)
  bound : ∀ a ∈ s.arrived, a.number < s.arrived.length
  opener : ∀ n < s.opened, (s.channel n).openedBy < s.arrived.length
  /-- The messages that wait are the last ones about their shell. -/
  last : ∀ id, s.pending id <:+ s.arrived.filter (Arrival.about id)
  listed : ∀ id n, s.shells id = some n →
    n < s.opened ∧ (s.channel n).id = id ∧ (s.channel n).closed = false
  unlisted : s.finished = false → ∀ n < s.opened, (s.channel n).closed = false →
    s.shells (s.channel n).id = some n
  opening : ∀ a id, s.holder = some (a, .opening id) →
    s.shells id = none ∧ a.number < s.arrived.length ∧ s.since id a.number = s.pending id
  slot : ∀ n, (s.channel n).slot ≠ none → ∃ a ms, s.holder = some (a, .flushing n ms)
  drained : s.finished = true → s.stream = [] ∧ s.locking = [] ∧ s.holder = none
  account : ∀ n < s.opened, s.Accounted n

theorem Inv.init : Inv State.init where
  sorted := .nil
  bound := by simp [State.init]
  opener := by simp [State.init]
  last id := by simp [State.init, State.pending]
  listed := by simp [State.init]
  unlisted := by simp [State.init]
  opening := by simp [State.init]
  slot := by simp [State.init, Shell.absent]
  drained := by simp [State.init]
  account := by simp [State.init]

/-- A step of the task of shell `n`: no data leaves the account. -/
theorem Inv.setShell {s : State} (h : Inv s) {n : Nat} {c : Shell}
    (hw : Wired (s.setShell n c)) (hid : c.id = (s.channel n).id)
    (hby : c.openedBy = (s.channel n).openedBy) (hclosed : c.closed = (s.channel n).closed)
    (hpassed : c.passed = (s.channel n).passed) : Inv (s.setShell n c) := by
  have hsame : ∀ k, ((s.setShell n c).channel k).id = (s.channel k).id ∧
      ((s.setShell n c).channel k).openedBy = (s.channel k).openedBy ∧
      ((s.setShell n c).channel k).closed = (s.channel k).closed ∧
      ((s.setShell n c).channel k).passed = (s.channel k).passed := by
    intro k
    simp only [State.setShell]
    rcases eq_or_ne k n with rfl | hk
    · rw [Function.update_self]
      exact ⟨hid, hby, hclosed, hpassed⟩
    · rw [Function.update_of_ne hk]
      exact ⟨rfl, rfl, rfl, rfl⟩
  refine { h with
    listed := hw.listed, unlisted := hw.unlisted, slot := hw.slot, opener := ?_, account := ?_ }
  · intro k hk
    rw [(hsame k).2.1]
    exact h.opener k hk
  · intro k hk
    obtain ⟨hk1, hk2, hk3, hk4⟩ := hsame k
    unfold State.Accounted
    rw [hk1, hk2, hk3, hk4]
    exact h.account k hk

/-! ## Messages come in -/

theorem Inv.arrive {s : State} (h : Inv s) (request : Option Value)
    (hen : s.finished = false) : Inv (next s (.arrive request)) := by
  let a : Arrival := ⟨s.arrived.length, commandOf request⟩
  have hpending : ∀ id, (next s (.arrive request)).pending id =
      s.pending id ++ [a].filter (Arrival.about id) := by
    intro id
    simp only [State.pending, next]
    rw [← List.append_assoc, List.filter_append]
  have hsince : ∀ id k, k < s.arrived.length → (next s (.arrive request)).since id k =
      s.since id k ++ [a].filter (Arrival.about id) := by
    intro id k hk
    have hall : ([a].filter (Arrival.about id)).filter (k < ·.number) =
        [a].filter (Arrival.about id) := by
      rw [List.filter_eq_self]
      intro b hb
      obtain rfl : b = a := List.mem_singleton.mp (List.mem_of_mem_filter hb)
      simpa using hk
    simp only [State.since, next]
    rw [List.filter_append, List.filter_append, hall]
  have hlength : (next s (.arrive request)).arrived.length = s.arrived.length + 1 := by
    simp [next]
  refine { h with
    sorted := ?_, bound := ?_, opener := ?_, last := ?_, opening := ?_, drained := ?_,
    account := ?_ }
  · refine List.pairwise_append.mpr ⟨h.sorted, List.pairwise_singleton .., ?_⟩
    intro b hb c hc
    obtain rfl := List.mem_singleton.mp hc
    exact h.bound b hb
  · intro b hb
    rw [hlength]
    rcases List.mem_append.mp hb with hb | hb
    · exact Nat.lt_succ_of_lt (h.bound b hb)
    · obtain rfl := List.mem_singleton.mp hb
      exact Nat.lt_succ_self _
  · intro n hn
    rw [hlength]
    exact Nat.lt_succ_of_lt (h.opener n hn)
  · intro id
    obtain ⟨front, hfront⟩ := h.last id
    refine ⟨front, ?_⟩
    rw [hpending, ← List.append_assoc, hfront]
    exact (List.filter_append ..).symm
  · intro b id hb
    obtain ⟨hnone, hlt, hsame⟩ := h.opening b id hb
    refine ⟨hnone, by omega, ?_⟩
    rw [hsince id b.number hlt, hpending, hsame]
  · intro hfin
    rw [show s.finished = true from hfin] at hen
    exact absurd hen (by simp)
  · intro n hn
    have hacc := h.account n hn
    unfold State.Accounted at hacc ⊢
    have hchannel : (next s (.arrive request)).channel n = s.channel n := rfl
    have hremaining : (next s (.arrive request)).remaining n = s.remaining n := rfl
    rw [hchannel, hremaining, hsince _ _ (h.opener n hn), hpending, List.foldl_append,
      List.foldl_append, hacc]

/-- A step that moves no message past the lock and nothing to or from a shell. -/
theorem Inv.frame {s s' : State} (h : Inv s) (hw : Wired s')
    (harrived : s'.arrived = s.arrived) (hpending : ∀ id, s'.pending id = s.pending id)
    (hholder : s'.holder = s.holder) (hopened : s'.opened = s.opened)
    (hchannel : s'.channel = s.channel) : Inv s' where
  sorted := harrived ▸ h.sorted
  bound := harrived ▸ h.bound
  opener := by
    rw [hopened, hchannel, harrived]
    exact h.opener
  last id := by
    rw [hpending, harrived]
    exact h.last id
  listed := hw.listed
  unlisted := hw.unlisted
  opening a id ha := by
    refine ⟨hw.opening a id ha, ?_⟩
    rw [harrived, hpending, State.since, harrived]
    exact (h.opening a id (hholder ▸ ha)).2
  slot := hw.slot
  drained := hw.idle
  account n hn := by
    have hremaining : s'.remaining n = s.remaining n := by
      rw [State.remaining, State.remaining, hholder]
    unfold State.Accounted
    rw [State.since, harrived, hchannel, hpending, hremaining]
    exact h.account n (hopened ▸ hn)

theorem Arrival.not_about_of_none {a : Arrival} (h : a.command = none) (id : Text) :
    a.about id = false := by
  simp [Arrival.about, Arrival.shell?, h]

theorem Inv.start {s : State} (h : Inv s) (hw : Wired (next s .start))
    (hen : s.stream ≠ []) : Inv (next s .start) := by
  obtain ⟨a, rest, hstream⟩ := List.exists_cons_of_ne_nil hen
  revert hw
  simp only [next, hstream]
  split
  · intro hw
    refine h.frame hw rfl ?_ rfl rfl rfl
    intro id
    simp [State.pending, hstream]
  · next hnone =>
      intro hw
      refine h.frame hw rfl ?_ rfl rfl rfl
      intro id
      have hskip := Arrival.not_about_of_none (by simpa using hnone) id
      simp [State.pending, hstream, hskip]

/-! ## Handlers get the lock -/

/-- Under the condition a message leaves the messages that wait from the front. -/
theorem Inv.pending_erase {s : State} (h : Inv s) {a : Arrival} (ha : a ∈ s.locking)
    (hok : Meets s (.lock a)) (id : Text) :
    s.pending id = if a.about id = true
      then a :: { s with locking := s.locking.erase a }.pending id
      else { s with locking := s.locking.erase a }.pending id := by
  have herase : { s with locking := s.locking.erase a }.pending id =
      (s.locking.filter (Arrival.about id)).erase a ++ s.stream.filter (Arrival.about id) := by
    simp only [State.pending]
    rw [List.filter_append, List.erase_filter]
  rw [herase]
  by_cases habout : a.about id = true
  · rw [if_pos habout]
    have hsorted : (s.locking.filter (Arrival.about id)).Pairwise (·.number < ·.number) := by
      have hall : (s.pending id).Pairwise (·.number < ·.number) :=
        (h.sorted.filter _).sublist (h.last id).sublist
      rw [State.pending, List.filter_append] at hall
      exact (List.pairwise_append.mp hall).1
    have hshell : a.shell? = some id := by simpa [Arrival.about] using habout
    obtain ⟨rest, hrest⟩ := exists_cons_of_first hsorted
      (List.mem_filter.mpr ⟨ha, habout⟩) (by
        intro b hb hlt
        obtain ⟨hb, hbabout⟩ := List.mem_filter.mp hb
        refine hok (by simp [hshell]) b hb hlt ?_
        rw [hshell]
        simpa [Arrival.about] using hbabout)
    rw [State.pending, List.filter_append, hrest, List.erase_cons_head]
    rfl
  · rw [if_neg habout, List.erase_of_not_mem (fun hmem => habout (List.of_mem_filter hmem))]
    exact List.filter_append ..

/-- A handler gets the lock. Its message leaves those that wait, and the shells
take it in. -/
theorem Inv.lock {s s' : State} (h : Inv s) (hw : Wired s') {a : Arrival}
    (ha : a ∈ s.locking) (hok : Meets s (.lock a)) (hfree : s.holder = none)
    (harrived : s'.arrived = s.arrived) (hopened : s'.opened = s.opened)
    (hstream : s'.stream = s.stream) (hlocking : s'.locking = s.locking.erase a)
    (hchannel : ∀ n, ∃ closed, s'.channel n = { s.channel n with closed := closed })
    (hopening : ∀ b id, s'.holder = some (b, .opening id) → b = a ∧ a.about id = true)
    (hstep : ∀ n < s.opened, ((if a.about (s.channel n).id = true
        then Intake.take ⟨(s.channel n).closed, (s.channel n).passed⟩ a
        else ⟨(s.channel n).closed, (s.channel n).passed⟩) : Intake) =
      ⟨(s'.channel n).closed, (s.channel n).passed ++ s'.remaining n⟩) :
    Inv s' := by
  have hpending : ∀ id, s.pending id = if a.about id = true
      then a :: s'.pending id else s'.pending id := by
    intro id
    rw [h.pending_erase ha hok id, State.pending, State.pending, hlocking, hstream]
  have hfields : ∀ n, (s'.channel n).id = (s.channel n).id ∧
      (s'.channel n).openedBy = (s.channel n).openedBy ∧
      (s'.channel n).passed = (s.channel n).passed := by
    intro n
    obtain ⟨c, hc⟩ := hchannel n
    rw [hc]
    exact ⟨rfl, rfl, rfl⟩
  have hlast : ∀ id, s'.pending id <:+ s.pending id := by
    intro id
    rw [hpending id]
    split
    · exact List.suffix_cons a _
    · exact List.suffix_rfl
  exact {
    sorted := harrived ▸ h.sorted
    bound := harrived ▸ h.bound
    opener := by
      intro n hn
      rw [(hfields n).2.1, harrived]
      exact h.opener n (hopened ▸ hn)
    last := by
      intro id
      rw [harrived]
      exact (hlast id).trans (h.last id)
    listed := hw.listed
    unlisted := hw.unlisted
    opening := by
      intro b id hb
      obtain ⟨rfl, habout⟩ := hopening b id hb
      have hwait : s.pending id = b :: s'.pending id := by rw [hpending id, if_pos habout]
      have hmem : b ∈ s.arrived :=
        List.mem_of_mem_filter ((h.last id).subset (hwait ▸ List.mem_cons_self))
      refine ⟨hw.opening b id hb, ?_, ?_⟩
      · rw [harrived]
        exact h.bound b hmem
      · rw [State.since, harrived]
        exact filter_after_of_suffix (h.sorted.filter _) (hwait ▸ h.last id)
    slot := hw.slot
    drained := hw.idle
    account := by
      intro n hn
      obtain ⟨hid, hby, hpassed⟩ := hfields n
      have hacc := h.account n (hopened ▸ hn)
      have hnothing : s.remaining n = [] := by simp [State.remaining, hfree]
      unfold State.Accounted at hacc ⊢
      rw [State.since, harrived, hid, hby, hpassed, ← hstep n (hopened ▸ hn)]
      rw [State.since, hnothing, List.append_nil, hpending (s.channel n).id] at hacc
      rw [hacc]
      split
      · rw [List.foldl_cons]
      · rfl }

theorem Arrival.about_start {a : Arrival} {id : Text} (h : a.command = some (.start id))
    (id' : Text) : a.about id' = true ↔ id = id' := by
  simp [Arrival.about, Arrival.shell?, h]

theorem Arrival.about_close {a : Arrival} {id : Text} (h : a.command = some (.close id))
    (id' : Text) : a.about id' = true ↔ id = id' := by
  simp [Arrival.about, Arrival.shell?, h]

theorem any_isData {messages : List PollChannelData} :
    messages.any PollChannelData.isData = true ↔ dataIn messages ≠ [] := by
  simp [dataIn]

theorem Arrival.about_input {a : Arrival} {id : Text} {messages : List PollChannelData}
    (h : a.command = some (.input id messages)) (id' : Text) :
    a.about id' = true ↔ id = id' ∧ dataIn messages ≠ [] := by
  rw [← any_isData]
  simp only [Arrival.about, Arrival.shell?, h]
  split
  · next hd => simp [hd]
  · next hd => simp [hd]

/-- A message the shells take no notice of: the shell is gone, or the message
is not about its input. -/
theorem Inv.lock_respond {s : State} (h : Inv s) {a : Arrival} (ha : a ∈ s.locking)
    (hok : Meets s (.lock a)) (hfree : s.holder = none)
    (hw : Wired ({ s with locking := s.locking.erase a }.respond a .null))
    (hsame : ∀ n < s.opened, a.about (s.channel n).id = true → ∀ data,
      Intake.take ⟨(s.channel n).closed, data⟩ a = ⟨(s.channel n).closed, data⟩) :
    Inv ({ s with locking := s.locking.erase a }.respond a .null) := by
  refine h.lock hw ha hok hfree rfl rfl rfl rfl (fun n => ⟨_, rfl⟩) ?_ ?_
  · intro b id hb
    simp [State.respond] at hb
  · intro n hn
    have hnothing : ({ s with locking := s.locking.erase a }.respond a .null).remaining n = [] :=
      rfl
    rw [hnothing, List.append_nil]
    split
    · next habout => exact hsame n hn habout _
    · rfl

/-- No shell of an id that is not listed takes in anything more. -/
theorem Inv.take_unlisted {s : State} (h : Inv s) (hopen : s.finished = false) {id : Text}
    (hnone : s.shells id = none) {n : Nat} (hn : n < s.opened)
    (hid : (s.channel n).id = id) (a : Arrival) (data : List PollChannelData) :
    Intake.take ⟨(s.channel n).closed, data⟩ a = ⟨(s.channel n).closed, data⟩ := by
  cases hc : (s.channel n).closed with
  | true => exact Intake.take_closed rfl [a]
  | false =>
      have hlisted := h.unlisted hopen n hn hc
      rw [hid, hnone] at hlisted
      exact absurd hlisted (by simp)

/-- The shell of an id is the only one of it that still takes something in. -/
theorem Inv.closed_of_listed {s : State} (h : Inv s) (hopen : s.finished = false) {id : Text}
    {n : Nat} (hlist : s.shells id = some n) {k : Nat} (hk : k < s.opened)
    (hid : (s.channel k).id = id) (hne : k ≠ n) : (s.channel k).closed = true := by
  cases hc : (s.channel k).closed with
  | true => rfl
  | false =>
      have hlisted := h.unlisted hopen k hk hc
      rw [hid, hlist] at hlisted
      exact absurd (Option.some.inj hlisted).symm hne

theorem Inv.lock_close {s : State} (h : Inv s) {a : Arrival} (ha : a ∈ s.locking)
    (hok : Meets s (.lock a)) (hfree : s.holder = none) (hopen : s.finished = false)
    {id : Text} (hcmd : a.command = some (.close id)) {n : Nat} (hlist : s.shells id = some n)
    (hw : Wired (({ s with
        locking := s.locking.erase a
        shells := Function.update s.shells id none }.setShell n
          { s.channel n with closed := true }).respond a .null)) :
    Inv (({ s with
        locking := s.locking.erase a
        shells := Function.update s.shells id none }.setShell n
          { s.channel n with closed := true }).respond a .null) := by
  obtain ⟨-, hid, -⟩ := h.listed id n hlist
  have hother : ∀ k, k ≠ n → Function.update s.channel n
      { s.channel n with closed := true } k = s.channel k :=
    fun k hk => Function.update_of_ne hk _ _
  have hself : Function.update s.channel n { s.channel n with closed := true } n =
      { s.channel n with closed := true } := Function.update_self ..
  refine h.lock hw ha hok hfree rfl rfl rfl rfl ?_ (by simp [State.respond]) ?_
  · intro k
    rcases eq_or_ne k n with rfl | hk
    · exact ⟨true, hself⟩
    · exact ⟨_, hother k hk⟩
  · intro k hk
    have habout := Arrival.about_close hcmd (s.channel k).id
    simp only [State.respond, State.setShell, State.remaining, List.append_nil]
    rcases eq_or_ne k n with rfl | hkn
    · rw [hself, if_pos (habout.mpr hid.symm)]
      simp [Intake.take, hcmd]
    · rw [hother k hkn]
      split
      · next hab =>
          have hclosed := h.closed_of_listed hopen hlist hk (habout.mp hab).symm hkn
          exact Intake.take_closed hclosed [a]
      · rfl

theorem Inv.lock_input {s : State} (h : Inv s) {a : Arrival} (ha : a ∈ s.locking)
    (hok : Meets s (.lock a)) (hfree : s.holder = none) (hopen : s.finished = false)
    {id : Text} {messages : List PollChannelData}
    (hcmd : a.command = some (.input id messages)) {n : Nat} (hlist : s.shells id = some n)
    (hw : Wired { s with
      locking := s.locking.erase a
      holder := some (a, .sending n messages) }) :
    Inv { s with
      locking := s.locking.erase a
      holder := some (a, .sending n messages) } := by
  obtain ⟨-, hid, hclosed⟩ := h.listed id n hlist
  refine h.lock hw ha hok hfree rfl rfl rfl rfl (fun n => ⟨_, rfl⟩) (by simp) ?_
  intro k hk
  have habout := Arrival.about_input hcmd (s.channel k).id
  simp only [State.remaining]
  rcases eq_or_ne k n with rfl | hkn
  · rw [if_pos rfl, hclosed]
    split
    · simp [Intake.take, hcmd]
    · next hnot =>
        have hnil : dataIn messages = [] := by
          by_contra hne
          exact hnot (habout.mpr ⟨hid.symm, hne⟩)
        rw [hnil, List.append_nil]
  · rw [if_neg (Ne.symm hkn), List.append_nil]
    split
    · next hab =>
        have hdone := h.closed_of_listed hopen hlist hk (habout.mp hab).1.symm hkn
        exact Intake.take_closed hdone [a]
    · rfl

theorem Inv.handle {s : State} (h : Inv s) {a : Arrival}
    (hw : Wired (next s (.lock a))) (ha : a ∈ s.locking) (hok : Meets s (.lock a))
    (hfree : s.holder = none) : Inv (next s (.lock a)) := by
  have hopen : s.finished = false := by
    cases hfin : s.finished with
    | false => rfl
    | true =>
        rw [(h.drained hfin).2.1] at ha
        exact absurd ha (by simp)
  have hrespond := h.lock_respond ha hok hfree
  revert hw
  simp only [next, State.handle]
  split
  · next id hcmd =>
      split
      · -- the shell is to be opened
        intro hw
        refine h.lock hw ha hok hfree rfl rfl rfl rfl (fun n => ⟨_, rfl⟩) ?_ ?_
        · intro b id' hb
          obtain ⟨rfl, rfl⟩ : a = b ∧ id = id' := by simpa using hb
          exact ⟨rfl, (Arrival.about_start hcmd id).mpr rfl⟩
        · intro n hn
          simp [State.remaining, Intake.take, hcmd]
      · intro hw
        refine hrespond hw fun n hn _ data => ?_
        simp [Intake.take, hcmd]
  · next id hcmd =>
      split
      · next n hlist => exact h.lock_close ha hok hfree hopen hcmd hlist
      · next hnone =>
          intro hw
          exact hrespond hw fun k hk habout data => h.take_unlisted hopen hnone hk
            ((Arrival.about_close hcmd _).mp habout).symm a data
  · next id messages hcmd =>
      split
      · next n hlist => exact h.lock_input ha hok hfree hopen hcmd hlist
      · next hnone =>
          intro hw
          exact hrespond hw fun k hk habout data => h.take_unlisted hopen hnone hk
            ((Arrival.about_input hcmd _).mp habout).1.symm a data
  · next hcmd =>
      intro hw
      exact hrespond hw fun n _ _ data => by simp [Intake.take, hcmd]
  · next hcmd =>
      intro hw
      exact hrespond hw fun n _ _ data => by simp [Intake.take, hcmd]

/-! ## The handler with the lock goes on -/

/-- No message about a shell gets past the lock and every shell's part of what
has been sent stays what it was. -/
theorem Inv.hold {s s' : State} (h : Inv s) (hw : Wired s')
    (harrived : s'.arrived = s.arrived) (hopened : s'.opened = s.opened)
    (hstream : s'.stream = s.stream) (hlocking : s'.locking = s.locking)
    (hopening : ∀ b id, s'.holder ≠ some (b, .opening id))
    (hchannel : ∀ n, ∃ slot, s'.channel n = { s.channel n with slot := slot })
    (hsum : ∀ n, (s'.channel n).passed ++ s'.remaining n =
      (s.channel n).passed ++ s.remaining n) : Inv s' := by
  have hpending : ∀ id, s'.pending id = s.pending id := by
    intro id
    rw [State.pending, State.pending, hlocking, hstream]
  have hfields : ∀ n, (s'.channel n).id = (s.channel n).id ∧
      (s'.channel n).openedBy = (s.channel n).openedBy ∧
      (s'.channel n).closed = (s.channel n).closed := by
    intro n
    obtain ⟨c, hc⟩ := hchannel n
    rw [hc]
    exact ⟨rfl, rfl, rfl⟩
  exact {
    sorted := harrived ▸ h.sorted
    bound := harrived ▸ h.bound
    opener := by
      intro n hn
      rw [(hfields n).2.1, harrived]
      exact h.opener n (hopened ▸ hn)
    last := by
      intro id
      rw [hpending, harrived]
      exact h.last id
    listed := hw.listed
    unlisted := hw.unlisted
    opening := by
      intro b id hb
      exact absurd hb (hopening b id)
    slot := hw.slot
    drained := hw.idle
    account := by
      intro n hn
      obtain ⟨hid, hby, hclosed⟩ := hfields n
      unfold State.Accounted
      rw [State.since, harrived, hid, hby, hclosed, hpending, hsum]
      exact h.account n (hopened ▸ hn) }

theorem Inv.respond {s : State} (h : Inv s) {a : Arrival} {reply : Reply}
    (hw : Wired (s.respond a reply)) (hnothing : ∀ n, s.remaining n = []) :
    Inv (s.respond a reply) := by
  refine h.hold hw rfl rfl rfl rfl (by simp [State.respond]) (fun n => ⟨_, rfl⟩) ?_
  intro n
  rw [hnothing n]
  rfl

theorem Inv.put {s : State} (h : Inv s) (hw : Wired s) {a : Arrival} {n : Nat}
    {messages : List PollChannelData} (hen : s.holder = some (a, .sending n messages))
    (hok : Meets s (.put a n messages)) : Inv (next s (.put a n messages)) := by
  have hslot := hw.slot_none (by simp [hen])
  have hremaining : ∀ k, s.remaining k = if n = k then dataIn messages else [] := by
    intro k
    simp [State.remaining, hen]
  have hput := hw.put hen
  cases messages with
  | nil => exact h.respond hput fun k => by simp [hremaining k]
  | cons message rest =>
      revert hput
      simp only [next]
      split
      · next hended =>
          -- the task is gone, and with it what the handler was about to send
          intro hput
          refine h.respond hput fun k => ?_
          rw [hremaining k, hok hended, ite_self]
      · intro hput
        refine h.hold hput rfl rfl rfl rfl (by simp) ?_ ?_
        · intro k
          simp only [State.setShell]
          rcases eq_or_ne k n with rfl | hk
          · rw [Function.update_self]
            exact ⟨_, rfl⟩
          · rw [Function.update_of_ne hk]
            exact ⟨_, rfl⟩
        · intro k
          rw [hremaining k]
          simp only [State.setShell, State.remaining]
          rcases eq_or_ne k n with rfl | hk
          · have hfirst : dataIn (message :: rest) = dataIn [message] ++ dataIn rest :=
              dataIn_append [message] rest
            rw [Function.update_self, if_pos rfl, if_pos rfl, hfirst]
            simp [Shell.passed, Shell.inHand, hslot k]
          · rw [Function.update_of_ne hk, if_neg (Ne.symm hk), if_neg (Ne.symm hk)]

theorem Inv.flushed {s : State} (h : Inv s) {a : Arrival} {n : Nat}
    {messages : List PollChannelData} (hw : Wired (next s (.flushed a n messages)))
    (hen : s.holder = some (a, .flushing n messages)) :
    Inv (next s (.flushed a n messages)) := by
  refine h.hold hw rfl rfl rfl rfl (by simp [next]) (fun n => ⟨_, rfl⟩) ?_
  intro k
  simp [next, State.remaining, hen]

theorem Inv.opened {s : State} (h : Inv s) {a : Arrival} {id : Text} {ok : Bool}
    (hw : Wired (next s (.opened a id ok))) (hen : s.holder = some (a, .opening id)) :
    Inv (next s (.opened a id ok)) := by
  have hnothing : ∀ n, s.remaining n = [] := by
    intro n
    simp [State.remaining, hen]
  cases ok with
  | false => exact h.respond hw hnothing
  | true =>
      obtain ⟨-, hlt, hsince⟩ := h.opening a id hen
      have hold : ∀ n, n < s.opened → Function.update s.channel s.opened
          (Shell.fresh id a.number) n = s.channel n :=
        fun n hn => Function.update_of_ne (Nat.ne_of_lt hn) _ _
      have hnew : Function.update s.channel s.opened (Shell.fresh id a.number) s.opened =
          Shell.fresh id a.number := Function.update_self ..
      revert hw
      simp only [next, cond_true, State.respond, State.openShell]
      intro hw
      refine { h with
        listed := hw.listed, unlisted := hw.unlisted, slot := hw.slot, drained := hw.idle
        opener := ?_, opening := ?_, account := ?_ }
      · intro n hn
        rcases Nat.lt_succ_iff_lt_or_eq.mp hn with hn | rfl
        · simp only [hold n hn]
          exact h.opener n hn
        · simp only [hnew]
          exact hlt
      · simp
      · intro n hn
        unfold State.Accounted
        rcases Nat.lt_succ_iff_lt_or_eq.mp hn with hn | rfl
        · have hacc := h.account n hn
          unfold State.Accounted at hacc
          rw [hnothing n] at hacc
          simp only [hold n hn]
          exact hacc
        · simp only [hnew]
          exact congrArg (List.foldl Intake.take ⟨false, []⟩) hsince

/-! ## Every step keeps the account -/

theorem Inv.finish {s : State} (h : Inv s) (hw : Wired (next s .finish)) :
    Inv (next s .finish) :=
  { h with
    listed := hw.listed
    unlisted := hw.unlisted
    opening := fun a id ha => ⟨rfl, (h.opening a id ha).2⟩
    drained := hw.idle }

theorem Inv.next {s : State} {l : Label} (h : Inv s) (hs : Wired s) (hen : enabled s l)
    (hok : Meets s l) : Inv (next s l) := by
  have hw := hs.next hen
  cases l with
  | arrive request => exact h.arrive request hen
  | start => exact h.start hw hen.1
  | lock a => exact h.handle hw hen.1 hok hen.2
  | opened a id ok => exact h.opened hw hen
  | put a n messages => exact h.put hs hen hok
  | flushed a n messages => exact h.flushed hw hen.1
  | served a | replied a reply => exact h.frame hw rfl (fun _ => rfl) rfl rfl rfl
  | finish => exact h.finish hw
  | popped n message =>
      refine h.setShell hw rfl rfl rfl ?_
      simp [Shell.passed, Shell.inHand, hen.1, hen.2]
  | hungUp n =>
      refine h.setShell hw rfl rfl rfl ?_
      simp [Shell.passed, Shell.inHand, hen.1]
  | channelEnded n | output n bytes =>
      refine h.setShell hw rfl rfl rfl ?_
      simp [Shell.passed, Shell.inHand, show (s.channel n).task = _ from hen]
  | handed n message | forwarded n bytes =>
      refine h.setShell hw rfl rfl rfl ?_
      simp [Shell.passed, Shell.inHand, show (s.channel n).task = _ from hen]
  | sendFailed n message =>
      refine h.setShell hw rfl rfl rfl ?_
      have hlost : dataIn ((s.channel n).inHand ++ (s.channel n).slot.toList) = [] := hok
      have hrest : (s.channel n).ending.inHand = [] := rfl
      simp only [Shell.passed, List.append_assoc, dataIn_append, hrest] at hlost ⊢
      rw [hlost]
      rfl
  | forwardFailed n bytes | closeForwarded n taken =>
      refine h.setShell hw rfl rfl rfl ?_
      have hlost : dataIn (s.channel n).slot.toList = [] := hok
      simp [Shell.passed, Shell.inHand, Shell.ending, hlost,
        show (s.channel n).task = _ from hen]

/-! ## What a shell is given -/

theorem Inv.inOrder {s : State} (h : Inv s) : s.InOrder := by
  intro n hn
  have hacc := h.account n hn
  unfold State.Accounted at hacc
  have hexpected : s.expected n = ((s.pending (s.channel n).id).foldl Intake.take
      ⟨(s.channel n).closed, (s.channel n).passed ++ s.remaining n⟩).data := by
    rw [State.expected, hacc]
  constructor
  · have hpassed : (s.channel n).handedData <+: (s.channel n).passed := by
      rw [Shell.handedData, Shell.passed, List.append_assoc, dataIn_append]
      exact List.prefix_append _ _
    rw [hexpected]
    exact (hpassed.trans (List.prefix_append _ _)).trans
      (Intake.data_prefix_foldl ⟨_, _⟩ _)
  · rintro ⟨hnone, hremaining, hpassed⟩
    rw [hexpected, hnone, hremaining, hpassed, List.append_nil]
    rfl

/-- Along a run whose steps all meet the condition no input is swapped or
lost, at any time and for any shell. -/
theorem shell_inOrder {s : State} (hs : machine.Reaches Meets s) : s.InOrder := by
  have hinv : Inv s :=
    hs.invariant (I := Inv) Inv.init fun _ _ hr h hen hok =>
      h.next (reachable_wired hr.reachable) hen hok
  exact hinv.inOrder

/-- The request to open shell "1", and a key typed into it. -/
def openRequest : Option Value := some (.obj [(ofString "shell", .str [0x31])])

def keyRequest (key : Nat) : Option Value :=
  some (.obj [(ofString "shell",
    .obj [(ofString "id", .str [0x31]), (ofString "data", .str [key])])])

def opener : Arrival := ⟨0, some (.start [0x31])⟩

def typed (number key : Nat) : Arrival :=
  ⟨number, some (.input [0x31] [.string [key]])⟩

/-- The handler of a key message, from the lock to the end. -/
def typing (a : Arrival) (key : Nat) : List Label :=
  [.lock a, .put a 0 [.string [key]], .popped 0 (.string [key]), .flushed a 0 [],
    .put a 0 [], .handed 0 (.string [key])]

/-- Two keys are typed right behind the request that opens the shell. -/
def typedRun : List Label :=
  [.arrive openRequest, .arrive (keyRequest 0x61), .arrive (keyRequest 0x62),
    .start, .start, .start, .lock opener, .opened opener [0x31] true] ++
    typing (typed 1 0x61) 0x61 ++ typing (typed 2 0x62) 0x62

theorem shell_inOrder_typed : (typedRun.foldl next State.init).InOrder :=
  shell_inOrder (Machine.reaches_of_path (M := machine) (by decide))

/-- Four keys. The handler of the second waits while the first is sent, and the
third queues up behind it. When the second has got the lock its place among the
wakers is free for the fourth, which is therefore woken before the third. -/
def swappedRun : List Label :=
  [.arrive openRequest, .start, .lock opener, .opened opener [0x31] true,
    .replied opener .null,
    .arrive (keyRequest 0x61), .start, .lock (typed 1 0x61),
    .put (typed 1 0x61) 0 [.string [0x61]],
    .arrive (keyRequest 0x62), .start, .arrive (keyRequest 0x63), .start,
    .popped 0 (.string [0x61]), .flushed (typed 1 0x61) 0 [], .put (typed 1 0x61) 0 [],
    .lock (typed 2 0x62), .put (typed 2 0x62) 0 [.string [0x62]],
    .arrive (keyRequest 0x64), .start,
    .handed 0 (.string [0x61]), .popped 0 (.string [0x62]),
    .flushed (typed 2 0x62) 0 [], .put (typed 2 0x62) 0 [], .handed 0 (.string [0x62])] ++
    typing (typed 4 0x64) 0x64

theorem shell_swaps : ¬ ∀ s : State, machine.Reachable s → s.InOrder := by
  intro h
  have hs : machine.Reachable (swappedRun.foldl next State.init) :=
    Machine.reaches_of_path (M := machine) (by decide)
  have hprefix := (h _ hs 0 (by decide)).1
  revert hprefix
  decide

end WebSshTool.Session
