import WebSshTool.Dispatch.Messages

/-!
# The order in which messages are dispatched

From the moment its bytes are handed to `decompressAndJson` a message cannot
be overtaken: the worker is a queue, and its failure loses what is in the
queue. So the events of shells and watches that are dispatched, and behind
them those that wait for the worker, form one line, which a message only
enters at its end. Nothing, however, makes messages enter it in the order they
arrived. A blob enters when it has been read, a text frame ahead of the whole
queue.

`Sequenced` leaves out the steps at which an event enters the line before an
earlier one. The runs that remain keep the line in order, whatever else
happens, and with it the calls of the listeners.
-/

namespace WebSshTool.Dispatch

open Json

section

variable (ungzip : Ungzip)

/-- What message `number` decodes to. -/
def contentOf (arrived : List Frame) (number : Nat) : Option Value :=
  arrived[number]?.bind (Frame.content ungzip)

/-- Message `number` is an event of a shell or of a watch. -/
def isEvent (arrived : List Frame) (number : Nat) : Bool :=
  ((contentOf ungzip arrived number).bind dispatch).any Invocation.isEvent

/-- The messages for which listeners of shells and watches were called. -/
def State.heard (s : State) : List Nat :=
  (s.invoked.filter fun p => p.2.isEvent).map Prod.fst

/-- Listeners are called in the order the messages arrived, each with what its
message says. -/
def State.InOrder (s : State) : Prop :=
  s.heard.Pairwise (· < ·) ∧
  ∀ p ∈ s.invoked, (contentOf ungzip s.arrived p.1).bind dispatch = some p.2

/-- No blob before message `number` that holds an event is still being read. -/
def State.Read (s : State) (number : Nat) : Prop :=
  ∀ p ∈ s.reading, p.1 < number → isEvent ungzip s.arrived p.1 = false

def Caller.number? : Caller → Option Nat
  | .message number => some number
  | .other => none

/-- The messages that wait for the worker. -/
def State.waiting (s : State) : List Nat := s.suspend.filterMap fun c => c.2.number?

/-- No event waits for the worker. -/
def State.Idle (s : State) : Prop :=
  ∀ number ∈ s.waiting, isEvent ungzip s.arrived number = false

/-- What a step must be so that no event gets ahead of an earlier one. -/
def Sequenced (s : State) : Label → Prop
  | .read number _ => isEvent ungzip s.arrived number = true → s.Read ungzip number
  | .receive (.arrayBuffer bytes) =>
      (Frame.arrayBuffer bytes).isEvent ungzip = true → s.Read ungzip s.arrived.length
  | .receive (.text t) =>
      (Frame.text t).isEvent ungzip = true →
        s.Read ungzip s.arrived.length ∧ s.Idle ungzip
  | _ => True

instance (s : State) (number : Nat) : Decidable (s.Read ungzip number) :=
  inferInstanceAs (Decidable (∀ p ∈ s.reading, _))

instance (s : State) : Decidable (s.Idle ungzip) :=
  inferInstanceAs (Decidable (∀ number ∈ s.waiting, _))

instance (s : State) (l : Label) : Decidable (Sequenced ungzip s l) := by
  induction l using Label.casesOn with
  | receive f => induction f using Frame.casesOn <;> unfold Sequenced <;> infer_instance
  | _ => unfold Sequenced; infer_instance

instance (s : State) (l : Label) : Decidable ((machine ungzip).enabled s l) :=
  inferInstanceAs (Decidable (enabled s l))

end

section

variable {ungzip : Ungzip}

/-! ## What a message says does not change -/

theorem contentOf_append {arrived : List Frame} {number : Nat} (f : Frame)
    (h : number < arrived.length) :
    contentOf ungzip (arrived ++ [f]) number = contentOf ungzip arrived number := by
  unfold contentOf
  rw [List.getElem?_append_left h]

theorem contentOf_length (arrived : List Frame) (f : Frame) :
    contentOf ungzip (arrived ++ [f]) arrived.length = f.content ungzip := by
  unfold contentOf
  rw [List.getElem?_append_right (Nat.le_refl _), Nat.sub_self]
  rfl

theorem isEvent_append {arrived : List Frame} {number : Nat} (f : Frame)
    (h : number < arrived.length) :
    isEvent ungzip (arrived ++ [f]) number = isEvent ungzip arrived number := by
  unfold isEvent
  rw [contentOf_append f h]

theorem isEvent_length (arrived : List Frame) (f : Frame) :
    isEvent ungzip (arrived ++ [f]) arrived.length = f.isEvent ungzip := by
  unfold isEvent
  rw [contentOf_length]
  rfl

theorem lt_of_contentOf {arrived : List Frame} {number : Nat} {i : Invocation}
    (h : (contentOf ungzip arrived number).bind dispatch = some i) :
    number < arrived.length := by
  by_contra hn
  unfold contentOf at h
  rw [List.getElem?_eq_none (by omega)] at h
  exact absurd h (by simp)

/-! ## Resuming the listener -/

/-- The invocations of a message that has come to `obj`. -/
def resumed (number : Nat) (obj : Option Value) : List (Nat × Invocation) :=
  (obj.bind dispatch).toList.map fun i => (number, i)

theorem State.resume_eq (s : State) (number : Nat) (obj : Option Value) :
    s.resume number obj = { s with invoked := s.invoked ++ resumed number obj } := by
  unfold State.resume resumed
  cases obj.bind dispatch with
  | none => simp
  | some i => rfl

/-- What a rejected promise is resumed with is dropped. -/
theorem State.rejected_eq (s : State) (c : Caller) : s.rejected ungzip c = s := by
  cases c with
  | message number =>
      show s.resume number (inflateAndJson ungzip none) = s
      rw [State.resume_eq]
      simp [resumed, inflateAndJson, inflate]
  | other => rfl

theorem State.onClose_eq (s : State) :
    s.onClose ungzip = { s with closed := true, suspend := [] } := by
  unfold State.onClose
  generalize s.suspend.map Prod.snd = callers
  induction callers with
  | nil => rfl
  | cons c callers ih =>
      rw [List.foldl_cons, State.rejected_eq]
      exact ih

/-- A message's own entry of the line. -/
def entry (ungzip : Ungzip) (arrived : List Frame) (number : Nat) : List Nat :=
  if isEvent ungzip arrived number then [number] else []

theorem heard_resumed {arrived : List Frame} {number : Nat} {obj : Option Value}
    (h : contentOf ungzip arrived number = obj) :
    ((resumed number obj).filter fun p => p.2.isEvent).map Prod.fst =
      entry ungzip arrived number := by
  unfold resumed entry isEvent
  rw [h]
  cases obj.bind dispatch with
  | none => simp
  | some i => cases hi : i.isEvent <;> simp [hi]

theorem filter_number (arrived : List Frame) (number : Nat) :
    [number].filter (isEvent ungzip arrived) = entry ungzip arrived number := by
  unfold entry
  cases h : isEvent ungzip arrived number <;> simp [h]

/-! ## The queue of the worker -/

/-- The tags whose replies are still to come, in the order they will. -/
def State.queue (s : State) : List Nat := s.outbox.map Prod.fst ++ s.inbox.map Prod.fst

/-- The bookkeeping of the page and the worker. -/
structure Inv (ungzip : Ungzip) (s : State) : Prop where
  reading : ∀ p ∈ s.reading, s.arrived[p.1]? = some (.blob p.2)
  once : (s.reading.map Prod.fst).Nodup
  queued : s.queue.Pairwise (· < ·)
  below : ∀ tag ∈ s.queue, tag < s.tag
  tags : s.suspend.Pairwise fun c d => c.1 < d.1
  pending : ∀ c ∈ s.suspend, c.1 ∈ s.queue
  known : ∀ number ∈ s.waiting, number < s.arrived.length
  asked : ∀ tag number order, (tag, .message number) ∈ s.suspend →
    (tag, order) ∈ s.inbox →
      order.handle ungzip = contentOf ungzip s.arrived number
  answered : ∀ tag number data, (tag, .message number) ∈ s.suspend →
    (tag, data) ∈ s.outbox → data = contentOf ungzip s.arrived number
  closed : s.closed = true → s.suspend = []
  invoked : ∀ p ∈ s.invoked,
    (contentOf ungzip s.arrived p.1).bind dispatch = some p.2

theorem mem_waiting {s : State} {tag number : Nat}
    (h : (tag, .message number) ∈ s.suspend) : number ∈ s.waiting :=
  List.mem_filterMap.mpr ⟨_, h, rfl⟩

/-- In a sorted map, the least tag is the first entry's. -/
theorem eq_cons_of_find? {α : Type*} {l : List (Nat × α)} {tag : Nat} {c : Nat × α}
    (hl : l.Pairwise fun c d => c.1 < d.1) (hle : ∀ c ∈ l, tag ≤ c.1)
    (h : l.find? (fun c => c.1 == tag) = some c) :
    c.1 = tag ∧ l = c :: l.filter fun c => c.1 != tag := by
  cases l with
  | nil => exact absurd h (by simp)
  | cons a l =>
      have ha := hle a (.head _)
      have hrest : ∀ d ∈ l, d.1 ≠ tag := by
        intro d hd
        have := (List.pairwise_cons.mp hl).1 d hd
        omega
      by_cases heq : a.1 = tag
      · rw [List.find?_cons_of_pos (by simpa using heq)] at h
        obtain rfl : a = c := by simpa using h
        refine ⟨heq, ?_⟩
        rw [List.filter_cons_of_neg (by simpa using heq), List.filter_eq_self.mpr]
        intro d hd
        simpa using hrest d hd
      · rw [List.find?_cons_of_neg (by simpa using heq)] at h
        have hmem := List.mem_of_find?_eq_some h
        have htag : c.1 = tag := by simpa using List.find?_some h
        exact absurd htag (hrest c hmem)

theorem Inv.init : Inv ungzip State.init where
  reading := by simp [State.init]
  once := .nil
  queued := .nil
  below := by simp [State.init, State.queue]
  tags := .nil
  pending := by simp [State.init]
  known := by simp [State.init, State.waiting]
  asked := by simp [State.init]
  answered := by simp [State.init]
  closed := by simp [State.init]
  invoked := by simp [State.init]

theorem Inv.arrive {s : State} (h : Inv ungzip s) (f : Frame) :
    Inv ungzip { s with arrived := s.arrived ++ [f] } where
  reading := by
    intro p hp
    have hlt := (List.getElem?_eq_some_iff.mp (h.reading p hp)).1
    rw [← h.reading p hp]
    exact List.getElem?_append_left hlt
  once := h.once
  queued := h.queued
  below := h.below
  tags := h.tags
  pending := h.pending
  known := by
    intro number hn
    have := h.known number hn
    simp only [List.length_append, List.length_singleton]
    omega
  asked := by
    intro tag number order hs ho
    rw [h.asked tag number order hs ho]
    exact (contentOf_append f (h.known number (mem_waiting hs))).symm
  answered := by
    intro tag number data hs ho
    rw [h.answered tag number data hs ho]
    exact (contentOf_append f (h.known number (mem_waiting hs))).symm
  closed := h.closed
  invoked := by
    intro p hp
    have hc := h.invoked p hp
    rw [← hc]
    exact congrArg (·.bind dispatch) (contentOf_append f (lt_of_contentOf hc))

theorem Inv.setReading {s : State} (h : Inv ungzip s) (reading : List (Nat × List UInt8))
    (hreading : ∀ p ∈ reading, s.arrived[p.1]? = some (.blob p.2))
    (honce : (reading.map Prod.fst).Nodup) : Inv ungzip { s with reading } :=
  { h with reading := hreading, once := honce }

theorem Inv.erase {s : State} (h : Inv ungzip s) (p : Nat × List UInt8) :
    Inv ungzip { s with reading := s.reading.erase p } :=
  h.setReading _ (fun q hq => h.reading q (List.mem_of_mem_erase hq))
    (h.once.sublist (List.erase_sublist.map _))

theorem Inv.resume {s : State} (h : Inv ungzip s) {number : Nat} {obj : Option Value}
    (hobj : contentOf ungzip s.arrived number = obj) :
    Inv ungzip (s.resume number obj) := by
  rw [State.resume_eq]
  refine { h with invoked := ?_ }
  intro p hp
  rcases List.mem_append.mp hp with hp | hp
  · exact h.invoked p hp
  · obtain ⟨i, hi, rfl⟩ := List.mem_map.mp hp
    rw [hobj]
    exact Option.mem_toList.mp hi

theorem Inv.request {s : State} (h : Inv ungzip s) {caller : Caller} {order : Order}
    (hopen : s.closed = false)
    (horder : ∀ number, caller = .message number → number < s.arrived.length ∧
      order.handle ungzip = contentOf ungzip s.arrived number) :
    Inv ungzip (s.request caller order) := by
  have hqueue : (s.request caller order).queue = s.queue ++ [s.tag] := by
    simp [State.queue, State.request]
  have hnew : ∀ c ∈ s.suspend, c.1 < s.tag := fun c hc => h.below _ (h.pending c hc)
  refine { h with
    queued := ?_, below := ?_, tags := ?_, pending := ?_, known := ?_, asked := ?_,
    answered := ?_, closed := ?_ }
  · rw [hqueue, List.pairwise_append]
    refine ⟨h.queued, List.pairwise_singleton _ _, ?_⟩
    intro t ht u hu
    obtain rfl := List.mem_singleton.mp hu
    exact h.below t ht
  · intro t ht
    show t < s.tag + 1
    rw [hqueue] at ht
    rcases List.mem_append.mp ht with ht | ht
    · have := h.below t ht
      omega
    · have := List.mem_singleton.mp ht
      omega
  · show (s.suspend ++ [(s.tag, caller)]).Pairwise _
    rw [List.pairwise_append]
    refine ⟨h.tags, List.pairwise_singleton _ _, ?_⟩
    intro c hc d hd
    obtain rfl := List.mem_singleton.mp hd
    exact hnew c hc
  · intro c hc
    rw [hqueue]
    rcases List.mem_append.mp hc with hc | hc
    · exact List.mem_append_left _ (h.pending c hc)
    · obtain rfl := List.mem_singleton.mp hc
      exact List.mem_append_right _ (.head _)
  · intro number hn
    obtain ⟨c, hc, hnumber⟩ := List.mem_filterMap.mp hn
    rcases List.mem_append.mp hc with hc | hc
    · exact h.known number (List.mem_filterMap.mpr ⟨c, hc, hnumber⟩)
    · obtain rfl := List.mem_singleton.mp hc
      cases caller with
      | message m =>
          obtain rfl : m = number := by simpa [Caller.number?] using hnumber
          exact (horder m rfl).1
      | other => exact absurd hnumber (by simp [Caller.number?])
  · intro tag number o hs ho
    rcases List.mem_append.mp hs with hs | hs
    · rcases List.mem_append.mp ho with ho | ho
      · exact h.asked tag number o hs ho
      · have := hnew _ hs
        have heq : tag = s.tag := by simpa using congrArg Prod.fst (List.mem_singleton.mp ho)
        simp only [] at this
        omega
    · have hs := List.mem_singleton.mp hs
      obtain ⟨rfl, rfl⟩ : tag = s.tag ∧ Caller.message number = caller := by
        simpa using hs
      rcases List.mem_append.mp ho with ho | ho
      · have := h.below s.tag
          (List.mem_append_right _ (List.mem_map.mpr ⟨_, ho, rfl⟩))
        omega
      · obtain rfl : o = order := by simpa using List.mem_singleton.mp ho
        exact (horder number rfl).2
  · intro tag number data hs ho
    rcases List.mem_append.mp hs with hs | hs
    · exact h.answered tag number data hs ho
    · obtain ⟨rfl, -⟩ : tag = s.tag ∧ Caller.message number = caller := by
        simpa using List.mem_singleton.mp hs
      have := h.below s.tag (List.mem_append_left _ (List.mem_map.mpr ⟨_, ho, rfl⟩))
      omega
  · intro hclosed
    exact absurd (hopen.symm.trans hclosed) (by simp)

theorem Inv.decompressAndJson {s : State} (h : Inv ungzip s) {number : Nat}
    {bytes : List UInt8} (hlt : number < s.arrived.length)
    (hbytes : contentOf ungzip s.arrived number = inflateAndJson ungzip (some bytes)) :
    Inv ungzip (s.decompressAndJson ungzip number bytes) := by
  unfold State.decompressAndJson
  split
  · exact h.resume hbytes
  · next hopen =>
      refine h.request (by simpa using hopen) ?_
      intro m hm
      obtain rfl : number = m := by simpa using hm
      exact ⟨hlt, hbytes.symm⟩

theorem Inv.onClose {s : State} (h : Inv ungzip s) : Inv ungzip (s.onClose ungzip) := by
  rw [State.onClose_eq]
  exact { h with
    tags := .nil
    pending := by simp
    known := by simp [State.waiting]
    asked := by simp
    answered := by simp
    closed := by simp }

/-! ## Replies -/

/-- The state once the reply in front has been taken off. -/
theorem Inv.reply {s : State} (h : Inv ungzip s) {tag : Nat} {data : Option Value}
    {outbox : List (Nat × Option Value)} (hout : s.outbox = (tag, data) :: outbox) :
    (s.suspend.find? (fun c => c.1 == tag) = none ∧ Inv ungzip { s with outbox }) ∨
    ∃ caller suspend, s.suspend = (tag, caller) :: suspend ∧
      Inv ungzip { s with outbox, suspend } ∧
      { s with outbox }.onMessage ungzip tag data =
        (match caller with
          | .message number => { s with outbox, suspend }.resume number data
          | .other => { s with outbox, suspend }) ∧
      ∀ number, caller = .message number →
        number < s.arrived.length ∧ contentOf ungzip s.arrived number = data := by
  have hqueue : s.queue = tag :: State.queue { s with outbox } := by
    unfold State.queue
    rw [hout]
    rfl
  have hsorted := h.queued
  rw [hqueue, List.pairwise_cons] at hsorted
  have hle : ∀ c ∈ s.suspend, tag ≤ c.1 := by
    intro c hc
    have hmem := h.pending c hc
    rw [hqueue] at hmem
    rcases List.mem_cons.mp hmem with heq | hmem
    · omega
    · exact Nat.le_of_lt (hsorted.1 _ hmem)
  have hkeep : ∀ c ∈ s.suspend, c.1 ≠ tag → c.1 ∈ State.queue { s with outbox } := by
    intro c hc hne
    have hmem := h.pending c hc
    rw [hqueue] at hmem
    exact (List.mem_cons.mp hmem).resolve_left hne
  have hbelow : ∀ t ∈ State.queue { s with outbox }, t < s.tag := by
    intro t ht
    exact h.below t (by rw [hqueue]; exact .tail _ ht)
  have hsub : ∀ p ∈ outbox, p ∈ s.outbox := by
    intro p hp
    rw [hout]
    exact .tail _ hp
  cases hfind : s.suspend.find? (fun c => c.1 == tag) with
  | none =>
      refine .inl ⟨rfl, { h with
        queued := hsorted.2, below := hbelow, pending := ?_, answered := ?_ }⟩
      · intro c hc
        have hne := List.find?_eq_none.mp hfind c hc
        exact hkeep c hc (by simpa using hne)
      · exact fun t n d hs ho => h.answered t n d hs (hsub _ ho)
  | some c =>
      obtain ⟨hc, hsuspend⟩ := eq_cons_of_find? h.tags hle hfind
      obtain ⟨t, caller⟩ := c
      simp only [] at hc
      subst hc
      have htags := h.tags
      rw [hsuspend, List.pairwise_cons] at htags
      have hin : ∀ d ∈ s.suspend.filter (fun c => c.1 != t), d ∈ s.suspend :=
        fun d hd => List.mem_of_mem_filter hd
      have hwait : ∀ n ∈ State.waiting
          { s with outbox, suspend := s.suspend.filter fun c => c.1 != t },
          n ∈ s.waiting := by
        intro n hn
        obtain ⟨d, hd, hn⟩ := List.mem_filterMap.mp hn
        exact List.mem_filterMap.mpr ⟨d, hin d hd, hn⟩
      refine .inr ⟨caller, s.suspend.filter (fun c => c.1 != t), hsuspend, { h with
        queued := hsorted.2, below := hbelow, tags := htags.2, pending := ?_,
        known := fun n hn => h.known n (hwait n hn)
        asked := fun t n o hs ho => h.asked t n o (hin _ hs) ho
        answered := fun t n d hs ho => h.answered t n d (hin _ hs) (hsub _ ho)
        closed := ?_ }, ?_, ?_⟩
      · intro d hd
        have hne := (List.mem_filter.mp hd).2
        exact hkeep d (hin d hd) (by simpa using hne)
      · intro hclosed
        show s.suspend.filter (fun c => c.1 != t) = []
        rw [h.closed hclosed]
        rfl
      · show State.onMessage ungzip { s with outbox } t data = _
        unfold State.onMessage
        simp only [hfind]
        cases data with
        | none =>
            simp only [State.rejected_eq]
            cases caller with
            | message number => simp [State.resume_eq, resumed]
            | other => rfl
        | some v =>
            cases caller with
            | message number => rfl
            | other => rfl
      · intro number hcaller
        subst hcaller
        have hmem : (t, Caller.message number) ∈ s.suspend := by
          rw [hsuspend]
          exact .head _
        exact ⟨h.known number (mem_waiting hmem),
          (h.answered t number data hmem (by rw [hout]; exact .head _)).symm⟩

theorem Inv.work {s : State} (h : Inv ungzip s) {tag : Nat} {order : Order}
    {inbox : List (Nat × Order)} (hin : s.inbox = (tag, order) :: inbox) :
    Inv ungzip { s with inbox, outbox := s.outbox ++ [(tag, order.handle ungzip)] } := by
  have hqueue : State.queue
      { s with inbox, outbox := s.outbox ++ [(tag, order.handle ungzip)] } = s.queue := by
    unfold State.queue
    rw [hin]
    simp
  refine { h with
    queued := ?_, below := ?_, pending := ?_, asked := ?_, answered := ?_ }
  · rw [hqueue]
    exact h.queued
  · rw [hqueue]
    exact h.below
  · rw [hqueue]
    exact h.pending
  · intro t number o hs ho
    exact h.asked t number o hs (by rw [hin]; exact .tail _ ho)
  · intro t number data hs ho
    rcases List.mem_append.mp ho with ho | ho
    · exact h.answered t number data hs ho
    · obtain ⟨rfl, rfl⟩ : t = tag ∧ data = order.handle ungzip := by
        simpa using List.mem_singleton.mp ho
      exact h.asked t number order hs (by rw [hin]; exact .head _)

/-- Every step keeps the bookkeeping, in whatever order decodings complete. -/
theorem Inv.next {s : State} (h : Inv ungzip s) {l : Label} (hen : enabled s l) :
    Inv ungzip (next ungzip s l) := by
  cases l with
  | receive f =>
      have harrive := h.arrive f
      have hlt : s.arrived.length < (s.arrived ++ [f]).length := by
        rw [List.length_append, List.length_singleton]
        omega
      have hcontent : contentOf ungzip (s.arrived ++ [f]) s.arrived.length =
          f.content ungzip := contentOf_length s.arrived f
      show Inv ungzip (State.decodeMessage ungzip _ s.arrived.length f)
      cases f with
      | blob bytes =>
          refine harrive.setReading _ ?_ ?_
          · intro p hp
            rcases List.mem_append.mp hp with hp | hp
            · exact harrive.reading p hp
            · obtain rfl := List.mem_singleton.mp hp
              exact List.getElem?_concat_length
          · rw [List.map_append, List.map_singleton]
            refine List.Nodup.append h.once (List.nodup_singleton _) ?_
            intro n hn hsingle
            obtain ⟨p, hp, rfl⟩ := List.mem_map.mp hn
            have hlen := (List.getElem?_eq_some_iff.mp (h.reading p hp)).1
            have := List.mem_singleton.mp hsingle
            omega
      | arrayBuffer bytes => exact harrive.decompressAndJson hlt hcontent
      | text t => exact harrive.resume hcontent
      | other => exact harrive
  | read number bytes =>
      have hread := h.reading _ hen
      refine (h.erase (number, bytes)).decompressAndJson
        (List.getElem?_eq_some_iff.mp hread).1 ?_
      show (s.arrived[number]?).bind _ = _
      rw [hread]
      rfl
  | unreadable number bytes => exact h.erase (number, bytes)
  | request =>
      refine h.request hen ?_
      intro number hn
      exact absurd hn (by simp)
  | work =>
      cases hin : s.inbox with
      | nil =>
          simp only [Dispatch.next, hin]
          exact h
      | cons p inbox =>
          simp only [Dispatch.next, hin]
          exact h.work hin
  | reply =>
      cases hout : s.outbox with
      | nil =>
          simp only [Dispatch.next, hout]
          exact h
      | cons p outbox =>
          obtain ⟨tag, data⟩ := p
          simp only [Dispatch.next, hout]
          rcases h.reply hout with ⟨hfind, hinv⟩ | ⟨caller, suspend, -, hinv, heq, hcontent⟩
          · unfold State.onMessage
            rw [hfind]
            exact hinv
          · rw [heq]
            cases caller with
            | message number => exact hinv.resume (hcontent number rfl).2
            | other => exact hinv
  | fail => exact h.onClose

theorem inv_of_reaches {ok : State → Label → Prop} {s : State}
    (hs : (machine ungzip).Reaches ok s) : Inv ungzip s :=
  hs.invariant Inv.init fun _ _ _ h hen _ => h.next hen

/-! ## The line -/

/-- The events that have been dispatched, and those that will be next. -/
def State.line (ungzip : Ungzip) (s : State) : List Nat :=
  s.heard ++ s.waiting.filter (isEvent ungzip s.arrived)

/-- The line is in order, and the events that are still being read belong
behind it. -/
structure Lined (ungzip : Ungzip) (s : State) : Prop where
  sorted : (s.line ungzip).Pairwise (· < ·)
  ahead : ∀ n ∈ s.line ungzip, ∀ p ∈ s.reading,
    isEvent ungzip s.arrived p.1 = true → n < p.1

theorem lt_of_mem_line {s : State} (h : Inv ungzip s) {n : Nat}
    (hn : n ∈ s.line ungzip) : n < s.arrived.length := by
  rcases List.mem_append.mp hn with hn | hn
  · obtain ⟨p, hp, rfl⟩ := List.mem_map.mp hn
    exact lt_of_contentOf (h.invoked p (List.mem_of_mem_filter hp))
  · exact h.known n (List.mem_of_mem_filter hn)

theorem Lined.init : Lined ungzip State.init where
  sorted := .nil
  ahead := by simp [State.line, State.init, State.heard, State.waiting]

theorem State.line_arrive {s : State} (h : Inv ungzip s) (f : Frame) :
    State.line ungzip { s with arrived := s.arrived ++ [f] } = s.line ungzip := by
  unfold State.line
  congr 1
  exact List.filter_congr fun n hn => isEvent_append f (h.known n hn)

theorem Lined.arrive {s : State} (hl : Lined ungzip s) (h : Inv ungzip s) (f : Frame) :
    Lined ungzip { s with arrived := s.arrived ++ [f] } where
  sorted := by
    rw [State.line_arrive h]
    exact hl.sorted
  ahead := by
    intro n hn p hp hevent
    rw [State.line_arrive h] at hn
    have hlt := (List.getElem?_eq_some_iff.mp (h.reading p hp)).1
    exact hl.ahead n hn p hp (by rwa [isEvent_append f hlt] at hevent)

/-- Leaving out what is read or waits does no harm. -/
theorem Lined.sublist {s s' : State} (hl : Lined ungzip s)
    (hline : (s'.line ungzip).Sublist (s.line ungzip)) (harrived : s'.arrived = s.arrived)
    (hreading : ∀ p ∈ s'.reading, p ∈ s.reading) : Lined ungzip s' where
  sorted := hl.sorted.sublist hline
  ahead := by
    intro n hn p hp hevent
    rw [harrived] at hevent
    exact hl.ahead n (hline.subset hn) p (hreading p hp) hevent

/-- A message that enters the line at its end, before all that is still read. -/
theorem Lined.enter {s s' : State} (hl : Lined ungzip s) {number : Nat}
    (hline : s'.line ungzip = s.line ungzip ++ entry ungzip s.arrived number)
    (harrived : s'.arrived = s.arrived) (hreading : s'.reading = s.reading)
    (hbehind : isEvent ungzip s.arrived number = true → ∀ n ∈ s.line ungzip, n < number)
    (hfirst : isEvent ungzip s.arrived number = true → ∀ p ∈ s.reading,
      isEvent ungzip s.arrived p.1 = true → number < p.1) : Lined ungzip s' := by
  cases hevent : isEvent ungzip s.arrived number with
  | false =>
      have heq : s'.line ungzip = s.line ungzip := by
        rw [hline, entry, hevent]
        exact List.append_nil _
      exact hl.sublist (by rw [heq]) harrived fun p hp => hreading ▸ hp
  | true =>
      rw [entry, hevent, if_pos rfl] at hline
      constructor
      · rw [hline, List.pairwise_append]
        refine ⟨hl.sorted, List.pairwise_singleton _ _, ?_⟩
        intro n hn m hm
        obtain rfl := List.mem_singleton.mp hm
        exact hbehind hevent n hn
      · intro n hn p hp hp'
        rw [hreading] at hp
        rw [harrived] at hp'
        rw [hline] at hn
        rcases List.mem_append.mp hn with hn | hn
        · exact hl.ahead n hn p hp hp'
        · obtain rfl := List.mem_singleton.mp hn
          exact hfirst hevent p hp hp'

/-- Being dispatched is entering the line, when no event waits. -/
theorem State.line_resume {s : State} {number : Nat} {obj : Option Value}
    (hobj : contentOf ungzip s.arrived number = obj)
    (hidle : isEvent ungzip s.arrived number = true →
      s.waiting.filter (isEvent ungzip s.arrived) = []) :
    (s.resume number obj).line ungzip =
      s.line ungzip ++ entry ungzip s.arrived number := by
  rw [State.resume_eq]
  show ((s.invoked ++ resumed number obj).filter fun p => p.2.isEvent).map Prod.fst ++
      s.waiting.filter (isEvent ungzip s.arrived) =
    s.heard ++ s.waiting.filter (isEvent ungzip s.arrived) ++
      entry ungzip s.arrived number
  rw [List.filter_append, List.map_append, heard_resumed hobj]
  unfold entry
  split
  · next hevent =>
      rw [hidle hevent, List.append_nil, List.append_nil]
      rfl
  · rw [List.append_nil, List.append_nil]
    rfl

theorem State.line_request (s : State) (number : Nat) (order : Order) :
    (s.request (.message number) order).line ungzip =
      s.line ungzip ++ entry ungzip s.arrived number := by
  have hwaiting : (s.request (.message number) order).waiting = s.waiting ++ [number] := by
    simp [State.waiting, State.request, List.filterMap_append, Caller.number?]
  unfold State.line
  rw [hwaiting]
  show s.heard ++ (s.waiting ++ [number]).filter (isEvent ungzip s.arrived) = _
  rw [List.filter_append, filter_number, List.append_assoc]

theorem State.line_decompressAndJson {s : State} (h : Inv ungzip s) {number : Nat}
    {bytes : List UInt8}
    (hbytes : contentOf ungzip s.arrived number = inflateAndJson ungzip (some bytes)) :
    (s.decompressAndJson ungzip number bytes).line ungzip =
      s.line ungzip ++ entry ungzip s.arrived number := by
  unfold State.decompressAndJson
  split
  · next hclosed =>
      refine State.line_resume hbytes fun _ => ?_
      unfold State.waiting
      rw [h.closed hclosed]
      rfl
  · exact State.line_request s number _

theorem State.decompressAndJson_arrived (s : State) (number : Nat) (bytes : List UInt8) :
    (s.decompressAndJson ungzip number bytes).arrived = s.arrived := by
  unfold State.decompressAndJson
  split
  · rw [State.resume_eq]
  · rfl

theorem State.decompressAndJson_reading (s : State) (number : Nat) (bytes : List UInt8) :
    (s.decompressAndJson ungzip number bytes).reading = s.reading := by
  unfold State.decompressAndJson
  split
  · rw [State.resume_eq]
  · rfl

/-- A reply moves the front of those that wait to the end of those dispatched. -/
theorem State.line_reply {s : State} {number : Nat} {data : Option Value} {tag : Nat}
    {suspend : List (Nat × Caller)} (outbox : List (Nat × Option Value))
    (hsuspend : s.suspend = (tag, .message number) :: suspend)
    (hdata : contentOf ungzip s.arrived number = data) :
    (State.resume { s with outbox, suspend } number data).line ungzip =
      s.line ungzip := by
  rw [State.resume_eq]
  unfold State.line State.waiting
  rw [hsuspend]
  show ((s.invoked ++ resumed number data).filter fun p => p.2.isEvent).map Prod.fst ++
      (suspend.filterMap fun c => c.2.number?).filter (isEvent ungzip s.arrived) =
    s.heard ++ (number :: suspend.filterMap fun c => c.2.number?).filter
      (isEvent ungzip s.arrived)
  rw [List.filter_append, List.map_append, heard_resumed hdata,
    ← List.singleton_append, List.filter_append, filter_number, List.append_assoc]
  rfl

/-- A reply is taken off, and the line is as it was. -/
theorem State.reply_eq {s : State} (h : Inv ungzip s) {tag : Nat} {data : Option Value}
    {outbox : List (Nat × Option Value)} (hout : s.outbox = (tag, data) :: outbox) :
    ∃ suspend invoked,
      Dispatch.next ungzip s .reply = { s with outbox, suspend, invoked } ∧
        State.line ungzip { s with outbox, suspend, invoked } = s.line ungzip := by
  have hnext : Dispatch.next ungzip s .reply =
      { s with outbox }.onMessage ungzip tag data := by
    simp only [Dispatch.next, hout]
  rcases h.reply hout with ⟨hfind, -⟩ | ⟨caller, suspend, hsuspend, -, heq, hcontent⟩
  · refine ⟨s.suspend, s.invoked, ?_, rfl⟩
    rw [hnext]
    unfold State.onMessage
    rw [hfind]
  · rw [hnext, heq]
    cases caller with
    | message number =>
        have hresume := State.resume_eq { s with outbox, suspend } number data
        refine ⟨suspend, s.invoked ++ resumed number data, hresume, ?_⟩
        have hline := State.line_reply outbox hsuspend (hcontent number rfl).2
        rwa [hresume] at hline
    | other =>
        refine ⟨suspend, s.invoked, rfl, ?_⟩
        unfold State.line State.waiting
        rw [hsuspend]
        rfl

/-- A message that has just arrived is behind the line, and nothing that is an
event is read behind it once the condition of its step is met. -/
theorem Lined.last {s : State} (hl : Lined ungzip s) (h : Inv ungzip s) {f : Frame}
    {s' : State}
    (hline : s'.line ungzip =
      State.line ungzip { s with arrived := s.arrived ++ [f] } ++
        entry ungzip (s.arrived ++ [f]) s.arrived.length)
    (harrived : s'.arrived = s.arrived ++ [f]) (hreading : s'.reading = s.reading)
    (hread : f.isEvent ungzip = true → s.Read ungzip s.arrived.length) :
    Lined ungzip s' := by
  refine (hl.arrive h f).enter hline harrived hreading ?_ ?_
  · intro _ n hn
    rw [State.line_arrive h] at hn
    exact lt_of_mem_line h hn
  · intro hevent p hp hp'
    have hlt := (List.getElem?_eq_some_iff.mp (h.reading p hp)).1
    rw [isEvent_append f hlt, hread (by rwa [isEvent_length] at hevent) p hp hlt] at hp'
    exact absurd hp' (by simp)

theorem Lined.next {s : State} (hl : Lined ungzip s) (h : Inv ungzip s) {l : Label}
    (hen : enabled s l) (hok : Sequenced ungzip s l) : Lined ungzip (next ungzip s l) := by
  cases l with
  | receive f =>
      have hcontent : contentOf ungzip (s.arrived ++ [f]) s.arrived.length =
          f.content ungzip := contentOf_length s.arrived f
      show Lined ungzip (State.decodeMessage ungzip _ s.arrived.length f)
      cases f with
      | blob bytes =>
          have harrive := hl.arrive h (.blob bytes)
          refine ⟨harrive.sorted, ?_⟩
          intro n hn p hp hevent
          rcases List.mem_append.mp hp with hp | hp
          · exact harrive.ahead n hn p hp hevent
          · obtain rfl := List.mem_singleton.mp hp
            exact lt_of_mem_line h ((State.line_arrive h _).symm ▸ hn)
      | arrayBuffer bytes =>
          exact hl.last h (State.line_decompressAndJson (h.arrive _) hcontent)
            (State.decompressAndJson_arrived _ _ _) (State.decompressAndJson_reading _ _ _)
            hok
      | text t =>
          refine hl.last h (State.line_resume hcontent ?_)
            (by rw [State.decodeMessage, State.resume_eq])
            (by rw [State.decodeMessage, State.resume_eq])
            fun hevent => (hok hevent).1
          intro hevent
          rw [isEvent_length] at hevent
          refine List.filter_eq_nil_iff.mpr fun n hn => ?_
          rw [isEvent_append _ (h.known n hn), (hok hevent).2 n hn]
          simp
      | other => exact hl.arrive h .other
  | read number bytes =>
      have hread := h.reading _ hen
      have hrest : Lined ungzip { s with reading := s.reading.erase (number, bytes) } :=
        hl.sublist (List.Sublist.refl _) rfl fun p hp => List.mem_of_mem_erase hp
      have hbytes : contentOf ungzip s.arrived number = inflateAndJson ungzip (some bytes) := by
        unfold contentOf
        rw [hread]
        rfl
      refine hrest.enter
        (State.line_decompressAndJson (h.erase (number, bytes)) hbytes)
        (State.decompressAndJson_arrived _ _ _) (State.decompressAndJson_reading _ _ _)
        (fun hevent n hn => hl.ahead n hn _ hen hevent) ?_
      intro hevent p hp hp'
      have hmem := List.mem_of_mem_erase hp
      -- Two blobs of one number would be one, and that has been taken out.
      have hne : p.1 ≠ number := by
        intro heq
        have hsame : p = (number, bytes) :=
          List.inj_on_of_nodup_map h.once hmem hen heq
        have honce : s.reading.Nodup := List.Nodup.of_map _ h.once
        exact honce.not_mem_erase (hsame ▸ hp)
      by_contra hle
      have hearlier := hok hevent p hmem (by omega)
      rw [show isEvent ungzip s.arrived p.1 = true from hp'] at hearlier
      exact absurd hearlier (by simp)
  | unreadable number bytes =>
      exact hl.sublist (List.Sublist.refl _) rfl fun p hp => List.mem_of_mem_erase hp
  | request =>
      have hwaiting : (s.request .other .other).waiting = s.waiting := by
        simp [State.waiting, State.request, List.filterMap_append, Caller.number?]
      have hline : (s.request .other .other).line ungzip = s.line ungzip := by
        unfold State.line
        rw [hwaiting]
        rfl
      show Lined ungzip (s.request .other .other)
      exact hl.sublist (by rw [hline]) rfl fun p hp => hp
  | work =>
      cases hin : s.inbox with
      | nil =>
          simp only [Dispatch.next, hin]
          exact hl
      | cons p inbox =>
          simp only [Dispatch.next, hin]
          exact hl.sublist (List.Sublist.refl _) rfl fun p hp => hp
  | reply =>
      cases hout : s.outbox with
      | nil =>
          simp only [Dispatch.next, hout]
          exact hl
      | cons p outbox =>
          obtain ⟨suspend, invoked, hnext, hline⟩ := State.reply_eq h hout
          rw [hnext]
          exact hl.sublist (by rw [hline]) rfl fun p hp => hp
  | fail =>
      show Lined ungzip (s.onClose ungzip)
      rw [State.onClose_eq]
      have hline : State.line ungzip { s with closed := true, suspend := [] } = s.heard :=
        List.append_nil _
      refine hl.sublist ?_ rfl fun p hp => hp
      rw [hline]
      exact List.sublist_append_left _ _

theorem lined_of_reaches {s : State}
    (hs : (machine ungzip).Reaches (Sequenced ungzip) s) : Lined ungzip s :=
  hs.invariant Lined.init fun _ _ ht hl hen hok => hl.next (inv_of_reaches ht) hen hok

/-! ## What a step out of sequence leads to

A worker that answers all it has been asked dispatches the line as it stands. -/

/-- Any step at all. -/
abbrev Any : State → Label → Prop := fun _ _ => True

theorem leads_step {s t : State} {l : Label} (hen : enabled s l)
    (h : (machine ungzip).Leads Any (next ungzip s l) t) :
    (machine ungzip).Leads Any s t :=
  .head ⟨l, hen, trivial, rfl⟩ h

/-- The measure counts what is still to be handled twice. -/
theorem leads_drained (k : Nat) {s : State} (h : Inv ungzip s)
    (hk : 2 * s.inbox.length + s.outbox.length ≤ k) :
    ∃ t, (machine ungzip).Leads Any s t ∧ t.heard = s.line ungzip := by
  induction k generalizing s with
  | zero =>
      have hin : s.inbox = [] := List.eq_nil_of_length_eq_zero (by omega)
      have hout : s.outbox = [] := List.eq_nil_of_length_eq_zero (by omega)
      have hsuspend : s.suspend = [] := by
        refine List.eq_nil_iff_forall_not_mem.mpr fun c hc => ?_
        have hmem := h.pending c hc
        unfold State.queue at hmem
        rw [hin, hout] at hmem
        exact absurd hmem (by simp)
      refine ⟨s, .refl, ?_⟩
      unfold State.line State.waiting
      rw [hsuspend]
      exact (List.append_nil _).symm
  | succ k ih =>
      cases hout : s.outbox with
      | cons p outbox =>
          obtain ⟨tag, data⟩ := p
          have hen : enabled s .reply := by
            show s.outbox.isEmpty = false
            rw [hout]
            rfl
          obtain ⟨suspend, invoked, hnext, hline⟩ := State.reply_eq h hout
          rw [hout, List.length_cons] at hk
          obtain ⟨t, hlead, ht⟩ := ih (h.next hen) (by
            rw [hnext]
            show 2 * s.inbox.length + outbox.length ≤ k
            omega)
          refine ⟨t, leads_step hen hlead,
            ht.trans ?_⟩
          rw [hnext]
          exact hline
      | nil =>
          cases hin : s.inbox with
          | nil => exact ih h (by rw [hin, hout]; exact Nat.zero_le _)
          | cons p inbox =>
              have hen : enabled s .work := by
                show s.inbox.isEmpty = false
                rw [hin]
                rfl
              have hnext : next ungzip s .work =
                  { s with inbox, outbox := s.outbox ++ [(p.1, p.2.handle ungzip)] } := by
                simp only [next, hin]
              obtain ⟨t, hlead, ht⟩ := ih (h.next hen) (by
                rw [hnext]
                simp only [hin, hout, List.length_cons, List.length_append,
                  List.length_nil] at hk ⊢
                omega)
              refine ⟨t, leads_step hen hlead,
                ht.trans ?_⟩
              rw [hnext]
              rfl

theorem leads_disorder {s : State} (h : Inv ungzip s)
    (hline : ¬ (s.line ungzip).Pairwise (· < ·)) :
    ∃ t, (machine ungzip).Leads Any s t ∧ ¬ t.InOrder ungzip := by
  obtain ⟨t, hlead, ht⟩ := leads_drained _ h (Nat.le_refl _)
  refine ⟨t, hlead, fun hin => hline ?_⟩
  rw [← ht]
  exact hin.1

/-- A blob that is read when a later event is in the line. -/
theorem leads_disorder_of_reading {s : State} (h : Inv ungzip s) {n : Nat}
    {p : Nat × List UInt8} (hn : n ∈ s.line ungzip) (hp : p ∈ s.reading)
    (hevent : isEvent ungzip s.arrived p.1 = true) (hlt : p.1 < n) :
    ∃ t, (machine ungzip).Leads Any s t ∧ ¬ t.InOrder ungzip := by
  have hen : enabled s (.read p.1 p.2) := hp
  have hbytes : contentOf ungzip s.arrived p.1 = inflateAndJson ungzip (some p.2) := by
    unfold contentOf
    rw [h.reading p hp]
    rfl
  have hline : (next ungzip s (.read p.1 p.2)).line ungzip = s.line ungzip ++ [p.1] := by
    refine (State.line_decompressAndJson (h.erase p) hbytes).trans ?_
    show s.line ungzip ++ entry ungzip s.arrived p.1 = _
    rw [entry, hevent]
    rfl
  obtain ⟨t, hlead, ht⟩ := leads_disorder (h.next hen) (by
    intro hsorted
    rw [hline] at hsorted
    have := (List.pairwise_append.mp hsorted).2.2 n hn p.1 (.head _)
    omega)
  exact ⟨t, leads_step hen hlead, ht⟩

theorem State.not_read {s : State} {number : Nat} (h : ¬ s.Read ungzip number) :
    ∃ p ∈ s.reading, p.1 < number ∧ isEvent ungzip s.arrived p.1 = true := by
  by_contra hno
  refine h fun p hp hlt => ?_
  by_contra hevent
  exact hno ⟨p, hp, hlt, by simpa using hevent⟩

/-- After any other step some run goes on to dispatch a later event first. -/
theorem leads_disorder_of_not_sequenced {s : State} (h : Inv ungzip s) {l : Label}
    (hen : enabled s l) (hno : ¬ Sequenced ungzip s l) :
    ∃ t, (machine ungzip).Leads Any (next ungzip s l) t ∧ ¬ t.InOrder ungzip := by
  -- A blob that was being read when message `number` came is still being read.
  have hreading : ∀ {f : Frame} {s' : State}, f.isEvent ungzip = true →
      next ungzip s (.receive f) = s' → s'.arrived = s.arrived ++ [f] →
      s'.reading = s.reading → s.arrived.length ∈ s'.line ungzip →
      ¬ s.Read ungzip s.arrived.length →
      ∃ t, (machine ungzip).Leads Any s' t ∧ ¬ t.InOrder ungzip := by
    intro f s' _ hs' harrived hreads hmem hread
    obtain ⟨p, hp, hlt, hevent⟩ := State.not_read hread
    have hinv : Inv ungzip s' := hs' ▸ h.next (l := .receive f) trivial
    refine leads_disorder_of_reading hinv hmem (hreads ▸ hp) ?_ hlt
    rw [harrived, isEvent_append f hlt]
    exact hevent
  cases l with
  | receive f =>
      have hcontent : contentOf ungzip (s.arrived ++ [f]) s.arrived.length =
          f.content ungzip := contentOf_length s.arrived f
      have hentry : f.isEvent ungzip = true →
          entry ungzip (s.arrived ++ [f]) s.arrived.length = [s.arrived.length] := by
        intro hevent
        rw [entry, isEvent_length, hevent]
        rfl
      cases f with
      | blob bytes => exact absurd trivial hno
      | other => exact absurd trivial hno
      | arrayBuffer bytes =>
          have hevent : (Frame.arrayBuffer bytes).isEvent ungzip = true := by
            by_contra hne
            exact hno fun hevent => absurd hevent hne
          have hread : ¬ s.Read ungzip s.arrived.length := fun hread => hno fun _ => hread
          refine hreading hevent rfl (State.decompressAndJson_arrived _ _ _)
            (State.decompressAndJson_reading _ _ _) ?_ hread
          have hline := State.line_decompressAndJson (h.arrive (.arrayBuffer bytes)) hcontent
          show _ ∈ State.line ungzip (State.decompressAndJson ungzip _ _ _)
          rw [hline]
          refine List.mem_append_right _ ?_
          rw [hentry hevent]
          exact .head _
      | text t =>
          have hevent : (Frame.text t).isEvent ungzip = true := by
            by_contra hne
            exact hno fun hevent => absurd hevent hne
          have hnext : next ungzip s (.receive (.text t)) =
              { s with
                arrived := s.arrived ++ [.text t]
                invoked := s.invoked ++ resumed s.arrived.length (jsonParse t) } :=
            State.resume_eq _ _ _
          have hheard : (next ungzip s (.receive (.text t))).heard =
              s.heard ++ [s.arrived.length] := by
            rw [hnext]
            unfold State.heard
            have hresumed := heard_resumed hcontent
            rw [hentry hevent] at hresumed
            rw [List.filter_append, List.map_append]
            exact congrArg _ hresumed
          by_cases hread : s.Read ungzip s.arrived.length
          · have hidle : ¬ s.Idle ungzip := fun hidle => hno fun _ => ⟨hread, hidle⟩
            refine leads_disorder (h.next (l := .receive (.text t)) trivial) ?_
            intro hsorted
            refine hidle fun n hn => ?_
            by_contra hne
            have hlt := h.known n hn
            have hmem : n ∈ (next ungzip s (.receive (.text t))).waiting.filter
                (isEvent ungzip (next ungzip s (.receive (.text t))).arrived) := by
              rw [hnext]
              refine List.mem_filter.mpr ⟨hn, ?_⟩
              rw [isEvent_append _ hlt]
              simpa using hne
            have hlast : s.arrived.length ∈ (next ungzip s (.receive (.text t))).heard := by
              rw [hheard]
              exact List.mem_append_right _ (.head _)
            have := (List.pairwise_append.mp hsorted).2.2 _ hlast n hmem
            omega
          · refine hreading hevent rfl (by rw [hnext]) (by rw [hnext]) ?_ hread
            refine List.mem_append_left _ ?_
            rw [hheard]
            exact List.mem_append_right _ (.head _)
  | read number bytes =>
      have hevent : isEvent ungzip s.arrived number = true := by
        by_contra hne
        exact hno fun hevent => absurd hevent hne
      obtain ⟨p, hp, hlt, hearlier⟩ := State.not_read fun hread => hno fun _ => hread
      have hbytes : contentOf ungzip s.arrived number = inflateAndJson ungzip (some bytes) := by
        unfold contentOf
        rw [h.reading _ hen]
        rfl
      have hline := State.line_decompressAndJson (h.erase (number, bytes)) hbytes
      refine leads_disorder_of_reading (h.next hen) (n := number) (p := p) ?_ ?_ ?_ hlt
      · show number ∈ State.line ungzip (State.decompressAndJson ungzip _ number bytes)
        rw [hline]
        refine List.mem_append_right _ ?_
        show number ∈ entry ungzip s.arrived number
        rw [entry, hevent]
        exact .head _
      · show p ∈ (State.decompressAndJson ungzip _ number bytes).reading
        rw [State.decompressAndJson_reading]
        have hne : p ≠ (number, bytes) := by
          intro heq
          rw [heq] at hlt
          exact absurd hlt (Nat.lt_irrefl _)
        exact (List.mem_erase_of_ne hne).mpr hp
      · show isEvent ungzip (State.decompressAndJson ungzip _ number bytes).arrived p.1 = true
        rw [State.decompressAndJson_arrived]
        exact hearlier
  | unreadable number bytes => exact absurd trivial hno
  | request => exact absurd trivial hno
  | work => exact absurd trivial hno
  | reply => exact absurd trivial hno
  | fail => exact absurd trivial hno

/-- Where no event starts to be decompressed, or parsed, before an earlier one
has, the listeners of shells and watches are called in the order the messages
arrived; and the first step that is otherwise can go on to break that order. -/
theorem dispatch_in_order {s : State}
    (hs : (machine ungzip).Reaches (Sequenced ungzip) s) :
    s.InOrder ungzip ∧ ∀ l, enabled s l → ¬ Sequenced ungzip s l →
      ∃ t, (machine ungzip).Leads Any (next ungzip s l) t ∧ ¬ t.InOrder ungzip := by
  have hinv := inv_of_reaches hs
  refine ⟨⟨?_, hinv.invoked⟩, fun l hen hno => leads_disorder_of_not_sequenced hinv hen hno⟩
  exact (List.pairwise_append.mp (lined_of_reaches hs).sorted).1

end

/-! ## A run out of order -/

/-- The event that shell `1` has printed `byte`. -/
def shellEvent (byte : String) : String :=
  "\x7b\"event\":\x7b\"shell\":\x7b\"data\":[" ++ byte ++ "],\"id\":\"1\"\x7d\x7d\x7d"

/-- The gzip of the events that `a` and that `b` has been printed. -/
def printedA : List UInt8 :=
   [0x1f, 0x8b, 0x08, 0x00, 0x00, 0x00, 0x00, 0x00, 0x00, 0xff, 0xab, 0x56, 0x4a, 0x2d,
    0x4b, 0xcd, 0x2b, 0x51, 0xb2, 0xaa, 0x56, 0x2a, 0xce, 0x48, 0xcd, 0xc9, 0x01, 0x31,
    0x52, 0x12, 0x4b, 0x12, 0x95, 0xac, 0xa2, 0x2d, 0xcd, 0x63, 0x75, 0x94, 0x32, 0x53,
    0x94, 0xac, 0x94, 0x0c, 0x95, 0x6a, 0x6b, 0x6b, 0x01, 0xe1, 0x01, 0xd2, 0x52, 0x2a,
    0x00, 0x00, 0x00]

def printedB : List UInt8 :=
   [0x1f, 0x8b, 0x08, 0x00, 0x00, 0x00, 0x00, 0x00, 0x00, 0xff, 0xab, 0x56, 0x4a, 0x2d,
    0x4b, 0xcd, 0x2b, 0x51, 0xb2, 0xaa, 0x56, 0x2a, 0xce, 0x48, 0xcd, 0xc9, 0x01, 0x31,
    0x52, 0x12, 0x4b, 0x12, 0x95, 0xac, 0xa2, 0x2d, 0x2d, 0x62, 0x75, 0x94, 0x32, 0x53,
    0x94, 0xac, 0x94, 0x0c, 0x95, 0x6a, 0x6b, 0x6b, 0x01, 0x17, 0xb5, 0x46, 0x04, 0x2a,
    0x00, 0x00, 0x00]

/-- What undoing their gzip gives. -/
def ungzipPrinted : Ungzip := fun bytes =>
  if bytes = printedA then some (shellEvent "97").toUTF8.toList
  else if bytes = printedB then some (shellEvent "98").toUTF8.toList
  else none

/-- Each blob is read before the next one is. -/
def sequencedRun : List Label :=
  [.receive (.blob printedA), .receive (.blob printedB), .read 0 printedA, .work,
    .read 1 printedB, .reply, .work, .reply]

theorem dispatch_in_order_read :
    (sequencedRun.foldl (next ungzipPrinted) State.init).InOrder ungzipPrinted ∧
      (sequencedRun.foldl (next ungzipPrinted) State.init).heard = [0, 1] :=
  ⟨(dispatch_in_order (Machine.reaches_of_path (M := machine ungzipPrinted)
    (by decide +kernel))).1, by decide +kernel⟩

/-- The second blob is read first, and a text frame passes them both. -/
def overtakingRun : List Label :=
  [.receive (.blob printedA), .receive (.blob printedB),
    .receive (.text (ofString (shellEvent "99"))),
    .read 1 printedB, .work, .reply, .read 0 printedA, .work, .reply]

theorem dispatch_overtaken :
    ¬ ∀ s, (machine ungzipPrinted).Reachable s → s.InOrder ungzipPrinted := by
  intro h
  have hs : (machine ungzipPrinted).Reachable
      (overtakingRun.foldl (next ungzipPrinted) State.init) :=
    Machine.reaches_of_path (M := machine ungzipPrinted) (by decide +kernel)
  have hheard : (overtakingRun.foldl (next ungzipPrinted) State.init).heard = [2, 1, 0] := by
    decide +kernel
  have hsorted := (h _ hs).1
  rw [hheard] at hsorted
  exact absurd hsorted (by decide)

end WebSshTool.Dispatch
