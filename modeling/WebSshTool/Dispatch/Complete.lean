import WebSshTool.Dispatch.Order

/-!
# No event is left out

An event that has arrived has been dispatched, waits for the worker or is still being
read, as long as no blob of one is unreadable and the worker does not fail while one
waits for it. Where the line is in order as well, the listeners have been called for
the first events that arrived, for each of them once, and when the page has come to
rest for all of them.
-/

namespace WebSshTool.Dispatch

open Json

section

variable (ungzip : Ungzip)

/-- What listeners of shells and watches are called for, if for anything. -/
def Frame.event (f : Frame) : Option Invocation :=
  (f.invocation ungzip).filter Invocation.isEvent

/-- What a step must be so that no event is lost. -/
def Keeps (s : State) : Label → Prop
  | .unreadable number _ => isEvent ungzip s.arrived number = false
  | .fail => s.Idle ungzip
  | _ => True

instance (s : State) : (l : Label) → Decidable (Keeps ungzip s l)
  | .unreadable number _ => inferInstanceAs (Decidable (isEvent ungzip s.arrived number = false))
  | .fail => inferInstanceAs (Decidable (s.Idle ungzip))
  | .receive _ | .read .. | .request | .work | .reply => instDecidableTrue

/-- Nothing is being read, and nothing waits for the worker. -/
def State.AtRest (s : State) : Prop := s.reading = [] ∧ s.waiting = []

/-- Every event that has arrived is in the line or still being read. -/
def Covered (s : State) : Prop :=
  ∀ n < s.arrived.length, isEvent ungzip s.arrived n = true →
    n ∈ s.line ungzip ∨ n ∈ s.reading.map Prod.fst

end

section

variable {ungzip : Ungzip} {s : State}

theorem Covered.init : Covered ungzip State.init :=
  fun n hn => absurd hn (Nat.not_lt_zero n)

theorem mem_entry {arrived : List Frame} {n : Nat} (h : isEvent ungzip arrived n = true) :
    n ∈ entry ungzip arrived n := by
  rw [entry, if_pos h]
  exact List.mem_singleton_self n

/-- A step that leaves the messages, the line and what is read alone. -/
theorem Covered.same {s' : State} (hc : Covered ungzip s) (harrived : s'.arrived = s.arrived)
    (hline : s'.line ungzip = s.line ungzip) (hreading : s'.reading = s.reading) :
    Covered ungzip s' := by
  intro n hn hevent
  rw [harrived] at hn hevent
  rw [hline, hreading]
  exact hc n hn hevent

/-- A message arrives, and has a place in the line or is read. -/
theorem Covered.arrive {s' : State} {f : Frame} (hc : Covered ungzip s)
    (harrived : s'.arrived = s.arrived ++ [f])
    (hline : ∀ n ∈ s.line ungzip, n ∈ s'.line ungzip)
    (hreading : ∀ n ∈ s.reading.map Prod.fst, n ∈ s'.reading.map Prod.fst)
    (hlast : isEvent ungzip (s.arrived ++ [f]) s.arrived.length = true →
      s.arrived.length ∈ s'.line ungzip ∨ s.arrived.length ∈ s'.reading.map Prod.fst) :
    Covered ungzip s' := by
  intro n hn hevent
  rw [harrived] at hn hevent
  rw [List.length_append, List.length_singleton] at hn
  rcases Nat.lt_or_eq_of_le (Nat.le_of_lt_succ hn) with hlt | rfl
  · rw [isEvent_append f hlt] at hevent
    exact (hc n hlt hevent).imp (hline n) (hreading n)
  · exact hlast hevent

theorem Covered.receive (hc : Covered ungzip s) (h : Inv ungzip s) {f : Frame}
    (hok : Sequenced ungzip s (.receive f)) : Covered ungzip (next ungzip s (.receive f)) := by
  have hcontent : contentOf ungzip (s.arrived ++ [f]) s.arrived.length = f.content ungzip :=
    contentOf_length s.arrived f
  have hold := State.line_arrive h f
  show Covered ungzip (State.decodeMessage ungzip _ s.arrived.length f)
  cases f with
  | blob bytes =>
      refine hc.arrive rfl (fun n hn => ?_) (fun n hn => ?_) fun _ => .inr ?_
      · exact (hold ▸ hn : n ∈ State.line ungzip _)
      · show n ∈ (s.reading ++ [(s.arrived.length, bytes)]).map Prod.fst
        rw [List.map_append]
        exact List.mem_append_left _ hn
      · show s.arrived.length ∈ (s.reading ++ [(s.arrived.length, bytes)]).map Prod.fst
        rw [List.map_append]
        exact List.mem_append_right _ (List.mem_singleton_self _)
  | arrayBuffer bytes =>
      have hline := State.line_decompressAndJson (h.arrive (.arrayBuffer bytes)) hcontent
      rw [hold] at hline
      refine hc.arrive (State.decompressAndJson_arrived _ _ _) (fun n hn => ?_)
        (fun n hn => ?_) fun hevent => .inl ?_
      · show n ∈ State.line ungzip (State.decompressAndJson ungzip _ _ _)
        rw [hline]
        exact List.mem_append_left _ hn
      · show n ∈ (State.decompressAndJson ungzip _ _ _).reading.map Prod.fst
        rw [State.decompressAndJson_reading]
        exact hn
      · show _ ∈ State.line ungzip (State.decompressAndJson ungzip _ _ _)
        rw [hline]
        exact List.mem_append_right _ (mem_entry hevent)
  | text t =>
      have hidle : isEvent ungzip (s.arrived ++ [.text t]) s.arrived.length = true →
          s.waiting.filter (isEvent ungzip (s.arrived ++ [.text t])) = [] := by
        intro hevent
        rw [isEvent_length] at hevent
        refine List.filter_eq_nil_iff.mpr fun n hn => ?_
        rw [isEvent_append _ (h.known n hn), (hok hevent).2 n hn]
        exact Bool.false_ne_true
      have hline := State.line_resume
        (s := { s with arrived := s.arrived ++ [.text t] }) hcontent hidle
      rw [hold] at hline
      refine hc.arrive (by rw [State.decodeMessage, State.resume_eq]) (fun n hn => ?_)
        (fun n hn => ?_) fun hevent => .inl ?_
      · show n ∈ State.line ungzip (State.resume _ _ _)
        exact hline ▸ List.mem_append_left _ hn
      · rw [State.decodeMessage, State.resume_eq]
        exact hn
      · show _ ∈ State.line ungzip (State.resume _ _ _)
        exact hline ▸ List.mem_append_right _ (mem_entry hevent)
  | other =>
      refine hc.arrive rfl (fun n hn => ?_) (fun n hn => hn) fun hevent => ?_
      · exact (hold ▸ hn : n ∈ State.line ungzip _)
      · rw [isEvent_length] at hevent
        cases hevent

theorem Covered.next (hc : Covered ungzip s) (h : Inv ungzip s) {l : Label} (hen : enabled s l)
    (hok : Sequenced ungzip s l) (hkeeps : Keeps ungzip s l) :
    Covered ungzip (next ungzip s l) := by
  cases l with
  | receive f => exact hc.receive h hok
  | read number bytes =>
      have hbytes : contentOf ungzip s.arrived number = inflateAndJson ungzip (some bytes) := by
        unfold contentOf
        rw [h.reading _ hen]
        rfl
      have hline := State.line_decompressAndJson (h.erase (number, bytes)) hbytes
      have harrived : (State.decompressAndJson ungzip
            { s with reading := s.reading.erase (number, bytes) } number bytes).arrived =
          s.arrived :=
        State.decompressAndJson_arrived _ _ _
      intro n hn hevent
      show n ∈ State.line ungzip (State.decompressAndJson ungzip _ _ _) ∨
        n ∈ (State.decompressAndJson ungzip _ _ _).reading.map Prod.fst
      replace hn : n < (State.decompressAndJson ungzip _ _ _).arrived.length := hn
      replace hevent : isEvent ungzip (State.decompressAndJson ungzip _ _ _).arrived n = true :=
        hevent
      rw [harrived] at hn hevent
      rw [hline, State.decompressAndJson_reading]
      rcases hc n hn hevent with hmem | hmem
      · exact .inl (List.mem_append_left _ hmem)
      · obtain ⟨q, hq, rfl⟩ := List.mem_map.mp hmem
        by_cases hsame : q = (number, bytes)
        · rw [hsame] at hevent ⊢
          exact .inl (List.mem_append_right _ (mem_entry hevent))
        · exact .inr (List.mem_map_of_mem ((List.mem_erase_of_ne hsame).mpr hq))
  | unreadable number bytes =>
      intro n hn hevent
      rcases hc n hn hevent with hmem | hmem
      · exact .inl hmem
      · obtain ⟨q, hq, rfl⟩ := List.mem_map.mp hmem
        have hne : q ≠ (number, bytes) := by
          rintro rfl
          exact absurd (hkeeps.symm.trans hevent) (by simp)
        exact .inr (List.mem_map_of_mem ((List.mem_erase_of_ne hne).mpr hq))
  | request =>
      refine hc.same rfl ?_ rfl
      have hwaiting : (s.request .other .other).waiting = s.waiting := by
        simp [State.waiting, State.request, List.filterMap_append, Caller.number?]
      show (s.request .other .other).line ungzip = s.line ungzip
      unfold State.line
      rw [hwaiting]
      rfl
  | work =>
      simp only [Dispatch.next]
      split
      · exact hc
      · exact hc.same rfl rfl rfl
  | reply =>
      cases hout : s.outbox with
      | nil =>
          simp only [Dispatch.next, hout]
          exact hc
      | cons q outbox =>
          obtain ⟨suspend, invoked, hnext, hline⟩ := State.reply_eq h hout
          rw [hnext]
          exact hc.same rfl hline rfl
  | fail =>
      show Covered ungzip (s.onClose ungzip)
      rw [State.onClose_eq]
      have hidle : s.waiting.filter (isEvent ungzip s.arrived) = [] :=
        List.filter_eq_nil_iff.mpr fun n hn => by
          rw [hkeeps n hn]
          exact Bool.false_ne_true
      refine hc.same rfl ?_ rfl
      rw [State.line, State.line, hidle]
      rfl

theorem covered_of_reaches
    (hs : (machine ungzip).Reaches (fun s l => Sequenced ungzip s l ∧ Keeps ungzip s l) s) :
    Covered ungzip s :=
  hs.invariant Covered.init fun _ _ ht hc hen hok =>
    hc.next (inv_of_reaches ht) hen hok.1 hok.2

theorem onMessage_arrived (s : State) (tag : Nat) (data : Option Value) :
    (s.onMessage ungzip tag data).arrived = s.arrived := by
  unfold State.onMessage
  split
  · rfl
  · next c _ =>
      cases data with
      | none => simp only [State.rejected_eq]
      | some v =>
          obtain ⟨_, caller⟩ := c
          cases caller with
          | message number => simp only [State.resolved, State.resume_eq]
          | other => rfl

/-- Only a message event makes a message arrive. -/
theorem next_arrived {l : Label} (hl : ∀ f, l ≠ .receive f) :
    (next ungzip s l).arrived = s.arrived := by
  cases l with
  | receive f => exact absurd rfl (hl f)
  | read number bytes => exact State.decompressAndJson_arrived _ _ _
  | work =>
      simp only [Dispatch.next]
      split <;> rfl
  | reply =>
      simp only [Dispatch.next]
      split
      · rfl
      · exact onMessage_arrived _ _ _
  | fail =>
      simp only [Dispatch.next, State.onClose_eq]
  | _ => rfl

theorem receive_arrived (f : Frame) :
    (next ungzip s (.receive f)).arrived = s.arrived ++ [f] := by
  cases f with
  | arrayBuffer bytes => exact State.decompressAndJson_arrived _ _ _
  | text t => simp only [Dispatch.next, State.decodeMessage, State.resume_eq]
  | _ => rfl

/-! ## The calls of the listeners -/

/-- A sorted list that lacks nothing below what it has is the start of the whole. -/
theorem prefix_of_sorted {l e : List Nat} (hl : l.Pairwise (· < ·)) (he : e.Pairwise (· < ·))
    (hsub : ∀ n ∈ l, n ∈ e) (hdown : ∀ n ∈ e, ∀ m ∈ l, n < m → n ∈ l) : l <+: e := by
  induction e generalizing l with
  | nil =>
      rw [List.eq_nil_iff_forall_not_mem.mpr fun n hn => absurd (hsub n hn) List.not_mem_nil]
  | cons x e ih =>
      cases l with
      | nil => exact List.nil_prefix
      | cons y l =>
          obtain ⟨hy, hl'⟩ := List.pairwise_cons.mp hl
          obtain ⟨hx, he'⟩ := List.pairwise_cons.mp he
          have hxy : x = y := by
            rcases List.mem_cons.mp (hsub y (List.mem_cons_self ..)) with heq | hmem
            · exact heq.symm
            · rcases List.mem_cons.mp (hdown x (List.mem_cons_self ..) y (List.mem_cons_self ..)
                (hx y hmem)) with heq | hxl
              · exact heq
              · have := hx y hmem
                have := hy x hxl
                omega
          subst hxy
          refine List.cons_prefix_cons.mpr ⟨rfl, ih hl' he' (fun n hn => ?_)
            fun n hn m hm hlt => ?_⟩
          · rcases List.mem_cons.mp (hsub n (List.mem_cons_of_mem _ hn)) with rfl | hmem
            · exact absurd (hy n hn) (Nat.lt_irrefl n)
            · exact hmem
          · rcases List.mem_cons.mp (hdown n (List.mem_cons_of_mem _ hn) m
              (List.mem_cons_of_mem _ hm) hlt) with rfl | hmem
            · exact absurd (hx n hn) (Nat.lt_irrefl n)
            · exact hmem

/-- The numbers of the events that have arrived. -/
def State.events (ungzip : Ungzip) (s : State) : List Nat :=
  (List.range s.arrived.length).filter (isEvent ungzip s.arrived)

theorem heard_subset (h : Inv ungzip s) : ∀ n ∈ s.heard, n ∈ s.events ungzip := by
  intro n hn
  obtain ⟨q, hq, rfl⟩ := List.mem_map.mp hn
  have hinvoked := h.invoked q (List.mem_of_mem_filter hq)
  refine List.mem_filter.mpr ⟨List.mem_range.mpr (lt_of_contentOf hinvoked), ?_⟩
  rw [isEvent, hinvoked]
  exact (List.mem_filter.mp hq).2

theorem heard_first (h : Inv ungzip s) (hl : Lined ungzip s) (hc : Covered ungzip s) :
    s.heard <+: s.events ungzip := by
  have hsorted := List.pairwise_append.mp hl.sorted
  refine prefix_of_sorted hsorted.1 (List.pairwise_lt_range.filter _) (heard_subset h)
    fun n hn m hm hlt => ?_
  obtain ⟨hrange, hevent⟩ := List.mem_filter.mp hn
  have hline : m ∈ s.line ungzip := List.mem_append_left _ hm
  rcases hc n (List.mem_range.mp hrange) hevent with hmem | hmem
  · rcases List.mem_append.mp hmem with hmem | hmem
    · exact hmem
    · exact absurd (hsorted.2.2 m hm n hmem) (by omega)
  · obtain ⟨q, hq, rfl⟩ := List.mem_map.mp hmem
    exact absurd (hl.ahead m hline q hq hevent) (by omega)

theorem heard_of_atRest (h : Inv ungzip s) (hl : Lined ungzip s) (hc : Covered ungzip s)
    (hrest : s.AtRest) : s.heard = s.events ungzip := by
  have hline : s.line ungzip = s.heard := by
    rw [State.line, hrest.2]
    exact List.append_nil _
  refine (heard_first h hl hc).eq_of_length_le ?_
  refine List.Subperm.length_le (List.subperm_of_subset (List.nodup_range.filter _) fun n hn => ?_)
  obtain ⟨hrange, hevent⟩ := List.mem_filter.mp hn
  rcases hc n (List.mem_range.mp hrange) hevent with hmem | hmem
  · exact hline ▸ hmem
  · rw [hrest.1] at hmem
    exact absurd hmem List.not_mem_nil

/-- What is called for a message, by its number. -/
def State.eventOf (ungzip : Ungzip) (s : State) (n : Nat) : Option Invocation :=
  s.arrived[n]?.bind (Frame.event ungzip)

theorem eventOf_eq (s : State) (n : Nat) :
    s.eventOf ungzip n =
      ((contentOf ungzip s.arrived n).bind dispatch).filter Invocation.isEvent := by
  rw [State.eventOf, contentOf]
  cases s.arrived[n]? <;> rfl

theorem filterMap_events (s : State) :
    (s.events ungzip).filterMap (s.eventOf ungzip) = s.arrived.filterMap (Frame.event ungzip) := by
  have hskip : ∀ n, isEvent ungzip s.arrived n = false → s.eventOf ungzip n = none := by
    intro n hn
    rw [eventOf_eq, Option.filter_eq_none_iff]
    intro i hi
    rw [isEvent, hi] at hn
    simpa using hn
  have hfilter : ∀ l : List Nat,
      (l.filter (isEvent ungzip s.arrived)).filterMap (s.eventOf ungzip) =
        l.filterMap (s.eventOf ungzip) := by
    intro l
    rw [List.filterMap_filter]
    refine List.filterMap_congr fun n _ => ?_
    cases hn : isEvent ungzip s.arrived n with
    | true => rfl
    | false => exact (hskip n hn).symm
  have hget : ∀ l : List Frame, (List.range l.length).filterMap
      (fun n => l[n]?.bind (Frame.event ungzip)) = l.filterMap (Frame.event ungzip) := by
    intro l
    induction l using List.reverseRecOn with
    | nil => rfl
    | append_singleton l f ih =>
        have hold : (List.range l.length).filterMap
            (fun n => (l ++ [f])[n]?.bind (Frame.event ungzip)) =
              l.filterMap (Frame.event ungzip) := by
          rw [← ih]
          refine List.filterMap_congr fun n hn => ?_
          rw [List.getElem?_append_left (List.mem_range.mp hn)]
        rw [List.length_append, List.length_singleton, List.range_succ, List.filterMap_append,
          List.filterMap_append, hold]
        simp [List.filterMap_cons]
  rw [State.events, hfilter]
  exact hget s.arrived

theorem filter_invoked (h : Inv ungzip s) :
    (s.invoked.filter fun q => q.2.isEvent).map Prod.snd =
      s.heard.filterMap (s.eventOf ungzip) := by
  rw [State.heard, List.filterMap_map, ← List.filterMap_eq_map]
  refine List.filterMap_congr fun q hq => ?_
  obtain ⟨hmem, hevent⟩ := List.mem_filter.mp hq
  have hinvoked := h.invoked q hmem
  rw [Function.comp, Function.comp, eventOf_eq, hinvoked, Option.filter_some, if_pos hevent]

/-- The listeners are called for the first events that arrived, in their order. -/
theorem invoked_first (h : Inv ungzip s) (hl : Lined ungzip s) (hc : Covered ungzip s) :
    (s.invoked.filter fun q => q.2.isEvent).map Prod.snd <+:
      s.arrived.filterMap (Frame.event ungzip) := by
  rw [filter_invoked h, ← filterMap_events]
  exact (heard_first h hl hc).filterMap _

theorem invoked_of_atRest (h : Inv ungzip s) (hl : Lined ungzip s) (hc : Covered ungzip s)
    (hrest : s.AtRest) :
    (s.invoked.filter fun q => q.2.isEvent).map Prod.snd =
      s.arrived.filterMap (Frame.event ungzip) := by
  rw [filter_invoked h, heard_of_atRest h hl hc hrest, filterMap_events]

/-! ## No event twice

A message is read, waits or has been dispatched, and never two of these. It does not
matter in which order. -/

/-- The messages that have come to something, wait for the worker or are being read. -/
def State.places (s : State) : List Nat :=
  s.invoked.map Prod.fst ++ (s.waiting ++ s.reading.map Prod.fst)

theorem nodup_of_subperm {l l' : List Nat} (h : l.Subperm l') (hl : l'.Nodup) : l.Nodup := by
  obtain ⟨_, hperm, hsub⟩ := h
  exact hperm.nodup_iff.mp (hl.sublist hsub)

theorem places_lt (h : Inv ungzip s) : ∀ n ∈ s.places, n < s.arrived.length := by
  intro n hn
  rcases List.mem_append.mp hn with hn | hn
  · obtain ⟨q, hq, rfl⟩ := List.mem_map.mp hn
    exact lt_of_contentOf (h.invoked q hq)
  · rcases List.mem_append.mp hn with hn | hn
    · exact h.known n hn
    · obtain ⟨q, hq, rfl⟩ := List.mem_map.mp hn
      exact (List.getElem?_eq_some_iff.mp (h.reading q hq)).1

theorem places_resume (s : State) (number : Nat) (obj : Option Value) :
    (s.resume number obj).places.Subperm (number :: s.places) := by
  rw [State.resume_eq]
  show ((s.invoked ++ resumed number obj).map Prod.fst ++
    (s.waiting ++ s.reading.map Prod.fst)).Subperm _
  cases hobj : obj.bind dispatch with
  | none =>
      rw [resumed, hobj, Option.toList_none, List.map_nil, List.append_nil]
      exact List.Subperm.cons_self
  | some i =>
      rw [resumed, hobj, Option.toList_some, List.map_singleton, List.map_append,
        List.map_singleton, List.append_assoc]
      exact List.perm_middle.subperm

theorem places_request (s : State) (number : Nat) (order : Order) :
    (s.request (.message number) order).places.Perm (number :: s.places) := by
  have hwaiting : (s.request (.message number) order).waiting = s.waiting ++ [number] := by
    simp [State.waiting, State.request, List.filterMap_append, Caller.number?]
  show (s.invoked.map Prod.fst ++ ((s.request (.message number) order).waiting ++
    s.reading.map Prod.fst)).Perm _
  rw [hwaiting, List.append_assoc, ← List.append_assoc]
  refine List.perm_middle.trans ?_
  rw [List.append_assoc]
  rfl

theorem places_decompressAndJson (s : State) (number : Nat) (bytes : List UInt8) :
    (s.decompressAndJson ungzip number bytes).places.Subperm (number :: s.places) := by
  unfold State.decompressAndJson
  split
  · exact places_resume s number _
  · exact (places_request s number _).subperm

theorem places_erase {number : Nat} {bytes : List UInt8} (h : (number, bytes) ∈ s.reading) :
    (number :: State.places { s with reading := s.reading.erase (number, bytes) }).Perm
      s.places := by
  have hreading : (number :: (s.reading.erase (number, bytes)).map Prod.fst).Perm
      (s.reading.map Prod.fst) := ((List.perm_cons_erase h).map Prod.fst).symm
  refine List.perm_middle.symm.trans ?_
  refine (List.Perm.append_left _ (List.perm_middle.symm.trans ?_))
  exact List.Perm.append_left _ hreading

/-- A step gives no message a second place, and one that has just arrived its first. -/
theorem places_next (h : Inv ungzip s) {l : Label} (hen : enabled s l) :
    (next ungzip s l).places.Subperm s.places ∨
      (∃ f, l = .receive f) ∧
        (next ungzip s l).places.Subperm (s.arrived.length :: s.places) := by
  cases l with
  | receive f =>
      refine .inr ⟨⟨f, rfl⟩, ?_⟩
      cases f with
      | blob bytes =>
          show (s.invoked.map Prod.fst ++ (s.waiting ++
            (s.reading ++ [(s.arrived.length, bytes)]).map Prod.fst)).Subperm _
          rw [List.map_append, List.map_singleton, ← List.append_assoc, ← List.append_assoc]
          refine (List.perm_append_singleton _ _).subperm.trans ?_
          rw [List.append_assoc]
          exact List.Subperm.refl _
      | arrayBuffer bytes => exact places_decompressAndJson _ _ _
      | text t => exact places_resume _ _ _
      | other => exact List.Subperm.cons_self
  | read number bytes =>
      exact .inl ((places_decompressAndJson _ number bytes).trans (places_erase hen).subperm)
  | unreadable number bytes =>
      exact .inl (List.Subperm.cons_self.trans (places_erase hen).subperm)
  | request =>
      have hwaiting : (s.request .other .other).waiting = s.waiting := by
        simp [State.waiting, State.request, List.filterMap_append, Caller.number?]
      left
      show (s.invoked.map Prod.fst ++ ((s.request .other .other).waiting ++ _)).Subperm _
      rw [hwaiting]
      exact List.Subperm.refl _
  | work =>
      left
      simp only [Dispatch.next]
      split <;> exact List.Subperm.refl _
  | reply =>
      left
      cases hout : s.outbox with
      | nil =>
          simp only [Dispatch.next, hout]
          exact List.Subperm.refl _
      | cons q outbox =>
          obtain ⟨tag, data⟩ := q
          simp only [Dispatch.next, hout]
          rcases h.reply hout with ⟨hfind, -⟩ | ⟨caller, suspend, hsuspend, -, heq, -⟩
          · unfold State.onMessage
            rw [hfind]
            exact List.Subperm.refl _
          · rw [heq]
            cases caller with
            | message number =>
                refine (places_resume _ number data).trans (List.Perm.subperm ?_)
                have hwaiting : s.waiting = number :: State.waiting { s with outbox, suspend } := by
                  rw [State.waiting, hsuspend]
                  rfl
                show (number :: (s.invoked.map Prod.fst ++ _)).Perm (s.invoked.map Prod.fst ++ _)
                rw [hwaiting]
                exact List.perm_middle.symm
            | other =>
                have hwaiting : s.waiting = State.waiting { s with outbox, suspend } := by
                  rw [State.waiting, hsuspend]
                  rfl
                show (s.invoked.map Prod.fst ++ _).Subperm (s.invoked.map Prod.fst ++ _)
                rw [hwaiting]
  | fail =>
      left
      show (s.onClose ungzip).places.Subperm s.places
      rw [State.onClose_eq]
      exact (List.Sublist.append_left (List.sublist_append_right _ _) _).subperm

theorem nodup_places {ok : State → Label → Prop} (hs : (machine ungzip).Reaches ok s) :
    s.places.Nodup := by
  refine hs.invariant (I := fun s => s.places.Nodup) List.nodup_nil ?_
  intro s l hs h hen _
  have hinv : Inv ungzip s := inv_of_reaches hs
  rcases places_next hinv hen with hsub | ⟨-, hsub⟩
  · exact nodup_of_subperm hsub h
  · exact nodup_of_subperm hsub
      (List.nodup_cons.mpr ⟨fun hmem => Nat.lt_irrefl _ (places_lt hinv _ hmem), h⟩)

theorem Subperm.filterMap {α β : Type*} (f : α → Option β) {l l' : List α}
    (h : l.Subperm l') : (l.filterMap f).Subperm (l'.filterMap f) := by
  obtain ⟨l'', hperm, hsub⟩ := h
  exact ⟨l''.filterMap f, hperm.filterMap f, hsub.filterMap f⟩

/-- Whatever happens, the listeners are called for messages that have arrived, and for
none of them twice. -/
theorem invoked_subperm {ok : State → Label → Prop} (hs : (machine ungzip).Reaches ok s) :
    ((s.invoked.filter fun q => q.2.isEvent).map Prod.snd).Subperm
      (s.arrived.filterMap (Frame.event ungzip)) := by
  have hinv : Inv ungzip s := inv_of_reaches hs
  have hnodup : s.heard.Nodup := by
    refine List.Nodup.sublist (List.filter_sublist.map _) ?_
    exact (nodup_places hs).sublist (List.sublist_append_left _ _)
  rw [filter_invoked hinv, ← filterMap_events]
  exact Subperm.filterMap _ (List.subperm_of_subset hnodup (heard_subset hinv))

end

end WebSshTool.Dispatch
