import WebSshTool.Session.Events

/-!
# Shells and the messages that opened them

A shell keeps the name and the number of the message that opened it, and that message
is among those that have arrived: a handler takes it from the stream, and keeps it while
the shell is opened.
-/

namespace WebSshTool.Session

open Json

variable {s : State}

/-- Every message that waits has arrived, and so has the one that opens a shell. -/
structure Known (s : State) : Prop where
  waiting : ∀ a ∈ s.locking ++ s.stream, a ∈ s.arrived
  opening : ∀ a id, s.holder = some (a, .opening id) →
    a ∈ s.arrived ∧ a.command = some (.start id)
  opened : ∀ n < s.opened, ∃ a ∈ s.arrived, a.number = (s.channel n).openedBy ∧
    a.command = some (.start (s.channel n).id)

theorem Known.init : Known State.init where
  waiting a ha := absurd ha List.not_mem_nil
  opening _ _ h := absurd h (by simp [State.init])
  opened n hn := absurd hn (Nat.not_lt_zero n)

theorem ShellStep.named {n : Nat} {l : Label} {c : Shell} (h : ShellStep s n l c)
    (hn : n < s.opened) : c.id = (s.channel n).id ∧ c.openedBy = (s.channel n).openedBy := by
  cases h with
  | stay => exact ⟨rfl, rfl⟩
  | fresh hfresh => omega
  | close | put => exact ⟨rfl, rfl⟩
  | task ht => cases ht <;> exact ⟨rfl, rfl⟩

theorem handle_arrived (s : State) (a : Arrival) : (s.handle a).arrived = s.arrived := by
  unfold State.handle
  split
  · split <;> rfl
  · split <;> rfl
  · split <;> rfl
  · rfl
  · rfl

theorem next_arrived (s : State) (l : Label) : (next s l).arrived = s.arrived ∨
    ∃ request, l = .arrive request ∧
      (next s l).arrived = s.arrived ++ [⟨s.arrived.length, commandOf request⟩] := by
  cases l with
  | arrive request => exact .inr ⟨request, rfl, rfl⟩
  | start =>
      left
      simp only [next]
      split
      · rfl
      · split <;> rfl
  | lock a => exact .inl (handle_arrived _ a)
  | opened a id ok => cases ok <;> exact .inl rfl
  | put a n messages =>
      left
      simp only [next]
      split
      · rfl
      · split <;> rfl
  | _ => exact .inl rfl

theorem arrived_subset (s : State) (l : Label) : s.arrived ⊆ (next s l).arrived := by
  rcases next_arrived s l with heq | ⟨request, -, heq⟩
  · rw [heq]
    exact List.Subset.refl _
  · rw [heq]
    exact List.subset_append_left _ _

theorem Known.waiting_next (h : Known s) (l : Label) :
    ∀ a ∈ (next s l).locking ++ (next s l).stream, a ∈ (next s l).arrived := by
  intro a ha
  cases l with
  | arrive request =>
      rcases List.mem_append.mp ha with ha | ha
      · exact List.mem_append_left _ (h.waiting a (List.mem_append_left _ ha))
      · rcases List.mem_append.mp ha with ha | ha
        · exact List.mem_append_left _ (h.waiting a (List.mem_append_right _ ha))
        · exact List.mem_append_right _ ha
  | start =>
      refine arrived_subset s .start (h.waiting a ?_)
      simp only [next] at ha
      split at ha
      · exact ha
      · next b rest hstream =>
          rw [hstream]
          split at ha
          · simpa using ha
          · rcases List.mem_append.mp ha with ha | ha
            · exact List.mem_append_left _ ha
            · exact List.mem_append_right _ (List.mem_cons_of_mem b ha)
  | lock b =>
      refine arrived_subset s (.lock b) (h.waiting a ?_)
      have hsame : (next s (.lock b)).locking = s.locking.erase b ∧
          (next s (.lock b)).stream = s.stream := by
        simp only [next, State.handle]
        split
        · split <;> exact ⟨rfl, rfl⟩
        · split <;> exact ⟨rfl, rfl⟩
        · split <;> exact ⟨rfl, rfl⟩
        · exact ⟨rfl, rfl⟩
        · exact ⟨rfl, rfl⟩
      rw [hsame.1, hsame.2] at ha
      rcases List.mem_append.mp ha with ha | ha
      · exact List.mem_append_left _ (List.mem_of_mem_erase ha)
      · exact List.mem_append_right _ ha
  | opened b id ok => cases ok <;> exact h.waiting a ha
  | put b n messages =>
      refine arrived_subset s (.put b n messages) (h.waiting a ?_)
      simp only [next] at ha
      split at ha
      · exact ha
      · split at ha <;> exact ha
  | _ => exact h.waiting a ha

theorem Known.opening_next (h : Known s) {l : Label} (hen : enabled s l) {a : Arrival} {id : Text}
    (hholder : (next s l).holder = some (a, .opening id)) :
    a ∈ (next s l).arrived ∧ a.command = some (.start id) := by
  have hkeep : s.holder = some (a, .opening id) →
      a ∈ (next s l).arrived ∧ a.command = some (.start id) := fun hold =>
    ⟨arrived_subset s l (h.opening a id hold).1, (h.opening a id hold).2⟩
  cases l with
  | start =>
      refine hkeep ?_
      simp only [next] at hholder
      split at hholder
      · exact hholder
      · split at hholder <;> exact hholder
  | lock b =>
      have hb : b ∈ s.arrived := h.waiting b (List.mem_append_left _ hen.1)
      simp only [next, State.handle] at hholder
      split at hholder
      · next id' hcommand =>
          split at hholder
          · obtain ⟨rfl, heq⟩ := Prod.mk.inj (Option.some.inj hholder)
            obtain rfl := Holding.opening.inj heq
            exact ⟨arrived_subset s _ hb, hcommand⟩
          · cases hholder
      · split at hholder <;> cases hholder
      · split at hholder <;> cases hholder
      · cases hholder
      · cases hholder
  | opened b id' ok => cases ok <;> cases hholder
  | put b n messages =>
      simp only [next] at hholder
      split at hholder
      · cases hholder
      · split at hholder <;> cases hholder
  | flushed b n messages => cases hholder
  | _ => exact hkeep hholder

theorem Known.opened_next (h : Known s) {l : Label} (hen : enabled s l) {n : Nat}
    (hn : n < (next s l).opened) : ∃ a ∈ (next s l).arrived,
      a.number = ((next s l).channel n).openedBy ∧
        a.command = some (.start ((next s l).channel n).id) := by
  have hold : n < s.opened → ∃ a ∈ (next s l).arrived,
      a.number = ((next s l).channel n).openedBy ∧
        a.command = some (.start ((next s l).channel n).id) := by
    intro hlt
    obtain ⟨hid, hopenedBy⟩ := (next_channel hen n).named hlt
    rw [hid, hopenedBy]
    obtain ⟨a, ha, hnumber, hcommand⟩ := h.opened n hlt
    exact ⟨a, arrived_subset s l ha, hnumber, hcommand⟩
  rcases next_opened s l with heq | ⟨a, id, rfl, heq⟩
  · exact hold (heq ▸ hn)
  · by_cases hlt : n < s.opened
    · exact hold hlt
    · obtain rfl : n = s.opened := by omega
      obtain ⟨ha, hcommand⟩ := h.opening a id hen
      have hfresh : (next s (.opened a id true)).channel s.opened = .fresh id a.number :=
        Function.update_self ..
      rw [hfresh]
      exact ⟨a, ha, rfl, hcommand⟩

theorem Known.next (h : Known s) {l : Label} (hen : enabled s l) : Known (Session.next s l) where
  waiting := h.waiting_next l
  opening _ _ hholder := h.opening_next hen hholder
  opened _ hn := h.opened_next hen hn

end WebSshTool.Session
