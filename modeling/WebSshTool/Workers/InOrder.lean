import WebSshTool.Workers.Fallback

/-!
# Calls are over in the order they were made

The worker is a queue, the table of promises is in the order of the requests, and
when the worker fails the table is rejected from its start. So as long as every
argument can be posted no call overtakes another, neither on the way through the
worker nor on the page that takes over. What `Auth.rest` sends is the end of such
a call.
-/

namespace WebSshTool.Workers

open Json (Value)

variable {ν : Type*} {p : Platform ν} {s : State ν}

/-- The argument of the call can be posted. -/
def Posts (p : Platform ν) (_ : State ν) : Label ν → Prop
  | .call c => (c.post p).isSome = true
  | .work _ | .answer | .fail => True

/-- The calls that are not over, in the order they were made. -/
def rest (s : State ν) : List Nat :=
  List.range' s.returned.length (s.calls.length - s.returned.length)

/-- Whom an entry of the table is for. -/
def entryOf (e : Nat × Option (Waiting ν)) : Nat × Option Nat := (e.1, e.2.map Waiting.number)

/-- The calls that are over are the first ones. While the worker lives the others
are in the table, and their requests on the way, both in their order. -/
structure Queued (s : State ν) : Prop where
  le : s.returned.length ≤ s.calls.length
  returned : s.returned.map Prod.fst = List.range s.returned.length
  closed : s.closed = true → s.suspend = [] ∧ s.returned.length = s.calls.length
  tag : s.closed = false → s.tag = s.calls.length
  suspend : s.closed = false → s.suspend.map entryOf = (rest s).map fun n => (n, some n)
  wire : s.closed = false → s.outbox.map Prod.fst ++ s.inbox.map Prod.fst = rest s

theorem Queued.init : Queued (State.init : State ν) where
  le := Nat.le_refl 0
  returned := rfl
  closed h := absurd h (by simp [State.init])
  tag _ := rfl
  suspend _ := rfl
  wire _ := rfl

/-- The list of the calls that are not over, with one more call. -/
theorem range'_call {k n : Nat} (h : k ≤ n) :
    List.range' k (n + 1 - k) = List.range' k (n - k) ++ [n] := by
  obtain ⟨d, rfl⟩ := Nat.le.dest h
  rw [show k + d + 1 - k = d + 1 by omega, Nat.add_sub_cancel_left, List.range'_concat,
    Nat.one_mul]

theorem range_append_range' {k n : Nat} (h : k ≤ n) :
    List.range k ++ List.range' k (n - k) = List.range n := by
  obtain ⟨d, rfl⟩ := Nat.le.dest h
  have happend := List.range'_append_1 (s := 0) (m := k) (n := d)
  rwa [Nat.zero_add, ← List.range_eq_range', ← List.range_eq_range',
    show List.range' k d = List.range' k (k + d - k) by rw [Nat.add_sub_cancel_left]] at happend

theorem Queued.call (h : Queued s) {c : Call ν} (hpost : (c.post p).isSome = true) :
    Queued (s.call p c) := by
  obtain ⟨order, horder⟩ := Option.isSome_iff_exists.mp hpost
  cases hclosed : s.closed with
  | true =>
      obtain ⟨hsuspend, hlength⟩ := h.closed hclosed
      rw [call_closed hclosed]
      refine ⟨by simp [hlength], ?_, fun _ => ⟨hsuspend, by simp [hlength]⟩, ?_, ?_, ?_⟩
      · rw [List.map_append, h.returned, List.length_append, List.length_singleton,
          List.range_succ, ← hlength]
        rfl
      all_goals exact fun hopen => absurd (hclosed.symm.trans hopen) (by simp)
  | false =>
      have hrest : List.range' s.returned.length (s.calls.length + 1 - s.returned.length) =
          rest s ++ [s.calls.length] := range'_call h.le
      rw [call_posted hclosed horder]
      refine ⟨?_, h.returned, fun hc => absurd (hclosed.symm.trans hc) (by simp),
        fun _ => by simp [h.tag hclosed], fun _ => ?_, fun _ => ?_⟩
      · simpa using Nat.le_succ_of_le h.le
      · simp only [rest, List.length_append, List.length_singleton, hrest, List.map_append,
          h.suspend hclosed]
        simp [entryOf, h.tag hclosed]
      · simp only [rest, List.length_append, List.length_singleton, hrest, List.map_append,
          ← List.append_assoc, h.wire hclosed]
        simp [h.tag hclosed]

theorem Queued.work (h : Queued s) (ok : Bool) : Queued (next p s (.work ok)) := by
  simp only [next]
  split
  · exact h
  · next tag order inbox hinbox =>
      refine ⟨h.le, h.returned, h.closed, h.tag, h.suspend, fun hopen => ?_⟩
      refine Eq.trans ?_ (h.wire hopen)
      simp [hinbox]

/-- After the failure the table is empty and nothing is added to it. -/
theorem Queued.of_closed (h : Queued s) (hclosed : s.closed = true) {s' : State ν}
    (hcalls : s'.calls = s.calls) (hreturned : s'.returned = s.returned)
    (hclosed' : s'.closed = true) (hsuspend : s'.suspend = []) : Queued s' := by
  refine ⟨?_, ?_, fun _ => ⟨hsuspend, ?_⟩, ?_, ?_, ?_⟩
  · rw [hcalls, hreturned]
    exact h.le
  · rw [hreturned]
    exact h.returned
  · rw [hcalls, hreturned]
    exact (h.closed hclosed).2
  all_goals exact fun hopen => absurd (hclosed'.symm.trans hopen) (by simp)

/-- The first entry of the table, while the worker lives. -/
theorem Queued.head (h : Queued s) (hopen : s.closed = false) {n : Nat} {ns : List Nat}
    (hrest : rest s = n :: ns) : n = s.returned.length ∧
      ns = List.range' (n + 1) (s.calls.length - (n + 1)) ∧
      ∃ w entries, s.suspend = (n, some w) :: entries ∧ w.number = n ∧
        entries.map entryOf = ns.map fun m => (m, some m) := by
  have hlt : s.returned.length < s.calls.length := by
    by_contra hge
    rw [rest, Nat.sub_eq_zero_of_le (Nat.le_of_not_lt hge)] at hrest
    exact absurd hrest (by simp)
  obtain ⟨rfl, rfl⟩ : s.returned.length = n ∧
      List.range' (s.returned.length + 1) (s.calls.length - (s.returned.length + 1)) = ns := by
    rw [rest, show s.calls.length - s.returned.length =
      s.calls.length - (s.returned.length + 1) + 1 by omega, List.range'_succ] at hrest
    exact List.cons.inj hrest
  refine ⟨rfl, rfl, ?_⟩
  have hsuspend := h.suspend hopen
  rw [hrest, List.map_cons] at hsuspend
  obtain ⟨e, entries, heq, he, hentries⟩ := List.map_eq_cons_iff.mp hsuspend
  obtain ⟨hn, hw⟩ : e.1 = s.returned.length ∧
      e.2.map Waiting.number = some s.returned.length := Prod.mk.inj he
  obtain ⟨w, hw, hnumber⟩ := Option.map_eq_some_iff.mp hw
  exact ⟨w, entries, by rw [heq, ← hn, ← hw], hnumber, hentries⟩

theorem Queued.answer (h : Queued s) : Queued (next p s .answer) := by
  simp only [next]
  split
  · exact h
  · next tag data outbox houtbox =>
      cases hclosed : s.closed with
      | true =>
          have hsuspend := (h.closed hclosed).1
          simp only [State.onMessage, hsuspend, List.find?_nil]
          exact h.of_closed hclosed rfl rfl rfl rfl
      | false =>
          have hwire := h.wire hclosed
          rw [houtbox, List.map_cons, List.cons_append] at hwire
          obtain ⟨rfl, hlater, w, entries, hsuspend, hnumber, hentries⟩ :=
            h.head hclosed hwire.symm
          have hnot : ∀ e ∈ entries, (e.1 != s.returned.length) = true := by
            intro e he
            have hmem : entryOf e ∈ entries.map entryOf := List.mem_map_of_mem he
            rw [hentries, hlater] at hmem
            obtain ⟨m, hm, heq⟩ := List.mem_map.mp hmem
            obtain ⟨i, -, rfl⟩ := List.mem_range'.mp hm
            have hfst : s.returned.length + 1 + 1 * i = e.1 := congrArg Prod.fst heq
            simp only [bne_iff_ne]
            omega
          have hlt : s.returned.length < s.calls.length := by
            by_contra hge
            have hnone : rest s = [] := by
              rw [rest, Nat.sub_eq_zero_of_le (Nat.le_of_not_lt hge)]
              rfl
            exact absurd (hwire.trans hnone) (by simp)
          simp only [State.onMessage, hsuspend, List.find?_cons, beq_self_eq_true,
            List.filter_cons, bne_self_eq_false, Bool.false_eq_true, if_false,
            List.filter_eq_self.mpr hnot, settle, Option.map_some, Option.toList_some, hnumber]
          refine ⟨?_, ?_, fun hc => absurd hc (by simp), fun _ => h.tag hclosed, fun _ => ?_,
            fun _ => ?_⟩
          · simpa using hlt
          · rw [List.map_append, h.returned, List.length_append, List.length_singleton,
              List.range_succ]
            rfl
          · rw [hentries, hlater]
            simp [rest]
          · rw [hlater]
            simp [rest]

theorem Queued.fail (h : Queued s) : Queued (next p s .fail) := by
  cases hclosed : s.closed with
  | true =>
      have hsuspend := (h.closed hclosed).1
      simp only [next, State.onClose, hsuspend, List.filterMap_nil, List.append_nil]
      exact h.of_closed hclosed rfl rfl rfl rfl
  | false =>
      have hnumbers : (s.suspend.filterMap fun entry => settle p none entry.2).map Prod.fst =
          rest s := by
        have hentries := congrArg (List.filterMap Prod.snd) (h.suspend hclosed)
        rw [List.filterMap_map, List.filterMap_map] at hentries
        rw [List.map_filterMap]
        refine Eq.trans (List.filterMap_congr fun e _ => ?_) (hentries.trans ?_)
        · simp [settle, entryOf, Function.comp_def]
        · exact List.filterMap_some
      have hall := range_append_range' h.le
      have hlength := congrArg List.length hnumbers
      rw [List.length_map, rest, List.length_range'] at hlength
      have htotal : (s.returned ++ s.suspend.filterMap fun entry =>
          settle p none entry.2).length = s.calls.length := by
        rw [List.length_append, hlength]
        have := h.le
        omega
      simp only [next, State.onClose]
      refine ⟨Nat.le_of_eq htotal, ?_, fun _ => ⟨rfl, htotal⟩, fun hopen => ?_, fun hopen => ?_,
        fun hopen => ?_⟩
      · rw [htotal, List.map_append, h.returned, hnumbers]
        exact hall
      all_goals exact absurd hopen (by simp)

theorem Queued.next (h : Queued s) {l : Label ν} (hposts : Posts p s l) :
    Queued (Workers.next p s l) := by
  cases l with
  | call c => exact h.call hposts
  | work ok => exact h.work ok
  | answer => exact h.answer
  | fail => exact h.fail

/-- Whatever happens to the worker: the calls that are over are the ones that were
made first, in their order, and after its failure they are all over. -/
theorem returned_inOrder (hs : (machine p).Reaches (Posts p) s) :
    s.returned.map Prod.fst = List.range s.returned.length ∧
      (s.closed = true → s.returned.length = s.calls.length) := by
  have h : Queued s := hs.invariant (M := machine p) (I := Queued) Queued.init
    fun _ _ _ h _ hposts => h.next hposts
  exact ⟨h.returned, fun hclosed => (h.closed hclosed).2⟩

/-- Three messages are encoded; the worker answers one and fails. -/
def encodedRun : List (Label Value) :=
  [.call (.stringifyAndCompress .null), .call (.stringifyAndCompress (.bool true)), .work true,
    .call (.stringifyAndCompress .null), .answer, .fail, .call (.stringifyAndCompress .null)]

theorem returned_inOrder_encoded :
    (encodedRun.foldl (next jsonPlatform) State.init).returned.length = 4 ∧
      (encodedRun.foldl (next jsonPlatform) State.init).returned.map Prod.fst =
        List.range (encodedRun.foldl (next jsonPlatform) State.init).returned.length := by
  refine ⟨by decide, (returned_inOrder (Machine.reaches_of_path (M := machine jsonPlatform)
    ?_)).1⟩
  exact ⟨⟨trivial, rfl⟩, ⟨trivial, rfl⟩, ⟨List.cons_ne_nil _ _, trivial⟩, ⟨trivial, rfl⟩,
    ⟨List.cons_ne_nil _ _, trivial⟩, ⟨trivial, trivial⟩, ⟨trivial, rfl⟩, trivial⟩

end WebSshTool.Workers
