import WebSshTool.Dispatch.Order
import WebSshTool.Workers.Compress

/-!
# The worker and the page come to the same

A call that the worker answers comes to what the worker made of the message,
and one that it does not answer to what the page makes of what it still holds.
Both are what the function of `CompressCommon.ts` makes of the argument, with
two exceptions. What was transferred is gone, so a call that is refused then
fails where there was something to read; and what JSON text a value has may be
up to something the clone does not have, such as a `toJSON` it inherits.

`Meets` says of a step that it leads to neither, and a step does exactly when
it breaks the agreement.
-/

namespace WebSshTool.Workers

variable {ν : Type*} {p : Platform ν} {s : State ν} {l : Label ν}

/-! ## One call -/

/-- A refusal costs nothing: what the page loses had no result anyway. -/
def Call.Recovers (p : Platform ν) (c : Call ν) : Prop :=
  c.transfers = true → c.direct p = none

/-- The copy has the text of the original. -/
def Call.Survives (p : Platform ν) : Call ν → Prop
  | .stringifyAndCompress obj => ∀ copy, p.structuredClone obj = some copy →
      stringifyAndDeflate p copy = stringifyAndDeflate p obj
  | .compress _ | .decompress _ | .decompressAndJson _ => True

theorem held_direct_iff {c : Call ν} : c.held.direct p = c.direct p ↔ c.Recovers p := by
  cases c with
  | compress buffer | decompress buffer | decompressAndJson arr =>
      exact ⟨fun h _ => h.symm, fun h => (h rfl).symm⟩
  | stringifyAndCompress obj => exact iff_of_true rfl fun h => absurd h (by simp [Call.transfers])

theorem handle_iff {c : Call ν} {order : Order ν} (h : c.post p = some order) :
    order.handle p = c.direct p ↔ c.Survives p := by
  have hattached : ∀ {arr : Dispatch.ArrayBuffer} {f : Bytes → Order ν},
      arr.map f = some order → ∃ bytes, arr = some bytes ∧ f bytes = order :=
    fun h => Option.map_eq_some_iff.mp h
  cases c with
  | compress buffer | decompress buffer | decompressAndJson arr =>
      obtain ⟨bytes, rfl, rfl⟩ := hattached h
      exact iff_of_true rfl trivial
  | stringifyAndCompress obj =>
      obtain ⟨copy, hcopy, rfl⟩ := Option.map_eq_some_iff.mp h
      have hbuffer : Function.Injective Result.buffer := fun _ _ => Result.buffer.inj
      constructor
      · intro heq copy' hcopy'
        obtain rfl := Option.some.inj (hcopy.symm.trans hcopy')
        exact Option.map_injective hbuffer heq
      · intro hsurvives
        exact congrArg (Option.map Result.buffer) (hsurvives copy hcopy)

/-! ## The property and the condition -/

/-- What each call has come to is what the direct function makes of its
argument. -/
def Agrees (p : Platform ν) (s : State ν) : Prop :=
  ∀ n r, (n, r) ∈ s.returned → ∃ c, s.calls[n]? = some c ∧ r = c.direct p

/-- Call `c` waits for the answer to `tag`. -/
def State.Waits (s : State ν) (tag : Nat) (c : Call ν) : Prop :=
  ∃ w, (tag, some w) ∈ s.suspend ∧ s.calls[w.number]? = some c

/-- What a step must find so that nothing goes wrong. -/
def Meets (p : Platform ν) (s : State ν) : Label ν → Prop
  | .answer => ∀ tag data c, s.outbox.head? = some (tag, data) → s.Waits tag c →
      bif data.isSome then c.Survives p else c.Recovers p
  | .fail => ∀ tag c, s.Waits tag c → c.Recovers p
  | .call _ | .work _ => True

/-- A call is over, or waits for a worker that has not failed. -/
def Attended (s : State ν) : Prop :=
  ∀ n < s.calls.length, (∃ r, (n, r) ∈ s.returned) ∨
    s.closed = false ∧ ∃ tag w, (tag, some w) ∈ s.suspend ∧ w.number = n

/-! ## The table -/

/-- What waits for `tag` is call `c`, and what is on the way with that tag is
its message or the answer to it. -/
structure Served (p : Platform ν) (s : State ν) (tag : Nat) (w : Waiting ν) (c : Call ν) :
    Prop where
  call : s.calls[w.number]? = some c
  held : w.held = c.held
  posted : ∀ order, (tag, order) ∈ s.inbox → c.post p = some order
  answered : ∀ res, (tag, some res) ∈ s.outbox →
    ∃ order, c.post p = some order ∧ order.handle p = some res

structure Inv (p : Platform ν) (s : State ν) : Prop where
  suspend_lt : ∀ e ∈ s.suspend, e.1 < s.tag
  inbox_lt : ∀ e ∈ s.inbox, e.1 < s.tag
  outbox_lt : ∀ e ∈ s.outbox, e.1 < s.tag
  nodup : (s.suspend.map Prod.fst).Nodup
  served : ∀ tag w, (tag, some w) ∈ s.suspend → ∃ c, Served p s tag w c
  closed : s.closed = true → s.suspend = []
  attended : Attended s

theorem init_inv : Inv p (State.init : State ν) where
  suspend_lt _ h := absurd h (by simp [State.init])
  inbox_lt _ h := absurd h (by simp [State.init])
  outbox_lt _ h := absurd h (by simp [State.init])
  nodup := List.nodup_nil
  served _ _ h := absurd h (by simp [State.init])
  closed _ := rfl
  attended _ h := absurd h (by simp [State.init])

/-- What waits is the call it says. -/
theorem Inv.served_of_waits (h : Inv p s) {tag : Nat} {w : Waiting ν} {c : Call ν}
    (hw : (tag, some w) ∈ s.suspend) (hc : s.calls[w.number]? = some c) : Served p s tag w c := by
  obtain ⟨c', hserved⟩ := h.served tag w hw
  obtain rfl := Option.some.inj (hc.symm.trans hserved.call)
  exact hserved

/-! ## Calls -/

theorem call_closed (hclosed : s.closed = true) (c : Call ν) :
    s.call p c =
      { s with
        calls := s.calls ++ [c]
        returned := s.returned ++ [(s.calls.length, c.direct p)] } := by
  simp only [State.call, if_pos hclosed]

theorem call_posted (hopen : s.closed = false) {c : Call ν} {order : Order ν}
    (hpost : c.post p = some order) :
    s.call p c =
      { s with
        calls := s.calls ++ [c]
        tag := s.tag + 1
        suspend := s.suspend ++ [(s.tag, some ⟨s.calls.length, c.held⟩)]
        inbox := s.inbox ++ [(s.tag, order)] } := by
  simp only [State.call, hopen, Bool.false_eq_true, if_false, hpost]

theorem call_unposted (hopen : s.closed = false) {c : Call ν} (hpost : c.post p = none) :
    s.call p c =
      { s with
        calls := s.calls ++ [c]
        tag := s.tag + 1
        suspend := s.suspend ++ [(s.tag, none)]
        returned := s.returned ++ [(s.calls.length, c.direct p)] } := by
  simp only [State.call, hopen, Bool.false_eq_true, if_false, hpost]

theorem getElem?_concat {c c' : Call ν} {n : Nat} (h : s.calls[n]? = some c) :
    (s.calls ++ [c'])[n]? = some c := by
  rw [List.getElem?_append_left (List.getElem?_eq_some_iff.mp h).1, h]

/-- One more call, which is over at once or waits. -/
theorem Attended.concat (h : Attended s) {c : Call ν} {s' : State ν}
    (hcalls : s'.calls = s.calls ++ [c]) (hclosed : s'.closed = s.closed)
    (hreturned : s.returned ⊆ s'.returned) (hsuspend : s.suspend ⊆ s'.suspend)
    (hnew : (∃ r, (s.calls.length, r) ∈ s'.returned) ∨
      s.closed = false ∧ ∃ tag w, (tag, some w) ∈ s'.suspend ∧ w.number = s.calls.length) :
    Attended s' := by
  intro n hn
  rw [hcalls, List.length_append, List.length_singleton] at hn
  rw [hclosed]
  rcases Nat.lt_succ_iff_lt_or_eq.mp hn with hn | rfl
  · rcases h n hn with ⟨r, hr⟩ | ⟨hopen, tag, w, hw, hnumber⟩
    · exact .inl ⟨r, hreturned hr⟩
    · exact .inr ⟨hopen, tag, w, hsuspend hw, hnumber⟩
  · exact hnew

/-- What is on the way for an earlier request is what it was. -/
theorem Served.concat {tag : Nat} {w : Waiting ν} {c c' : Call ν} {s' : State ν}
    (h : Served p s tag w c) (hcalls : s'.calls = s.calls ++ [c'])
    (hinbox : ∀ order, (tag, order) ∈ s'.inbox → (tag, order) ∈ s.inbox)
    (houtbox : s'.outbox = s.outbox) : Served p s' tag w c where
  call := by rw [hcalls]; exact getElem?_concat h.call
  held := h.held
  posted order horder := h.posted order (hinbox order horder)
  answered res hres := h.answered res (houtbox ▸ hres)

theorem lt_concat {α : Type*} {entries : List (Nat × α)} {tag : Nat} (e : α)
    (h : ∀ x ∈ entries, x.1 < tag) : ∀ x ∈ entries ++ [(tag, e)], x.1 < tag + 1 := by
  intro x hx
  rcases List.mem_append.mp hx with hx | hx
  · exact Nat.lt_succ_of_lt (h x hx)
  · obtain rfl := List.mem_singleton.mp hx
    exact Nat.lt_succ_self _

theorem lt_next {α : Type*} {entries : List (Nat × α)} {tag : Nat}
    (h : ∀ x ∈ entries, x.1 < tag) : ∀ x ∈ entries, x.1 < tag + 1 :=
  fun x hx => Nat.lt_succ_of_lt (h x hx)

theorem Inv.call (h : Inv p s) (c : Call ν) : Inv p (s.call p c) := by
  have hnodup : ∀ e, ((s.suspend ++ [(s.tag, e)]).map Prod.fst).Nodup := by
    intro e
    rw [List.map_append, List.map_singleton]
    refine List.nodup_append.mpr ⟨h.nodup, List.nodup_singleton _, ?_⟩
    intro a ha b hb
    obtain rfl := List.mem_singleton.mp hb
    obtain ⟨x, hx, rfl⟩ := List.mem_map.mp ha
    exact Nat.ne_of_lt (h.suspend_lt x hx)
  cases hclosed : s.closed with
  | true =>
      rw [call_closed hclosed]
      exact
        { suspend_lt := h.suspend_lt
          inbox_lt := h.inbox_lt
          outbox_lt := h.outbox_lt
          nodup := h.nodup
          served := fun tag w hw => by
            obtain ⟨c', hserved⟩ := h.served tag w hw
            exact ⟨c', hserved.concat rfl (fun _ => id) rfl⟩
          closed := h.closed
          attended := h.attended.concat rfl rfl (List.subset_append_left ..) (fun _ => id)
            (.inl ⟨c.direct p, by simp⟩) }
  | false =>
      cases hpost : c.post p with
      | some order =>
          rw [call_posted hclosed hpost]
          refine
            { suspend_lt := lt_concat _ h.suspend_lt
              inbox_lt := lt_concat _ h.inbox_lt
              outbox_lt := lt_next h.outbox_lt
              nodup := hnodup _
              served := ?_
              closed := fun hc => absurd (hclosed.symm.trans hc) (by simp)
              attended := h.attended.concat rfl rfl (fun _ => id) (List.subset_append_left ..)
                (.inr ⟨hclosed, s.tag, ⟨s.calls.length, c.held⟩, by simp, rfl⟩) }
          intro tag w hw
          rcases List.mem_append.mp hw with hw | hw
          · obtain ⟨c', hserved⟩ := h.served tag w hw
            refine ⟨c', hserved.concat rfl (fun order' horder => ?_) rfl⟩
            rcases List.mem_append.mp horder with horder | horder
            · exact horder
            · have htag := congrArg Prod.fst (List.mem_singleton.mp horder)
              exact absurd htag (Nat.ne_of_lt (h.suspend_lt _ hw))
          · obtain ⟨rfl, hwaiting⟩ := Prod.mk.inj (List.mem_singleton.mp hw)
            obtain rfl := Option.some.inj hwaiting
            refine ⟨c, List.getElem?_concat_length, rfl, ?_, ?_⟩
            · intro order' horder
              rcases List.mem_append.mp horder with horder | horder
              · exact absurd (h.inbox_lt _ horder) (Nat.lt_irrefl _)
              · rw [hpost, (Prod.mk.inj (List.mem_singleton.mp horder)).2]
            · intro res hres
              exact absurd (h.outbox_lt _ hres) (Nat.lt_irrefl _)
      | none =>
          rw [call_unposted hclosed hpost]
          refine
            { suspend_lt := lt_concat _ h.suspend_lt
              inbox_lt := lt_next h.inbox_lt
              outbox_lt := lt_next h.outbox_lt
              nodup := hnodup _
              served := ?_
              closed := fun hc => absurd (hclosed.symm.trans hc) (by simp)
              attended := h.attended.concat rfl rfl (List.subset_append_left ..)
                (List.subset_append_left ..) (.inl ⟨c.direct p, by simp⟩) }
          intro tag w hw
          rcases List.mem_append.mp hw with hw | hw
          · obtain ⟨c', hserved⟩ := h.served tag w hw
            exact ⟨c', hserved.concat rfl (fun _ => id) rfl⟩
          · have hnone := (Prod.mk.inj (List.mem_singleton.mp hw)).2
            exact absurd hnone (by simp)

/-! ## Answers -/

theorem Inv.work (h : Inv p s) {ok : Bool} : Inv p (next p s (.work ok)) := by
  cases hinbox : s.inbox with
  | nil => simpa only [next, hinbox] using h
  | cons first inbox =>
      obtain ⟨tag, order⟩ := first
      have hmem : ∀ e ∈ inbox, e ∈ s.inbox := fun e he => hinbox ▸ List.mem_cons_of_mem _ he
      have hfirst : (tag, order) ∈ s.inbox := hinbox ▸ List.mem_cons_self
      simp only [next, hinbox]
      refine
        { suspend_lt := h.suspend_lt
          inbox_lt := fun e he => h.inbox_lt e (hmem e he)
          outbox_lt := ?_
          nodup := h.nodup
          served := ?_
          closed := h.closed
          attended := h.attended }
      · intro e he
        rcases List.mem_append.mp he with he | he
        · exact h.outbox_lt e he
        · obtain rfl := List.mem_singleton.mp he
          exact h.inbox_lt _ hfirst
      · intro tag' w hw
        obtain ⟨c, hserved⟩ := h.served tag' w hw
        refine ⟨c, hserved.call, hserved.held, fun order' horder =>
          hserved.posted order' (hmem _ horder), fun res hres => ?_⟩
        rcases List.mem_append.mp hres with hres | hres
        · exact hserved.answered res hres
        · obtain ⟨rfl, hdata⟩ := Prod.mk.inj (List.mem_singleton.mp hres)
          refine ⟨order, hserved.posted order hfirst, ?_⟩
          cases ok with
          | true => exact hdata.symm
          | false => exact absurd hdata (by simp)

/-- What the table looks like when an answer arrives: nobody waits for it, or
the one entry with its tag goes. -/
theorem onMessage_cases (s : State ν) (tag : Nat) (data : Option Result) :
    (∀ entry ∈ s.suspend, entry.1 ≠ tag) ∧ s.onMessage p tag data = s ∨
      ∃ waiting, (tag, waiting) ∈ s.suspend ∧
        s.onMessage p tag data =
          { s with
            suspend := s.suspend.filter fun entry => entry.1 != tag
            returned := s.returned ++ (settle p data waiting).toList } := by
  cases hfind : s.suspend.find? fun entry => entry.1 == tag with
  | none =>
      refine .inl ⟨fun entry hentry heq => ?_, by simp only [State.onMessage, hfind]⟩
      have hno := List.find?_eq_none.mp hfind entry hentry
      exact hno (by simpa using heq)
  | some entry =>
      obtain ⟨tag', waiting⟩ := entry
      obtain rfl : tag' = tag := by simpa using List.find?_some hfind
      exact .inr ⟨waiting, List.mem_of_find?_eq_some hfind, by simp only [State.onMessage, hfind]⟩

theorem Inv.onMessage (h : Inv p s) (tag : Nat) (data : Option Result) :
    Inv p (s.onMessage p tag data) := by
  rcases onMessage_cases (p := p) s tag data with ⟨-, heq⟩ | ⟨waiting, hwaiting, heq⟩
  · rwa [heq]
  · rw [heq]
    have hmem : ∀ entry ∈ s.suspend.filter (fun entry => entry.1 != tag), entry ∈ s.suspend :=
      fun entry hentry => (List.mem_filter.mp hentry).1
    refine
      { suspend_lt := fun e he => h.suspend_lt e (hmem e he)
        inbox_lt := h.inbox_lt
        outbox_lt := h.outbox_lt
        nodup := h.nodup.sublist (List.filter_sublist.map Prod.fst)
        served := fun tag' w hw => ?_
        closed := fun hc => by simp [h.closed hc]
        attended := fun n hn => ?_ }
    · obtain ⟨c, hserved⟩ := h.served tag' w (hmem _ hw)
      exact ⟨c, hserved.call, hserved.held, hserved.posted, hserved.answered⟩
    · rcases h.attended n hn with ⟨r, hr⟩ | ⟨hopen, tag', w, hw, rfl⟩
      · exact .inl ⟨r, List.mem_append_left _ hr⟩
      · by_cases htag : tag' = tag
        · subst htag
          -- the two entries with this tag are one
          have hsame : waiting = some w := by
            have hinj := List.inj_on_of_nodup_map h.nodup hwaiting hw rfl
            exact (Prod.mk.inj hinj).2
          subst hsame
          exact .inl ⟨_, List.mem_append_right _ (Option.mem_toList.mpr rfl)⟩
        · exact .inr ⟨hopen, tag', w, List.mem_filter.mpr ⟨hw, by simpa using htag⟩, rfl⟩

theorem Inv.answer (h : Inv p s) : Inv p (next p s .answer) := by
  cases houtbox : s.outbox with
  | nil => simpa only [next, houtbox] using h
  | cons first outbox =>
      obtain ⟨tag, data⟩ := first
      have hmem : ∀ e ∈ outbox, e ∈ s.outbox := fun e he => houtbox ▸ List.mem_cons_of_mem _ he
      simp only [next, houtbox]
      refine Inv.onMessage ?_ tag data
      exact
        { suspend_lt := h.suspend_lt
          inbox_lt := h.inbox_lt
          outbox_lt := fun e he => h.outbox_lt e (hmem e he)
          nodup := h.nodup
          served := fun tag' w hw => by
            obtain ⟨c, hserved⟩ := h.served tag' w hw
            exact ⟨c, hserved.call, hserved.held, hserved.posted,
              fun res hres => hserved.answered res (hmem _ hres)⟩
          closed := h.closed
          attended := h.attended }

/-- The calls that waited when the worker failed. -/
theorem mem_onClose {n : Nat} {r : Option Result} :
    (n, r) ∈ (s.onClose p).returned ↔ (n, r) ∈ s.returned ∨
      ∃ tag w, (tag, some w) ∈ s.suspend ∧ w.number = n ∧ w.held.direct p = r := by
  simp only [State.onClose, List.mem_append, List.mem_filterMap, settle, Option.map_eq_some_iff,
    Prod.mk.injEq]
  constructor
  · rintro (hr | ⟨⟨tag, waiting⟩, hentry, w, rfl, hw⟩)
    · exact .inl hr
    · exact .inr ⟨tag, w, hentry, hw⟩
  · rintro (hr | ⟨tag, w, hentry, hw⟩)
    · exact .inl hr
    · exact .inr ⟨(tag, some w), hentry, w, rfl, hw⟩

theorem Inv.onClose (h : Inv p s) : Inv p (s.onClose p) where
  suspend_lt _ he := absurd he (by simp [State.onClose])
  inbox_lt := h.inbox_lt
  outbox_lt := h.outbox_lt
  nodup := List.nodup_nil
  served _ _ hw := absurd hw (by simp [State.onClose])
  closed _ := rfl
  attended n hn := by
    rcases h.attended n hn with ⟨r, hr⟩ | ⟨-, tag, w, hw, hnumber⟩
    · exact .inl ⟨r, mem_onClose.mpr (.inl hr)⟩
    · exact .inl ⟨_, mem_onClose.mpr (.inr ⟨tag, w, hw, hnumber, rfl⟩)⟩

theorem Inv.next (h : Inv p s) : Inv p (next p s l) := by
  cases l with
  | call c => exact h.call c
  | work ok => exact h.work
  | answer => exact h.answer
  | fail => exact h.onClose

/-! ## What the steps return -/

theorem agrees_concat (h : Agrees p s) {c : Call ν} {s' : State ν}
    (hcalls : s'.calls = s.calls ++ [c])
    (hreturned : ∀ n r, (n, r) ∈ s'.returned → (n, r) ∈ s.returned ∨
      n = s.calls.length ∧ r = c.direct p) : Agrees p s' := by
  intro n r hr
  rw [hcalls]
  rcases hreturned n r hr with hr | ⟨rfl, rfl⟩
  · obtain ⟨c', hc', heq⟩ := h n r hr
    exact ⟨c', getElem?_concat hc', heq⟩
  · exact ⟨c, List.getElem?_concat_length, rfl⟩

theorem Agrees.call (h : Agrees p s) (c : Call ν) : Agrees p (s.call p c) := by
  have happend : ∀ n r, (n, r) ∈ s.returned ++ [(s.calls.length, c.direct p)] →
      (n, r) ∈ s.returned ∨ n = s.calls.length ∧ r = c.direct p := by
    intro n r hr
    simpa using hr
  cases hclosed : s.closed with
  | true =>
      rw [call_closed hclosed]
      exact agrees_concat h rfl happend
  | false =>
      cases hpost : c.post p with
      | some order =>
          rw [call_posted hclosed hpost]
          exact agrees_concat h rfl fun _ _ => .inl
      | none =>
          rw [call_unposted hclosed hpost]
          exact agrees_concat h rfl happend

theorem Agrees.work (h : Agrees p s) {ok : Bool} : Agrees p (next p s (.work ok)) := by
  cases hinbox : s.inbox with
  | nil => simpa only [next, hinbox] using h
  | cons first inbox =>
      simp only [next, hinbox]
      exact h

/-- One more result is right when it is what its call comes to directly. -/
theorem agrees_append_iff (h : Agrees p s) {w : Waiting ν} {c : Call ν}
    (hc : s.calls[w.number]? = some c) {s' : State ν} (hcalls : s'.calls = s.calls)
    {r : Option Result} (hreturned : s'.returned = s.returned ++ [(w.number, r)]) :
    Agrees p s' ↔ r = c.direct p := by
  constructor
  · intro hagrees
    obtain ⟨c', hc', heq⟩ := hagrees w.number r (by rw [hreturned]; simp)
    rw [hcalls, hc] at hc'
    obtain rfl := Option.some.inj hc'
    exact heq
  · rintro rfl n r hr
    rw [hreturned] at hr
    rw [hcalls]
    rcases List.mem_append.mp hr with hr | hr
    · exact h n r hr
    · obtain ⟨rfl, rfl⟩ := Prod.mk.inj (List.mem_singleton.mp hr)
      exact ⟨c, hc, rfl⟩

/-- The result of a call that waited, by what its promise came to. -/
theorem settled_iff {tag : Nat} {w : Waiting ν} {c : Call ν} (h : Served p s tag w c)
    {data : Option Result} (hdata : (tag, data) ∈ s.outbox) {r : Option Result}
    (hr : settle p data (some w) = some (w.number, r)) :
    r = c.direct p ↔ bif data.isSome then c.Survives p else c.Recovers p := by
  have hsettled := (Prod.mk.inj (Option.some.inj hr)).2
  cases data with
  | some res =>
      obtain ⟨order, hpost, hhandle⟩ := h.answered res hdata
      obtain rfl : some res = r := hsettled
      rw [Option.isSome_some, cond_true, ← hhandle]
      exact handle_iff hpost
  | none =>
      rw [← hsettled, h.held]
      exact held_direct_iff

theorem answer_iff (h : Inv p s) (hagrees : Agrees p s) :
    Meets p s .answer ↔ Agrees p (next p s .answer) := by
  cases houtbox : s.outbox with
  | nil =>
      have hmeets : Meets p s .answer := fun tag data c hhead =>
        absurd hhead (by simp [houtbox])
      simpa only [next, houtbox, hmeets, true_iff] using hagrees
  | cons first outbox =>
      obtain ⟨tag, data⟩ := first
      have hfirst : (tag, data) ∈ s.outbox := houtbox ▸ List.mem_cons_self
      -- of the answers only the first counts, and it is for one call
      have hmeets : Meets p s .answer ↔
          ∀ c, s.Waits tag c → bif data.isSome then c.Survives p else c.Recovers p := by
        rw [Meets, houtbox, List.head?_cons]
        exact ⟨fun hm c hc => hm tag data c rfl hc, fun hm tag' data' c heq hc => by
          obtain ⟨rfl, rfl⟩ := Prod.mk.inj (Option.some.inj heq)
          exact hm c hc⟩
      rw [hmeets]
      simp only [next, houtbox]
      rcases onMessage_cases (p := p) { s with outbox := outbox } tag data with
        ⟨hno, heq⟩ | ⟨waiting, hwaiting, heq⟩
      · rw [heq]
        exact iff_of_true (fun c ⟨w, hw, _⟩ => absurd rfl (hno _ hw)) hagrees
      · rw [heq]
        have hunique : ∀ w, (tag, some w) ∈ s.suspend → waiting = some w := fun w hw =>
          (Prod.mk.inj (List.inj_on_of_nodup_map h.nodup hwaiting hw rfl)).2
        cases waiting with
        | none =>
            refine iff_of_true (fun c ⟨w, hw, _⟩ => absurd (hunique w hw) (by simp)) ?_
            intro n r hr
            exact hagrees n r (by simpa [settle] using hr)
        | some w =>
            obtain ⟨c, hserved⟩ := h.served tag w hwaiting
            have hwaits : (∀ c', s.Waits tag c' →
                bif data.isSome then c'.Survives p else c'.Recovers p) ↔
                  bif data.isSome then c.Survives p else c.Recovers p := by
              refine ⟨fun hall => hall c ⟨w, hwaiting, hserved.call⟩,
                fun hc c' ⟨w', hw', hc'⟩ => ?_⟩
              obtain rfl := Option.some.inj (hunique w' hw')
              obtain rfl := Option.some.inj (hserved.call.symm.trans hc')
              exact hc
            obtain ⟨r, hr⟩ : ∃ r, settle p data (some w) = some (w.number, r) := ⟨_, rfl⟩
            rw [hwaits, ← settled_iff hserved hfirst hr, hr]
            refine Iff.symm (agrees_append_iff hagrees hserved.call ?_ ?_)
            · rfl
            · rfl

theorem fail_iff (h : Inv p s) (hagrees : Agrees p s) :
    Meets p s .fail ↔ Agrees p (next p s .fail) := by
  constructor
  · intro hmeets n r hr
    rcases mem_onClose.mp hr with hr | ⟨tag, w, hw, rfl, rfl⟩
    · exact hagrees n r hr
    · obtain ⟨c, hserved⟩ := h.served tag w hw
      refine ⟨c, hserved.call, ?_⟩
      rw [hserved.held]
      exact held_direct_iff.mpr (hmeets tag c ⟨w, hw, hserved.call⟩)
  · rintro hagrees' tag c ⟨w, hw, hc⟩
    obtain ⟨c', hc', heq⟩ := hagrees' w.number _ (mem_onClose.mpr (.inr ⟨tag, w, hw, rfl, rfl⟩))
    obtain rfl := Option.some.inj (hc.symm.trans hc')
    rw [(h.served_of_waits hw hc).held] at heq
    exact held_direct_iff.mp heq

/-! ## Agreement with the direct function -/

theorem meets_iff (h : Inv p s) (hagrees : Agrees p s) :
    Meets p s l ↔ Agrees p (next p s l) := by
  cases l with
  | call c => exact iff_of_true trivial (hagrees.call c)
  | work ok => exact iff_of_true trivial hagrees.work
  | answer => exact answer_iff h hagrees
  | fail => exact fail_iff h hagrees

/-- Along a run whose steps meet the condition every call comes to what the
direct function makes of its argument, and none waits for a worker that has
failed; and there the condition separates the steps that keep the agreement
from those that break it. -/
theorem worker_agrees (hs : (machine p).Reaches (Meets p) s) :
    Agrees p s ∧ Attended s ∧ ∀ l, Meets p s l ↔ Agrees p (next p s l) := by
  have hinv : Inv p s ∧ Agrees p s := by
    refine hs.invariant (I := fun s => Inv p s ∧ Agrees p s) ⟨init_inv, ?_⟩ ?_
    · exact fun n r hr => absurd hr (by simp [machine, State.init])
    · exact fun s l _ ⟨h, hagrees⟩ _ hok => ⟨h.next, (meets_iff h hagrees).mp hok⟩
  exact ⟨hinv.2, hinv.1.attended, fun l => meets_iff hinv.1 hinv.2⟩

/-! ## Two failures of the worker -/

open Dispatch (printedA printedB ungzipPrinted)
open Json (Value)

/-- The gzip of `null`. -/
def nullZipped : Bytes :=
  [0x1f, 0x8b, 0x08, 0x00, 0x00, 0x00, 0x00, 0x00, 0x00, 0x03, 0xcb, 0x2b, 0xcd, 0xc9, 0x01,
    0x00, 0x4f, 0xfc, 0xcb, 0x25, 0x04, 0x00, 0x00, 0x00]

/-- JSON values, which a clone keeps as they are. -/
def jsonPlatform : Platform Value where
  gzip bytes := if bytes = (Json.print .null).map .ofNat then nullZipped else []
  ungzip := ungzipPrinted
  stringify v := some (some (Json.print v))
  structuredClone := some

/-- The worker answers one request and fails during the next. -/
def answeredRun : List (Label Value) :=
  [.call (.decompressAndJson (some printedA)), .call (.stringifyAndCompress .null), .work true,
    .answer, .fail, .call (.decompress (some printedB))]

theorem worker_agrees_answered :
    Agrees jsonPlatform (answeredRun.foldl (next jsonPlatform) State.init) := by
  refine (worker_agrees (Machine.reaches_of_path (M := machine jsonPlatform) ?_)).1
  refine ⟨⟨trivial, trivial⟩, ⟨trivial, trivial⟩, ⟨List.cons_ne_nil _ _, trivial⟩,
    ⟨List.cons_ne_nil _ _, ?_⟩, ⟨trivial, ?_⟩, ⟨trivial, trivial⟩, trivial⟩
  · rintro tag data c hhead ⟨w, hw, hc⟩
    have hanswer : some (0, Order.handle jsonPlatform (.inflateAndJson (some printedA))) =
      some (tag, data) := hhead
    obtain ⟨rfl, rfl⟩ := Prod.mk.inj (Option.some.inj hanswer)
    have hwaiting : (0, some w) ∈ [(0, some ⟨0, .decompressAndJson none⟩),
      (1, some ⟨1, .stringifyAndCompress .null⟩)] := hw
    obtain rfl : w = ⟨0, .decompressAndJson none⟩ := by simpa using hwaiting
    obtain rfl : .decompressAndJson (some printedA) = c := Option.some.inj hc
    have hsome : (Order.handle jsonPlatform (.inflateAndJson (some printedA))).isSome = true := by
      decide +kernel
    rw [hsome]
    trivial
  · rintro tag c ⟨w, hw, hc⟩
    have hwaiting : (tag, some w) ∈ [(1, some ⟨1, .stringifyAndCompress .null⟩)] := hw
    obtain ⟨rfl, rfl⟩ : tag = 1 ∧ w = ⟨1, .stringifyAndCompress .null⟩ := by
      simpa using hwaiting
    obtain rfl : .stringifyAndCompress .null = c := Option.some.inj hc
    exact fun htransfers => absurd htransfers (by simp [Call.transfers])

/-- The worker fails while a message is with it. -/
theorem worker_disagrees :
    ¬ ∀ s : State Value, (machine jsonPlatform).Reachable s → Agrees jsonPlatform s := by
  intro h
  have hs : (machine jsonPlatform).Reachable
      (([.call (.decompressAndJson (some printedA)), .fail] : List (Label Value)).foldl
        (next jsonPlatform) State.init) :=
    Machine.reaches_of_path (M := machine jsonPlatform) ⟨⟨trivial, trivial⟩, ⟨trivial, trivial⟩,
      trivial⟩
  obtain ⟨c, hc, heq⟩ := h _ hs 0 none (.head _)
  obtain rfl : Call.decompressAndJson (some printedA) = c := Option.some.inj hc
  have hsome : (Call.direct jsonPlatform (.decompressAndJson (some printedA))).isSome = true := by
    decide +kernel
  rw [← heq] at hsome
  exact absurd hsome (by simp)

end WebSshTool.Workers
