import WebSshTool.Screen.Carried

/-!
# What is shown is what there was

Whatever the page does, its listeners are called for events that were forwarded, for
none of them twice. Where it also dispatches in order and loses nothing, they have been
called for the first that were forwarded, and at rest for all.

For a terminal these are the first of what its shell has printed; an explorer shows the
last thing it was told. Either is closed by an event, or because the request that opened
it was answered with an error, and hears nothing after that.
-/

namespace WebSshTool.Screen

open Json
open Dispatch (Invocation)
open Rpc.Wire (Codecs units)

section

variable (p : Codecs)

/-- The page dispatches in order and keeps every event. -/
def Kept (s : State) : Label → Prop
  | .deliver => ∀ m ∈ s.wire.head?, Dispatch.Sequenced p.ungzip s.page (.receive m.frame)
  | .page l => Dispatch.Sequenced p.ungzip s.page l ∧ Dispatch.Keeps p.ungzip s.page l
  | _ => True

/-- Nothing is lost or overtaken at the other end either: the event channel is open and the
shells take their input. -/
def Orderly (s : State) : Label → Prop
  | .master l => Session.Relays s.master l
  | l => Kept p s l

end

section

variable {p : Codecs} {s : State}

theorem Orderly.kept {l : Label} (h : Orderly p s l) : Kept p s l := by
  cases l with
  | master l => trivial
  | _ => exact h

theorem reaches_master (hs : (machine p).Reaches (Orderly p) s) :
    Session.machine.Reaches Session.Relays s.master := by
  refine hs.invariant (I := fun s => Session.machine.Reaches Session.Relays s.master) .init ?_
  intro s l _ h hen hok
  cases l with
  | master l => exact h.step hen.1 hok
  | poll | deliver =>
      simp only [machine, next]
      split <;> exact h
  | _ => exact h

theorem reaches_page (hs : (machine p).Reaches (Kept p) s) :
    (Dispatch.machine p.ungzip).Reaches
      (fun s l => Dispatch.Sequenced p.ungzip s l ∧ Dispatch.Keeps p.ungzip s l) s.page := by
  refine hs.invariant (I := fun s => (Dispatch.machine p.ungzip).Reaches
    (fun s l => Dispatch.Sequenced p.ungzip s l ∧ Dispatch.Keeps p.ungzip s l) s.page) .init ?_
  intro s l _ h hen hok
  cases l with
  | page l => exact h.step hen.1 hok
  | deliver =>
      simp only [machine, next]
      split
      · exact h
      · next m wire hwire =>
          have hok : Dispatch.Sequenced p.ungzip s.page (.receive m.frame) :=
            hok m (by rw [hwire]; rfl)
          exact h.step trivial ⟨hok, trivial⟩
  | poll =>
      simp only [machine, next]
      split <;> exact h
  | _ => exact h

/-! ## What the listeners make of it -/

/-- Nothing is on the way. -/
def State.AtRest (s : State) : Prop := s.channel = [] ∧ s.wire = [] ∧ s.page.AtRest

/-- The calls of the listeners are those for the first events that were forwarded. -/
theorem calls_first (hp : p.Agree) (hs : (machine p).Reaches (Kept p) s) :
    ∃ events, events <+: s.forwarded ∧
      s.invoked.filter Invocation.isEvent = events.map Event.call ∧
        (s.AtRest → events = s.forwarded) := by
  have hinvoked : s.invoked.filter Invocation.isEvent =
      (s.page.invoked.filter fun q => q.2.isEvent).map Prod.snd := List.filter_map ..
  rw [hinvoked]
  have hpage := reaches_page hs
  have hinv := Dispatch.inv_of_reaches hpage
  have hlined := Dispatch.lined_of_reaches (hpage.mono fun _ _ h => h.1)
  have hcovered := Dispatch.covered_of_reaches hpage
  have hcarried := (carried_of_reaches hp hs).carried
  by_cases hrest : s.AtRest
  · refine ⟨s.forwarded, List.prefix_refl _, ?_, fun _ => rfl⟩
    rw [Dispatch.invoked_of_atRest hinv hlined hcovered hrest.2.2, ← hcarried, hrest.1, hrest.2.1]
    exact (List.append_nil _).symm
  · have hpre := (Dispatch.invoked_first hinv hlined hcovered).trans
      (hcarried ▸ List.prefix_append _ _)
    obtain ⟨events, hevents, heq⟩ := List.prefix_map_iff.mp hpre
    exact ⟨events, hevents, heq, fun h => absurd h hrest⟩

/-- In every run the listeners of the page are called for events that were forwarded, as they
were, and for none of them more often than it was. -/
theorem calls_once (hp : p.Agree) (hs : (machine p).Reachable s) :
    ((s.page.invoked.filter fun q => q.2.isEvent).map Prod.snd).Subperm
      (s.forwarded.map Event.call) := by
  refine (Dispatch.invoked_subperm (reachable_page hs)).trans ?_
  rw [← (carried_of_reaches hp hs).carried]
  exact (List.sublist_append_left _ _).subperm

section

variable {γ : Type*} {listen : γ → Invocation → γ} {close : γ → γ} {tag : Nat}

/-- A listener that is only for events. -/
theorem foldl_calls (hskip : ∀ c i, i.isEvent = false → listen c i = c)
    (invoked : List Invocation) (c : γ) :
    invoked.foldl listen c = (invoked.filter Invocation.isEvent).foldl listen c := by
  induction invoked generalizing c with
  | nil => rfl
  | cons i invoked ih =>
      rw [List.foldl_cons, List.filter_cons]
      split
      · exact ih _
      · next hi =>
          rw [hskip c i (Bool.eq_false_iff.mpr hi)]
          exact ih c

theorem isEvent_of_answer {i : Invocation} {response : Option Value}
    (h : answer? tag i = some response) : i.isEvent = false := by
  cases i with
  | response => rfl
  | shell | watch | notification => cases h

/-- When `open` is over, no answer matters. -/
theorem foldl_answered (hskip : ∀ c i, i.isEvent = false → listen c i = c)
    (invoked : List Invocation) (c : γ) :
    (invoked.foldl (Opening.hear listen close tag) ⟨c, false⟩).controller =
      invoked.foldl listen c := by
  induction invoked generalizing c with
  | nil => rfl
  | cons i invoked ih =>
      rw [List.foldl_cons, List.foldl_cons]
      cases hi : answer? tag i with
      | none =>
          rw [Opening.hear, hi]
          exact ih _
      | some response =>
          rw [Opening.hear, hi, hskip c i (isEvent_of_answer hi)]
          exact ih c

/-- A controller has heard all there was, or all up to the error that closed it. -/
theorem foldl_hear (tag : Nat) (hskip : ∀ c i, i.isEvent = false → listen c i = c)
    (hclosed : ∀ c i, listen (close c) i = close c) (invoked : List Invocation) (c : γ) :
    ∃ heard, heard <+: invoked ∧ (refused tag invoked = false → heard = invoked) ∧
      (invoked.foldl (Opening.hear listen close tag) ⟨c, true⟩).controller =
        if refused tag invoked then close (heard.foldl listen c) else heard.foldl listen c := by
  induction invoked generalizing c with
  | nil => exact ⟨[], List.nil_prefix, fun _ => rfl, rfl⟩
  | cons i invoked ih =>
      cases hi : answer? tag i with
      | none =>
          obtain ⟨heard, hpre, hall, heq⟩ := ih (listen c i)
          have hrefused : refused tag (i :: invoked) = refused tag invoked := by
            rw [refused, List.filterMap_cons_none hi, ← refused]
          rw [hrefused]
          refine ⟨i :: heard, List.cons_prefix_cons.mpr ⟨rfl, hpre⟩,
            fun h => by rw [hall h], ?_⟩
          rw [List.foldl_cons, Opening.hear, hi]
          exact heq
      | some response =>
          have hrefused : refused tag (i :: invoked) = isError response := by
            rw [refused, List.filterMap_cons_some hi]
            rfl
          have hstep : (i :: invoked).foldl (Opening.hear listen close tag) ⟨c, true⟩ =
              invoked.foldl (Opening.hear listen close tag)
                ⟨if isError response then close c else c, false⟩ := by
            rw [List.foldl_cons, Opening.hear, hi]
            rfl
          rw [hrefused, hstep, foldl_answered hskip]
          cases isError response with
          | true =>
              -- the controller is closed, and what comes after that changes nothing
              have hrest : invoked.foldl listen (close c) = close c := by
                clear hstep hrefused ih
                induction invoked with
                | nil => rfl
                | cons j invoked ih => rw [List.foldl_cons, hclosed, ih]
              exact ⟨[], List.nil_prefix, by simp, hrest⟩
          | false =>
              refine ⟨i :: invoked, List.prefix_refl _, fun _ => rfl, ?_⟩
              simp only [Bool.false_eq_true, if_false]
              rw [List.foldl_cons, hskip c i (isEvent_of_answer hi)]

/-- A controller has heard of the first events that were forwarded, and at rest of all,
if it was not closed by an answer. -/
theorem heard_first (hp : p.Agree) (hs : (machine p).Reaches (Kept p) s)
    (listen : γ → Invocation → γ) (close : γ → γ)
    (hskip : ∀ c i, i.isEvent = false → listen c i = c)
    (hclosed : ∀ c i, listen (close c) i = close c) (tag : Nat) (c : γ) :
    ∃ events, events <+: s.forwarded ∧
      (s.AtRest → s.refused tag = false → events = s.forwarded) ∧
      (s.invoked.foldl (Opening.hear listen close tag) ⟨c, true⟩).controller =
        if s.refused tag then close ((events.map Event.call).foldl listen c)
        else (events.map Event.call).foldl listen c := by
  obtain ⟨events, hpre, hcalls, hrest⟩ := calls_first hp hs
  obtain ⟨heard, hheard, hall, heq⟩ := foldl_hear tag hskip hclosed s.invoked c
  have hfirst : heard.filter Invocation.isEvent <+: events.map Event.call :=
    hcalls ▸ hheard.filter _
  obtain ⟨first, hpre', hfirst⟩ := List.prefix_map_iff.mp hfirst
  refine ⟨first, hpre'.trans hpre, fun hat hopen => ?_, ?_⟩
  · have hevents : events.map Event.call = first.map Event.call := by
      rw [← hfirst, hall hopen, hcalls]
    have hlen : first.length = events.length := by
      simpa using (congrArg List.length hevents).symm
    rw [← hrest hat]
    exact hpre'.eq_of_length hlen
  · rw [heq, foldl_calls hskip heard, hfirst]
    rfl

end

/-! ## Terminals -/

def toBytes (bytes : List Nat) : List UInt8 := bytes.map UInt8.ofNat

/-- The detail of an event of a shell. -/
def detail : Session.ShellEvent → Terminal.Detail
  | .data bytes => ⟨false, some (toBytes bytes)⟩
  | .close => ⟨true, none⟩

theorem toUint8_byteValue (b : Nat) : toUint8 (byteValue b) = some (UInt8.ofNat b) := by
  have hb : (((b % 256 : Nat) : Int) % 256).toNat = b % 256 := by omega
  rw [byteValue, toUint8, hb]
  refine congrArg some (UInt8.toNat.inj ?_)
  simp [UInt8.toNat_ofNat']

theorem bufferFrom_bytes (bytes : List Nat) :
    bufferFrom (.arr (bytes.map byteValue)) = some (toBytes bytes) := by
  rw [bufferFrom]
  induction bytes with
  | nil => rfl
  | cons b bytes ih =>
      rw [List.map_cons, List.mapM_cons, toUint8_byteValue, ih]
      rfl

theorem detailOf_members (event : Session.ShellEvent) (id : Value) :
    detailOf (.obj [shellMembers event, (ofString "id", id)]) = detail event := by
  cases event with
  | data bytes => exact congrArg (Terminal.Detail.mk false) (bufferFrom_bytes bytes)
  | close => rfl

theorem nameOf_members (event : Session.ShellEvent) (id : Text) :
    nameOf (.obj [shellMembers event, (ofString "id", .str id)]) = some id := by
  cases event <;> rfl

section

variable {iconv : Terminal.Iconv} {enc : String}

/-- A terminal listens to its own shell alone, if no other has the same name. -/
theorem foldl_terminal {n : Nat} {id : Text} {events : List Event}
    (hown : ∀ m id' event, .shell m id' event ∈ events → (pageText id' = pageText id ↔ m = n))
    (c : Terminal.Controller) :
    (events.map Event.call).foldl (terminalListener iconv enc (pageText id)) c =
      ((eventsFor n events).map detail).foldl (Terminal.listener iconv enc) c := by
  induction events generalizing c with
  | nil => rfl
  | cons e events ih =>
      have hrest := ih fun m id' event h => hown m id' event (List.mem_cons_of_mem _ h)
      rw [List.map_cons, List.foldl_cons, hrest]
      cases e with
      | watch => rfl
      | shell m id' event =>
          have hiff := hown m id' event (List.mem_cons_self ..)
          by_cases hmn : m = n
          · have hname : nameOf (.obj [shellMembers event, (ofString "id", .str (pageText id'))]) =
                some (pageText id) := by rw [nameOf_members, hiff.mpr hmn]
            rw [Event.call, terminalListener, if_pos hname, detailOf_members]
            simp [eventsFor, hmn]
          · have hname : ¬ nameOf (.obj [shellMembers event,
                (ofString "id", .str (pageText id'))]) = some (pageText id) := by
              rw [nameOf_members, Option.some.injEq]
              exact fun h => hmn (hiff.mp h)
            rw [Event.call, terminalListener, if_neg hname]
            simp [eventsFor, hmn]

theorem foldl_data (chunks : List (List Nat)) :
    (((chunks.map .data).map detail).foldl (Terminal.listener iconv enc) ⟨false, []⟩) =
      ⟨false, Terminal.shown iconv enc (chunks.map toBytes)⟩ := by
  have hrun : ∀ text, ((chunks.map .data).map detail).foldl (Terminal.listener iconv enc)
      ⟨false, text⟩ = ⟨false, text ++ ((chunks.map toBytes).map (iconv enc)).flatten⟩ := by
    induction chunks with
    | nil => simp
    | cons c chunks ih =>
        intro text
        simp only [List.map_cons, List.foldl_cons, detail, Terminal.listener, Bool.false_eq_true,
          if_false, List.flatten_cons]
        rw [ih, List.append_assoc]
  rw [hrun, Terminal.shown_eq]
  rfl

/-- The events of a shell are its data, piece by piece, up to some piece, or all of it and
that it is closed. -/
theorem prefix_faithful {c : Session.Shell} (h : c.Faithful) {es : List Session.ShellEvent}
    (hes : es <+: c.emitted) :
    (∃ k ≤ c.received.length, es = (c.received.take k).map .data) ∨
      es = c.received.map .data ++ [.close] ∧ c.task = .ended := by
  have hdata : es <+: c.received.map .data →
      ∃ k ≤ c.received.length, es = (c.received.take k).map .data := by
    intro hpre
    obtain ⟨k, hk, heq⟩ : ∃ k ≤ c.received.length, es = (c.received.map .data).take k :=
      ⟨es.length, by simpa using hpre.length_le, List.prefix_iff_eq_take.mp hpre⟩
    exact ⟨k, hk, heq.trans (List.map_take ..).symm⟩
  by_cases hended : c.task = .ended
  · rw [h.2 hended] at hes
    rcases List.prefix_concat_iff.mp hes with hall | hpre
    · exact .inr ⟨hall, hended⟩
    · exact .inl (hdata hpre)
  · exact .inl (hdata (hes.trans (h.1 hended ▸ List.prefix_append _ _)))

theorem listener_closed (c : Terminal.Controller) (id : Text) (i : Invocation) :
    terminalListener iconv enc id { c with closed := true } i = { c with closed := true } := by
  cases i with
  | shell event =>
      rw [terminalListener, Terminal.listener, if_pos rfl]
      exact ite_self _
  | response | watch | notification => rfl

/-- Of a shell with a name of its own the terminal shows what it printed first, and as a
whole when nothing is on the way; and it is closed exactly when it shows all and the
shell has ended. A terminal whose request was answered with an error is closed and shows
what was printed before. -/
theorem terminal_follows (hp : p.Agree) (hs : (machine p).Reaches (Orderly p) s) {n : Nat}
    (hn : n < s.master.opened)
    (hname : ∀ m < s.master.opened, (s.master.channel m).id = (s.master.channel n).id → m = n)
    (iconv : Terminal.Iconv) (enc : String) (tag : Nat) :
    let shell := s.master.channel n
    let terminal := s.terminal tag (pageText shell.id) iconv enc
    (∃ k ≤ shell.received.length,
      terminal.xterm = Terminal.shown iconv enc ((shell.received.take k).map toBytes) ∧
        (terminal.closed = true →
          s.refused tag = true ∨ k = shell.received.length ∧ shell.task = .ended)) ∧
    (s.refused tag = true → terminal.closed = true) ∧
    (s.AtRest → shell.task.underway = [] → s.refused tag = false →
      terminal.xterm = Terminal.shown iconv enc (shell.received.map toBytes) ∧
        (terminal.closed = true ↔ shell.task = .ended)) := by
  intro shell terminal
  obtain ⟨events, hpre, hrest, heard⟩ := heard_first hp (hs.mono fun _ _ => Orderly.kept)
    (terminalListener iconv enc (pageText shell.id)) (fun c => { c with closed := true })
    (fun c i hi => by cases i <;> first | rfl | cases hi) (fun c i => listener_closed c _ i) tag
    ⟨false, []⟩
  have hcarried := carried_of_reaches hp hs
  have hspelled := spelled_of_reaches hs
  have hfaithful : shell.Faithful := Session.reaches_faithful (reaches_master hs) n hn
  have hown : ∀ m id event, .shell m id event ∈ events →
      (pageText id = pageText shell.id ↔ m = n) := by
    intro m id event hmem
    obtain ⟨hm, rfl⟩ := hcarried.owned m id event (hpre.subset hmem)
    constructor
    · exact fun h => hname m hm (pageText_inj (hspelled.channel m) (hspelled.channel n) h)
    · rintro rfl
      rfl
  obtain ⟨told, htold⟩ : ∃ told, told = ((eventsFor n events).map detail).foldl
      (Terminal.listener iconv enc) ⟨false, []⟩ := ⟨_, rfl⟩
  have hterminal : terminal = if s.refused tag then { told with closed := true } else told := by
    rw [htold, ← foldl_terminal hown]
    exact heard
  have hxterm : terminal.xterm = told.xterm := by
    rw [hterminal]
    split <;> rfl
  have hopen : s.refused tag = false → terminal = told := fun h =>
    hterminal.trans (if_neg (by simp [h]))
  have hemitted : eventsFor n events <+: shell.emitted := by
    rw [← hcarried.logged n]
    exact hpre.filterMap _
  have hdata : ∀ chunks : List (List Nat), eventsFor n events = chunks.map .data →
      told = ⟨false, Terminal.shown iconv enc (chunks.map toBytes)⟩ := by
    intro chunks heq
    rw [htold, heq, foldl_data]
  have hclose : ∀ chunks : List (List Nat), eventsFor n events = chunks.map .data ++ [.close] →
      told = ⟨true, Terminal.shown iconv enc (chunks.map toBytes)⟩ := by
    intro chunks heq
    rw [htold, heq, List.map_append, List.foldl_append, foldl_data]
    rfl
  refine ⟨?_, fun hrefused => ?_, fun hat hunder hanswer => ?_⟩
  · rcases prefix_faithful hfaithful hemitted with ⟨k, hk, heq⟩ | ⟨heq, hended⟩
    · refine ⟨k, hk, by rw [hxterm, hdata _ heq], fun h => .inl ?_⟩
      by_contra hanswer
      rw [hopen (Bool.eq_false_iff.mpr hanswer), hdata _ heq] at h
      cases h
    · refine ⟨shell.received.length, Nat.le_refl _, ?_, fun _ => .inr ⟨rfl, hended⟩⟩
      rw [hxterm, hclose _ heq, List.take_length]
  · rw [hterminal, if_pos hrefused]
  · have hall : eventsFor n events = shell.emitted := by rw [hrest hat hanswer, hcarried.logged n]
    rw [hopen hanswer]
    by_cases hended : shell.task = .ended
    · rw [hclose _ (hall.trans (hfaithful.2 hended))]
      exact ⟨rfl, iff_of_true rfl hended⟩
    · rw [hdata _ (hall.trans (hfaithful.emitted hended hunder))]
      exact ⟨rfl, iff_of_false (by simp) hended⟩

end

/-! ## Explorers -/

def closes (detail : Value) : Bool := (detail.get? (ofString "close")).isSome

/-- The data of the events of the watcher that the page calls `id`. -/
def watched (id : Text) (events : List Event) : List Value :=
  events.filterMap fun
    | .watch id' data => if pageText id' = id then some (units (.obj data)) else none
    | .shell .. => none

theorem listen_closed {c : Explorer} (h : c.closed = true) (details : List Value) :
    details.foldl Explorer.listen c = c := by
  induction details with
  | nil => rfl
  | cons d details ih =>
      have hskip : c.listen d = c := by
        unfold Explorer.listen
        exact if_pos h
      rw [List.foldl_cons, hskip, ih]

theorem listen_object {c : Explorer} (h : c.closed = false) (members : List (Text × Value)) :
    c.listen (.obj members) =
      if closes (.obj members) then { c with closed := true }
      else { c with state := some (stateOf (.obj members)) } := by
  rw [Explorer.listen, if_neg (by simp [h])]
  rfl

/-- An explorer shows the last thing before the first close. -/
theorem foldl_listen {details : List Value} (h : ∀ d ∈ details, ∃ members, d = .obj members)
    (shown : Option Value) :
    details.foldl Explorer.listen ⟨false, shown⟩ =
      ⟨details.any closes,
        ((details.takeWhile fun d => !closes d).getLast?.map stateOf).or shown⟩ := by
  induction details generalizing shown with
  | nil => rfl
  | cons d details ih =>
      obtain ⟨members, rfl⟩ := h d (List.mem_cons_self ..)
      rw [List.foldl_cons, listen_object rfl]
      cases hd : closes (.obj members) with
      | true =>
          rw [if_pos rfl, listen_closed rfl]
          simp [hd]
      | false =>
          have hrest := ih (fun d hd => h d (List.mem_cons_of_mem _ hd))
            (some (stateOf (.obj members)))
          rw [if_neg Bool.false_ne_true, hrest]
          simp only [List.any_cons, hd, Bool.false_or, List.takeWhile_cons, Bool.not_false, if_true,
            List.getLast?_cons, Option.map_some, Option.some_or, Explorer.mk.injEq, true_and]
          cases (details.takeWhile fun d => !closes d).getLast? <;> rfl

theorem foldl_explorer (id : Text) (events : List Event) (c : Explorer) :
    (events.map Event.call).foldl (explorerListener id) c =
      (watched id events).foldl Explorer.listen c := by
  induction events generalizing c with
  | nil => rfl
  | cons e events ih =>
      rw [List.map_cons, List.foldl_cons, ih]
      cases e with
      | shell => rfl
      | watch id' data =>
          have hname : nameOf (.obj [(ofString "data", units (.obj data)),
              (ofString "id", .str (pageText id'))]) = some (pageText id') := rfl
          rw [Event.call, explorerListener, hname]
          by_cases hid : pageText id' = id
          · rw [if_pos (congrArg some hid)]
            simp only [watched, List.filterMap_cons, if_pos hid, List.foldl_cons]
            rfl
          · rw [if_neg fun h => hid (Option.some.inj h)]
            simp only [watched, List.filterMap_cons, if_neg hid]

theorem explorer_closed (c : Explorer) (id : Text) (i : Invocation) :
    explorerListener id { c with closed := true } i = { c with closed := true } := by
  cases i with
  | watch event =>
      rw [explorerListener]
      split
      · cases event.get? (ofString "data") with
        | none => rfl
        | some data => exact listen_closed (c := { c with closed := true }) rfl [data]
      · rfl
  | response | shell | notification => rfl

/-- An explorer has been told of the first that was forwarded for its watcher, and at rest of
all, if it was not closed by an answer. -/
theorem explorer_listens (hp : p.Agree) (hs : (machine p).Reaches (Kept p) s) (tag : Nat)
    (id : Text) :
    ∃ events, events <+: s.forwarded ∧
      (s.AtRest → s.refused tag = false → events = s.forwarded) ∧
      s.explorer tag id =
        if s.refused tag then
          { (watched id events).foldl Explorer.listen ⟨false, none⟩ with closed := true }
        else (watched id events).foldl Explorer.listen ⟨false, none⟩ := by
  obtain ⟨events, hpre, hrest, heard⟩ := heard_first hp hs (explorerListener id)
    (fun c => { c with closed := true }) (fun c i hi => by cases i <;> first | rfl | cases hi)
    (fun c i => explorer_closed c id i) tag ⟨false, none⟩
  rw [foldl_explorer] at heard
  exact ⟨events, hpre, hrest, heard⟩

theorem watched_object {id : Text} {events : List Event} :
    ∀ d ∈ watched id events, ∃ members, d = .obj members := by
  intro d hd
  obtain ⟨e, -, he⟩ := List.mem_filterMap.mp hd
  cases e with
  | shell => cases he
  | watch id' data =>
      obtain ⟨-, heq⟩ := Option.ite_none_right_eq_some.mp he
      exact ⟨_, (Option.some.inj heq).symm⟩

/-- Of what was forwarded for its watcher, up to some event, an explorer shows the last
before the first close, and nothing older; and when nothing is on the way, of all, unless
the request that opened it was answered with an error. It is closed exactly if there was a
close among them or such an answer. -/
theorem explorer_follows (hp : p.Agree) (hs : (machine p).Reaches (Kept p) s) (tag : Nat)
    (id : Text) :
    ∃ events, events <+: s.forwarded ∧
      (s.AtRest → s.refused tag = false → events = s.forwarded) ∧
      s.explorer tag id = ⟨s.refused tag || (watched id events).any closes,
        ((watched id events).takeWhile fun d => !closes d).getLast?.map stateOf⟩ := by
  obtain ⟨events, hpre, hrest, heq⟩ := explorer_listens hp hs tag id
  refine ⟨events, hpre, hrest, ?_⟩
  rw [heq, foldl_listen watched_object, Option.or_none]
  cases s.refused tag <;> rfl

end

/-! ## A shell and a watcher -/

section

variable (p : Codecs)

instance (l : Session.Label) : Decidable (Readable l) := by
  unfold Readable
  split <;> infer_instance

instance : (l : Dispatch.Label) → Decidable (Internal l)
  | .receive _ => instDecidableFalse
  | .read .. | .unreadable .. | .request | .work | .reply | .fail => instDecidableTrue

instance (s : State) (l : Label) : Decidable (enabled s l) := by
  cases l <;> unfold enabled <;> infer_instance

instance (s : State) (l : Label) : Decidable ((machine p).enabled s l) :=
  inferInstanceAs (Decidable (enabled s l))

instance (s : State) (l : Label) : Decidable (Kept p s l) := by
  cases l <;> unfold Kept <;> infer_instance

instance (s : State) (l : Label) : Decidable (Orderly p s l) := by
  cases l <;> unfold Orderly <;> infer_instance

end

def printedText : List UInt8 :=
  (ofString "\x7b\"event\":\x7b\"shell\":\x7b\"data\":[104,105],\"id\":\"1\"\x7d\x7d\x7d").map
    UInt8.ofNat

def listedText : List UInt8 :=
  (ofString
    "\x7b\"event\":\x7b\"watch\":\x7b\"data\":\x7b\"path\":\"/\"\x7d,\"id\":\"w\"\x7d\x7d\x7d").map
      UInt8.ofNat

/-- Their gzips. -/
def printedZipped : List UInt8 :=
  [0x1f, 0x8b, 0x08, 0x00, 0x00, 0x00, 0x00, 0x00, 0x00, 0xff, 0xab, 0x56, 0x4a, 0x2d, 0x4b, 0xcd,
    0x2b, 0x51, 0xb2, 0xaa, 0x56, 0x2a, 0xce, 0x48, 0xcd, 0xc9, 0x01, 0x31, 0x52, 0x12, 0x4b, 0x12,
    0x95, 0xac, 0xa2, 0x0d, 0x0d, 0x4c, 0x74, 0x0c, 0x0d, 0x4c, 0x63, 0x75, 0x94, 0x32, 0x53, 0x94,
    0xac, 0x94, 0x0c, 0x95, 0x6a, 0x6b, 0x6b, 0x01, 0x98, 0x34, 0x69, 0xdf, 0x2f, 0x00, 0x00, 0x00]

def listedZipped : List UInt8 :=
  [0x1f, 0x8b, 0x08, 0x00, 0x00, 0x00, 0x00, 0x00, 0x00, 0xff, 0xab, 0x56, 0x4a, 0x2d, 0x4b, 0xcd,
    0x2b, 0x51, 0xb2, 0xaa, 0x56, 0x2a, 0x4f, 0x2c, 0x49, 0xce, 0x00, 0x31, 0x52, 0x12, 0x4b, 0x12,
    0x41, 0x74, 0x41, 0x62, 0x09, 0x90, 0xaf, 0xa4, 0xaf, 0x54, 0xab, 0xa3, 0x94, 0x99, 0x02, 0x64,
    0x95, 0x2b, 0xd5, 0xd6, 0xd6, 0x02, 0x00, 0x6d, 0xca, 0x4b, 0xdd, 0x32, 0x00, 0x00, 0x00]

def zip (bytes : List UInt8) : Option (List UInt8) :=
  if bytes = printedText then some printedZipped
  else if bytes = listedText then some listedZipped
  else none

def unzip (bytes : List UInt8) : Option (List UInt8) :=
  if bytes = printedZipped then some printedText
  else if bytes = listedZipped then some listedText
  else none

def runCodecs : Codecs := ⟨zip, unzip, zip, unzip, fun m e => some (Doubles.round m e)⟩

theorem unzip_zip (bytes z : List UInt8) (h : zip bytes = some z) : unzip z = some bytes := by
  unfold zip at h
  split at h
  · next hbytes =>
      rw [hbytes, ← Option.some.inj h]
      decide +kernel
  · split at h
    · next hbytes =>
        rw [hbytes, ← Option.some.inj h]
        decide +kernel
    · cases h

theorem runCodecs_agree : runCodecs.Agree := ⟨unzip_zip, unzip_zip⟩

/-- Shell "1" is opened and prints, and watcher "w" is told of a directory. The page reads
the second message first, but decodes them in their order. -/
def shownRun : List Label :=
  [.master (.arrive (some (.obj [(ofString "shell", .str [0x31])]))), .master .start,
    .master (.lock ⟨0, some (.start [0x31])⟩),
    .master (.opened ⟨0, some (.start [0x31])⟩ [0x31] true), .master (.output 0 [104, 105]),
    .master (.forwarded 0 [104, 105]), .watch [0x77] [(ofString "path", .str [0x2f])], .poll,
    .poll, .deliver, .page (.read 0 printedZipped), .deliver, .page (.read 1 listedZipped),
    .page .work, .page .work, .page .reply, .page .reply]

def shownEnd : State := shownRun.foldl (next runCodecs) State.init

theorem reaches_shown : (machine runCodecs).Reaches (Orderly runCodecs) shownEnd :=
  Machine.reaches_of_path (M := machine runCodecs) (by decide +kernel)

theorem shownEnd_atRest : shownEnd.AtRest := by
  refine ⟨?_, ?_, ?_, ?_⟩ <;> decide +kernel

theorem calls_once_shown :
    shownEnd.page.invoked.length = 2 ∧
      ((shownEnd.page.invoked.filter fun q => q.2.isEvent).map Prod.snd).Subperm
        (shownEnd.forwarded.map Event.call) :=
  ⟨by decide +kernel, calls_once runCodecs_agree reaches_shown.reachable⟩

theorem terminal_follows_shown :
    (shownEnd.terminal 0 (pageText (shownEnd.master.channel 0).id)
      (fun _ => Terminal.iconvDecode) "utf-8").xterm = ['h', 'i'] :=
  ((terminal_follows runCodecs_agree reaches_shown (n := 0) (by decide +kernel)
    (by decide +kernel) (fun _ => Terminal.iconvDecode) "utf-8" 0).2.2 shownEnd_atRest
      (by decide +kernel) (by decide +kernel)).1.trans (by decide +kernel)

theorem explorer_follows_shown :
    (shownEnd.explorer 1 [0x77]).state = some (.obj [(ofString "path", .str [0x2f])]) := by
  obtain ⟨events, -, hrest, heq⟩ := explorer_follows runCodecs_agree
    (reaches_shown.mono fun _ _ => Orderly.kept) 1 [0x77]
  rw [heq, hrest shownEnd_atRest (by decide +kernel)]
  rfl

end WebSshTool.Screen
