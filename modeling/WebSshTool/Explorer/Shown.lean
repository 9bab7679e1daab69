import WebSshTool.Screen.Faithful
import WebSshTool.Watch.Reports

/-!
# An explorer shows where its watcher is

A watcher of the internal client and the way of its events to the page, in one machine
with the master, the socket and the page. Its events leave the internal client in their
order, and the master reads them in that order, but each is forwarded by a handler of its
own, and the handlers wait for one lock.

What the explorer shows follows the reports, and these follow the tour. So an explorer
never shows a place that its watcher was not sent to, and when nothing is on the way it
shows the last.
-/

namespace WebSshTool.Explorer

open Json
open Rpc.Wire (Codecs Scalars units)
open Screen (Event pageText watched)
open Watch (FileSystem Note Report Tells Tour tour reportOf)

/-- What does not change about paths. -/
structure Paths (π : Type*) where
  parent : π → Option π
  toStr : π → Option Text

/-- The file system as it answers at one moment. -/
abbrev Snapshot {π : Type*} (paths : Paths π) (ν : Type*) :=
  { fs : FileSystem π ν // fs.parent = paths.parent ∧ fs.pathToStr = paths.toStr }

structure State (π : Type*) where
  watcher : Watch.State π × List (Note π)
  /-- The data of the events that have not come to the master. -/
  channel : List (List (Text × Value))
  /-- What `on_client` has read and not forwarded. -/
  handlers : List (List (Text × Value))
  screen : Screen.State

inductive Label {π : Type*} (paths : Paths π) (ν : Type*) where
  /-- A step of the watcher. A report is read from `fs`, or is an error with the text `err`. -/
  | watcher (l : Watch.Label π) (fs : Snapshot paths ν) (err : Text)
  | read
  | forward (k : Nat)
  /-- `forward_event` fails. -/
  | lose (k : Nat)
  | screen (l : Screen.Label)

/-- The other watchers have other names. -/
def Foreign (id : Text) : Screen.Label → Prop
  | .watch id' _ => pageText id' ≠ pageText id
  | _ => True

section

variable {π ν : Type*} {paths : Paths π}

/-- The data of the event a step of the watcher sends. -/
def sentBy (id : Text) (s : Watch.State π) (l : Watch.Label π) (fs : Snapshot paths ν)
    (err : Text) : Option Value :=
  (reportOf s l).bind (Report.data? fs.1 id err)

/-- The event can be sent as it is. -/
def Sendable (id : Text) : Option Value → Prop
  | some (.obj members) => Scalars (Event.watch id members).value
  | _ => False

theorem sendable_iff {id : Text} {data : Option Value} : Sendable id data ↔
    ∃ members, data = some (.obj members) ∧ Scalars (Event.watch id members).value := by
  constructor
  · intro h
    match data, h with
    | some (.obj members), h => exact ⟨members, rfl, h⟩
  · rintro ⟨members, rfl, h⟩
    exact h

variable (id : Text) (p : Codecs) [DecidableEq π]

def enabled (s : State π) : Label paths ν → Prop
  | .watcher l fs err => Watch.enabled s.watcher.1 l ∧
      ∀ r ∈ reportOf s.watcher.1 l, Sendable id (r.data? fs.1 id err)
  | .read => s.channel ≠ []
  | .forward k | .lose k => k < s.handlers.length
  | .screen l => Screen.enabled s.screen l ∧ Foreign id l

def next (s : State π) : Label paths ν → State π
  | .watcher l fs err =>
      { s with
        watcher := (Watch.next paths.parent s.watcher.1 l, s.watcher.2 ++ Watch.note s.watcher.1 l)
        channel := match sentBy id s.watcher.1 l fs err with
          | some (.obj members) => s.channel ++ [members]
          | _ => s.channel }
  | .read =>
      match s.channel with
      | [] => s
      | data :: channel => { s with channel, handlers := s.handlers ++ [data] }
  | .forward k =>
      match s.handlers[k]? with
      | none => s
      | some data =>
          { s with
            handlers := s.handlers.eraseIdx k
            screen := Screen.next p s.screen (.watch id data) }
  | .lose k => { s with handlers := s.handlers.eraseIdx k }
  | .screen l => { s with screen := Screen.next p s.screen l }

def machine (paths : Paths π) (ν : Type*) (start : π) : Machine (State π) (Label paths ν) where
  init := ⟨(Watch.init start, []), [], [], Screen.State.init⟩
  enabled := enabled id
  next := next id p

/-- The handlers keep their order and the page keeps its own, and nothing is lost. -/
def Orderly (s : State π) : Label paths ν → Prop
  | .forward k => k = 0
  | .lose _ => False
  | .screen l => Screen.Kept p s.screen l
  | .watcher .. | .read => True

end

/-! ## What a viewer is told -/

/-- What is left of an explorer when all that is told are paths. -/
structure Viewer (π : Type*) where
  closed : Bool
  place : Option π
  deriving DecidableEq

section

variable {π : Type*}

def Viewer.tell (c : Viewer π) (r : Report π) : Viewer π :=
  if c.closed then c
  else match r with
    | .data path | .error path => { c with place := some path }
    | .close => { c with closed := true }

/-- What a state says about where it is. -/
def pathOf (state : Value) : Option Text :=
  match state.get? (ofString "path") with
  | some (.str path) => some path
  | _ => none

/-- The explorer shows what the viewer was told of. -/
structure Shows (toStr : π → Option Text) (c : Screen.Explorer) (v : Viewer π) : Prop where
  closed : c.closed = v.closed
  place : c.state.map pathOf = v.place.map fun path => (toStr path).map pageText

theorem tell_of_open {v : Viewer π} (h : v.closed = false) (r : Report π) :
    v.tell r = match r with
      | .data path | .error path => { v with place := some path }
      | .close => { v with closed := true } :=
  if_neg (by simp [h])

theorem tell_of_closed {v : Viewer π} (h : v.closed = true) (r : Report π) : v.tell r = v :=
  if_pos h

/-- An event on the page, and the report it was sent for. -/
def Told (toStr : π → Option Text) (r : Report π) (detail : Value) : Prop :=
  ∃ members, detail = units (.obj members) ∧ Scalars (.obj members) ∧ Tells toStr r (.obj members)

variable {toStr : π → Option Text}

/-- A name that is ASCII is found on the page as it was in the event. -/
theorem get?_units {members : List (Text × Value)} (h : Scalars (.obj members)) {k : Text}
    (hk : pageText k = k) (hscalar : Screen.Scalar k) :
    (units (.obj members)).get? k = ((Value.obj members).get? k).map units := by
  have hrounded := h.doubles
  rw [Rpc.Wire.doubles, Value.mapNumbers] at hrounded
  have hnames : ∀ m ∈ mapNumbersMembers Doubles.round members, pageText m.1 = pageText k →
      m.1 = k := fun m hm heq =>
    Screen.pageText_inj (hrounded m.1 (name_mem_texts hm)) hscalar heq
  have hget := get?_recode (g := Rpc.Wire.unitsOf) hnames
  rw [show k.flatMap Rpc.Wire.unitsOf = k from hk, ← Value.mapNumbers, get?_mapNumbers,
    Option.map_map] at hget
  exact hget

theorem pathOf_stateOf {detail : Value} {err : Text}
    (herr : detail.get? (ofString "error") = some (.str err)) {path : Value}
    (hpath : detail.get? (ofString "path") = some path) :
    pathOf (Screen.stateOf detail) = pathOf (.obj [(ofString "path", path)]) := by
  rw [Screen.stateOf, herr, hpath]
  rfl

theorem Shows.tell {c : Screen.Explorer} {v : Viewer π} (h : Shows toStr c v) {r : Report π}
    {detail : Value} (ht : Told toStr r detail) : Shows toStr (c.listen detail) (v.tell r) := by
  obtain ⟨members, rfl, hscalars, ht⟩ := ht
  have hclose : (units (.obj members)).get? (ofString "close") =
      ((Value.obj members).get? (ofString "close")).map units :=
    get?_units hscalars (by decide) (by unfold Screen.Scalar; decide)
  have herror : (units (.obj members)).get? (ofString "error") =
      ((Value.obj members).get? (ofString "error")).map units :=
    get?_units hscalars (by decide) (by unfold Screen.Scalar; decide)
  have hpath : (units (.obj members)).get? (ofString "path") =
      ((Value.obj members).get? (ofString "path")).map units :=
    get?_units hscalars (by decide) (by unfold Screen.Scalar; decide)
  cases hclosed : v.closed with
  | true =>
      have hskip : c.listen (units (.obj members)) = c := by
        unfold Screen.Explorer.listen
        exact if_pos (h.closed.trans hclosed)
      rw [tell_of_closed hclosed, hskip]
      exact h
  | false =>
      have hopen : c.closed = false := h.closed.trans hclosed
      have hlisten : c.listen (units (.obj members)) =
          if Screen.closes (units (.obj members)) then { c with closed := true }
          else { c with state := some (Screen.stateOf (units (.obj members))) } :=
        Screen.listen_object hopen _
      rw [hlisten, Screen.closes, hclose, Option.isSome_map, tell_of_open hclosed]
      cases r with
      | close =>
          rw [if_pos (show _ = true from ht)]
          exact ⟨rfl, h.place⟩
      | data path =>
          obtain ⟨hpath', herror', hclose'⟩ := ht
          rw [hclose', if_neg (by simp)]
          refine ⟨h.closed, ?_⟩
          rw [Option.map_some, Option.map_some, Screen.stateOf, herror, herror', Option.map_none]
          simp only [pathOf, hpath, hpath']
          cases toStr path <;> rfl
      | error path =>
          obtain ⟨hpath', ⟨err, herror'⟩, hclose'⟩ := ht
          rw [hclose', if_neg (by simp)]
          refine ⟨h.closed, ?_⟩
          rw [herror'] at herror
          rw [hpath'] at hpath
          rw [Option.map_some, Option.map_some, pathOf_stateOf herror hpath]
          cases toStr path <;> rfl

theorem Shows.foldl {rs : List (Report π)} {details : List Value}
    (ht : List.Forall₂ (Told toStr) rs details) {c : Screen.Explorer} {v : Viewer π}
    (h : Shows toStr c v) :
    Shows toStr (details.foldl Screen.Explorer.listen c) (rs.foldl Viewer.tell v) := by
  induction ht generalizing c v with
  | nil => exact h
  | cons hr _ ih => exact ih (h.tell hr)

/-- Without a close event a viewer is at the path of the last report. -/
theorem foldl_tell {rs : List (Report π)} (h : .close ∉ rs) (place : Option π) :
    rs.foldl Viewer.tell ⟨false, place⟩ =
      ⟨false, (rs.filterMap Report.path?).getLast?.or place⟩ := by
  induction rs generalizing place with
  | nil => rfl
  | cons r rs ih =>
      have hrest : .close ∉ rs := fun hmem => h (List.mem_cons_of_mem _ hmem)
      cases r with
      | close => exact absurd (List.mem_cons_self ..) h
      | data path | error path =>
          refine (ih hrest (some path)).trans ?_
          rw [List.filterMap_cons_some (f := Report.path?) (b := path) rfl, List.getLast?_cons]
          cases (rs.filterMap Report.path?).getLast? <;> rfl

theorem closed_foldl (rs : List (Report π)) (v : Viewer π) :
    (rs.foldl Viewer.tell v).closed = true ↔ v.closed = true ∨ .close ∈ rs := by
  induction rs generalizing v with
  | nil => simp
  | cons r rs ih =>
      rw [List.foldl_cons, ih, List.mem_cons, ← or_assoc]
      refine or_congr_left ?_
      cases hv : v.closed with
      | true => simp [tell_of_closed hv, hv]
      | false =>
          rw [tell_of_open hv]
          cases r <;> simp [hv]

/-- A viewer is at a path it was told of. -/
theorem place_mem {rs : List (Report π)} {v : Viewer π} {path : π}
    (h : (rs.foldl Viewer.tell v).place = some path) :
    v.place = some path ∨ path ∈ rs.filterMap Report.path? := by
  induction rs generalizing v with
  | nil => exact .inl h
  | cons r rs ih =>
      rcases ih h with hplace | hmem
      · unfold Viewer.tell at hplace
        split at hplace
        · exact .inl hplace
        · cases r with
          | data p | error p =>
              obtain rfl := Option.some.inj hplace
              exact .inr (List.mem_cons_self ..)
          | close => exact .inl hplace
      · refine .inr ?_
        cases r with
        | data p | error p => exact List.mem_cons_of_mem _ hmem
        | close => exact hmem

end

/-! ## What is on the way -/

section

variable {π ν : Type*} [DecidableEq π] {paths : Paths π} {start : π} {id : Text} {p : Codecs}
  {s : State π}

/-- The events on the way, and those that were forwarded, are those of the reports. -/
structure Underway (toStr : π → Option Text) (id : Text) (s : State π) : Prop where
  told : List.Forall₂ (Told toStr) s.watcher.1.emitted
    (watched (pageText id) s.screen.forwarded ++
      (s.handlers ++ s.channel).map fun data => units (.obj data))
  scalars : ∀ data ∈ s.handlers ++ s.channel, Scalars (Event.watch id data).value

theorem scalars_data {data : List (Text × Value)} (h : Scalars (Event.watch id data).value) :
    Scalars (.obj data) := by
  intro t ht
  refine h t ?_
  rw [Event.value, Value.texts]
  refine Screen.mem_textsMembers (List.mem_singleton_self _) ?_
  rw [Value.texts]
  exact Screen.mem_textsMembers (k := ofString "data") (List.mem_cons_self ..) ht

/-- What other steps forward is for others. -/
theorem watched_next {l : Screen.Label} (hl : Foreign id l) (s : Screen.State) :
    watched (pageText id) (Screen.next p s l).forwarded = watched (pageText id) s.forwarded := by
  have hforward : ∀ events, watched (pageText id) events = [] →
      watched (pageText id) (s.forwarded ++ events) = watched (pageText id) s.forwarded := by
    intro events hevents
    rw [watched, List.filterMap_append, ← watched, ← watched, hevents, List.append_nil]
  cases l with
  | master l =>
      refine hforward _ ?_
      cases l with
      | closeForwarded n taken => cases taken <;> rfl
      | _ => rfl
  | watch id' data => exact hforward _ (List.filterMap_cons_none (if_neg hl))
  | poll | deliver =>
      simp only [Screen.next]
      split <;> rfl
  | reply | formatError | page => rfl

theorem Underway.watcher (h : Underway paths.toStr id s) {l : Watch.Label π} {fs : Snapshot paths ν}
    {err : Text} (hen : enabled id s (.watcher l fs err)) :
    Underway paths.toStr id (next id p s (.watcher l fs err)) := by
  have hemitted := Watch.next_emitted paths.parent s.watcher.1 l
  cases hreport : reportOf s.watcher.1 l with
  | none =>
      rw [hreport, Option.toList_none, List.append_nil] at hemitted
      have hsent : sentBy id s.watcher.1 l fs err = none := by rw [sentBy, hreport]; rfl
      refine ⟨?_, ?_⟩
      · simp only [next, hsent, hemitted]
        exact h.told
      · simp only [next, hsent]
        exact h.scalars
  | some r =>
      obtain ⟨members, hdata, hscalars⟩ := sendable_iff.mp (hen.2 r hreport)
      rw [hreport, Option.toList_some] at hemitted
      have hsent : sentBy id s.watcher.1 l fs err = some (.obj members) := by
        rw [sentBy, hreport]
        exact hdata
      have htold : Told paths.toStr r (units (.obj members)) :=
        ⟨members, rfl, scalars_data hscalars, fs.2.2 ▸ Watch.tells_data hdata⟩
      refine ⟨?_, fun data hd => ?_⟩
      · simp only [next, hsent, hemitted]
        rw [← List.append_assoc s.handlers, List.map_append, ← List.append_assoc]
        exact List.rel_append h.told (.cons htold .nil)
      · simp only [next, hsent, ← List.append_assoc s.handlers] at hd
        rcases List.mem_append.mp hd with hd | hd
        · exact h.scalars data hd
        · rw [List.mem_singleton.mp hd]
          exact hscalars

theorem Underway.next (h : Underway paths.toStr id s) {l : Label paths ν} (hen : enabled id s l)
    (hok : Orderly p s l) : Underway paths.toStr id (next id p s l) := by
  cases l with
  | watcher l fs err => exact h.watcher hen
  | read =>
      simp only [Explorer.next]
      split
      · exact h
      · next data channel hchannel =>
          have hsame : s.handlers ++ s.channel = s.handlers ++ [data] ++ channel := by
            rw [hchannel, List.append_assoc, List.singleton_append]
          exact ⟨hsame ▸ h.told, hsame ▸ h.scalars⟩
  | forward k =>
      obtain rfl : k = 0 := hok
      cases hhandlers : s.handlers with
      | nil => exact absurd hen (by simp [enabled, hhandlers])
      | cons data handlers =>
          have htold := h.told
          have hscalars := h.scalars
          rw [hhandlers] at htold hscalars
          simp only [Explorer.next, hhandlers, List.getElem?_cons_zero, List.eraseIdx_cons_zero]
          refine ⟨?_, fun d hd => hscalars d (List.mem_cons_of_mem _ hd)⟩
          have hforwarded : watched (pageText id)
              (Screen.next p s.screen (.watch id data)).forwarded =
                watched (pageText id) s.screen.forwarded ++ [units (.obj data)] := by
            refine (List.filterMap_append ..).trans (congrArg (_ ++ ·) ?_)
            exact List.filterMap_cons_some (if_pos rfl)
          rw [hforwarded, List.append_assoc]
          exact htold
  | lose k => exact False.elim hok
  | screen l => exact ⟨(watched_next (p := p) hen.2 s.screen).symm ▸ h.told, h.scalars⟩

/-- Nothing is on the way. -/
def State.AtRest (s : State π) : Prop := s.channel = [] ∧ s.handlers = [] ∧ s.screen.AtRest

theorem reaches_watcher {ok : State π → Label paths ν → Prop}
    (hs : (machine id p paths ν start).Reaches ok s) :
    (Watch.recorded paths.parent start).Reachable s.watcher := by
  refine hs.invariant (M := machine id p paths ν start)
    (I := fun s => (Watch.recorded paths.parent start).Reachable s.watcher) .init ?_
  intro s l _ h hen _
  cases l with
  | watcher l fs err => exact h.step (M := Watch.recorded paths.parent start) hen.1 trivial
  | read | forward k =>
      simp only [machine, next]
      split <;> exact h
  | lose | screen => exact h

theorem reaches_underway (hs : (machine id p paths ν start).Reaches (Orderly p) s) :
    Underway paths.toStr id s :=
  hs.invariant (M := machine id p paths ν start) (I := Underway paths.toStr id)
    ⟨.nil, fun _ h => absurd h List.not_mem_nil⟩ fun _ _ _ h hen hok => h.next hen hok

theorem reaches_screen (hs : (machine id p paths ν start).Reaches (Orderly p) s) :
    (Screen.machine p).Reaches (Screen.Kept p) s.screen := by
  refine hs.invariant (M := machine id p paths ν start)
    (I := fun s => (Screen.machine p).Reaches (Screen.Kept p) s.screen) .init ?_
  intro s l hs h hen hok
  cases l with
  | watcher | lose => exact h
  | read =>
      simp only [machine, next]
      split <;> exact h
  | forward k =>
      simp only [machine, next]
      split
      · exact h
      · next data hdata =>
          have hmem : data ∈ s.handlers ++ s.channel :=
            List.mem_append_left _ (List.mem_of_getElem? hdata)
          exact h.step (M := Screen.machine p) (l := .watch id data)
            ((reaches_underway hs).scalars data hmem) trivial
  | screen l => exact h.step hen.1 hok

/-- The explorer shows what a viewer was told of by the first reports, and by all when
nothing is on the way, unless the request that opened it was answered with an error, by
which it was closed. -/
theorem shows_reports (hp : p.Agree) (hs : (machine id p paths ν start).Reaches (Orderly p) s)
    (tag : Nat) :
    ∃ rs c, rs <+: s.watcher.1.emitted ∧
      (s.AtRest → s.screen.refused tag = false → rs = s.watcher.1.emitted) ∧
      Shows paths.toStr c (rs.foldl Viewer.tell ⟨false, none⟩) ∧
      s.screen.explorer tag (pageText id) =
        if s.screen.refused tag then { c with closed := true } else c := by
  obtain ⟨events, hpre, hrest, heq⟩ :=
    Screen.explorer_listens hp (reaches_screen hs) tag (pageText id)
  obtain ⟨later, hlater⟩ :
      watched (pageText id) events <+: watched (pageText id) s.screen.forwarded :=
    hpre.filterMap _
  have htold := (reaches_underway hs).told
  rw [← hlater, List.append_assoc] at htold
  refine ⟨s.watcher.1.emitted.take (watched (pageText id) events).length, _,
    List.take_prefix .., fun hat hopen => ?_, ?_, heq⟩
  · obtain ⟨hchannel, hhandlers, hscreen⟩ := hat
    have hlen := htold.length_eq
    rw [hrest hscreen hopen] at hlater
    rw [List.append_right_eq_self.mp hlater, hchannel, hhandlers] at hlen
    exact List.take_of_length_le (hlen.trans (by simp)).le
  · exact Shows.foldl (List.forall₂_take_append _ _ _ htold) ⟨rfl, rfl⟩

/-- An explorer shows no place that its watcher was not sent to. When nothing is on the way
it is closed exactly if the watcher was or the request that opened it was answered with an
error, and otherwise shows the last place the watcher was sent to, unless the report on its
arrival was not taken. -/
theorem explorer_arrives (hp : p.Agree)
    (hs : (machine id p paths ν start).Reaches (Orderly p) s) (tag : Nat) :
    let t := tour paths.parent start s.watcher.2
    let explorer := s.screen.explorer tag (pageText id)
    (∀ state, explorer.state = some state →
      ∃ stay ∈ t.left ++ [t.here], pathOf state = (paths.toStr stay.place).map pageText) ∧
    (s.AtRest →
      (explorer.closed = true ↔ s.screen.refused tag = true ∨ .close ∈ s.watcher.1.emitted) ∧
      (s.watcher.1.Settled → explorer.closed = false → t.here.told = some true →
        ∃ state, explorer.state = some state ∧
          pathOf state = (paths.toStr t.here.place).map pageText)) := by
  intro t explorer
  obtain ⟨rs, c, hpre, hrest, hshows, heq⟩ := shows_reports hp hs tag
  have hrecorded := reaches_watcher hs
  have htoured : Watch.Toured s.watcher.1 t := Watch.reachable_toured hrecorded
  obtain ⟨stays, n, hblocked⟩ := htoured.blocked
  have hstate : explorer.state = c.state := by
    rw [show explorer = _ from heq]
    split <;> rfl
  refine ⟨fun state hsome => ?_, fun hat => ?_⟩
  · have hplace := hshows.place
    rw [← hstate, hsome, Option.map_some] at hplace
    obtain ⟨path, hpath, heq⟩ := Option.map_eq_some_iff.mp hplace.symm
    have hmem : path ∈ s.watcher.1.paths :=
      (hpre.filterMap _).subset ((place_mem hpath).resolve_left (by simp))
    obtain ⟨stay, hstay, rfl⟩ := hblocked.place_mem hmem
    exact ⟨stay, hstay, heq.symm⟩
  cases hanswer : s.screen.refused tag with
  | true =>
      have hclosed : explorer.closed = true := by
        rw [show explorer = _ from heq, if_pos hanswer]
      exact ⟨iff_of_true hclosed (.inl rfl), fun _ hopen => by simp [hclosed] at hopen⟩
  | false =>
      have hsame : explorer = c := heq.trans (if_neg (by simp [hanswer]))
      have hclosed : explorer.closed = (rs.foldl Viewer.tell ⟨false, none⟩).closed := by
        rw [hsame, hshows.closed]
      refine ⟨?_, fun hsettled hopen htold => ?_⟩
      · rw [hclosed, closed_foldl, hrest hat hanswer]
      · have hclose : .close ∉ rs := fun hmem => by
          rw [hclosed, (closed_foldl rs _).mpr (.inr hmem)] at hopen
          cases hopen
        have hplace := hshows.place
        rw [foldl_tell hclose, Option.or_none, hrest hat hanswer,
          show s.watcher.1.emitted.filterMap Report.path? = s.watcher.1.paths from rfl,
          hblocked.getLast htold, Option.map_some, ← hstate] at hplace
        exact Option.map_eq_some_iff.mp hplace

end

/-! ## A directory, and one that is not there -/

section

variable {π ν : Type*} {paths : Paths π} (id : Text) [DecidableEq π]

instance : (data : Option Value) → Decidable (Sendable id data)
  | some (.obj members) => inferInstanceAs (Decidable (Scalars (Event.watch id members).value))
  | none | some .null | some (.bool _) | some (.num ..) | some (.str _) | some (.arr _) =>
      instDecidableFalse

instance : (l : Screen.Label) → Decidable (Foreign id l)
  | .watch id' _ => inferInstanceAs (Decidable (pageText id' ≠ pageText id))
  | .master _ | .poll | .reply .. | .formatError | .deliver | .page _ => instDecidableTrue

instance (s : State π) : (l : Label paths ν) → Decidable (enabled id s l)
  | .watcher l fs err => inferInstanceAs (Decidable (Watch.enabled s.watcher.1 l ∧
      ∀ r ∈ reportOf s.watcher.1 l, Sendable id (r.data? fs.1 id err)))
  | .read => inferInstanceAs (Decidable (s.channel ≠ []))
  | .forward k | .lose k => inferInstanceAs (Decidable (k < s.handlers.length))
  | .screen l => inferInstanceAs (Decidable (Screen.enabled s.screen l ∧ Foreign id l))

instance (p : Codecs) (s : State π) : (l : Label paths ν) → Decidable (Orderly p s l)
  | .forward k => inferInstanceAs (Decidable (k = 0))
  | .lose _ => instDecidableFalse
  | .screen l => inferInstanceAs (Decidable (Screen.Kept p s.screen l))
  | .watcher .. | .read => instDecidableTrue

end

/-- There is nothing in the root directory. -/
def emptyRoot : FileSystem (Option Text) Text := Watch.ofItems [] List.nodup_nil

def rootPaths : Paths (Option Text) := ⟨emptyRoot.parent, emptyRoot.pathToStr⟩

def rootText : List UInt8 :=
  (ofString ("\x7b\"event\":\x7b\"watch\":\x7b\"data\":\x7b\"entries\":\x7b\x7d," ++
    "\"modifiedTime\":\"01-Jan-1970 00:00:00 am +0000\",\"path\":\"/\",\"size\":0," ++
    "\"type\":\"directory\"\x7d,\"id\":\"w\"\x7d\x7d\x7d")).map UInt8.ofNat

def missingText : List UInt8 :=
  (ofString ("\x7b\"event\":\x7b\"watch\":\x7b\"data\":\x7b\"error\":" ++
    "\"No path was found.\",\"path\":\"/x\"\x7d,\"id\":\"w\"\x7d\x7d\x7d")).map UInt8.ofNat

/-- Their gzips. -/
def rootZipped : List UInt8 :=
  [0x1f, 0x8b, 0x08, 0x00, 0x00, 0x00, 0x00, 0x00, 0x00, 0xff, 0x1d, 0x8c, 0xc1, 0x0a, 0xc3, 0x30,
    0x0c, 0x43, 0x7f, 0x25, 0xe8, 0xba, 0x94, 0xb9, 0xa7, 0xb1, 0x7c, 0xc2, 0xce, 0xfb, 0x01, 0xd3,
    0x78, 0xcc, 0x87, 0xb4, 0x25, 0x35, 0x2b, 0x5d, 0xc9, 0xbf, 0xcf, 0x99, 0x10, 0xe8, 0x21, 0x90,
    0x4e, 0xc8, 0x47, 0x66, 0x43, 0x3a, 0xb1, 0xb3, 0x4d, 0xef, 0x0e, 0x99, 0x8d, 0x7b, 0x7a, 0x5f,
    0x55, 0x36, 0xc7, 0x16, 0x51, 0x96, 0xac, 0x2f, 0x95, 0xfc, 0xd4, 0x22, 0x48, 0xa0, 0x71, 0x78,
    0xf0, 0x3c, 0x8c, 0xf7, 0x1b, 0x05, 0xa2, 0xf4, 0x77, 0xe0, 0x12, 0x2e, 0xe4, 0x42, 0xc4, 0xca,
    0xe6, 0x5f, 0xb8, 0x3a, 0x6e, 0xfa, 0xf5, 0x05, 0x45, 0xd8, 0xb1, 0xf6, 0x69, 0xd6, 0x2a, 0x93,
    0x2d, 0xf5, 0x80, 0xdf, 0x6a, 0xf6, 0x66, 0x47, 0x6b, 0xed, 0x07, 0xfc, 0xe9, 0x63, 0x62, 0x8a,
    0x00, 0x00, 0x00]

def missingZipped : List UInt8 :=
  [0x1f, 0x8b, 0x08, 0x00, 0x00, 0x00, 0x00, 0x00, 0x00, 0xff, 0xab, 0x56, 0x4a, 0x2d, 0x4b, 0xcd,
    0x2b, 0x51, 0xb2, 0xaa, 0x56, 0x2a, 0x4f, 0x2c, 0x49, 0xce, 0x00, 0x31, 0x52, 0x12, 0x4b, 0x12,
    0x41, 0x74, 0x6a, 0x51, 0x51, 0x7e, 0x91, 0x92, 0x95, 0x92, 0x5f, 0xbe, 0x42, 0x41, 0x62, 0x49,
    0x86, 0x42, 0x79, 0x62, 0xb1, 0x42, 0x5a, 0x7e, 0x69, 0x5e, 0x8a, 0x9e, 0x92, 0x8e, 0x12, 0x48,
    0x04, 0x28, 0xa7, 0x5f, 0xa1, 0x54, 0xab, 0xa3, 0x94, 0x99, 0x02, 0x64, 0x96, 0x2b, 0xd5, 0xd6,
    0xd6, 0x02, 0x00, 0xe2, 0xcc, 0x7c, 0xc8, 0x50, 0x00, 0x00, 0x00]

def visitCodecs : Codecs where
  gzip bytes := if bytes = rootText then some rootZipped
    else if bytes = missingText then some missingZipped else none
  ungzip bytes := if bytes = rootZipped then some rootText
    else if bytes = missingZipped then some missingText else none
  gzEncoder bytes := if bytes = rootText then some rootZipped
    else if bytes = missingText then some missingZipped else none
  gzDecoder bytes := if bytes = rootZipped then some rootText
    else if bytes = missingZipped then some missingText else none
  float m e := some (Doubles.round m e)

theorem visitCodecs_agree : visitCodecs.Agree := by
  have hagree : ∀ bytes z, visitCodecs.gzip bytes = some z → visitCodecs.ungzip z = some bytes := by
    intro bytes z h
    simp only [visitCodecs] at h ⊢
    split at h
    · next hbytes =>
        rw [hbytes, ← Option.some.inj h]
        decide +kernel
    · split at h
      · next hbytes =>
          rw [hbytes, ← Option.some.inj h]
          decide +kernel
      · cases h
  exact ⟨hagree, hagree⟩

/-- The watcher is made, the page is shown the directory, and then where `cd` led. -/
def visitRun : List (Label rootPaths Text) :=
  let watcher (l : Watch.Label (Option Text)) : Label rootPaths Text :=
    .watcher l ⟨emptyRoot, rfl, rfl⟩ (ofString "No path was found.")
  let shown (number : Nat) (bytes : List UInt8) : List (Label rootPaths Text) :=
    [.read, .forward 0, .screen .poll, .screen .deliver, .screen (.page (.read number bytes)),
      .screen (.page .work), .screen (.page .reply)]
  [watcher (.opened true), watcher (.introduced true true true)] ++ shown 0 rootZipped ++
    [watcher (.request 0 (.cd (some (some [0x78])))), watcher (.lock 0 (.cd (some (some [0x78])))),
      watcher (.unwatched 0 (some (some [0x78]))), watcher (.answered 0 false),
      watcher (.reported 0 false true true)] ++ shown 1 missingZipped

def visitEnd : State (Option Text) :=
  visitRun.foldl (machine [0x77] visitCodecs rootPaths Text none).next
    (machine [0x77] visitCodecs rootPaths Text none).init

instance (s : State (Option Text)) (l : Label rootPaths Text) :
    Decidable ((machine [0x77] visitCodecs rootPaths Text none).enabled s l) :=
  inferInstanceAs (Decidable (enabled [0x77] s l))

theorem reaches_visit :
    (machine [0x77] visitCodecs rootPaths Text none).Reaches (Orderly visitCodecs) visitEnd :=
  Machine.reaches_of_path (M := machine [0x77] visitCodecs rootPaths Text none) (by decide +kernel)

theorem explorer_arrives_visit : ∃ state,
    (visitEnd.screen.explorer 0 [0x77]).state = some state ∧
      pathOf state = some [0x2f, 0x78] := by
  have hrest : visitEnd.AtRest := by
    refine ⟨?_, ?_, ?_, ?_, ?_, ?_⟩ <;> decide +kernel
  have hsettled : visitEnd.watcher.1.Settled := ⟨by decide +kernel,
    Watch.not_creating_of_eq (p := .selecting) (by decide +kernel) (by simp) (by simp)⟩
  exact ((explorer_arrives visitCodecs_agree reaches_visit 0).2 hrest).2 hsettled
    (by decide +kernel) (by decide +kernel)

end WebSshTool.Explorer
