import WebSshTool.Keyboard.Encoded
import WebSshTool.Session.Openers

/-!
# A shell is given what was typed

The requests arrive in the order in which they were made, so the first that is about a
terminal is the one that opens it, and what comes behind it are the terminal's own calls.
What the master owes a shell according to the messages is therefore what was typed into
its terminal, as far as it has arrived; and the shell has been given the beginning of
that.
-/

namespace WebSshTool

open Json

namespace Keyboard

open Rpc.Wire (Bytes Plain Safe Scalars deserialize doubles join_scalars joinFrom parseInteger
  readMessage read_encodeMessage read_units recursionLimit)
open Session (Arrival Command Intake PollChannelData commandOf)

variable {e : Ends} {s : State}

/-! ## What the messages of a terminal say -/

def TerminalCall.command (id : Text) : TerminalCall → Command
  | .data bytes => .input id [.vec (bytes.map UInt8.toNat)]
  | .resize size => .input id (Session.parseResize size.value).toList
  | .close => .close id

/-- The call is part of the shell's input. -/
def TerminalCall.counts : TerminalCall → Bool
  | .data _ | .close => true
  | .resize _ => false

theorem asU64?_byte (b : UInt8) : (Value.num b.toNat 0).asU64? = some b.toNat := by
  have hb : (b.toNat : Int) < 256 := Int.ofNat_lt.mpr b.toNat_lt
  have hlt : (b.toNat : Int) < 2 ^ 64 := hb.trans (by norm_num)
  rw [Value.asU64?, if_pos ⟨rfl, Int.natCast_nonneg _, hlt⟩]
  rfl

theorem dataOf_bytes (bytes : List UInt8) :
    (((bytes.map fun b => Value.num b.toNat 0).filterMap Value.asU64?).map (· % 256)) =
      bytes.map UInt8.toNat := by
  induction bytes with
  | nil => rfl
  | cons b bytes ih =>
      rw [List.map_cons, List.filterMap_cons_some (asU64?_byte b), List.map_cons, ih,
        Nat.mod_eq_of_lt b.toNat_lt, List.map_cons]

theorem commandOf_shell (parameter : Value) :
    commandOf (some (.obj [(ofString "shell", parameter)])) = some (Command.ofValue parameter) :=
  rfl

theorem commandOf_parameter (id : Text) (c : TerminalCall) :
    commandOf (some (.obj [(ofString "shell", c.parameter id)])) = some (c.command id) := by
  rw [commandOf_shell]
  cases c with
  | data bytes =>
      show some (Command.input id ([] ++ [.vec (((bytes.map fun b => Value.num b.toNat 0).filterMap
        Value.asU64?).map (· % 256))])) = _
      rw [dataOf_bytes]
      rfl
  | resize size =>
      show some (Command.input id ((Session.parseResize size.value).toList ++ [])) = _
      rw [List.append_nil]
      rfl
  | close => rfl

/-- No request under another name is about a shell. -/
theorem commandOf_rest {type : Text} {parameter : Value} (h : type ≠ ofString "shell") :
    commandOf (some (.obj [(type, parameter)])) = none := by
  have hmembers : (Value.obj [(type, parameter)]).entries = [(type, parameter)] := rfl
  simp only [commandOf, Session.Call.ofRequest, hmembers, Session.Call.ofMembers, if_neg h]
  by_cases hinternal : type = ofString "internal"
  · rw [if_pos hinternal]
  · rw [if_neg hinternal]
    by_cases htoken : type = ofString "token"
    · rw [if_pos htoken]
    · rw [if_neg htoken]

/-- A message with that command is part of the input of the shell. -/
def about (id : Text) (command : Option Command) : Bool := Arrival.about id ⟨0, command⟩

theorem about_start (id id' : Text) : about id (some (.start id')) = (id' == id) := rfl

theorem about_none (id : Text) : about id none = false := rfl

/-- A resize is no data. -/
theorem parseResize_isData (resize : Value) :
    (Session.parseResize resize).toList.any PollChannelData.isData = false := by
  cases hresize : Session.parseResize resize with
  | none => rfl
  | some m =>
      simp only [Session.parseResize, Option.bind_eq_bind, Option.bind_eq_some_iff] at hresize
      obtain ⟨_, _, _, _, _, _, _, _, _, _, _, _, _, _, _, _, heq⟩ := hresize
      rw [← Option.some.inj heq]
      rfl

theorem about_call (id id' : Text) (c : TerminalCall) :
    about id (some (c.command id')) = (c.counts && id' == id) := by
  cases c with
  | data bytes | close => rfl
  | resize size =>
      simp [about, Arrival.about, Arrival.shell?, TerminalCall.command, TerminalCall.counts,
        parseResize_isData]

theorem about_resize (id : Text) (name value : Value) : about id (some (Command.ofValue
    (.obj [(ofString "id", name), (ofString "resize", value)]))) = false := by
  cases name with
  | str id' =>
      have hdata : (Session.resizeOf (.obj [(ofString "id", .str id'),
          (ofString "resize", value)])).any PollChannelData.isData = false := by
        cases value with
        | obj members => exact parseResize_isData _
        | null | bool | num | str | arr => rfl
      show Arrival.about id ⟨0, some (.input id' (Session.resizeOf _ ++ []))⟩ = false
      rw [List.append_nil]
      simp [Arrival.about, Arrival.shell?, hdata]
  | null | bool | num | arr | obj => rfl

/-! ## What the master reads -/

/-- What a request is to the master when it is read as it was sent. -/
def Request.command (r : Request) : Option Command :=
  commandOf (some (.obj [(r.type, r.parameter)]))

/-- What the master reads. -/
def Ends.read (e : Ends) (r : Request) : Option Value := readMessage e.codecs (e.encode r)

/-- What arrives for a request. -/
def Request.heard (e : Ends) (r : Request) : List (Option Command) :=
  match e.read r with
  | some (.obj members) => [commandOf ((Value.obj members).get? (ofString "request"))]
  | _ => []

theorem Ends.codecs_agree (he : e.Agree) : e.codecs.Agree where
  up bytes z hz := by
    rw [← Option.some.inj hz]
    exact he bytes
  down _ _ hz := by cases hz

section

variable {r : Request}

/-- A request is read with its own type, or not at all. -/
theorem heard_cases (he : e.Agree) (h : Scalars r.message) :
    r.heard e = [] ∨ ∃ parameter, r.heard e = [commandOf (some (.obj [(r.type, parameter)]))] ∧
      (doubles r.parameter).traverse (joinFrom none) (parseInteger e.float) = some parameter := by
  have htype : joinFrom none r.type = some r.type :=
    join_scalars (h r.type (by simp [Request.message, Value.texts, textsMembers]))
  have hread : e.read r = deserialize e.float (print (doubles r.message)) :=
    read_units (Ends.codecs_agree he) h
  rw [deserialize, parse_print] at hread
  unfold Request.heard
  rw [hread]
  simp only []
  split
  · next members hmembers =>
      right
      split at hmembers
      · rw [Request.message, doubles, Value.mapNumbers, traverse_obj] at hmembers
        obtain ⟨ms, hms, heq⟩ := hmembers
        obtain rfl := Value.obj.inj heq
        simp only [mapNumbersMembers, Value.mapNumbers] at hms
        obtain ⟨k, tag, rest, hk, -, hrest, rfl⟩ := traverseMembers_cons.mp hms
        obtain ⟨k', request, rest', hk', hrequest, hnil, rfl⟩ := traverseMembers_cons.mp hrest
        obtain rfl := Option.some.inj hnil
        obtain rfl : ofString "tag" = k := Option.some.inj hk
        obtain rfl : ofString "request" = k' := Option.some.inj hk'
        obtain ⟨inner, hinner, rfl⟩ := traverse_obj.mp hrequest
        obtain ⟨k, parameter, rest, hk, hparameter, hnil, rfl⟩ := traverseMembers_cons.mp hinner
        obtain rfl := Option.some.inj hnil
        obtain rfl : r.type = k := Option.some.inj (htype.symm.trans hk)
        exact ⟨parameter, rfl, hparameter⟩
      · cases hmembers
  · exact .inl rfl

/-- A plain request is read as it was sent. -/
theorem heard_plain (he : e.Agree) (h : Plain r.message) : r.heard e = [r.command] := by
  have hread : e.read r = some r.message := read_encodeMessage (Ends.codecs_agree he) h
  rw [Request.heard, hread]
  rfl

theorem numbersItems_arrayFrom (bytes : List UInt8) :
    ∀ n ∈ numbersItems (bytes.map fun b => .num b.toNat 0), Safe n := by
  induction bytes with
  | nil => simp [numbersItems]
  | cons b bytes ih =>
      have hb := b.toNat_lt
      rw [List.map_cons, numbersItems, Value.numbers]
      refine List.forall_mem_cons.mpr ⟨⟨rfl, ?_⟩, ih⟩
      simp only [Int.natAbs_natCast]
      omega

theorem depthItems_arrayFrom (bytes : List UInt8) :
    depthItems (bytes.map fun b => .num b.toNat 0) = 0 := by
  induction bytes with
  | nil => rfl
  | cons b bytes ih => rw [List.map_cons, depthItems, Value.depth, ih, Nat.max_self]

theorem plain_message (h : Scalars r.message) (htag : r.tag ≤ 2 ^ 53)
    (hsafe : ∀ n ∈ r.parameter.numbers, Safe n) (hdepth : r.parameter.depth < 100) :
    Plain r.message where
  scalars := h
  safe := by
    simp only [Request.message, Value.numbers, numbersMembers, List.append_nil,
      List.singleton_append, List.forall_mem_cons]
    exact ⟨⟨rfl, by simpa using htag⟩, hsafe⟩
  shallow := by
    simp only [Request.message, Value.depth, depthMembers, recursionLimit]
    omega

/-- Of what arrives for a request, as much is about a shell as was sent. -/
theorem about_heard (he : e.Agree) (h : Scalars r.message) (hknown : r.Known) (id : Text) :
    (r.heard e).filter (about id) = [r.command].filter (about id) := by
  have hplain : (∀ n ∈ r.parameter.numbers, Safe n) → r.parameter.depth < 100 →
      (r.heard e).filter (about id) = [r.command].filter (about id) := fun hsafe hdepth => by
    rw [heard_plain he (plain_message h hknown.tag hsafe hdepth)]
  have hother : about id r.command = false →
      (∀ parameter, (doubles r.parameter).traverse (joinFrom none) (parseInteger e.float) =
        some parameter → about id (commandOf (some (.obj [(r.type, parameter)]))) = false) →
      (r.heard e).filter (about id) = [r.command].filter (about id) := by
    intro hcommand hread
    rcases heard_cases he h with heq | ⟨parameter, heq, hparameter⟩
    · rw [heq, List.filter_cons_of_neg (by simp [hcommand]), List.filter_nil]
    · rw [heq, List.filter_cons_of_neg (by simp [hread parameter hparameter]),
        List.filter_cons_of_neg (by simp [hcommand])]
  by_cases hshell : r.type = ofString "shell"
  · rcases hknown.shell hshell with ⟨id', hp⟩ | ⟨id', c, hp⟩
    · exact hplain (by simp [hp, Value.numbers]) (by simp [hp, Value.depth])
    · cases c with
      | data bytes =>
          refine hplain ?_ ?_
          · simpa [hp, TerminalCall.parameter, arrayFrom, Value.numbers, numbersMembers] using
              numbersItems_arrayFrom bytes
          · simp [hp, TerminalCall.parameter, arrayFrom, Value.depth, depthMembers,
              depthItems_arrayFrom]
      | close =>
          exact hplain (by simp [hp, TerminalCall.parameter, Value.numbers, numbersMembers])
            (by simp [hp, TerminalCall.parameter, Value.depth, depthMembers])
      | resize size =>
          -- its numbers may be read as others, or not at all, and it is no data either way
          refine hother ?_ fun parameter hparameter => ?_
          · rw [Request.command, hshell, hp, commandOf_parameter, about_call]
            rfl
          · rw [hp, TerminalCall.parameter, doubles, Value.mapNumbers, traverse_obj] at hparameter
            obtain ⟨ms, hms, rfl⟩ := hparameter
            simp only [mapNumbersMembers] at hms
            obtain ⟨k, name, rest, hk, -, hrest, rfl⟩ := traverseMembers_cons.mp hms
            obtain ⟨k', value, rest', hk', -, hnil, rfl⟩ := traverseMembers_cons.mp hrest
            obtain rfl := Option.some.inj hnil
            obtain rfl : ofString "id" = k := Option.some.inj hk
            obtain rfl : ofString "resize" = k' := Option.some.inj hk'
            rw [hshell, commandOf_shell]
            exact about_resize id name value
  · exact hother (by rw [Request.command, commandOf_rest hshell, about_none]) fun parameter _ => by
      rw [commandOf_rest hshell, about_none]

end

/-! ## The master -/

theorem receive_arrived (master : Session.State) (v : Option Value) :
    (receive master v).arrived.map Arrival.command = master.arrived.map Arrival.command ++
      match v with
      | some (.obj members) => [commandOf ((Value.obj members).get? (ofString "request"))]
      | _ => [] := by
  cases v with
  | none => exact (List.append_nil _).symm
  | some value =>
      cases value with
      | obj members => exact List.map_append
      | _ => exact (List.append_nil _).symm

/-- The request that `deliver` is about. -/
theorem deliver_cases (hserves : Serves e s) (h : Numbered s) :
    next e s .deliver = s ∨ ∃ r, s.asked[s.delivered]? = some r ∧
      next e s .deliver = { s with
        delivered := s.delivered + 1
        master := receive s.master (e.read r) } := by
  simp only [next]
  split
  · next m hm =>
      right
      rw [sent_eq hserves h, List.getElem?_map] at hm
      obtain ⟨r, hr, rfl⟩ := Option.map_eq_some_iff.mp hm
      obtain ⟨rest, hrest⟩ := encoded_first h
      have hasked : s.asked[s.delivered]? = some r := by
        rw [← hrest, List.getElem?_append_left (List.getElem?_eq_some_iff.mp hr).1, hr]
      exact ⟨r, hasked, rfl⟩
  · exact .inl rfl

theorem reaches_numbered (hs : (machine e).Reaches (Orderly e) s) : Numbered s :=
  hs.invariant (M := machine e) (I := Numbered) .init fun _ _ _ h hen _ => h.next hen

/-- The page leaves the master alone. -/
theorem next_master (s : State) (l : Label) :
    (next e s l).delivered = s.delivered ∧ (next e s l).master = s.master ∨
      l = .deliver ∨ ∃ lm, l = .master lm := by
  have hcall : ∀ k c,
      (s.call e k c).delivered = s.delivered ∧ (s.call e k c).master = s.master := by
    intro k c
    rcases call_cases (e := e) s k c with heq | ⟨t, -, heq⟩ <;> rw [heq] <;> exact ⟨rfl, rfl⟩
  cases l with
  | onData k data textDecoder => exact .inl (hcall k _)
  | resize k size => exact .inl (hcall k _)
  | close k => exact .inl (hcall k _)
  | construct id | rest type parameter | worker lw => exact .inl ⟨rfl, rfl⟩
  | deliver => exact .inr (.inl rfl)
  | master lm => exact .inr (.inr ⟨lm, rfl⟩)

theorem next_asked (s : State) (l : Label) : s.asked <+: (next e s l).asked := by
  have hcall : ∀ k c, s.asked <+: (s.call e k c).asked := by
    intro k c
    rcases call_cases (e := e) s k c with heq | ⟨t, -, heq⟩
    · rw [heq]
    · rw [heq]
      exact List.prefix_append _ _
  cases l with
  | onData k data textDecoder => exact hcall k _
  | resize k size => exact hcall k _
  | close k => exact hcall k _
  | construct id | rest type parameter => exact List.prefix_append _ _
  | worker lw | master lm => exact List.prefix_rfl
  | deliver =>
      simp only [next]
      split <;> exact List.prefix_rfl

theorem reaches_master (hs : (machine e).Reaches (Orderly e) s) :
    Session.machine.Reaches Session.Meets s.master := by
  refine hs.invariant (M := machine e)
    (I := fun s => Session.machine.Reaches Session.Meets s.master) .init
    fun s l hr h hen hok => ?_
  show Session.machine.Reaches Session.Meets (next e s l).master
  rcases next_master (e := e) s l with ⟨-, heq⟩ | rfl | ⟨lm, rfl⟩
  · exact heq ▸ h
  · rcases deliver_cases (reaches_serves hr) (reaches_numbered hr) with heq | ⟨r, -, heq⟩
    · rw [heq]
      exact h
    · rw [heq]
      show Session.machine.Reaches Session.Meets (receive s.master (e.read r))
      unfold receive
      split
      · next members _ =>
          exact h.step (M := Session.machine)
            (l := .arrive ((Value.obj members).get? (ofString "request"))) hen.2 trivial
      · exact h
  · exact h.step hen.1 hok

/-- The master has begun with the first of the requests, in their order. -/
structure Begun (s : State) : Prop where
  le : s.delivered ≤ s.asked.length
  arrived : ∀ id, (s.master.arrived.map Arrival.command).filter (about id) =
    ((s.asked.take s.delivered).map Request.command).filter (about id)

theorem Begun.frame (h : Begun s) {s' : State} (hasked : s.asked <+: s'.asked)
    (hdelivered : s'.delivered = s.delivered) (harrived : s'.master.arrived = s.master.arrived) :
    Begun s' := by
  obtain ⟨rest, hrest⟩ := hasked
  refine ⟨?_, fun id => ?_⟩
  · rw [hdelivered, ← hrest, List.length_append]
    exact Nat.le_add_right_of_le h.le
  · rw [harrived, hdelivered, ← hrest, List.take_append_of_le_length h.le, h.arrived]

theorem reaches_begun (he : e.Agree) (hs : (machine e).Reaches (Orderly e) s) : Begun s := by
  refine hs.invariant (M := machine e) (I := Begun) ⟨Nat.le_refl 0, fun _ => rfl⟩
    fun s l hr h hen _ => ?_
  show Begun (next e s l)
  rcases next_master (e := e) s l with ⟨hdelivered, hmaster⟩ | rfl | ⟨lm, rfl⟩
  · exact h.frame (next_asked s l) hdelivered (congrArg _ hmaster)
  · have hnumbered := reaches_numbered hr
    rcases deliver_cases (reaches_serves hr) hnumbered with heq | ⟨r, hr, heq⟩
    · rw [heq]
      exact h
    · have hmem := List.mem_of_getElem? hr
      rw [heq]
      refine ⟨(List.getElem?_eq_some_iff.mp hr).1, fun id => ?_⟩
      show ((receive s.master (e.read r)).arrived.map Arrival.command).filter (about id) = _
      rw [receive_arrived, List.filter_append, h.arrived, List.take_add_one, hr, List.map_append,
        List.filter_append]
      exact congrArg (_ ++ ·)
        (about_heard he (hnumbered.scalars r hmem) (hnumbered.known r hmem) id)
  · refine h.frame List.prefix_rfl rfl ?_
    rcases Session.next_arrived s.master lm with heq | ⟨request, rfl, -⟩
    · exact heq
    · exact absurd hen.2 id

/-- The commands of the requests about a shell, in their order. -/
def State.about (s : State) (id : Text) : List (Option Command) :=
  (s.asked.map Request.command).filter (Keyboard.about id)

/-- What a terminal has asked for its shell. -/
def Terminal.told (t : Terminal) : List (Option Command) :=
  some (.start t.id) :: (t.calls.filter TerminalCall.counts).map fun c => some (c.command t.id)

/-- No other terminal has the name. -/
def State.Alone (s : State) (k : Nat) (t : Terminal) : Prop :=
  ∀ (j : Nat) (t' : Terminal), s.terminals[j]? = some t' → t'.id = t.id → j = k

/-- What was asked for a shell was asked by its terminals. -/
structure Told (s : State) : Prop where
  none : ∀ id, (∀ t ∈ s.terminals, t.id ≠ id) → s.about id = []
  alone : ∀ k t, s.terminals[k]? = some t → s.Alone k t → s.about t.id = t.told

theorem Told.init : Told State.init :=
  ⟨fun _ _ => rfl, fun k t ht => absurd ht (by simp [State.init])⟩

theorem Told.frame (h : Told s) {s' : State} (hasked : s'.asked = s.asked)
    (hterminals : s'.terminals = s.terminals) : Told s' := by
  refine ⟨fun id hid => ?_, fun k t ht halone => ?_⟩
  · rw [State.about, hasked]
    exact h.none id (hterminals ▸ hid)
  · rw [State.about, hasked]
    refine h.alone k t (hterminals ▸ ht) fun j t' hj => halone j t' (hterminals ▸ hj)

/-- One more request. -/
theorem about_rest (s : State) (type : Text) (parameter : Value) (id : Text) :
    (s.rest e type parameter).about id = s.about id ++
      [commandOf (some (.obj [(type, parameter)]))].filter (Keyboard.about id) := by
  simp only [State.about, State.rest, List.map_append, List.filter_append]
  rfl

theorem Told.construct (h : Told s) (id : Text) :
    Told (State.rest e { s with terminals := s.terminals ++ [⟨id, []⟩] } (ofString "shell")
      (.str id)) := by
  have habout : ∀ id', (State.rest e { s with terminals := s.terminals ++ [⟨id, []⟩] }
      (ofString "shell") (.str id)).about id' =
        s.about id' ++ if id = id' then [some (.start id)] else [] := by
    intro id'
    rw [about_rest, commandOf_shell, List.filter_cons, List.filter_nil]
    show s.about id' ++ _ = _
    rw [show Command.ofValue (.str id) = .start id from rfl, about_start]
    simp only [beq_iff_eq]
  refine ⟨fun id' hid' => ?_, fun k t ht halone => ?_⟩
  · rw [habout, if_neg (hid' _ (List.mem_append_right _ (List.mem_singleton_self _))),
      List.append_nil]
    exact h.none id' fun t ht => hid' t (List.mem_append_left _ ht)
  · replace ht : (s.terminals ++ [⟨id, []⟩])[k]? = some t := ht
    by_cases hk : k < s.terminals.length
    · rw [List.getElem?_append_left hk] at ht
      have hne : id ≠ t.id := fun heq =>
        absurd (halone s.terminals.length ⟨id, []⟩ List.getElem?_concat_length heq) (by omega)
      rw [habout, if_neg hne, List.append_nil]
      refine h.alone k t ht fun j t' hj hid => halone j t' ?_ hid
      show (s.terminals ++ [⟨id, []⟩])[j]? = some t'
      rw [List.getElem?_append_left (List.getElem?_eq_some_iff.mp hj).1, hj]
    · have hlast : k = s.terminals.length := by
        have := (List.getElem?_eq_some_iff.mp ht).1
        rw [List.length_append, List.length_singleton] at this
        omega
      subst hlast
      obtain rfl : ⟨id, []⟩ = t := by
        rw [List.getElem?_concat_length] at ht
        exact Option.some.inj ht
      rw [habout, if_pos rfl, h.none id fun t ht heq => ?_]
      · rfl
      · obtain ⟨j, hj⟩ := List.mem_iff_getElem?.mp ht
        have hlt := (List.getElem?_eq_some_iff.mp hj).1
        refine absurd (halone j t ?_ heq) (by omega)
        show (s.terminals ++ [⟨id, []⟩])[j]? = some t
        rw [List.getElem?_append_left hlt, hj]

theorem about_called (s : State) (ts : List Terminal) (id id' : Text) (c : TerminalCall) :
    (State.rest e { s with terminals := ts } (ofString "shell") (c.parameter id)).about id' =
      s.about id' ++ if c.counts ∧ id = id' then [some (c.command id)] else [] := by
  rw [about_rest, commandOf_parameter, List.filter_cons, List.filter_nil, about_call]
  show s.about id' ++ _ = _
  simp only [Bool.and_eq_true, beq_iff_eq]

theorem told_concat (t : Terminal) (c : TerminalCall) :
    Terminal.told { t with calls := t.calls ++ [c] } =
      t.told ++ if c.counts then [some (c.command t.id)] else [] := by
  simp only [Terminal.told, List.filter_append, List.map_append, List.cons_append]
  cases hc : c.counts <;> simp [hc]

theorem Told.call (h : Told s) (k : Nat) (c : TerminalCall) : Told (s.call e k c) := by
  rcases call_cases (e := e) s k c with heq | ⟨t₀, ht₀, heq⟩
  · rw [heq]
    exact h
  · rw [heq]
    -- a terminal has its name still, and only this one has one more call
    have hget : ∀ (j : Nat) (t' : Terminal), s.terminals[j]? = some t' →
        (s.terminals.modify k fun t => { t with calls := t.calls ++ [c] })[j]? =
          some (if k = j then { t' with calls := t'.calls ++ [c] } else t') := by
      intro j t' hj
      rw [List.getElem?_modify, hj]
      split <;> rfl
    have hid : ∀ (j : Nat) (t' : Terminal),
        (if k = j then { t' with calls := t'.calls ++ [c] } else t').id = t'.id := by
      intro j t'
      split <;> rfl
    refine ⟨fun id hids => ?_, fun j t ht halone => ?_⟩
    · have hold : ∀ t' ∈ s.terminals, t'.id ≠ id := by
        intro t' ht'
        obtain ⟨j, hj⟩ := List.mem_iff_getElem?.mp ht'
        exact hid j t' ▸ hids _ (List.mem_of_getElem? (hget j t' hj))
      rw [about_called, if_neg fun hcounts => hold t₀ (List.mem_of_getElem? ht₀) hcounts.2,
        List.append_nil]
      exact h.none id hold
    · obtain ⟨t', ht', rfl⟩ : ∃ t', s.terminals[j]? = some t' ∧
          (if k = j then { t' with calls := t'.calls ++ [c] } else t') = t := by
        replace ht : (s.terminals.modify k fun t => { t with calls := t.calls ++ [c] })[j]? =
          some t := ht
        rw [List.getElem?_modify] at ht
        obtain ⟨t', ht', rfl⟩ := Option.map_eq_some_iff.mp ht
        exact ⟨t', ht', by split <;> rfl⟩
      have halone' : s.Alone j t' := fun i t'' hi hname =>
        halone i _ (hget i t'' hi) ((hid i t'').trans (hname.trans (hid j t').symm))
      rw [about_called, hid]
      by_cases hkj : k = j
      · subst hkj
        obtain rfl := Option.some.inj (ht₀.symm.trans ht')
        rw [if_pos rfl, told_concat, h.alone k t₀ ht₀ halone']
        simp only [and_true]
      · rw [if_neg hkj, if_neg fun hcounts => hkj (halone' k t₀ ht₀ hcounts.2), List.append_nil]
        exact h.alone j t' ht' halone'

theorem Told.next (h : Told s) {l : Label} (hen : enabled s l) : Told (Keyboard.next e s l) := by
  cases l with
  | construct id => exact h.construct id
  | onData k data textDecoder => exact h.call k _
  | resize k size => exact h.call k _
  | close k => exact h.call k _
  | rest type parameter =>
      have habout : ∀ id, (s.rest e type parameter).about id = s.about id := by
        intro id
        rw [about_rest, commandOf_rest hen.1, List.filter_cons, about_none, List.filter_nil]
        exact List.append_nil _
      refine ⟨fun id hid => (habout id).trans (h.none id hid), fun k t ht halone => ?_⟩
      exact (habout t.id).trans (h.alone k t ht halone)
  | worker l | master l => exact h.frame rfl rfl
  | deliver =>
      simp only [Keyboard.next]
      split
      · exact h.frame rfl rfl
      · exact h

/-! ## What is owed to a shell -/

/-- What the shell's channel is given of it. -/
def keys (typed : List Bytes) : List PollChannelData :=
  typed.map fun bytes => .vec (bytes.map UInt8.toNat)

theorem typedIn_first {calls calls' : List TerminalCall} (h : calls <+: calls') :
    typedIn calls <+: typedIn calls' := by
  induction calls generalizing calls' with
  | nil => exact List.nil_prefix
  | cons c calls ih =>
      obtain ⟨rest, rfl⟩ := h
      have hrest := ih (List.prefix_append calls rest)
      cases c with
      | data bytes => exact List.cons_prefix_cons.mpr ⟨rfl, hrest⟩
      | resize size => exact hrest
      | close => exact List.prefix_rfl

/-- Resizes are no input. -/
theorem typedIn_counts (calls : List TerminalCall) :
    typedIn (calls.filter TerminalCall.counts) = typedIn calls := by
  induction calls with
  | nil => rfl
  | cons c calls ih =>
      cases c with
      | data bytes => exact congrArg (bytes :: ·) ih
      | resize size => exact ih
      | close => rfl

/-- The messages of a terminal's calls, taken one after the other. -/
theorem foldl_commands {id : Text} {calls : List TerminalCall} {l : List Arrival}
    (h : l.map Arrival.command = calls.map fun c => some (c.command id))
    (hcounts : ∀ c ∈ calls, c.counts = true) (data : List PollChannelData) :
    (l.foldl Intake.take ⟨false, data⟩).data = data ++ keys (typedIn calls) := by
  induction calls generalizing l data with
  | nil =>
      rw [List.map_eq_nil_iff.mp h]
      exact (List.append_nil data).symm
  | cons c calls ih =>
      obtain ⟨a, rest, rfl, ha, hrest⟩ := List.map_eq_cons_iff.mp h
      have hrest' := fun data => ih hrest (fun c hc => hcounts c (List.mem_cons_of_mem _ hc)) data
      rw [List.foldl_cons]
      cases c with
      | data bytes =>
          have htake : Intake.take ⟨false, data⟩ a = ⟨false, data ++ keys [bytes]⟩ := by
            rw [Intake.take, ha]
            rfl
          rw [htake, hrest', List.append_assoc]
          rfl
      | resize size => exact absurd (hcounts _ List.mem_cons_self) (by simp [TerminalCall.counts])
      | close =>
          have htake : Intake.take ⟨false, data⟩ a = ⟨true, data⟩ := by
            rw [Intake.take, ha]
            rfl
          rw [htake, Intake.take_closed rfl]
          exact (List.append_nil data).symm

/-- Nothing waits for the worker, and everything that was sent has arrived. -/
def State.AtRest (s : State) : Prop :=
  s.worker.returned.length = s.worker.calls.length ∧ s.delivered = s.sent.length

theorem delivered_of_atRest (hserves : Serves e s) (h : Numbered s) (hrest : s.AtRest) :
    s.delivered = s.asked.length := by
  have hall : s.encoded = s.asked := by
    refine List.filter_eq_self.mpr fun r hr => ?_
    have hlt := (List.getElem?_eq_some_iff.mp (h.calls r hr)).1
    simpa only [decide_eq_true_eq, hrest.1] using hlt
  rw [hrest.2, sent_eq hserves h, List.length_map, hall]

/-- What has arrived for a shell, behind the message that opened it. -/
theorem since_eq (he : e.Agree) (hs : (machine e).Reaches (Orderly e) s) {k : Nat} {t : Terminal}
    (ht : s.terminals[k]? = some t) (halone : s.Alone k t) {n : Nat} (hn : n < s.master.opened)
    (hid : (s.master.channel n).id = t.id) :
    ∃ calls, calls <+: t.calls.filter TerminalCall.counts ∧
      ((s.master.since (s.master.channel n).id (s.master.channel n).openedBy).map
        Arrival.command = calls.map fun c => some (c.command t.id)) ∧
      (s.delivered = s.asked.length → calls = t.calls.filter TerminalCall.counts) := by
  have hmaster := reaches_master hs
  have hbegun := reaches_begun he hs
  have htold : s.about t.id = t.told :=
    (hs.invariant (M := machine e) (I := Told) .init fun _ _ _ h hen _ => h.next hen).alone k t ht
      halone
  have hinv : Session.Inv s.master :=
    hmaster.invariant (M := Session.machine) (I := Session.Inv) .init fun _ _ hr h hen hok =>
      h.next (Session.reachable_wired hr.reachable) hen hok
  have hknown : Session.Known s.master :=
    hmaster.invariant (M := Session.machine) (I := Session.Known) .init fun _ _ _ h hen _ =>
      h.next hen
  -- the messages about the shell, and what the terminal asked
  have hcommands : (s.master.arrived.filter (Arrival.about t.id)).map Arrival.command =
      ((s.asked.take s.delivered).map Request.command).filter (about t.id) := by
    rw [← hbegun.arrived t.id, List.filter_map]
    rfl
  have hpre : (s.master.arrived.filter (Arrival.about t.id)).map Arrival.command <+: t.told := by
    have htake : s.asked.take s.delivered <+: s.asked := List.take_prefix _ _
    rw [hcommands, ← htold]
    exact (htake.map _).filter _
  obtain ⟨a, ha, hnumber, hcommand⟩ := hknown.opened n hn
  rw [hid] at hcommand ⊢
  have hmem : a ∈ s.master.arrived.filter (Arrival.about t.id) := by
    refine List.mem_filter.mpr ⟨ha, ?_⟩
    simp [Arrival.about, Arrival.shell?, hcommand]
  have hsort := hinv.sorted.filter (Arrival.about t.id)
  have hsince : s.master.since t.id (s.master.channel n).openedBy =
      (s.master.arrived.filter (Arrival.about t.id)).filter (a.number < ·.number) := by
    rw [hnumber]
    rfl
  rw [hsince]
  generalize s.master.arrived.filter (Arrival.about t.id) = arrived at *
  cases arrived with
  | nil => exact absurd hmem List.not_mem_nil
  | cons f rest =>
      rw [List.map_cons, Terminal.told, List.cons_prefix_cons] at hpre
      have hnot : ∀ b ∈ rest, b.command ≠ some (.start t.id) := by
        intro b hb heq
        obtain ⟨c, -, hc⟩ := List.mem_map.mp (hpre.2.subset (List.mem_map_of_mem hb))
        have hstart := hc.trans heq
        cases c <;> cases hstart
      obtain rfl : a = f := by
        rcases List.mem_cons.mp hmem with heq | hrest
        · exact heq
        · exact absurd hcommand (hnot a hrest)
      rw [Session.filter_after_of_suffix hsort List.suffix_rfl]
      by_cases hall : s.delivered = s.asked.length
      · refine ⟨_, List.prefix_rfl, ?_, fun _ => rfl⟩
        have htail : (a :: rest).map Arrival.command = t.told := by
          rw [hcommands, hall, List.take_length, ← htold]
          rfl
        exact (List.cons.inj htail).2
      · obtain ⟨calls, hcalls, heq⟩ := List.prefix_map_iff.mp hpre.2
        exact ⟨calls, hcalls, heq, fun h => absurd h hall⟩

/-- What is typed into a terminal whose name no other has is given to its shell in order,
nothing twice and without a gap, up to where the terminal was closed; and all of it when
nothing is on the way. -/
theorem typing_follows (he : e.Agree) (hs : (machine e).Reaches (Orderly e) s) {k : Nat}
    {t : Terminal} (ht : s.terminals[k]? = some t) (halone : s.Alone k t) {n : Nat}
    (hn : n < s.master.opened) (hid : (s.master.channel n).id = t.id) :
    (s.master.channel n).handedData <+: keys (typedIn t.calls) ∧
      (s.AtRest → s.master.Settled n →
        (s.master.channel n).handedData = keys (typedIn t.calls)) := by
  have hinv : Session.Inv s.master :=
    (reaches_master hs).invariant (M := Session.machine) (I := Session.Inv) .init
      fun _ _ hr h hen hok => h.next (Session.reachable_wired hr.reachable) hen hok
  obtain ⟨hhanded, hsettled⟩ := hinv.inOrder n hn
  obtain ⟨calls, hcalls, hsince, hall⟩ := since_eq he hs ht halone hn hid
  have hcounts : ∀ c ∈ calls, c.counts = true := fun c hc =>
    (List.mem_filter.mp (hcalls.subset hc)).2
  have hexpected : s.master.expected n = keys (typedIn calls) := foldl_commands hsince hcounts []
  rw [hexpected] at hhanded hsettled
  refine ⟨hhanded.trans ?_, fun hrest hsettle => ?_⟩
  · rw [← typedIn_counts t.calls]
    exact (typedIn_first hcalls).map _
  · rw [hsettled hsettle,
      hall (delivered_of_atRest (reaches_serves hs) (reaches_numbered hs) hrest),
      typedIn_counts]

/-! ## Two keys -/

section

instance (s : Workers.State Value) (l : Workers.Label Value) : Decidable (Workers.enabled s l) := by
  cases l with
  | call c | fail => exact instDecidableTrue
  | work ok => exact decidable_of_iff (s.inbox.isEmpty = false) (by simp [Workers.enabled])
  | answer => exact decidable_of_iff (s.outbox.isEmpty = false) (by simp [Workers.enabled])

instance (p : Workers.Platform Value) (s : Workers.State Value) (l : Workers.Label Value) :
    Decidable (Workers.Posts p s l) := by
  cases l with
  | call c => exact instDecidableEqBool _ _
  | work ok | answer | fail => exact instDecidableTrue

instance : (l : Session.Label) → Decidable (Internal l)
  | .arrive _ => instDecidableFalse
  | .start | .lock _ | .opened .. | .put .. | .flushed .. | .served _ | .replied .. | .finish
  | .popped .. | .hungUp _ | .handed .. | .sendFailed .. | .output .. | .channelEnded _
  | .forwarded .. | .forwardFailed .. | .closeForwarded .. => instDecidableTrue

instance (s : State) (l : Label) : Decidable ((machine e).enabled s l) := by
  show Decidable (enabled s l)
  cases l <;> unfold enabled <;> infer_instance

instance (s : State) (l : Label) : Decidable (Orderly e s l) := by
  cases l <;> unfold Orderly <;> first | exact instDecidableTrue | infer_instance

end

def openText : Bytes :=
  (ofString "\x7b\"tag\":0,\"request\":\x7b\"shell\":\"1\"\x7d\x7d").map UInt8.ofNat

/-- The message of key `key`, with tag `tag`. -/
def keyText (tag key : String) : Bytes :=
  (ofString ("\x7b\"tag\":" ++ tag ++
    ",\"request\":\x7b\"shell\":\x7b\"id\":\"1\",\"data\":[" ++ key ++
    "]\x7d\x7d\x7d")).map UInt8.ofNat

/-- The gzips of the three messages. -/
def openZipped : Bytes :=
  [0x1f, 0x8b, 0x08, 0x00, 0x00, 0x00, 0x00, 0x00, 0x00, 0x03, 0xab, 0x56, 0x2a, 0x49, 0x4c, 0x57,
    0xb2, 0x32, 0xd0, 0x51, 0x2a, 0x4a, 0x2d, 0x2c, 0x4d, 0x2d, 0x2e, 0x51, 0xb2, 0xaa, 0x56, 0x2a,
    0xce, 0x48, 0xcd, 0xc9, 0x51, 0xb2, 0x52, 0x32, 0x54, 0xaa, 0xad, 0x05, 0x00, 0x80, 0xf0, 0x7c,
    0x67, 0x21, 0x00, 0x00, 0x00]

def firstZipped : Bytes :=
  [0x1f, 0x8b, 0x08, 0x00, 0x00, 0x00, 0x00, 0x00, 0x00, 0x03, 0xab, 0x56, 0x2a, 0x49, 0x4c, 0x57,
    0xb2, 0x32, 0xd4, 0x51, 0x2a, 0x4a, 0x2d, 0x2c, 0x4d, 0x2d, 0x2e, 0x51, 0xb2, 0xaa, 0x56, 0x2a,
    0xce, 0x48, 0xcd, 0xc9, 0x01, 0x31, 0x32, 0x53, 0x94, 0xac, 0x94, 0x0c, 0x95, 0x74, 0x94, 0x52,
    0x12, 0x4b, 0x12, 0x95, 0xac, 0xa2, 0x2d, 0xcd, 0x63, 0x6b, 0x6b, 0x6b, 0x01, 0x6f, 0xb2, 0x9c,
    0x74, 0x34, 0x00, 0x00, 0x00]

def secondZipped : Bytes :=
  [0x1f, 0x8b, 0x08, 0x00, 0x00, 0x00, 0x00, 0x00, 0x00, 0x03, 0xab, 0x56, 0x2a, 0x49, 0x4c, 0x57,
    0xb2, 0x32, 0xd2, 0x51, 0x2a, 0x4a, 0x2d, 0x2c, 0x4d, 0x2d, 0x2e, 0x51, 0xb2, 0xaa, 0x56, 0x2a,
    0xce, 0x48, 0xcd, 0xc9, 0x01, 0x31, 0x32, 0x53, 0x94, 0xac, 0x94, 0x0c, 0x95, 0x74, 0x94, 0x52,
    0x12, 0x4b, 0x12, 0x95, 0xac, 0xa2, 0x2d, 0x2d, 0x62, 0x6b, 0x6b, 0x6b, 0x01, 0x2b, 0x5b, 0x07,
    0xc9, 0x34, 0x00, 0x00, 0x00]

/-- ASCII keys, and the gzips of these messages. -/
def runEnds : Ends where
  iconvEncode data _ := data.map UInt8.ofNat
  gzip bytes :=
    if bytes = openText then openZipped
    else if bytes = keyText "1" "97" then firstZipped
    else if bytes = keyText "2" "98" then secondZipped
    else 0 :: bytes
  ungzip _ := none
  gzDecoder z :=
    if z = openZipped then some openText
    else if z = firstZipped then some (keyText "1" "97")
    else if z = secondZipped then some (keyText "2" "98")
    else z.tail?
  float m e := some (Doubles.round m e)

theorem runEnds_agree : runEnds.Agree := by
  intro bytes
  by_cases h0 : bytes = openText
  · subst h0
    decide +kernel
  · by_cases h1 : bytes = keyText "1" "97"
    · subst h1
      decide +kernel
    · by_cases h2 : bytes = keyText "2" "98"
      · subst h2
        decide +kernel
      · have hzip : runEnds.gzip bytes = 0 :: bytes := by
          simp only [runEnds, if_neg h0, if_neg h1, if_neg h2]
        rw [hzip]
        simp [runEnds, openZipped, firstZipped, secondZipped]

def opener : Arrival := ⟨0, some (.start [0x31])⟩

def typed (number key : Nat) : Arrival := ⟨number, some (.input [0x31] [.vec [key]])⟩

/-- The handler of a key and the shell's task, from the lock on. -/
def handle (a : Arrival) (key : Nat) : List Label :=
  ([.lock a, .put a 0 [.vec [key]], .popped 0 (.vec [key]), .flushed a 0 [], .put a 0 [],
    .handed 0 (.vec [key])] : List Session.Label).map Label.master

/-- A terminal is opened and a key is typed. The worker fails after it has encoded the
first message, so the page encodes the second and then the third. -/
def typedRun : List Label :=
  [.construct [0x31], .onData 0 [0x61] "utf-8", .worker (.work true), .worker .answer,
    .worker .fail, .onData 0 [0x62] "utf-8", .deliver, .deliver, .deliver, .master .start,
    .master .start, .master .start, .master (.lock opener),
    .master (.opened opener [0x31] true)] ++ handle (typed 1 0x61) 0x61 ++
      handle (typed 2 0x62) 0x62

def typedEnd : State := typedRun.foldl (next runEnds) State.init

theorem reaches_typed : (machine runEnds).Reaches (Orderly runEnds) typedEnd :=
  Machine.reaches_of_path (M := machine runEnds) (by decide +kernel)

theorem typing_follows_typed :
    (typedEnd.master.channel 0).handedData = [.vec [0x61], .vec [0x62]] := by
  have halone : typedEnd.Alone 0 ⟨[0x31], [.data [0x61], .data [0x62]]⟩ := by
    intro j t hj _
    have hlength : typedEnd.terminals.length = 1 := by decide +kernel
    have := (List.getElem?_eq_some_iff.mp hj).1
    omega
  refine ((typing_follows runEnds_agree reaches_typed (k := 0) (n := 0) (by decide +kernel) halone
    (by decide +kernel) (by decide +kernel)).2 ?_ ?_).trans (by decide)
  · exact ⟨by decide +kernel, by decide +kernel⟩
  · exact ⟨by decide +kernel, by decide +kernel, by decide +kernel⟩

end Keyboard

end WebSshTool
