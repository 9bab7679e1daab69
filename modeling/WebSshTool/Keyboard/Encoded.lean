import WebSshTool.Keyboard.Terminals
import WebSshTool.Session.InputOrder
import WebSshTool.Workers.InOrder

/-!
# Requests are sent in the order they were made

The worker returns the calls in their order, and a call that encodes a request comes
to the same bytes whether the worker answers it, fails while it waits or has failed
before. So what is sent is what a first part of the requests is encoded as, and the
master reads each of them as it was.
-/

namespace WebSshTool

/-! ## One encoding -/

namespace Files

open Rpc.Wire (unitsOf isHigh isLow join join_units not_surrogate)

/-- The bytes of a scalar value. -/
theorem utf8Point_eq {u : Nat} (h : u.isValidChar) :
    utf8Point u = String.utf8EncodeChar (Char.ofNat u) := by
  have hval : (Char.ofNat u).val.toNat = u := Rpc.Wire.toNat_ofNat h
  have hlt : u < 0x110000 := by
    rcases h with h | h
    · omega
    · exact h.2
  simp only [utf8Point, String.utf8EncodeChar, hval]
  by_cases h1 : u < 0x80
  · rw [if_pos h1, if_pos (show u ≤ 0x7f by omega)]
  · rw [if_neg h1, if_neg (show ¬ u ≤ 0x7f by omega)]
    by_cases h2 : u < 0x800
    · rw [if_pos h2, if_pos (show u ≤ 0x7ff by omega),
        show 0xc0 + u / 0x40 = u / 64 % 0x20 + 0xc0 by omega,
        show 0x80 + u % 0x40 = u % 0x40 + 0x80 by omega]
    · rw [if_neg h2, if_neg (show ¬ u ≤ 0x7ff by omega)]
      by_cases h3 : u < 0x10000
      · rw [if_pos h3, if_pos (show u ≤ 0xffff by omega),
          show 0xe0 + u / 0x1000 = u / 4096 % 0x10 + 0xe0 by omega,
          show 0x80 + u / 0x40 % 0x40 = u / 64 % 0x40 + 0x80 by omega,
          show 0x80 + u % 0x40 = u % 0x40 + 0x80 by omega]
      · rw [if_neg h3, if_neg (show ¬ u ≤ 0xffff by omega),
          show 0xf0 + u / 0x40000 = u / 262144 % 0x08 + 0xf0 by omega,
          show 0x80 + u / 0x1000 % 0x40 = u / 4096 % 0x40 + 0x80 by omega,
          show 0x80 + u / 0x40 % 0x40 = u / 64 % 0x40 + 0x80 by omega,
          show 0x80 + u % 0x40 = u % 0x40 + 0x80 by omega]

theorem utf8From_units {u : Nat} (h : u.isValidChar) (rest : Json.Text) :
    utf8From none (unitsOf u ++ rest) = utf8Point u ++ utf8From none rest := by
  rw [unitsOf]
  split
  · have hhigh : ¬ (0xd800 ≤ u ∧ u < 0xdc00) := by
      have := (not_surrogate h).1
      simpa [isHigh] using this
    rw [List.singleton_append, utf8From, if_neg hhigh]
  · next hbig =>
      obtain ⟨hhigh, hlow, hjoin⟩ := join_units h (Nat.le_of_not_lt hbig)
      simp only [isHigh, isLow, Bool.and_eq_true, decide_eq_true_eq] at hhigh hlow
      rw [List.cons_append, List.singleton_append, utf8From, if_pos hhigh, utf8From, if_pos hlow]
      exact congrArg (utf8Point · ++ utf8From none rest) hjoin

/-- UTF-8 is the same from UTF-16 as from the scalar values. -/
theorem utf8_units {t : Json.Text} (h : ∀ u ∈ t, u.isValidChar) :
    utf8 (t.flatMap unitsOf) = Utf8.encode (t.map Char.ofNat) := by
  induction t with
  | nil => rfl
  | cons u t ih =>
      rw [List.flatMap_cons, utf8, utf8From_units (h u List.mem_cons_self), List.map_cons,
        Utf8.encode, List.flatMap_cons, ← Utf8.encode, utf8Point_eq (h u List.mem_cons_self),
        ← utf8, ih fun x hx => h x (List.mem_cons_of_mem u hx)]

end Files

/-! ## What the worker makes of an object -/

namespace Workers

section

variable {ν : Type*} {p : Platform ν} {s : State ν}

/-- A call of `stringifyAndCompress` that is over came to what the page makes of it. -/
def Stringified (p : Platform ν) (s : State ν) : Prop :=
  ∀ n r obj, (n, r) ∈ s.returned → s.calls[n]? = some (.stringifyAndCompress obj) →
    r = (Call.stringifyAndCompress obj).direct p

theorem Queued.lt (h : Queued s) {n : Nat} {r : Option Result} (hr : (n, r) ∈ s.returned) :
    n < s.calls.length := by
  have hmem : n ∈ s.returned.map Prod.fst := List.mem_map_of_mem hr
  rw [h.returned] at hmem
  exact Nat.lt_of_lt_of_le (List.mem_range.mp hmem) h.le

theorem Stringified.concat (h : Stringified p s) (hq : Queued s) {c : Call ν} {s' : State ν}
    (hcalls : s'.calls = s.calls ++ [c])
    (hreturned : ∀ n r, (n, r) ∈ s'.returned → (n, r) ∈ s.returned ∨
      n = s.calls.length ∧ r = c.direct p) : Stringified p s' := by
  intro n r obj hr hobj
  rw [hcalls] at hobj
  rcases hreturned n r hr with hr | ⟨rfl, rfl⟩
  · rw [List.getElem?_append_left (hq.lt hr)] at hobj
    exact h n r obj hr hobj
  · rw [List.getElem?_concat_length] at hobj
    rw [Option.some.inj hobj]

theorem Stringified.call (h : Stringified p s) (hq : Queued s) (c : Call ν) :
    Stringified p (s.call p c) := by
  have happend : ∀ n r, (n, r) ∈ s.returned ++ [(s.calls.length, c.direct p)] →
      (n, r) ∈ s.returned ∨ n = s.calls.length ∧ r = c.direct p := by
    intro n r hr
    simpa using hr
  cases hclosed : s.closed with
  | true =>
      rw [call_closed hclosed]
      exact h.concat hq rfl happend
  | false =>
      cases hpost : c.post p with
      | some order =>
          rw [call_posted hclosed hpost]
          exact h.concat hq rfl fun _ _ => .inl
      | none =>
          rw [call_unposted hclosed hpost]
          exact h.concat hq rfl happend

/-- What a call comes to that waited: the worker had the copy of its object. -/
theorem Served.stringified {tag : Nat} {w : Waiting ν} {obj : ν}
    (h : Served p s tag w (.stringifyAndCompress obj))
    (hclone : (Call.stringifyAndCompress obj).Survives p) {data : Option Result}
    (hdata : (tag, data) ∈ s.outbox) {n : Nat} {r : Option Result}
    (hr : (n, r) ∈ settle p data (some w)) :
    r = (Call.stringifyAndCompress obj).direct p := by
  obtain ⟨rfl, rfl⟩ := Prod.mk.inj (Option.mem_some.mp hr)
  refine (settled_iff h hdata (r := _) rfl).mpr ?_
  cases data with
  | some res => exact hclone
  | none => exact fun htransfers => absurd htransfers (by simp [Call.transfers])

theorem Stringified.answer (h : Stringified p s) (hinv : Inv p s)
    (hclone : ∀ obj, (Call.stringifyAndCompress obj).Survives p) :
    Stringified p (next p s .answer) := by
  cases houtbox : s.outbox with
  | nil => simpa only [next, houtbox] using h
  | cons first outbox =>
      obtain ⟨tag, data⟩ := first
      have hfirst : (tag, data) ∈ s.outbox := houtbox ▸ List.mem_cons_self
      simp only [next, houtbox]
      rcases onMessage_cases (p := p) { s with outbox := outbox } tag data with
        ⟨-, heq⟩ | ⟨waiting, hwaiting, heq⟩
      · rw [heq]
        exact h
      · rw [heq]
        intro n r obj hr hobj
        rcases List.mem_append.mp hr with hr | hr
        · exact h n r obj hr hobj
        · cases waiting with
          | none => exact absurd hr (by simp [settle])
          | some w =>
              obtain ⟨c, hserved⟩ := hinv.served tag w hwaiting
              replace hr := Option.mem_toList.mp hr
              obtain rfl := (Prod.mk.inj (Option.mem_some.mp hr)).1
              obtain rfl := Option.some.inj (hserved.call.symm.trans hobj)
              exact hserved.stringified (hclone obj) hfirst hr

theorem Stringified.fail (h : Stringified p s) (hinv : Inv p s) :
    Stringified p (next p s .fail) := by
  intro n r obj hr hobj
  rcases mem_onClose.mp hr with hr | ⟨tag, w, hw, rfl, rfl⟩
  · exact h n r obj hr hobj
  · obtain ⟨c, hserved⟩ := hinv.served tag w hw
    obtain rfl := Option.some.inj (hserved.call.symm.trans hobj)
    rw [hserved.held]
    exact held_direct_iff.mpr fun htransfers => absurd htransfers (by simp [Call.transfers])

theorem Stringified.next (h : Stringified p s) (hq : Queued s) (hinv : Inv p s)
    (hclone : ∀ obj, (Call.stringifyAndCompress obj).Survives p) {l : Label ν} :
    Stringified p (Workers.next p s l) := by
  cases l with
  | call c => exact h.call hq c
  | work ok =>
      simp only [Workers.next]
      split <;> exact h
  | answer => exact h.answer hinv hclone
  | fail => exact h.fail hinv

theorem next_calls (s : State ν) (l : Label ν) : s.calls <+: (next p s l).calls := by
  cases l with
  | call c =>
      simp only [next, State.call]
      split
      · exact List.prefix_append _ _
      · split <;> exact List.prefix_append _ _
  | work ok =>
      simp only [next]
      split <;> exact List.prefix_rfl
  | answer =>
      cases houtbox : s.outbox with
      | nil =>
          simp only [next, houtbox]
          exact List.prefix_rfl
      | cons first outbox =>
          simp only [next, houtbox]
          rcases onMessage_cases (p := p) { s with outbox := outbox } first.1 first.2 with
            ⟨-, heq⟩ | ⟨_, -, heq⟩ <;> rw [heq]
  | fail => exact List.prefix_rfl

end

end Workers

namespace Keyboard

open Json
open Rpc.Wire (Message Scalars encodeMessage readMessage stringify units usv)

variable {e : Ends} {s : State}

/-- Every argument can be posted to the worker, and the master is in no state to swap or
lose input. -/
def Orderly (e : Ends) (s : State) : Label → Prop
  | .worker l => Workers.Posts e.platform s.worker l
  | .master l => Session.Meets s.master l
  | _ => True

/-! ## The parts of a run -/

/-- The calls of a terminal are calls of `rest`. -/
theorem call_cases (s : State) (k : Nat) (c : TerminalCall) :
    s.call e k c = s ∨ ∃ t, s.terminals[k]? = some t ∧ s.call e k c = State.rest e
      { s with terminals := s.terminals.modify k fun t => { t with calls := t.calls ++ [c] } }
      (ofString "shell") (c.parameter t.id) := by
  unfold State.call
  split
  · next t ht => exact .inr ⟨t, ht, rfl⟩
  · exact .inl rfl

/-- What a step does to the worker. -/
theorem next_worker (s : State) (l : Label) :
    (next e s l).worker = s.worker ∨
      (∃ r : Request, (next e s l).worker =
        Workers.next e.platform s.worker (.call (.stringifyAndCompress r.obj))) ∨
      ∃ lw, l = .worker lw ∧ (next e s l).worker = Workers.next e.platform s.worker lw := by
  have hcall : ∀ k c, (s.call e k c).worker = s.worker ∨ ∃ r : Request, (s.call e k c).worker =
      Workers.next e.platform s.worker (.call (.stringifyAndCompress r.obj)) := by
    intro k c
    rcases call_cases (e := e) s k c with heq | ⟨t, -, heq⟩
    · exact .inl (congrArg State.worker heq)
    · exact .inr ⟨_, congrArg State.worker heq⟩
  cases l with
  | construct id => exact .inr (.inl ⟨_, rfl⟩)
  | onData k data textDecoder => exact (hcall k _).imp_right .inl
  | resize k size => exact (hcall k _).imp_right .inl
  | close k => exact (hcall k _).imp_right .inl
  | rest type parameter => exact .inr (.inl ⟨_, rfl⟩)
  | worker lw => exact .inr (.inr ⟨lw, rfl, rfl⟩)
  | deliver =>
      left
      simp only [next]
      split <;> rfl
  | master l => exact .inl rfl

theorem reaches_worker (hs : (machine e).Reaches (Orderly e) s) :
    (Workers.machine e.platform).Reaches (Workers.Posts e.platform) s.worker := by
  refine hs.invariant (I := fun s => (Workers.machine e.platform).Reaches
    (Workers.Posts e.platform) s.worker) .init fun s l _ h hen hok => ?_
  show (Workers.machine e.platform).Reaches (Workers.Posts e.platform) (next e s l).worker
  rcases next_worker (e := e) s l with heq | ⟨r, heq⟩ | ⟨lw, rfl, heq⟩
  · exact heq ▸ h
  · rw [heq]
    exact h.step (show (Workers.machine e.platform).enabled s.worker
      (.call (.stringifyAndCompress r.obj)) from trivial) rfl
  · rw [heq]
    exact h.step hen hok

/-- The worker as every run leaves it. -/
structure Serves (e : Ends) (s : State) : Prop where
  queued : Workers.Queued s.worker
  inv : Workers.Inv e.platform s.worker
  stringified : Workers.Stringified e.platform s.worker

theorem reaches_serves (hs : (machine e).Reaches (Orderly e) s) : Serves e s := by
  have hclone : ∀ obj, (Workers.Call.stringifyAndCompress obj).Survives e.platform := by
    rintro obj copy hcopy
    rw [Option.some.inj hcopy]
  obtain ⟨hqueued, hinv, hstringified⟩ := (reaches_worker hs).invariant
    (M := Workers.machine e.platform)
    (I := fun w => Workers.Queued w ∧ Workers.Inv e.platform w ∧
      Workers.Stringified e.platform w)
    ⟨.init, Workers.init_inv, fun _ _ _ hr => absurd hr List.not_mem_nil⟩
    fun w l _ ⟨hq, hinv, hst⟩ _ hposts =>
      ⟨hq.next hposts, hinv.next, hst.next hq hinv hclone⟩
  exact ⟨hqueued, hinv, hstringified⟩

/-! ## The requests and the worker's calls -/

/-- What a request can be for a shell: what opens it, or a call of its terminal. -/
def ForShell (parameter : Value) : Prop :=
  (∃ id, parameter = .str id) ∨ ∃ id c, parameter = TerminalCall.parameter id c

/-- A request has a number of the page, and is for a shell or for something else. -/
structure Request.Known (r : Request) : Prop where
  tag : r.tag ≤ 2 ^ 53
  shell : r.type = ofString "shell" → ForShell r.parameter

/-- A request waits for a call of its own, the later for the later. -/
structure Numbered (s : State) : Prop where
  sorted : s.asked.Pairwise fun r r' => r.number < r'.number
  calls : ∀ r ∈ s.asked, s.worker.calls[r.number]? = some (.stringifyAndCompress r.obj)
  scalars : ∀ r ∈ s.asked, Scalars r.message
  known : ∀ r ∈ s.asked, r.Known
  ids : ∀ t ∈ s.terminals, ∀ u ∈ t.id, u.isValidChar
  tag : s.tag ≤ 2 ^ 53

theorem Numbered.init : Numbered State.init where
  sorted := .nil
  calls _ h := absurd h List.not_mem_nil
  scalars _ h := absurd h List.not_mem_nil
  known _ h := absurd h List.not_mem_nil
  ids _ h := absurd h List.not_mem_nil
  tag := Nat.zero_le _

/-- No call of `rest`. -/
theorem Numbered.frame (h : Numbered s) {s' : State} (hasked : s'.asked = s.asked)
    (hcalls : s.worker.calls <+: s'.worker.calls)
    (hids : ∀ t ∈ s'.terminals, ∀ u ∈ t.id, u.isValidChar) (htag : s'.tag = s.tag) :
    Numbered s' := by
  refine ⟨hasked ▸ h.sorted, fun r hr => ?_, hasked ▸ h.scalars, hasked ▸ h.known, hids,
    htag ▸ h.tag⟩
  have hcall := h.calls r (hasked ▸ hr)
  obtain ⟨rest, heq⟩ := hcalls
  rw [← heq, List.getElem?_append_left (List.getElem?_eq_some_iff.mp hcall).1, hcall]

theorem scalars_message {r : Request} (h : Scalars (.obj [(r.type, r.parameter)])) :
    Scalars r.message := by
  intro t ht
  simp only [Request.message, Value.texts, textsMembers, List.nil_append, List.append_nil,
    List.mem_cons] at ht
  rcases ht with rfl | rfl | ht
  · decide
  · decide
  · refine h t ?_
    simpa only [Value.texts, textsMembers, List.append_nil, List.mem_cons] using ht

theorem increment_le {tag : Nat} (h : tag ≤ 2 ^ 53) : Rpc.Rest.increment tag ≤ 2 ^ 53 := by
  rw [Rpc.Rest.increment]
  split <;> omega

theorem Numbered.rest (h : Numbered s) {type : Text} {parameter : Value}
    (hscalars : Scalars (.obj [(type, parameter)]))
    (hshell : type = ofString "shell" → ForShell parameter) :
    Numbered (s.rest e type parameter) := by
  have hcalls : (s.rest e type parameter).worker.calls =
      s.worker.calls ++ [.stringifyAndCompress
        (Request.obj ⟨s.worker.calls.length, s.tag, type, parameter⟩)] := by
    simp only [State.rest, Workers.next, Workers.State.call]
    split
    · rfl
    · split <;> rfl
  have hlt : ∀ r ∈ s.asked, r.number < s.worker.calls.length := fun r hr =>
    (List.getElem?_eq_some_iff.mp (h.calls r hr)).1
  refine ⟨?_, fun r hr => ?_, fun r hr => ?_, fun r hr => ?_, h.ids, increment_le h.tag⟩
  · refine List.pairwise_append.mpr ⟨h.sorted, List.pairwise_singleton _ _, fun r hr r' hr' => ?_⟩
    rw [List.mem_singleton.mp hr']
    exact hlt r hr
  · rw [hcalls]
    rcases List.mem_append.mp hr with hr | hr
    · rw [List.getElem?_append_left (hlt r hr), h.calls r hr]
    · obtain rfl := List.mem_singleton.mp hr
      exact List.getElem?_concat_length
  · rcases List.mem_append.mp hr with hr | hr
    · exact h.scalars r hr
    · obtain rfl := List.mem_singleton.mp hr
      exact scalars_message hscalars
  · rcases List.mem_append.mp hr with hr | hr
    · exact h.known r hr
    · obtain rfl := List.mem_singleton.mp hr
      exact ⟨h.tag, hshell⟩

theorem texts_num (x : Option (Int × Int)) : (numberValue x).texts = [] := by
  cases x <;> rfl

theorem textsItems_arrayFrom (bytes : List UInt8) :
    textsItems (bytes.map fun b => .num b.toNat 0) = [] := by
  induction bytes with
  | nil => rfl
  | cons b bytes ih => rw [List.map_cons, textsItems, ih]; rfl

/-- Of the strings in a call of a terminal only its name is not fixed. -/
theorem scalars_parameter {id : Text} (hid : ∀ u ∈ id, u.isValidChar) (c : TerminalCall) :
    Scalars (.obj [(ofString "shell", c.parameter id)]) := by
  have hnames : ∀ t ∈ ["shell", "id", "data", "resize", "rows", "cols", "height", "width",
      "close"].map ofString, ∀ u ∈ t, u.isValidChar := by
    decide
  intro t ht
  cases c with
  | data bytes =>
      simp only [TerminalCall.parameter, arrayFrom, Value.texts, textsMembers,
        textsItems_arrayFrom, List.append_nil, List.mem_cons, List.not_mem_nil, or_false,
        List.singleton_append] at ht
      rcases ht with rfl | rfl | rfl | rfl
      · exact hnames _ (by simp)
      · exact hnames _ (by simp)
      · exact hid
      · exact hnames _ (by simp)
  | resize size =>
      simp only [TerminalCall.parameter, Size.value, Value.texts, textsMembers, texts_num,
        List.append_nil, List.nil_append, List.mem_cons, List.not_mem_nil, or_false,
        List.singleton_append] at ht
      rcases ht with rfl | rfl | rfl | rfl | rfl | rfl | rfl | rfl
      all_goals first | exact hid | exact hnames _ (by simp)
  | close =>
      simp only [TerminalCall.parameter, Value.texts, textsMembers, List.append_nil,
        List.mem_cons, List.not_mem_nil, or_false, List.singleton_append] at ht
      rcases ht with rfl | rfl | rfl | rfl
      · exact hnames _ (by simp)
      · exact hnames _ (by simp)
      · exact hid
      · exact hnames _ (by simp)

theorem Numbered.call (h : Numbered s) (k : Nat) (c : TerminalCall) :
    Numbered (s.call e k c) := by
  rcases call_cases (e := e) s k c with heq | ⟨t, ht, heq⟩
  · rw [heq]
    exact h
  · have hframe : Numbered { s with terminals := s.terminals.modify k fun t =>
        { t with calls := t.calls ++ [c] } } := by
      refine h.frame rfl List.prefix_rfl (fun t' ht' => ?_) rfl
      obtain ⟨j, hj⟩ := List.mem_iff_getElem?.mp ht'
      rw [List.getElem?_modify] at hj
      obtain ⟨t₀, ht₀, rfl⟩ := Option.map_eq_some_iff.mp hj
      split
      · exact h.ids t₀ (List.mem_of_getElem? ht₀)
      · exact h.ids t₀ (List.mem_of_getElem? ht₀)
    rw [heq]
    exact hframe.rest (scalars_parameter (h.ids t (List.mem_of_getElem? ht)) c)
      fun _ => .inr ⟨_, _, rfl⟩

theorem scalars_str {id : Text} (hid : ∀ u ∈ id, u.isValidChar) :
    Scalars (.obj [(ofString "shell", .str id)]) := by
  intro t ht
  simp only [Value.texts, textsMembers, List.append_nil, List.mem_cons, List.not_mem_nil,
    or_false] at ht
  rcases ht with rfl | rfl
  · decide
  · exact hid

theorem Numbered.next (h : Numbered s) {l : Label} (hen : enabled s l) :
    Numbered (Keyboard.next e s l) := by
  cases l with
  | construct id =>
      have hframe : Numbered { s with terminals := s.terminals ++ [⟨id, []⟩] } := by
        refine h.frame rfl List.prefix_rfl (fun t ht => ?_) rfl
        rcases List.mem_append.mp ht with ht | ht
        · exact h.ids t ht
        · rw [List.mem_singleton.mp ht]
          exact hen
      exact hframe.rest (scalars_str hen) fun _ => .inl ⟨id, rfl⟩
  | onData k data textDecoder => exact h.call k _
  | resize k size => exact h.call k _
  | close k => exact h.call k _
  | rest type parameter => exact h.rest hen.2 fun htype => absurd htype hen.1
  | worker l => exact h.frame rfl (Workers.next_calls _ l) h.ids rfl
  | deliver =>
      simp only [Keyboard.next]
      split
      · exact h.frame rfl List.prefix_rfl h.ids rfl
      · exact h
  | master l => exact h.frame rfl List.prefix_rfl h.ids rfl

/-! ## What is sent -/

/-- The message of a request. -/
def Ends.encode (e : Ends) (r : Request) : Message := encodeMessage e.codecs r.obj

/-- The requests whose messages were sent. -/
def State.encoded (s : State) : List Request :=
  s.asked.filter fun r => r.number < s.worker.returned.length

theorem encoded_direct {r : Request} (h : Scalars r.message) :
    r.encoded ((Workers.Call.stringifyAndCompress r.obj).direct e.platform) =
      some (e.encode r) := by
  have hbytes : Files.utf8 (stringify r.obj) = Utf8.encode (usv (stringify r.obj)) := by
    have hscalars := Rpc.Wire.print_scalars h.doubles
    rw [Request.obj, Rpc.Wire.stringify_units h, Files.utf8_units hscalars,
      Rpc.Wire.usv_units hscalars]
  show some (Message.binary (e.gzip (Files.utf8 (stringify r.obj)))) = _
  rw [hbytes]
  rfl

section

variable {asked : List Request}

theorem filter_eq_nil {r : Request} {m : Nat} (hr : ∀ r' ∈ asked, r.number < r'.number)
    (hm : m ≤ r.number + 1) : (asked.filter fun r => r.number < m) = [] := by
  refine List.filter_eq_nil_iff.mpr fun r' hr' => ?_
  have := hr r' hr'
  simp only [decide_eq_true_eq]
  omega

/-- The next number is that of the next request, or of none. -/
theorem filter_succ (h : asked.Pairwise fun r r' => r.number < r'.number) (m : Nat) :
    (asked.filter fun r => r.number < m + 1) =
      (asked.filter fun r => r.number < m) ++ (asked.find? fun r => r.number == m).toList := by
  induction asked with
  | nil => rfl
  | cons r asked ih =>
      obtain ⟨hr, hasked⟩ := List.pairwise_cons.mp h
      rcases Nat.lt_trichotomy r.number m with hlt | heq | hgt
      · rw [List.filter_cons_of_pos (by simpa using Nat.lt_succ_of_lt hlt),
          List.filter_cons_of_pos (by simpa using hlt), List.find?_cons_of_neg (by simp; omega),
          ih hasked]
        rfl
      · rw [List.filter_cons_of_pos (by simp; omega), List.filter_cons_of_neg (by simp; omega),
          List.find?_cons_of_pos (by simpa using heq), filter_eq_nil hr (by omega),
          filter_eq_nil hr (by omega)]
        rfl
      · have hnone : (asked.find? fun r => r.number == m) = none := by
          refine List.find?_eq_none.mpr fun r' hr' => ?_
          have := hr r' hr'
          simp
          omega
        rw [List.filter_cons_of_neg (by simp; omega), List.filter_cons_of_neg (by simp; omega),
          List.find?_cons_of_neg (by simp; omega), filter_eq_nil hr (by omega),
          filter_eq_nil hr (by omega), hnone]
        rfl

/-- Looking the numbers up one after the other finds the requests in their order. -/
theorem filterMap_find (h : asked.Pairwise fun r r' => r.number < r'.number) (m : Nat) :
    (List.range m).filterMap (fun n => asked.find? fun r => r.number == n) =
      asked.filter fun r => r.number < m := by
  induction m with
  | zero => simp
  | succ m ih =>
      rw [List.range_succ, List.filterMap_append, ih, filter_succ h, List.filterMap_cons]
      cases asked.find? fun r => r.number == m <;> rfl

theorem filter_first (h : asked.Pairwise fun r r' => r.number < r'.number) (m : Nat) :
    (asked.filter fun r => r.number < m) <+: asked := by
  induction asked with
  | nil => exact List.prefix_rfl
  | cons r asked ih =>
      obtain ⟨hr, hasked⟩ := List.pairwise_cons.mp h
      by_cases hlt : r.number < m
      · rw [List.filter_cons_of_pos (by simpa using hlt)]
        exact List.cons_prefix_cons.mpr ⟨rfl, ih hasked⟩
      · rw [List.filter_cons_of_neg (by simpa using hlt), filter_eq_nil hr (by omega)]
        exact List.nil_prefix

end

theorem sent_eq (hserves : Serves e s) (h : Numbered s) : s.sent = s.encoded.map e.encode := by
  have hentry : ∀ entry ∈ s.worker.returned,
      ((s.asked.find? fun r => r.number == entry.1).bind fun r => r.encoded entry.2) =
        (s.asked.find? fun r => r.number == entry.1).map e.encode := by
    rintro ⟨n, res⟩ hentry
    cases hfind : s.asked.find? fun r => r.number == n with
    | none => rfl
    | some r =>
        have hr : r ∈ s.asked := List.mem_of_find?_eq_some hfind
        obtain rfl : r.number = n := by simpa using List.find?_some hfind
        rw [hserves.stringified _ _ _ hentry (h.calls r hr)]
        exact encoded_direct (h.scalars r hr)
  rw [State.sent, List.filterMap_congr hentry, State.encoded, ← filterMap_find h.sorted,
    List.map_filterMap, ← hserves.queued.returned, List.filterMap_map]
  rfl

theorem encoded_first (h : Numbered s) : s.encoded <+: s.asked := filter_first h.sorted _

end Keyboard

end WebSshTool
