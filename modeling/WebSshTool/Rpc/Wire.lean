import WebSshTool.Dispatch.Messages
import WebSshTool.Lib.JsonText

/-!
# Messages on the socket of the page

Both ends write a value as JSON, in UTF-8, under gzip, and both send the text as
it is where that fails. They have neither the same strings nor the same numbers.
The page's strings are UTF-16 units and the master's are scalar values; the page's
numbers are doubles, and the master keeps integers of 64 bits as they are. The
master also refuses what is nested too deeply.

So what the master writes reaches the page with its numbers rounded, and a value
that is plain, with scalar values for strings, safe integers for numbers and not
too deep, comes across unchanged in both directions, compressed or not. A number
of the page stands here with the digits the page writes it with.

The two gzips are given, and so is the master's reading of a number that is no
integer of 64 bits. What is relied on is that each gzip undoes the other.
-/

namespace WebSshTool.Rpc.Wire

open Json
open Dispatch (Frame utf16Units)

abbrev Bytes := List UInt8

/-! ## Strings of the page -/

def isHigh (u : Nat) : Bool := 0xd800 ≤ u && u < 0xdc00

def isLow (u : Nat) : Bool := 0xdc00 ≤ u && u < 0xe000

/-- The scalar value of two surrogates. -/
def join (u v : Nat) : Nat := 0x10000 + (u - 0xd800) * 0x400 + (v - 0xdc00)

/-- The units of a scalar value. -/
def unitsOf (u : Nat) : Text :=
  if u < 0x10000 then [u]
  else [0xd800 + (u - 0x10000) / 0x400, 0xdc00 + (u - 0x10000) % 0x400]

/-- A string as scalar values, behind a high surrogate. A surrogate without its
other half is replaced. -/
def usvFrom : Option Nat → Text → List Char
  | none, [] => []
  | some _, [] => [Utf8.replacement]
  | none, v :: rest =>
      if isHigh v then usvFrom (some v) rest
      else if isLow v then Utf8.replacement :: usvFrom none rest
      else Char.ofNat v :: usvFrom none rest
  | some u, v :: rest =>
      if isLow v then Char.ofNat (join u v) :: usvFrom none rest
      else Utf8.replacement ::
        if isHigh v then usvFrom (some v) rest else Char.ofNat v :: usvFrom none rest

def usv (t : Text) : List Char := usvFrom none t

/-- `\ud800`, for a surrogate. -/
def escapeSurrogate (u : Nat) : Text :=
  [backslash, 0x75, hexDigit (u / 0x1000), hexDigit (u / 0x100 % 16), hexDigit (u / 16 % 16),
    hexDigit (u % 16)]

/-- A JSON text with its lone surrogates escaped. -/
def escapeFrom : Option Nat → Text → Text
  | none, [] => []
  | some u, [] => escapeSurrogate u
  | none, v :: rest =>
      if isHigh v then escapeFrom (some v) rest
      else if isLow v then escapeSurrogate v ++ escapeFrom none rest
      else v :: escapeFrom none rest
  | some u, v :: rest =>
      if isLow v then u :: v :: escapeFrom none rest
      else escapeSurrogate u ++
        if isHigh v then escapeFrom (some v) rest else v :: escapeFrom none rest

/-- `JSON.stringify`. A surrogate of the text stands in one of its strings. -/
def stringify (v : Value) : Text := escapeFrom none (print v)

/-! ## Strings of the master -/

/-- A string from JSON, behind an escaped high surrogate, which has to be
followed by a low one. -/
def joinFrom : Option Nat → Text → Option Text
  | none, [] => some []
  | some _, [] => none
  | none, v :: rest =>
      if isHigh v then joinFrom (some v) rest
      else if isLow v then none
      else (joinFrom none rest).map (v :: ·)
  | some u, v :: rest => if isLow v then (joinFrom none rest).map (join u v :: ·) else none

/-- How `serde_json` reads a number that is no integer of 64 bits; `none` is a
number out of range. -/
abbrev ParseFloat := Int → Int → Option (Int × Int)

/-- An integer is a `u64` or an `i64` where it is one. -/
def parseInteger (float : ParseFloat) (m e : Int) : Option (Int × Int) :=
  if e = 0 ∧ -2 ^ 63 ≤ m ∧ m < 2 ^ 64 then some (m, e) else float m e

/-- `remaining_depth` of the deserializer. -/
def recursionLimit : Nat := 128

/-- What `serde_json` makes of a text. It is told its strings with their surrogates,
where the text has escapes for them: those have to come in pairs. -/
def deserialize (float : ParseFloat) (text : Text) : Option Value :=
  match parse text with
  | some v =>
      if v.depth < recursionLimit then v.traverse (joinFrom none) (parseInteger float) else none
  | none => none

/-- `serde_json::from_str`. -/
def fromStr (float : ParseFloat) (text : List Char) : Option Value :=
  deserialize float (text.map Char.toNat)

/-- `value.to_string()`. -/
def valueToString (v : Value) : List Char := (print v).map Char.ofNat

/-- `String::from_utf8`. -/
def fromUtf8 (bytes : Bytes) : Option (List Char) :=
  let text := Utf8.decode bytes
  if Utf8.encode text = bytes then some text else none

/-! ## The two ends -/

/-- pako on the page, and flate2 and `serde_json` in the master. -/
structure Codecs where
  gzip : Bytes → Option Bytes
  ungzip : Bytes → Option Bytes
  gzEncoder : Bytes → Option Bytes
  gzDecoder : Bytes → Option Bytes
  float : ParseFloat

/-- What one compresses the other decompresses. -/
structure Codecs.Agree (p : Codecs) : Prop where
  up : ∀ bytes z, p.gzip bytes = some z → p.gzDecoder z = some bytes
  down : ∀ bytes z, p.gzEncoder bytes = some z → p.ungzip z = some bytes

/-- A message of the master's side of the socket. -/
inductive Message where
  | text (t : List Char)
  | binary (bytes : Bytes)
  deriving DecidableEq

/-- `encodeMessage` and what `send` makes of it: a buffer, or else a string. -/
def encodeMessage (p : Codecs) (obj : Value) : Message :=
  match p.gzip (Utf8.encode (usv (stringify obj))) with
  | some arr => .binary arr
  | none => .text (usv (stringify obj))

/-- `internal_decompress`. -/
def internalDecompress (p : Codecs) (input : Bytes) : Option (List Char) :=
  (p.gzDecoder input).bind fromUtf8

/-- What `handle_request` of the master reads a message as. -/
def readMessage (p : Codecs) : Message → Option Value
  | .text t => fromStr p.float t
  | .binary bytes => (internalDecompress p bytes).bind (fromStr p.float)

/-- `encode_value`. -/
def encodeValue (p : Codecs) (value : Value) : Message :=
  match p.gzEncoder (Utf8.encode (valueToString value)) with
  | some data => .binary data
  | none => .text (valueToString value)

/-- The data of the message event. -/
def Message.frame : Message → Frame
  | .text t => .text (t.flatMap utf16Units)
  | .binary bytes => .blob bytes

def decodeMessage (p : Codecs) (m : Message) : Option Value := m.frame.content p.ungzip

/-- The value with the numbers the page has. -/
def doubles (v : Value) : Value := v.mapNumbers Doubles.round

/-- The value as the page has it. -/
def units (v : Value) : Value := (doubles v).recode unitsOf

/-- The master can hold it: its strings are scalar values. -/
def Scalars (v : Value) : Prop := ∀ t ∈ v.texts, ∀ u ∈ t, u.isValidChar

instance (v : Value) : Decidable (Scalars v) :=
  inferInstanceAs (Decidable (∀ t ∈ v.texts, ∀ u ∈ t, u.isValidChar))

/-- `Number.isSafeInteger`, and the one behind. -/
def Safe (n : Int × Int) : Prop := n.2 = 0 ∧ n.1.natAbs ≤ 2 ^ 53

instance (n : Int × Int) : Decidable (Safe n) := inferInstanceAs (Decidable (_ ∧ _))

/-- A value that both ends can hold. -/
structure Plain (v : Value) : Prop where
  scalars : Scalars v
  safe : ∀ n ∈ v.numbers, Safe n
  shallow : v.depth < recursionLimit

/-! ## Scalar values -/

theorem toNat_ofNat {u : Nat} (h : u.isValidChar) : (Char.ofNat u).toNat = u := by
  rw [Char.ofNat, dif_pos h]
  rfl

theorem map_toNat_ofNat {t : Text} (h : ∀ u ∈ t, u.isValidChar) :
    (t.map Char.ofNat).map Char.toNat = t := by
  rw [List.map_map]
  exact (List.map_congr_left fun u hu => toNat_ofNat (h u hu)).trans (List.map_id' t)

theorem not_surrogate {u : Nat} (h : u.isValidChar) : isHigh u = false ∧ isLow u = false := by
  simp only [isHigh, isLow, Nat.isValidChar] at h ⊢
  constructor <;> simp <;> omega

theorem unitsOf_recodes : Recodes unitsOf where
  ascii u hu := if_pos (by omega)
  high u hu x hx := by
    rw [unitsOf] at hx
    split at hx
    · exact List.mem_singleton.mp hx ▸ hu
    · simp only [List.mem_cons, List.not_mem_nil, or_false] at hx
      omega

/-- Two surrogates, from what each adds. -/
theorem join_halves {a b : Nat} (ha : a < 0x400) (hb : b < 0x400) :
    isHigh (0xd800 + a) = true ∧ isLow (0xdc00 + b) = true ∧
      join (0xd800 + a) (0xdc00 + b) = 0x10000 + (a * 0x400 + b) := by
  refine ⟨?_, ?_, ?_⟩
  · rw [isHigh, Bool.and_eq_true, decide_eq_true_eq, decide_eq_true_eq]
    omega
  · rw [isLow, Bool.and_eq_true, decide_eq_true_eq, decide_eq_true_eq]
    omega
  · unfold join
    omega

/-- A scalar value beyond the first plane is two surrogates, and they are it. -/
theorem join_units {u : Nat} (h : u.isValidChar) (hbig : 0x10000 ≤ u) :
    isHigh (0xd800 + (u - 0x10000) / 0x400) = true ∧
      isLow (0xdc00 + (u - 0x10000) % 0x400) = true ∧
        join (0xd800 + (u - 0x10000) / 0x400) (0xdc00 + (u - 0x10000) % 0x400) = u := by
  have hlt : u < 0x110000 := by
    rcases h with h | h
    · exact Nat.lt_trans h (by decide)
    · exact h.2
  have hsplit : 0x10000 + ((u - 0x10000) / 0x400 * 0x400 + (u - 0x10000) % 0x400) = u := by omega
  have hhalves := join_halves (show (u - 0x10000) / 0x400 < 0x400 by omega)
    (show (u - 0x10000) % 0x400 < 0x400 by omega)
  rwa [hsplit] at hhalves

theorem usvFrom_units {u : Nat} (h : u.isValidChar) (rest : Text) :
    usvFrom none (unitsOf u ++ rest) = Char.ofNat u :: usvFrom none rest := by
  rw [unitsOf]
  split
  · obtain ⟨hhigh, hlow⟩ := not_surrogate h
    simp [usvFrom, hhigh, hlow]
  · next hbig =>
      obtain ⟨hhigh, hlow, hjoin⟩ := join_units h (Nat.le_of_not_lt hbig)
      simp [usvFrom, hhigh, hlow, hjoin]

theorem escapeFrom_units {u : Nat} (h : u.isValidChar) (rest : Text) :
    escapeFrom none (unitsOf u ++ rest) = unitsOf u ++ escapeFrom none rest := by
  rw [unitsOf]
  split
  · obtain ⟨hhigh, hlow⟩ := not_surrogate h
    simp [escapeFrom, hhigh, hlow]
  · next hbig =>
      obtain ⟨hhigh, hlow, -⟩ := join_units h (Nat.le_of_not_lt hbig)
      simp [escapeFrom, hhigh, hlow]

section

variable {t : Text}

theorem usv_units (h : ∀ u ∈ t, u.isValidChar) : usv (t.flatMap unitsOf) = t.map Char.ofNat := by
  induction t with
  | nil => rfl
  | cons u t ih =>
      rw [List.flatMap_cons, usv, usvFrom_units (h u List.mem_cons_self), List.map_cons, ← usv,
        ih fun x hx => h x (List.mem_cons_of_mem u hx)]

theorem escape_units (h : ∀ u ∈ t, u.isValidChar) :
    escapeFrom none (t.flatMap unitsOf) = t.flatMap unitsOf := by
  induction t with
  | nil => rfl
  | cons u t ih =>
      rw [List.flatMap_cons, escapeFrom_units (h u List.mem_cons_self),
        ih fun x hx => h x (List.mem_cons_of_mem u hx)]

theorem join_scalars (h : ∀ u ∈ t, u.isValidChar) : joinFrom none t = some t := by
  induction t with
  | nil => rfl
  | cons u t ih =>
      obtain ⟨hhigh, hlow⟩ := not_surrogate (h u List.mem_cons_self)
      simp [joinFrom, hhigh, hlow, ih fun x hx => h x (List.mem_cons_of_mem u hx)]

theorem flatMap_utf16Units (h : ∀ u ∈ t, u.isValidChar) :
    (t.map Char.ofNat).flatMap utf16Units = t.flatMap unitsOf := by
  rw [List.flatMap_map]
  refine List.flatMap_congr fun u hu => ?_
  rw [utf16Units, toNat_ofNat (h u hu), unitsOf]

end

/-! ## Both directions -/

section

variable {v : Value}

theorem print_scalars (h : Scalars v) : ∀ u ∈ print v, u.isValidChar :=
  forall_print (fun u hu => .inl (by omega)) v h

theorem Scalars.doubles (h : Scalars v) : Scalars (doubles v) := by
  rw [Scalars, Wire.doubles, texts_mapNumbers]
  exact h

/-- The page has safe integers as they are. -/
theorem doubles_of_safe (h : ∀ n ∈ v.numbers, Safe n) : doubles v = v := by
  refine mapNumbers_of_fixed v fun n hn => ?_
  obtain ⟨hzero, hle⟩ := h n hn
  rw [hzero, Doubles.round_int hle, ← hzero]

theorem parseInteger_safe {n : Int × Int} (h : Safe n) (float : ParseFloat) :
    parseInteger float n.1 n.2 = some n := by
  obtain ⟨hzero, hle⟩ := h
  exact if_pos ⟨hzero, by omega, by omega⟩

theorem stringify_units (h : Scalars v) :
    stringify (units v) = (print (doubles v)).flatMap unitsOf := by
  rw [stringify, units, print_recode unitsOf_recodes, escape_units (print_scalars h.doubles)]

/-- A plain value is read as it was printed. -/
theorem deserialize_print (h : Plain v) (float : ParseFloat) :
    deserialize float (print v) = some v := by
  rw [deserialize, parse_print]
  refine (if_pos h.shallow).trans ?_
  exact traverse_of_fixed v (fun t ht => join_scalars (h.scalars t ht))
    fun n hn => parseInteger_safe (h.safe n hn) float

theorem fromUtf8_encode (text : List Char) : fromUtf8 (Utf8.encode text) = some text := by
  simp [fromUtf8, Utf8.decode_encode]

/-- The text of a value has no byte order mark to lose. -/
theorem stripBom_valueToString (v : Value) :
    Utf8.stripBom (valueToString v) = valueToString v := by
  obtain ⟨u, rest, hprint, hu⟩ : ∃ u rest, print v = u :: rest ∧ u < 0x80 := by
    obtain ⟨u, rest, hprint, -⟩ := print_head v
    cases v with
    | null | str | arr | obj => exact ⟨_, _, rfl, by decide⟩
    | bool b => cases b <;> exact ⟨_, _, rfl, by decide⟩
    | num m e => exact ⟨u, rest, hprint, print_num_low m e u (by simp [hprint])⟩
  refine Utf8.stripBom_eq_self_iff.mpr ?_
  rintro ⟨text, htext⟩
  rw [valueToString, hprint, List.map_cons] at htext
  have hbom := congrArg Char.toNat (List.cons.inj htext).1
  rw [toNat_ofNat (.inl (by omega))] at hbom
  exact absurd hbom (Nat.ne_of_lt (Nat.lt_of_lt_of_le hu (by decide)))

/-- What the page reads in a text that the master has written. -/
theorem jsonParse_text (h : Scalars v) :
    Dispatch.jsonParse ((valueToString v).flatMap utf16Units) = some (units v) := by
  rw [Dispatch.jsonParse, valueToString, flatMap_utf16Units (print_scalars h),
    ← print_recode unitsOf_recodes, parse_print, Option.map_some, mapNumbers_recode]
  rfl

/-- What the page makes of a message that the master has written. -/
theorem decode_encodeValue {p : Codecs} (hp : p.Agree) (h : Scalars v) :
    decodeMessage p (encodeValue p v) = some (units v) := by
  rw [encodeValue]
  split
  · next data hdata =>
      simp only [decodeMessage, Message.frame, Frame.content, Dispatch.inflateAndJson,
        Dispatch.inflate, Option.bind_some, hp.down _ _ hdata, Dispatch.utf8TextDecode,
        Utf8.decode_encode, stripBom_valueToString v, jsonParse_text h]
  · simp only [decodeMessage, Message.frame, Frame.content, jsonParse_text h]

/-- What the master makes of a message that the page has written. -/
theorem read_units {p : Codecs} (hp : p.Agree) (h : Scalars v) :
    readMessage p (encodeMessage p (units v)) = deserialize p.float (print (doubles v)) := by
  have hscalars := print_scalars h.doubles
  have husv : usv (stringify (units v)) = (print (doubles v)).map Char.ofNat := by
    rw [stringify_units h, usv_units hscalars]
  have hfrom : fromStr p.float ((print (doubles v)).map Char.ofNat) =
      deserialize p.float (print (doubles v)) := by
    rw [fromStr, map_toNat_ofNat hscalars]
  rw [encodeMessage, husv]
  split
  · next arr harr =>
      rw [readMessage, internalDecompress, hp.up _ _ harr, Option.bind_some, fromUtf8_encode,
        Option.bind_some, hfrom]
  · exact hfrom

theorem read_encodeMessage {p : Codecs} (hp : p.Agree) (h : Plain v) :
    readMessage p (encodeMessage p (units v)) = some v := by
  rw [read_units hp h.scalars, doubles_of_safe h.safe, deserialize_print h]

/-- What the master writes reaches the page with its numbers rounded to doubles,
and a plain value comes across unchanged from the page to the master and from the
master to the page, whether the messages could be compressed or not. -/
theorem wire_roundTrip {p : Codecs} (hp : p.Agree) (h : Scalars v) :
    decodeMessage p (encodeValue p v) = some (units v) ∧
      (Plain v → readMessage p (encodeMessage p (units v)) = some v ∧
        decodeMessage p (encodeValue p v) = some (v.recode unitsOf)) := by
  refine ⟨decode_encodeValue hp h, fun hplain => ⟨read_encodeMessage hp hplain, ?_⟩⟩
  rw [decode_encodeValue hp h, units, doubles_of_safe hplain.safe]

end

/-- A string with a letter of two bytes and an emoji, and a number. -/
def greeting : Value := .arr [.str [0xe9, 0x1f600], .num 1 0]

def greetingText : Bytes :=
  [0x5b, 0x22, 0xc3, 0xa9, 0xf0, 0x9f, 0x98, 0x80, 0x22, 0x2c, 0x31, 0x5d]

/-- Its gzip. -/
def greetingZipped : Bytes :=
  [0x1f, 0x8b, 0x08, 0x00, 0x00, 0x00, 0x00, 0x00, 0x00, 0x03, 0x8b, 0x56, 0x3a, 0xbc, 0xf2, 0xc3,
    0xfc, 0x19, 0x0d, 0x4a, 0x3a, 0x86, 0xb1, 0x00, 0x87, 0x4b, 0x90, 0x7d, 0x0c, 0x00, 0x00, 0x00]

def greetingCodecs : Codecs where
  gzip bytes := if bytes = greetingText then some greetingZipped else none
  ungzip bytes := if bytes = greetingZipped then some greetingText else none
  gzEncoder bytes := if bytes = greetingText then some greetingZipped else none
  gzDecoder bytes := if bytes = greetingZipped then some greetingText else none
  float m e := some (Doubles.round m e)

theorem greetingCodecs_agree : greetingCodecs.Agree := by
  constructor
  all_goals
    intro bytes z h
    obtain ⟨rfl, rfl⟩ : bytes = greetingText ∧ greetingZipped = z := by
      simpa [greetingCodecs] using h
    simp [greetingCodecs]

theorem greeting_plain : Plain greeting where
  scalars := by
    unfold Scalars
    decide
  safe := by decide
  shallow := by decide

theorem wire_roundTrip_greeting :
    encodeMessage greetingCodecs (units greeting) = .binary greetingZipped ∧
      decodeMessage greetingCodecs (encodeValue greetingCodecs greeting) =
        some (units greeting) ∧
        readMessage greetingCodecs (encodeMessage greetingCodecs (units greeting)) =
          some greeting := by
  obtain ⟨hdown, hup⟩ := wire_roundTrip greetingCodecs_agree greeting_plain.scalars
  exact ⟨by decide +kernel, hdown, (hup greeting_plain).1⟩

end WebSshTool.Rpc.Wire
