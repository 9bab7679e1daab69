import Mathlib.Data.Nat.Digits.Lemmas
import Mathlib.Tactic.Common

/-!
# JSON text

Values, their compact text and a parser for the whole grammar. A string is a
list of code units and nothing is assumed about them, so strings with a lone
surrogate are among them. The grammar is written in ASCII and escapes nothing
but ASCII: what is said here holds of UTF-16 units as of code points.

A number keeps its decimal reading, a mantissa and a power of ten, and is not
rounded to any machine format. An object keeps its members in order, repeated
names included.
-/

namespace WebSshTool.Json

/-- A string, as its code units. -/
abbrev Text := List Nat

def ofString (s : String) : Text := s.toList.map Char.toNat

inductive Value where
  | null
  | bool (b : Bool)
  | num (mantissa exponent : Int)
  | str (s : Text)
  | arr (items : List Value)
  | obj (members : List (Text × Value))

/-- The member an object has under a name: the last one wins. -/
def Value.get? (name : Text) : Value → Option Value
  | .obj members => (members.reverse.find? fun m => m.1 == name).map (·.2)
  | _ => none

def Value.isNull : Value → Bool
  | .null => true
  | _ => false

/-- The number as an unsigned 64-bit integer, where it is written as one. -/
def Value.asU64? : Value → Option Nat
  | .num m e => if e = 0 ∧ 0 ≤ m ∧ m < 2 ^ 64 then some m.toNat else none
  | _ => none

/-- Members sorted by name; one that is there already is replaced. -/
def insertMember (name : Text) (v : Value) : List (Text × Value) → List (Text × Value)
  | [] => [(name, v)]
  | m :: ms =>
      if name = m.1 then (name, v) :: ms
      else if name < m.1 then (name, v) :: m :: ms
      else m :: insertMember name v ms

/-- An object as the sorted map it is read into. -/
def Value.entries : Value → List (Text × Value)
  | .obj members => members.foldl (fun ms m => insertMember m.1 m.2 ms) []
  | _ => []

abbrev quote : Nat := 0x22
abbrev backslash : Nat := 0x5c
abbrev comma : Nat := 0x2c
abbrev colon : Nat := 0x3a
abbrev minus : Nat := 0x2d
abbrev plus : Nat := 0x2b
abbrev dot : Nat := 0x2e
abbrev openBracket : Nat := 0x5b
abbrev closeBracket : Nat := 0x5d
abbrev openBrace : Nat := 0x7b
abbrev closeBrace : Nat := 0x7d

/-! ## Printing -/

def hexDigit (d : Nat) : Nat := if d < 10 then 0x30 + d else 0x57 + d

/-- The short escapes: what stands after the backslash. -/
def shortEscape? (u : Nat) : Option Nat :=
  if u = quote then some quote
  else if u = backslash then some backslash
  else if u = 0x08 then some 0x62
  else if u = 0x09 then some 0x74
  else if u = 0x0a then some 0x6e
  else if u = 0x0c then some 0x66
  else if u = 0x0d then some 0x72
  else none

def escapeUnit (u : Nat) : Text :=
  match shortEscape? u with
  | some e => [backslash, e]
  | none =>
      if u < 0x20 then
        [backslash, 0x75, 0x30, 0x30, hexDigit (u / 16), hexDigit (u % 16)]
      else [u]

def printString (s : Text) : Text := quote :: (s.flatMap escapeUnit ++ [quote])

def decimal (n : Nat) : List Nat := if n = 0 then [0] else (Nat.digits 10 n).reverse

def printNat (n : Nat) : Text := (decimal n).map (0x30 + ·)

def printInt (m : Int) : Text :=
  if m < 0 then minus :: printNat m.natAbs else printNat m.natAbs

mutual

def print : Value → Text
  | .null => [0x6e, 0x75, 0x6c, 0x6c]
  | .bool true => [0x74, 0x72, 0x75, 0x65]
  | .bool false => [0x66, 0x61, 0x6c, 0x73, 0x65]
  | .num m e => if e = 0 then printInt m else printInt m ++ 0x65 :: printInt e
  | .str s => printString s
  | .arr items => openBracket :: printItems [] items
  | .obj members => openBrace :: printMembers [] members

/-- Items with the bracket that closes them; `sep` stands before the next. -/
def printItems (sep : Text) : List Value → Text
  | [] => [closeBracket]
  | v :: vs => sep ++ print v ++ printItems [comma] vs

def printMembers (sep : Text) : List (Text × Value) → Text
  | [] => [closeBrace]
  | (k, v) :: ms => sep ++ printString k ++ colon :: print v ++ printMembers [comma] ms

end

/-! ## Parsing -/

def isSpace (u : Nat) : Bool := u == 0x20 || u == 0x09 || u == 0x0a || u == 0x0d

def skipSpace : Text → Text
  | [] => []
  | u :: rest => if isSpace u then skipSpace rest else u :: rest

def isDigit (u : Nat) : Bool := 0x30 ≤ u && u ≤ 0x39

/-- The digits at the front of a text, as numbers, and what follows them. -/
def spanDigits : Text → List Nat × Text
  | [] => ([], [])
  | u :: rest =>
      if isDigit u then ((u - 0x30) :: (spanDigits rest).1, (spanDigits rest).2)
      else ([], u :: rest)

def hexValue? (u : Nat) : Option Nat :=
  if isDigit u then some (u - 0x30)
  else if 0x61 ≤ u ∧ u ≤ 0x66 then some (u - 0x57)
  else if 0x41 ≤ u ∧ u ≤ 0x46 then some (u - 0x37)
  else none

def hexFour? (a b c d : Nat) : Option Nat := do
  let a ← hexValue? a
  let b ← hexValue? b
  let c ← hexValue? c
  let d ← hexValue? d
  pure (((a * 16 + b) * 16 + c) * 16 + d)

/-- What a unit after a backslash stands for. -/
def unescape? (e : Nat) : Option Nat :=
  if e = quote ∨ e = backslash ∨ e = 0x2f then some e
  else if e = 0x62 then some 0x08
  else if e = 0x74 then some 0x09
  else if e = 0x6e then some 0x0a
  else if e = 0x66 then some 0x0c
  else if e = 0x72 then some 0x0d
  else none

/-- A string from behind its opening quote, up to the closing one. -/
def parseString : Text → Option (Text × Text)
  | [] => none
  | u :: rest =>
      if u = quote then some ([], rest)
      else if u = backslash then
        match rest with
        | [] => none
        | e :: rest =>
            if e = 0x75 then
              match rest with
              | a :: b :: c :: d :: rest =>
                  match hexFour? a b c d with
                  | some x => (parseString rest).map fun p => (x :: p.1, p.2)
                  | none => none
              | _ => none
            else
              match unescape? e with
              | some x => (parseString rest).map fun p => (x :: p.1, p.2)
              | none => none
      else if u < 0x20 then none
      else (parseString rest).map fun p => (u :: p.1, p.2)

/-- An optional sign: whether it was a minus. -/
def parseSign : Text → Bool × Text
  | [] => (false, [])
  | u :: rest =>
      if u = minus then (true, rest)
      else if u = plus then (false, rest)
      else (false, u :: rest)

def ofDigits (ds : List Nat) : Nat := ds.foldl (fun n d => n * 10 + d) 0

def withSign (negative : Bool) (n : Nat) : Int := if negative then -n else n

/-- The digits before the point: a zero stands alone. -/
def parseWhole (t : Text) : Option (List Nat × Text) :=
  match spanDigits t with
  | ([], _) => none
  | (0 :: _ :: _, _) => none
  | (ds, rest) => some (ds, rest)

def parseFraction : Text → Option (List Nat × Text)
  | [] => some ([], [])
  | u :: rest =>
      if u = dot then
        match spanDigits rest with
        | ([], _) => none
        | (ds, rest) => some (ds, rest)
      else some ([], u :: rest)

def parseExponent : Text → Option (Int × Text)
  | [] => some (0, [])
  | u :: rest =>
      if u = 0x65 ∨ u = 0x45 then
        match parseSign rest with
        | (negative, rest) =>
            match spanDigits rest with
            | ([], _) => none
            | (ds, rest) => some (withSign negative (ofDigits ds), rest)
      else some (0, u :: rest)

def parseUnsigned (negative : Bool) (t : Text) : Option (Value × Text) := do
  let (whole, t) ← parseWhole t
  let (fraction, t) ← parseFraction t
  let (exponent, t) ← parseExponent t
  pure (.num (withSign negative (ofDigits (whole ++ fraction)))
    (exponent - fraction.length), t)

def parseNumber : Text → Option (Value × Text)
  | [] => none
  | u :: rest =>
      if u = minus then parseUnsigned true rest else parseUnsigned false (u :: rest)

/-- `word` at the front of a text. -/
def parseWord (word : Text) (v : Value) (t : Text) : Option (Value × Text) :=
  if word.isPrefixOf t then some (v, t.drop word.length) else none

mutual

def parseValue : Nat → Text → Option (Value × Text)
  | 0, _ => none
  | fuel + 1, t =>
      match skipSpace t with
      | [] => none
      | u :: rest =>
          if u = quote then (parseString rest).map fun p => (.str p.1, p.2)
          else if u = openBracket then
            match skipSpace rest with
            | [] => none
            | w :: rest =>
                if w = closeBracket then some (.arr [], rest)
                else (parseItems fuel (w :: rest)).map fun p => (.arr p.1, p.2)
          else if u = openBrace then
            match skipSpace rest with
            | [] => none
            | w :: rest =>
                if w = closeBrace then some (.obj [], rest)
                else (parseMembers fuel (w :: rest)).map fun p => (.obj p.1, p.2)
          else if u = 0x6e then parseWord [0x6e, 0x75, 0x6c, 0x6c] .null (u :: rest)
          else if u = 0x74 then
            parseWord [0x74, 0x72, 0x75, 0x65] (.bool true) (u :: rest)
          else if u = 0x66 then
            parseWord [0x66, 0x61, 0x6c, 0x73, 0x65] (.bool false) (u :: rest)
          else parseNumber (u :: rest)

def parseItems : Nat → Text → Option (List Value × Text)
  | 0, _ => none
  | fuel + 1, t =>
      match parseValue fuel t with
      | none => none
      | some (v, rest) =>
          match skipSpace rest with
          | [] => none
          | w :: rest =>
              if w = closeBracket then some ([v], rest)
              else if w = comma then
                (parseItems fuel rest).map fun p => (v :: p.1, p.2)
              else none

def parseMembers : Nat → Text → Option (List (Text × Value) × Text)
  | 0, _ => none
  | fuel + 1, t =>
      match skipSpace t with
      | [] => none
      | u :: rest =>
          if u = quote then
            match parseString rest with
            | none => none
            | some (k, rest) =>
                match skipSpace rest with
                | [] => none
                | w :: rest =>
                    if w = colon then
                      match parseValue fuel rest with
                      | none => none
                      | some (v, rest) =>
                          match skipSpace rest with
                          | [] => none
                          | w :: rest =>
                              if w = closeBrace then some ([(k, v)], rest)
                              else if w = comma then
                                (parseMembers fuel rest).map fun p => ((k, v) :: p.1, p.2)
                              else none
                    else none
          else none

end

/-- One value and nothing behind it. Every step consumes a unit, so the length
of the text is fuel enough. -/
def parse (t : Text) : Option Value :=
  match parseValue (t.length + 1) t with
  | some (v, rest) => if skipSpace rest = [] then some v else none
  | none => none

end WebSshTool.Json
