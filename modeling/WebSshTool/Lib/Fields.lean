import Mathlib.Tactic.Common

/-!
# The values of header fields

Octets, and what most fields are made of: tokens, quoted strings, parameters
behind semicolons and lists with commas. A parameter may be missing behind its
semicolon, and an item before its comma.

A quoted string says what stands in it with a quote or a backslash only if
each is behind a backslash. `quoted_plain` and `quoted_sound` are the two
directions of that: text without the two is read as it is, and what is read is
such text or shorter than what it is read from.
-/

namespace WebSshTool.Fields

abbrev quote : UInt8 := 0x22
abbrev comma : UInt8 := 0x2c
abbrev semicolon : UInt8 := 0x3b
abbrev equals : UInt8 := 0x3d
abbrev backslash : UInt8 := 0x5c

/-- A text in ASCII. -/
def ascii (s : String) : List UInt8 := s.toList.map fun c => .ofNat c.toNat

def isSpace (b : UInt8) : Bool := b == 0x20 || b == 0x09

/-- What may stand in a field at all. -/
def isText (b : UInt8) : Bool := (0x20 ≤ b && b != 0x7f) || b == 0x09

def isAlpha (b : UInt8) : Bool := (0x41 ≤ b && b ≤ 0x5a) || (0x61 ≤ b && b ≤ 0x7a)

def isDigit (b : UInt8) : Bool := 0x30 ≤ b && b ≤ 0x39

def isToken (b : UInt8) : Bool :=
  isAlpha b || isDigit b ||
    [0x21, 0x23, 0x24, 0x25, 0x26, 0x27, 0x2a, 0x2b, 0x2d, 0x2e, 0x5e, 0x5f, 0x60, 0x7c,
      0x7e].contains b

def skipSpaces (bs : List UInt8) : List UInt8 := bs.dropWhile isSpace

/-- The token at the front, and what follows it. -/
def token (bs : List UInt8) : Option (List UInt8 × List UInt8) :=
  match bs.takeWhile isToken with
  | [] => none
  | t => some (t, bs.dropWhile isToken)

/-- A quoted string from behind its opening quote, up to the closing one. -/
def quoted : List UInt8 → Option (List UInt8 × List UInt8)
  | [] => none
  | b :: rest =>
      if b = quote then some ([], rest)
      else if b = backslash then
        match rest with
        | [] => none
        | c :: rest =>
            if isText c then (quoted rest).map fun (v, after) => (c :: v, after) else none
      else if isText b then (quoted rest).map fun (v, after) => (b :: v, after)
      else none

/-- A token or a quoted string. -/
def value (bs : List UInt8) : Option (List UInt8 × List UInt8) :=
  match bs with
  | b :: rest => if b = quote then quoted rest else token bs
  | [] => none

/-- A name and its value. -/
abbrev Parameter := List UInt8 × List UInt8

def parameter (bs : List UInt8) : Option (Parameter × List UInt8) :=
  match token bs with
  | some (name, b :: rest) =>
      if b = equals then (value rest).map fun (v, after) => ((name, v), after) else none
  | _ => none

/-- The parameters up to the end of a field. Each takes a semicolon off, so the
length is fuel enough. -/
def parametersFrom (fuel : Nat) (bs : List UInt8) : Option (List Parameter) :=
  match skipSpaces bs, fuel with
  | [], _ => some []
  | b :: rest, fuel + 1 =>
      if b = semicolon then
        match skipSpaces rest with
        | [] => some []
        | c :: rest =>
            if c = semicolon then parametersFrom fuel (c :: rest)
            else
              match parameter (c :: rest) with
              | some (p, after) => (parametersFrom fuel after).map (p :: ·)
              | none => none
      else none
  | _ :: _, 0 => none

/-- A token with parameters, to the end of a field. -/
def parameterized (bs : List UInt8) : Option (List UInt8 × List Parameter) :=
  match token bs with
  | some (t, rest) => (parametersFrom rest.length rest).map fun ps => (t, ps)
  | none => none

/-! ## Weighted lists -/

def lower (b : UInt8) : UInt8 := if 0x41 ≤ b && b ≤ 0x5a then b + 0x20 else b

def trimSpaces (bs : List UInt8) : List UInt8 := (skipSpaces (skipSpaces bs).reverse).reverse

/-- The items of a list, without the spaces around them. -/
def items (bs : List UInt8) : List (List UInt8) := (bs.splitOn comma).map trimSpaces

/-- A weight in thousandths: at most three digits behind a nought or a one, and
none but noughts behind a one. -/
def qvalue : List UInt8 → Option Nat
  | [0x30] => some 0
  | [0x31] => some 1000
  | 0x30 :: 0x2e :: ds =>
      if ds.length ≤ 3 ∧ ds.all isDigit then
        some ((ds ++ List.replicate (3 - ds.length) 0x30).foldl
          (fun (n : Nat) (d : UInt8) => n * 10 + (d.toNat - 0x30)) 0)
      else none
  | 0x31 :: 0x2e :: ds => if ds.length ≤ 3 ∧ ds.all (· == 0x30) then some 1000 else none
  | _ => none

/-- A token, in small letters, and its weight, which is one if it is not there. -/
def weighted (item : List UInt8) : Option (List UInt8 × Nat) :=
  match token item with
  | none => none
  | some (t, rest) =>
      match skipSpaces rest with
      | [] => some (t.map lower, 1000)
      | b :: rest =>
          if b = semicolon then
            match skipSpaces rest with
            | q :: e :: v =>
                if lower q = 0x71 ∧ e = equals then (qvalue v).map fun w => (t.map lower, w)
                else none
            | _ => none
          else none

/-- What is well formed of a list of weighted tokens. -/
def weights (bs : List UInt8) : List (List UInt8 × Nat) := (items bs).filterMap weighted

example : weights (ascii "br, GZip ;q=0.5,deflate; Q=0,*;q=1.1") =
    [(ascii "br", 1000), (ascii "gzip", 500), (ascii "deflate", 0)] := by decide

/-! ## Tokens -/

def IsToken (t : List UInt8) : Prop := t ≠ [] ∧ ∀ b ∈ t, isToken b = true

instance (t : List UInt8) : Decidable (IsToken t) :=
  decidable_of_iff (t ≠ [] ∧ t.all isToken = true) (and_congr Iff.rfl List.all_eq_true)

/-- A token is read as it is when what follows is none of it. -/
theorem token_append {t : List UInt8} (ht : IsToken t) {b : UInt8} (hb : isToken b = false)
    (rest : List UInt8) : token (t ++ b :: rest) = some (t, b :: rest) := by
  have htake : (t ++ b :: rest).takeWhile isToken = t := by
    rw [List.takeWhile_append_of_pos ht.2, List.takeWhile_cons_of_neg (by simp [hb]),
      List.append_nil]
  have hdrop : (t ++ b :: rest).dropWhile isToken = b :: rest := by
    rw [List.dropWhile_append_of_pos ht.2, List.dropWhile_cons_of_neg (by simp [hb])]
  unfold token
  rw [htake, hdrop]
  cases t with
  | nil => exact absurd rfl ht.1
  | cons a t => rfl

/-! ## Quoted strings -/

/-- Text that needs no backslash. -/
def Plain (v : List UInt8) : Prop := quote ∉ v ∧ backslash ∉ v

theorem plain_cons {b : UInt8} {v : List UInt8} :
    Plain (b :: v) ↔ (b ≠ quote ∧ b ≠ backslash) ∧ Plain v := by
  simp only [Plain, List.mem_cons, not_or, ne_eq, eq_comm (a := b)]
  tauto

theorem quoted_plain {v : List UInt8} (hplain : Plain v) (htext : ∀ b ∈ v, isText b = true)
    (rest : List UInt8) : quoted (v ++ quote :: rest) = some (v, rest) := by
  induction v with
  | nil =>
      rw [List.nil_append, quoted.eq_def]
      exact if_pos rfl
  | cons b v ih =>
      obtain ⟨⟨hquote, hslash⟩, hv⟩ := plain_cons.mp hplain
      have htail := ih hv fun c hc => htext c (.tail _ hc)
      rw [List.cons_append, quoted.eq_def]
      simp only [if_neg hquote, if_neg hslash, if_pos (htext b (.head _)), htail]
      rfl

/-- What is read of a quoted string stands there as it is, or is shorter than
what stands there. -/
theorem quoted_sound {bs v rest : List UInt8} (h : quoted bs = some (v, rest)) :
    ∃ raw, bs = raw ++ quote :: rest ∧ (raw = v ∧ Plain v ∨ v.length < raw.length) := by
  fun_induction quoted bs generalizing v with
  | case1 => cases h
  | case2 after =>
      obtain ⟨rfl, rfl⟩ := Prod.mk.inj (Option.some.inj h)
      exact ⟨[], rfl, .inl ⟨rfl, by simp [Plain]⟩⟩
  | case3 => cases h
  | case4 c after htext hquote ih =>
      obtain ⟨⟨v', rest'⟩, hv', heq⟩ := Option.map_eq_some_iff.mp h
      obtain ⟨rfl, rfl⟩ := Prod.mk.inj heq
      obtain ⟨raw, rfl, hraw⟩ := ih hv'
      refine ⟨backslash :: c :: raw, rfl, .inr ?_⟩
      rcases hraw with ⟨rfl, -⟩ | hlt
      · simp
      · simp only [List.length_cons]
        omega
  | case5 => cases h
  | case6 b after hquote hslash htext ih =>
      obtain ⟨⟨v', rest'⟩, hv', heq⟩ := Option.map_eq_some_iff.mp h
      obtain ⟨rfl, rfl⟩ := Prod.mk.inj heq
      obtain ⟨raw, rfl, hraw⟩ := ih hv'
      refine ⟨b :: raw, rfl, ?_⟩
      rcases hraw with ⟨rfl, hplain⟩ | hlt
      · exact .inl ⟨rfl, plain_cons.mpr ⟨⟨hquote, hslash⟩, hplain⟩⟩
      · refine .inr ?_
        simp only [List.length_cons]
        omega
  | case7 => cases h

/-! ## A token and a quoted parameter -/

theorem parameter_quoted {name : List UInt8} (hname : IsToken name) (body : List UInt8) :
    parameter (name ++ equals :: quote :: body) =
      (quoted body).map fun (v, after) => ((name, v), after) := by
  have htoken := token_append hname (b := equals) (by decide) (quote :: body)
  simp only [parameter, htoken, value]
  cases quoted body <;> rfl

/-- A field that begins with a token and a quoted parameter. -/
theorem parameterized_quoted {kind name : List UInt8} (hkind : IsToken kind)
    (hname : IsToken name) (body : List UInt8) :
    parameterized (kind ++ semicolon :: 0x20 :: (name ++ equals :: quote :: body)) =
      (quoted body).bind fun (v, after) =>
        (parametersFrom (name.length + body.length + 3) after).map fun ps =>
          (kind, (name, v) :: ps) := by
  obtain ⟨a, name', rfl⟩ := List.exists_cons_of_ne_nil hname.1
  have hkindToken := token_append hkind (b := semicolon) (by decide)
    (0x20 :: (a :: name' ++ equals :: quote :: body))
  have ha : isToken a = true := hname.2 a (.head _)
  have hspace : isSpace a = false := by
    by_contra hs
    simp only [isSpace, Bool.not_eq_false, Bool.or_eq_true, beq_iff_eq] at hs
    rcases hs with rfl | rfl <;> exact absurd ha (by decide)
  have hsemicolon : a ≠ semicolon := by
    rintro rfl
    exact absurd ha (by decide)
  have hskip : skipSpaces (0x20 :: (a :: name' ++ equals :: quote :: body)) =
      a :: (name' ++ equals :: quote :: body) := by
    unfold skipSpaces
    rw [List.dropWhile_cons_of_pos rfl, List.cons_append,
      List.dropWhile_cons_of_neg (by simp [hspace])]
  have hparameter := parameter_quoted hname body
  rw [List.cons_append] at hparameter
  have hlength : (semicolon :: 0x20 :: (a :: name' ++ equals :: quote :: body)).length =
      ((a :: name').length + body.length + 3) + 1 := by
    simp only [List.length_cons, List.length_append]
    omega
  have hsemi : skipSpaces (semicolon :: 0x20 :: (a :: name' ++ equals :: quote :: body)) =
      semicolon :: 0x20 :: (a :: name' ++ equals :: quote :: body) := rfl
  simp only [parameterized, hkindToken, hlength]
  rw [parametersFrom.eq_def, hsemi]
  simp only [if_true, hskip, if_neg hsemicolon, hparameter]
  cases hq : quoted body with
  | none => rfl
  | some p =>
      obtain ⟨v, after⟩ := p
      simp only [Option.map_some, Option.bind_some, Option.map_map]
      rfl

/-- A field with one parameter, whose value is put between quotes as it is, is
read as that if and only if the value needs no backslash. -/
theorem parameterized_iff {kind name : List UInt8} (hkind : IsToken kind)
    (hname : IsToken name) {v : List UInt8} (htext : ∀ b ∈ v, isText b = true) :
    (∃ t, parameterized (kind ++ semicolon :: 0x20 :: (name ++ equals :: quote ::
      (v ++ [quote, semicolon]))) = some (t, [(name, v)])) ↔ Plain v := by
  rw [parameterized_quoted hkind hname]
  constructor
  · rintro ⟨t, h⟩
    obtain ⟨⟨w, after⟩, hquoted, hmap⟩ := Option.bind_eq_some_iff.mp h
    obtain ⟨ps, -, heq⟩ := Option.map_eq_some_iff.mp hmap
    obtain ⟨hw, -⟩ := List.cons.inj (Prod.mk.inj heq).2
    obtain rfl : w = v := (Prod.mk.inj hw).2
    obtain ⟨raw, hraw, ⟨rfl, hplain⟩ | hlt⟩ := quoted_sound hquoted
    · exact hplain
    · -- The closing quote would have to be the semicolon.
      have hlen := congrArg List.length hraw
      simp only [List.length_append, List.length_cons, List.length_nil] at hlen
      obtain rfl : after = [] := List.length_eq_zero_iff.mp (by omega)
      have hlast : semicolon = quote := by simpa using congrArg List.getLast? hraw
      exact absurd hlast (by decide)
  · intro h
    rw [quoted_plain h htext [semicolon]]
    exact ⟨kind, rfl⟩

end WebSshTool.Fields
