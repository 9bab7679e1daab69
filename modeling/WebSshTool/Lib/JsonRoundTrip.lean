import WebSshTool.Lib.Json

/-!
# What is printed is read back

`parse_print` takes the parser through a printed value by recursion over the
value: a string is closed by the first quote that is not escaped, a number by
the first unit that cannot go on with it, and everything else by its brackets.
-/

namespace WebSshTool.Json

/-! ## Strings come back -/

theorem hexValue?_hexDigit {d : Nat} (h : d < 16) : hexValue? (hexDigit d) = some d := by
  revert h
  revert d
  decide

theorem unescape?_of_shortEscape? {u e : Nat} (h : shortEscape? u = some e) :
    unescape? e = some u ∧ e ≠ 0x75 := by
  simp only [shortEscape?] at h
  repeat' split at h
  all_goals first
    | (injection h with h; subst h; subst_vars; decide)
    | exact absurd h (by simp)

theorem parseString_escapeUnit (u : Nat) (t : Text) :
    parseString (escapeUnit u ++ t) = (parseString t).map fun p => (u :: p.1, p.2) := by
  rw [escapeUnit]
  cases hs : shortEscape? u with
  | some e =>
      obtain ⟨hun, hne⟩ := unescape?_of_shortEscape? hs
      rw [parseString.eq_def]
      simp [hne, hun]
  | none =>
      obtain ⟨hq, hb⟩ : u ≠ quote ∧ u ≠ backslash := by
        constructor <;> rintro rfl <;> simp [shortEscape?] at hs
      by_cases hlow : u < 0x20
      · have hfour : hexFour? 0x30 0x30 (hexDigit (u / 16)) (hexDigit (u % 16)) = some u := by
          simp only [hexFour?, hexValue?_hexDigit (show u / 16 < 16 by omega),
            hexValue?_hexDigit (show u % 16 < 16 by omega),
            show hexValue? 0x30 = some 0 from rfl, Option.bind_eq_bind, Option.bind_some,
            Option.pure_def, Option.some.injEq]
          omega
        rw [parseString.eq_def]
        simp [hlow, hfour]
      · rw [parseString.eq_def]
        simp [hq, hb, hlow]

theorem parseString_flatMap (s t : Text) :
    parseString (s.flatMap escapeUnit ++ quote :: t) = some (s, t) := by
  induction s with
  | nil =>
      rw [parseString.eq_def]
      simp
  | cons u s ih =>
      rw [List.flatMap_cons, List.append_assoc, parseString_escapeUnit, ih]
      rfl

/-! ## Numbers come back -/

/-- What may stand behind a number without being read as part of it. -/
def Stops : Text → Prop
  | [] => True
  | u :: _ => isDigit u = false ∧ u ≠ dot ∧ u ≠ 0x65 ∧ u ≠ 0x45

theorem decimal_lt {n d : Nat} (h : d ∈ decimal n) : d < 10 := by
  rw [decimal] at h
  split at h
  · simp at h
    omega
  · exact Nat.digits_lt_base (by omega) (List.mem_reverse.mp h)

theorem decimal_ne_nil (n : Nat) : decimal n ≠ [] := by
  rw [decimal]
  split
  · simp
  · next h => simpa using Nat.digits_ne_nil_iff_ne_zero.mpr h

theorem ofDigits_append (ds : List Nat) (d : Nat) :
    ofDigits (ds ++ [d]) = ofDigits ds * 10 + d := by
  simp [ofDigits]

theorem ofDigits_decimal (n : Nat) : ofDigits (decimal n) = n := by
  have hrev : ∀ ds : List Nat, ofDigits ds.reverse = Nat.ofDigits 10 ds := by
    intro ds
    induction ds with
    | nil => rfl
    | cons d ds ih =>
        rw [List.reverse_cons, ofDigits_append, ih, Nat.ofDigits_cons]
        omega
  rw [decimal]
  split
  · next h => rw [h]; rfl
  · rw [hrev, Nat.ofDigits_digits]

/-- A zero comes first only where it is alone. -/
theorem decimal_head (n : Nat) {d : Nat} {ds : List Nat} (h : decimal n = d :: ds)
    (hd : d = 0) : ds = [] := by
  rw [decimal] at h
  split at h
  · exact (List.cons.inj h).2.symm
  · next hn =>
    have hlast := Nat.getLast_digit_ne_zero 10 hn
    have hrev : Nat.digits 10 n = ds.reverse ++ [d] := by
      rw [← List.reverse_reverse (Nat.digits 10 n), h, List.reverse_cons]
    simp [hrev, hd] at hlast

theorem isDigit_add {d : Nat} (h : d < 10) : isDigit (0x30 + d) = true := by
  simp [isDigit]
  omega

theorem spanDigits_map {ds : List Nat} {t : Text} (hd : ∀ d ∈ ds, d < 10)
    (ht : ∀ u r, t = u :: r → isDigit u = false) :
    spanDigits (ds.map (0x30 + ·) ++ t) = (ds, t) := by
  induction ds with
  | nil =>
      cases t with
      | nil => rfl
      | cons u r => simp [spanDigits, ht u r rfl]
  | cons d ds ih =>
      have hrest := ih fun x hx => hd x (List.mem_cons_of_mem d hx)
      rw [List.map_cons, List.cons_append, spanDigits, isDigit_add (hd d List.mem_cons_self),
        hrest]
      simp

theorem parseWhole_printNat (n : Nat) {t : Text}
    (ht : ∀ u r, t = u :: r → isDigit u = false) :
    parseWhole (printNat n ++ t) = some (decimal n, t) := by
  rw [parseWhole, printNat, spanDigits_map (fun _ => decimal_lt) ht]
  cases hd : decimal n with
  | nil => exact absurd hd (decimal_ne_nil n)
  | cons d ds =>
      cases ds with
      | nil => cases d <;> rfl
      | cons e es =>
          cases d with
          | zero => exact absurd (decimal_head n hd rfl) (by simp)
          | succ d => rfl

/-- A printed natural number starts with a digit. -/
theorem printNat_head (n : Nat) : ∃ d r, printNat n = (0x30 + d) :: r ∧ d < 10 := by
  cases hd : decimal n with
  | nil => exact absurd hd (decimal_ne_nil n)
  | cons d ds =>
      exact ⟨d, ds.map (0x30 + ·), by rw [printNat, hd, List.map_cons],
        decimal_lt (by rw [hd]; exact List.mem_cons_self)⟩

theorem parseSign_printInt (m : Int) (t : Text) :
    parseSign (printInt m ++ t) = (decide (m < 0), printNat m.natAbs ++ t) := by
  rw [printInt]
  split
  · next h => simp [parseSign, h]
  · next h =>
    obtain ⟨d, r, hr, hd⟩ := printNat_head m.natAbs
    rw [hr]
    have h1 : 0x30 + d ≠ minus := by
      show 0x30 + d ≠ 0x2d
      omega
    have h2 : 0x30 + d ≠ plus := by
      show 0x30 + d ≠ 0x2b
      omega
    simp [parseSign, h1, h2, h]

theorem withSign_natAbs (m : Int) : withSign (decide (m < 0)) m.natAbs = m := by
  rw [withSign]
  split
  · next h => rw [Int.ofNat_natAbs_of_nonpos (by simp at h; omega), neg_neg]
  · next h => exact Int.natAbs_of_nonneg (by simpa using h)

theorem parseExponent_printInt (e : Int) {t : Text}
    (ht : ∀ u r, t = u :: r → isDigit u = false) :
    parseExponent (0x65 :: printInt e ++ t) = some (e, t) := by
  have hspan : spanDigits (printNat e.natAbs ++ t) = (decimal e.natAbs, t) :=
    spanDigits_map (fun _ => decimal_lt) ht
  rw [List.cons_append, parseExponent, if_pos (.inl rfl), parseSign_printInt]
  simp only [hspan]
  cases hd : decimal e.natAbs with
  | nil => exact absurd hd (decimal_ne_nil _)
  | cons d ds => simp only [← hd, ofDigits_decimal, withSign_natAbs]

theorem parseNumber_print (m e : Int) {t : Text} (ht : Stops t) :
    parseNumber (print (.num m e) ++ t) = some (.num m e, t) := by
  have htd : ∀ u r, t = u :: r → isDigit u = false := by
    rintro u r rfl
    exact ht.1
  -- What stands behind the digits of the mantissa.
  obtain ⟨t', hprint, htd', hfrac, hexp⟩ : ∃ t', print (.num m e) ++ t = printInt m ++ t' ∧
      (∀ u r, t' = u :: r → isDigit u = false) ∧
      parseFraction t' = some ([], t') ∧ parseExponent t' = some (e, t) := by
    by_cases he : e = 0
    · refine ⟨t, by rw [print, if_pos he], htd, ?_, ?_⟩
      · cases t with
        | nil => rfl
        | cons u r => rw [parseFraction, if_neg ht.2.1]
      · cases t with
        | nil => rw [he]; rfl
        | cons u r => rw [parseExponent, if_neg (by simp [ht.2.2.1, ht.2.2.2]), he]
    · refine ⟨0x65 :: printInt e ++ t, by rw [print, if_neg he, List.append_assoc], ?_, rfl,
        parseExponent_printInt e htd⟩
      intro u r hu
      rw [← (List.cons.inj hu).1]
      rfl
  have hunsigned : ∀ negative, parseUnsigned negative (printNat m.natAbs ++ t') =
      some (.num (withSign negative m.natAbs) e, t) := by
    intro negative
    simp [parseUnsigned, parseWhole_printNat _ htd', hfrac, hexp, ofDigits_decimal]
  rw [hprint, printInt]
  split
  · next h =>
    rw [List.cons_append, parseNumber, if_pos rfl, hunsigned]
    have hs := withSign_natAbs m
    rw [decide_eq_true h] at hs
    rw [hs]
  · next h =>
    have hs := withSign_natAbs m
    rw [decide_eq_false h] at hs
    obtain ⟨d, r, hr, hd⟩ := printNat_head m.natAbs
    have hne : 0x30 + d ≠ minus := by
      show 0x30 + d ≠ 0x2d
      omega
    have := hunsigned false
    rw [hr, List.cons_append] at this ⊢
    rw [parseNumber, if_neg hne, this, hs]

/-! ## Values come back -/

/-- The text of a value starts with a unit that is neither white space nor a
closing bracket. -/
theorem print_head (v : Value) : ∃ u r, print v = u :: r ∧ isSpace u = false ∧
    u ≠ closeBracket ∧ u ≠ closeBrace := by
  cases v with
  | null => exact ⟨_, _, rfl, by decide⟩
  | bool b => cases b <;> exact ⟨_, _, rfl, by decide⟩
  | str s => exact ⟨_, _, rfl, by decide⟩
  | arr items => exact ⟨_, _, rfl, by decide⟩
  | obj members => exact ⟨_, _, rfl, by decide⟩
  | num m e =>
      obtain ⟨d, r, hr, hd⟩ := printNat_head m.natAbs
      have hdigit : isSpace (0x30 + d) = false ∧ 0x30 + d ≠ closeBracket ∧
          0x30 + d ≠ closeBrace := by
        clear hr
        revert hd
        revert d
        decide
      rw [print, printInt, hr]
      split <;> split
      · exact ⟨_, _, rfl, by decide⟩
      · exact ⟨_, _, rfl, hdigit⟩
      · exact ⟨_, _, rfl, by decide⟩
      · exact ⟨_, _, rfl, hdigit⟩

theorem skipSpace_cons {u : Nat} {t : Text} (h : isSpace u = false) :
    skipSpace (u :: t) = u :: t := by
  simp [skipSpace, h]

theorem skipSpace_print (v : Value) (t : Text) :
    skipSpace (print v ++ t) = print v ++ t := by
  obtain ⟨u, r, hr, hu, -⟩ := print_head v
  rw [hr, List.cons_append, skipSpace_cons hu]

theorem parseValue_number {fuel : Nat} {m e : Int} {t : Text} (ht : Stops t) :
    parseValue (fuel + 1) (print (.num m e) ++ t) = some (.num m e, t) := by
  obtain ⟨u, r, hr, hu⟩ : ∃ u r, print (.num m e) ++ t = u :: r ∧
      (u = minus ∨ isDigit u = true) := by
    obtain ⟨d, r, hr, hd⟩ := printNat_head m.natAbs
    rw [print, printInt, hr]
    split <;> split
    · exact ⟨_, _, rfl, .inl rfl⟩
    · exact ⟨_, _, rfl, .inr (isDigit_add hd)⟩
    · exact ⟨_, _, rfl, .inl rfl⟩
    · exact ⟨_, _, rfl, .inr (isDigit_add hd)⟩
  have hnum := parseNumber_print m e ht
  have hskip := skipSpace_print (.num m e) t
  rw [hr] at hnum hskip ⊢
  rw [parseValue, hskip]
  have hother : u ≠ quote ∧ u ≠ openBracket ∧ u ≠ openBrace ∧ u ≠ 0x6e ∧ u ≠ 0x74 ∧
      u ≠ 0x66 := by
    refine ⟨?_, ?_, ?_, ?_, ?_, ?_⟩ <;> rintro rfl <;> exact absurd hu (by decide)
  simp only [hother, if_false, hnum]

mutual

/-- Fuel that is enough to read a value back. -/
def size : Value → Nat
  | .arr items => 1 + sizeItems items
  | .obj members => 1 + sizeMembers members
  | _ => 1

def sizeItems : List Value → Nat
  | [] => 0
  | v :: vs => 1 + size v + sizeItems vs

def sizeMembers : List (Text × Value) → Nat
  | [] => 0
  | (_, v) :: ms => 1 + size v + sizeMembers ms

end

mutual

theorem parseValue_print : (v : Value) → ∀ (fuel : Nat) (t : Text), size v ≤ fuel →
    Stops t → parseValue fuel (print v ++ t) = some (v, t)
  | v, 0, t, hf, _ => by cases v <;> simp [size] at hf
  | .null, fuel + 1, t, _, _ => by simp [parseValue, print, skipSpace, isSpace, parseWord]
  | .bool true, fuel + 1, t, _, _ => by
      simp [parseValue, print, skipSpace, isSpace, parseWord]
  | .bool false, fuel + 1, t, _, _ => by
      simp [parseValue, print, skipSpace, isSpace, parseWord]
  | .num m e, fuel + 1, t, _, ht => parseValue_number ht
  | .str s, fuel + 1, t, _, _ => by
      simp [parseValue, print, printString, skipSpace, isSpace, parseString_flatMap]
  | .arr [], fuel + 1, t, _, _ => by simp [parseValue, print, printItems, skipSpace, isSpace]
  | .arr (v :: vs), fuel + 1, t, hf, ht => by
      have hitems := parseItems_print (v :: vs) fuel t (by simp [size] at hf; omega) (by simp)
      obtain ⟨u, r, hr, hu, hne, -⟩ := print_head v
      simp only [printItems, List.nil_append, hr, List.cons_append] at hitems
      simp only [print, printItems, List.nil_append, hr, List.cons_append, parseValue,
        skipSpace_cons (show isSpace openBracket = false from rfl), skipSpace_cons hu,
        hitems, if_neg hne]
      rfl
  | .obj [], fuel + 1, t, _, _ => by
      simp [parseValue, print, printMembers, skipSpace, isSpace]
  | .obj ((k, v) :: ms), fuel + 1, t, hf, ht => by
      have hmembers := parseMembers_print ((k, v) :: ms) fuel t
        (by simp [size] at hf; omega) (by simp)
      simp [printMembers, printString] at hmembers
      simp [parseValue, print, printMembers, printString, skipSpace, isSpace, hmembers]

theorem parseItems_print : (vs : List Value) → ∀ (fuel : Nat) (t : Text),
    sizeItems vs ≤ fuel → vs ≠ [] →
    parseItems fuel (printItems [] vs ++ t) = some (vs, t)
  | [], _, _, _, h => absurd rfl h
  | v :: vs, 0, t, hf, _ => by simp [sizeItems] at hf
  | [v], fuel + 1, t, hf, _ => by
      have hv := parseValue_print v fuel (closeBracket :: t)
        (by simp [sizeItems] at hf; omega) ⟨by decide, by decide⟩
      simp [parseItems, printItems, hv, skipSpace, isSpace]
  | v :: w :: ws, fuel + 1, t, hf, _ => by
      have hv := parseValue_print v fuel (comma :: (printItems [] (w :: ws) ++ t))
        (by simp [sizeItems] at hf; omega) ⟨by decide, by decide⟩
      have hrest := parseItems_print (w :: ws) fuel t
        (by simp [sizeItems] at hf ⊢; omega) (by simp)
      simp only [printItems, List.nil_append, List.append_assoc] at hv hrest
      simp [parseItems, printItems, hv, hrest, skipSpace, isSpace]

theorem parseMembers_print : (ms : List (Text × Value)) → ∀ (fuel : Nat) (t : Text),
    sizeMembers ms ≤ fuel → ms ≠ [] →
    parseMembers fuel (printMembers [] ms ++ t) = some (ms, t)
  | [], _, _, _, h => absurd rfl h
  | (k, v) :: ms, 0, t, hf, _ => by simp [sizeMembers] at hf
  | [(k, v)], fuel + 1, t, hf, _ => by
      have hv := parseValue_print v fuel (closeBrace :: t)
        (by simp [sizeMembers] at hf; omega) ⟨by decide, by decide⟩
      simp [parseMembers, printMembers, printString, parseString_flatMap, hv, skipSpace,
        isSpace]
  | (k, v) :: (l, w) :: ms, fuel + 1, t, hf, _ => by
      have hv := parseValue_print v fuel (comma :: (printMembers [] ((l, w) :: ms) ++ t))
        (by simp [sizeMembers] at hf; omega) ⟨by decide, by decide⟩
      have hrest := parseMembers_print ((l, w) :: ms) fuel t
        (by simp [sizeMembers] at hf ⊢; omega) (by simp)
      simp [printMembers, printString] at hv hrest
      simp [parseMembers, printMembers, printString, parseString_flatMap, hv, hrest,
        skipSpace, isSpace]

end

theorem printItems_length (vs : List Value) :
    (printItems [comma] vs).length ≤ (printItems [] vs).length + 1 := by
  cases vs <;> simp [printItems]

theorem printMembers_length (ms : List (Text × Value)) :
    (printMembers [comma] ms).length ≤ (printMembers [] ms).length + 1 := by
  cases ms <;> simp [printMembers]

mutual

theorem size_le_length : (v : Value) → size v ≤ (print v).length
  | .null => by simp [size, print]
  | .bool b => by cases b <;> simp [size, print]
  | .num m e => by
      obtain ⟨u, r, hr, -⟩ := print_head (.num m e)
      simp [size, hr]
  | .str s => by simp [size, print, printString]
  | .arr items => by
      have h1 := sizeItems_lt_length items
      have h2 := printItems_length items
      simp only [size, print, List.length_cons]
      omega
  | .obj members => by
      have h1 := sizeMembers_lt_length members
      have h2 := printMembers_length members
      simp only [size, print, List.length_cons]
      omega

theorem sizeItems_lt_length : (vs : List Value) →
    sizeItems vs < (printItems [comma] vs).length
  | [] => by simp [sizeItems, printItems]
  | v :: vs => by
      have h1 := size_le_length v
      have h2 := sizeItems_lt_length vs
      simp only [sizeItems, printItems, List.length_append, List.length_singleton]
      omega

theorem sizeMembers_lt_length : (ms : List (Text × Value)) →
    sizeMembers ms < (printMembers [comma] ms).length
  | [] => by simp [sizeMembers, printMembers]
  | (k, v) :: ms => by
      have h1 := size_le_length v
      have h2 := sizeMembers_lt_length ms
      simp only [sizeMembers, printMembers, List.length_append, List.length_cons]
      omega

end

/-- What is printed is read back. -/
theorem parse_print (v : Value) : parse (print v) = some v := by
  have hsize := size_le_length v
  have h := parseValue_print v ((print v).length + 1) [] (by omega) trivial
  rw [List.append_nil] at h
  simp [parse, h, skipSpace]

end WebSshTool.Json
