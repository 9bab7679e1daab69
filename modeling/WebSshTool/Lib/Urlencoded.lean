import WebSshTool.Lib.Utf8

/-!
# Pairs of texts in the query of a URL

`application/x-www-form-urlencoded`: pairs are separated by ampersands, a name
from its value by the first equals sign, a plus is a space and a percent sign
starts a byte in two hex digits. What the bytes decode to is read as UTF-8,
with replacement. Writing is free where reading is not: a byte may be
percent-encoded or stand for itself, and who writes chooses which.

`parse_serialize` says that any choice will do that leaves none of the four
signs to stand for itself. Two writers one after the other make one that keeps
what both keep, so a browser that percent-encodes a query once more changes
nothing.
-/

namespace WebSshTool.Urlencoded

abbrev Bytes := List UInt8

/-! ## Percent-encoding -/

def hexDigit (n : Nat) : UInt8 := .ofNat (if n < 10 then 0x30 + n else 0x37 + n)

def percent (b : UInt8) : Bytes :=
  [0x25, hexDigit (b.toNat / 16), hexDigit (b.toNat % 16)]

/-- The bytes that `keep` does not keep are percent-encoded. -/
def encode (keep : UInt8 → Bool) (bs : Bytes) : Bytes :=
  bs.flatMap fun b => if keep b then [b] else percent b

/-- The value of a hex digit, in either case. -/
def hexValue (b : UInt8) : Option Nat :=
  let n := b.toNat
  if 0x30 ≤ n ∧ n ≤ 0x39 then some (n - 0x30)
  else if 0x41 ≤ n ∧ n ≤ 0x46 then some (n - 0x37)
  else if 0x61 ≤ n ∧ n ≤ 0x66 then some (n - 0x57)
  else none

/-- A percent sign without two hex digits stands for itself. -/
def percentDecode : Bytes → Bytes
  | [] => []
  | [b] => [b]
  | [b, c] => [b, c]
  | b :: hi :: lo :: rest =>
      match hexValue hi, hexValue lo with
      | some h, some l =>
          if b = 0x25 then .ofNat (h * 16 + l) :: percentDecode rest
          else b :: percentDecode (hi :: lo :: rest)
      | _, _ => b :: percentDecode (hi :: lo :: rest)

/-! ## Pairs -/

def replacePlus (bs : Bytes) : Bytes := bs.map fun b => if b = 0x2B then 0x20 else b

def decodeText (bs : Bytes) : List Char := Utf8.decode (percentDecode (replacePlus bs))

/-- A sequence without an equals sign is a name. -/
def pair (sequence : Bytes) : List Char × List Char :=
  (decodeText (sequence.takeWhile (· != 0x3D)),
    decodeText ((sequence.dropWhile (· != 0x3D)).drop 1))

def parse (input : Bytes) : List (List Char × List Char) :=
  ((input.splitOn 0x26).filter (· ≠ [])).map pair

def serializePair (keep : UInt8 → Bool) (p : List Char × List Char) : Bytes :=
  encode keep (Utf8.encode p.1) ++ 0x3D :: encode keep (Utf8.encode p.2)

def serialize (keep : UInt8 → Bool) (pairs : List (List Char × List Char)) : Bytes :=
  [0x26].intercalate (pairs.map (serializePair keep))

/-- None of the four signs stands for itself. -/
structure Escapes (keep : UInt8 → Bool) : Prop where
  percent : keep 0x25 = false
  plus : keep 0x2B = false
  ampersand : keep 0x26 = false
  equals : keep 0x3D = false

/-! ## Hex digits -/

theorem hexValue_hexDigit {n : Nat} (h : n < 16) : hexValue (hexDigit n) = some n := by
  have htoNat : (hexDigit n).toNat = if n < 10 then 0x30 + n else 0x37 + n :=
    Utf8.toNat_ofNat (by split <;> omega)
  simp only [hexValue, htoNat]
  by_cases hn : n < 10
  · rw [if_pos hn, if_pos (by omega), Nat.add_sub_cancel_left]
  · rw [if_neg hn, if_neg (by omega), if_pos (by omega), Nat.add_sub_cancel_left]

theorem hexDigits (b : UInt8) :
    hexValue (hexDigit (b.toNat / 16)) = some (b.toNat / 16) ∧
      hexValue (hexDigit (b.toNat % 16)) = some (b.toNat % 16) := by
  have hb := b.toNat_lt
  exact ⟨hexValue_hexDigit (by omega), hexValue_hexDigit (by omega)⟩

theorem percentDecode_percent (b : UInt8) (rest : Bytes) :
    percentDecode (percent b ++ rest) = b :: percentDecode rest := by
  obtain ⟨hhi, hlo⟩ := hexDigits b
  have hbyte : UInt8.ofNat (b.toNat / 16 * 16 + b.toNat % 16) = b := by
    rw [Nat.div_add_mod', UInt8.ofNat_toNat]
  simp only [percent, List.cons_append, List.nil_append, percentDecode, hhi, hlo, if_true, hbyte]

theorem percentDecode_cons {b : UInt8} (h : b ≠ 0x25) (rest : Bytes) :
    percentDecode (b :: rest) = b :: percentDecode rest := by
  match rest with
  | [] => rfl
  | [_] => rfl
  | hi :: lo :: rest =>
      rw [percentDecode]
      split
      · rw [if_neg h]
      · rfl

/-! ## What is written is read -/

section

variable {keep : UInt8 → Bool} {bs : Bytes}

theorem encode_append (xs ys : Bytes) : encode keep (xs ++ ys) = encode keep xs ++ encode keep ys :=
  List.flatMap_append

theorem encode_cons (b : UInt8) (bs : Bytes) :
    encode keep (b :: bs) = (if keep b then [b] else percent b) ++ encode keep bs :=
  List.flatMap_cons

/-- What is kept stays. -/
theorem encode_of_keep (h : ∀ b ∈ bs, keep b = true) : encode keep bs = bs := by
  induction bs with
  | nil => rfl
  | cons b bs ih =>
      rw [encode_cons, if_pos (h b (.head _)), ih fun c hc => h c (.tail _ hc)]
      rfl

/-- Written twice is written once, with what both keep. -/
theorem encode_encode {keep' : UInt8 → Bool}
    (h : ∀ b, b = 0x25 ∨ (hexValue b).isSome → keep' b = true) :
    encode keep' (encode keep bs) = encode (fun b => keep b && keep' b) bs := by
  have hpercent : ∀ b, encode keep' (percent b) = percent b := by
    intro b
    refine encode_of_keep fun c hc => h c ?_
    obtain ⟨hhi, hlo⟩ := hexDigits b
    simp only [percent, List.mem_cons, List.not_mem_nil, or_false] at hc
    rcases hc with rfl | rfl | rfl
    · exact .inl rfl
    · exact .inr (by rw [hhi]; rfl)
    · exact .inr (by rw [hlo]; rfl)
  induction bs with
  | nil => rfl
  | cons b bs ih =>
      rw [encode_cons, encode_append, ih, encode_cons]
      congr 1
      cases hb : keep b with
      | true => simp [encode]
      | false => simp [hpercent]

/-- A sign that is not kept, and that percent-encoding does not use, is not
there. -/
theorem notMem_encode {d : UInt8} (hkeep : keep d = false) (hd : d ≠ 0x25)
    (hhex : hexValue d = none) : d ∉ encode keep bs := by
  intro hmem
  obtain ⟨b, -, hb⟩ := List.mem_flatMap.mp hmem
  obtain ⟨hhi, hlo⟩ := hexDigits b
  split at hb
  · next hkept =>
      obtain rfl := List.mem_singleton.mp hb
      rw [hkeep] at hkept
      exact absurd hkept (by simp)
  · simp only [percent, List.mem_cons, List.not_mem_nil, or_false] at hb
    rcases hb with rfl | rfl | rfl
    · exact hd rfl
    · rw [hhi] at hhex
      exact absurd hhex (by simp)
    · rw [hlo] at hhex
      exact absurd hhex (by simp)

theorem percentDecode_encode (h : keep 0x25 = false) (bs : Bytes) :
    percentDecode (encode keep bs) = bs := by
  induction bs with
  | nil => rfl
  | cons b bs ih =>
      rw [encode_cons]
      split
      · next hkept =>
          have hb : b ≠ 0x25 := by
            rintro rfl
            rw [h] at hkept
            exact absurd hkept (by simp)
          rw [List.singleton_append, percentDecode_cons hb, ih]
      · rw [percentDecode_percent, ih]

theorem replacePlus_of_notMem (h : 0x2B ∉ bs) : replacePlus bs = bs := by
  induction bs with
  | nil => rfl
  | cons b bs ih =>
      have hb : b ≠ 0x2B := fun heq => h (heq ▸ .head _)
      rw [replacePlus, List.map_cons, if_neg hb, ← replacePlus,
        ih fun hmem => h (.tail _ hmem)]

theorem decodeText_encode (h : Escapes keep) (cs : List Char) :
    decodeText (encode keep (Utf8.encode cs)) = cs := by
  have hplus : 0x2B ∉ encode keep (Utf8.encode cs) := notMem_encode h.plus (by decide) (by decide)
  rw [decodeText, replacePlus_of_notMem hplus, percentDecode_encode h.percent, Utf8.decode_encode]

theorem pair_serializePair (h : Escapes keep) (p : List Char × List Char) :
    pair (serializePair keep p) = p := by
  have hequals : ∀ b ∈ encode keep (Utf8.encode p.1), (b != 0x3D) = true := by
    intro b hb
    have hne : b ≠ 0x3D := fun heq =>
      notMem_encode h.equals (by decide) (by decide) (heq ▸ hb)
    simpa using hne
  rw [pair, serializePair, List.takeWhile_append_of_pos hequals,
    List.dropWhile_append_of_pos hequals]
  simp [decodeText_encode h]

theorem ampersand_notMem (h : Escapes keep) (p : List Char × List Char) :
    0x26 ∉ serializePair keep p := by
  have hencode : ∀ bs : Bytes, 0x26 ∉ encode keep bs :=
    fun bs => notMem_encode h.ampersand (by decide) (by decide)
  simp [serializePair, hencode]

/-- A pair behind the first stands behind an ampersand. -/
theorem serialize_cons (keep : UInt8 → Bool) (p : List Char × List Char)
    (pairs : List (List Char × List Char)) :
    serialize keep (p :: pairs) =
      serializePair keep p ++ (pairs.map fun q => 0x26 :: serializePair keep q).flatten := by
  induction pairs generalizing p with
  | nil => simp [serialize, List.intercalate]
  | cons q pairs ih =>
      have hcons : serialize keep (p :: q :: pairs) =
          serializePair keep p ++ 0x26 :: serialize keep (q :: pairs) := by
        simp [serialize, List.intercalate]
      rw [hcons, ih, List.map_cons, List.flatten_cons, List.cons_append]

/-- Pairs come back in order, whatever the texts. -/
theorem parse_serialize (h : Escapes keep) (pairs : List (List Char × List Char)) :
    parse (serialize keep pairs) = pairs := by
  cases pairs with
  | nil => rfl
  | cons p pairs =>
      have hsplit : (serialize keep (p :: pairs)).splitOn 0x26 =
          (p :: pairs).map (serializePair keep) := by
        refine List.splitOn_intercalate 0x26 ?_ (by simp)
        intro sequence hsequence
        obtain ⟨q, -, rfl⟩ := List.mem_map.mp hsequence
        exact ampersand_notMem h q
      have hfilter : ((p :: pairs).map (serializePair keep)).filter (· ≠ []) =
          (p :: pairs).map (serializePair keep) := by
        refine List.filter_eq_self.mpr fun sequence hsequence => ?_
        obtain ⟨q, -, rfl⟩ := List.mem_map.mp hsequence
        simp [serializePair]
      rw [parse, hsplit, hfilter, List.map_map]
      exact List.map_id'' (pair_serializePair h) _

end

end WebSshTool.Urlencoded
