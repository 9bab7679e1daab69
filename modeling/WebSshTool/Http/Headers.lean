import WebSshTool.Lib.Fields
import WebSshTool.Lib.JsonRoundTrip
import WebSshTool.Lib.Utf8

/-!
# Header maps

The headers the two servers append, in the order in which they do, and what
makes a value of a text. `HeaderValue::from_str` is a parameter. What is known
of it is that visible ASCII passes, and that what passes is the UTF-8 of the
text and free of bytes that may not stand in a field.
-/

namespace WebSshTool.Headers

abbrev Bytes := List UInt8

structure HeaderValue where
  fromStr : List Char → Option Bytes
  visible : ∀ s, (∀ c ∈ s, 0x20 ≤ c.toNat ∧ c.toNat < 0x7f) → fromStr s = some (Utf8.encode s)
  sound : ∀ s v, fromStr s = some v → v = Utf8.encode s ∧ ∀ b ∈ v, Fields.isText b = true

inductive HeaderName where
  | id
  | peer
  | contentType
  | connection
  | contentDisposition
  | contentLength
  | transferEncoding
  | contentEncoding
  | vary
  deriving DecidableEq, Repr

/-- In the order in which they are appended. -/
abbrev HeaderMap := List (HeaderName × Bytes)

/-- All values of a header. -/
def valuesOf (name : HeaderName) (headers : HeaderMap) : List Bytes :=
  (headers.filter fun entry => entry.1 = name).map Prod.snd

/-- `to_string` of a number. -/
def decimal (n : Nat) : List Char := (Json.printNat n).map Char.ofNat

/-- `HeaderValue::to_str`, the bytes of which are the text's. -/
def toStr (v : Bytes) : Option Bytes :=
  if v.all fun b => (0x20 ≤ b && b < 0x7f) || b == 0x09 then some v else none

@[simp] theorem valuesOf_append (name : HeaderName) (xs ys : HeaderMap) :
    valuesOf name (xs ++ ys) = valuesOf name xs ++ valuesOf name ys := by
  simp [valuesOf]

theorem toNat_digit {d : Nat} (hd : d < 10) : (Char.ofNat (0x30 + d)).toNat = 0x30 + d := by
  interval_cases d <;> rfl

theorem toNat_decimal (n : Nat) : (decimal n).map Char.toNat = Json.printNat n := by
  unfold decimal Json.printNat
  rw [List.map_map, List.map_map]
  exact List.map_congr_left fun d hd => toNat_digit (Json.decimal_lt hd)

theorem decimal_inj {m n : Nat} (h : Utf8.encode (decimal m) = Utf8.encode (decimal n)) :
    m = n := by
  have htext := congrArg Utf8.decode h
  rw [Utf8.decode_encode, Utf8.decode_encode] at htext
  have hunits := congrArg (List.map Char.toNat) htext
  rw [toNat_decimal, toNat_decimal] at hunits
  have hdigits : Json.decimal m = Json.decimal n :=
    List.map_injective_iff.mpr (fun a b hab => Nat.add_left_cancel hab) hunits
  rw [← Json.ofDigits_decimal m, hdigits, Json.ofDigits_decimal]

/-- A number is always a header value. -/
theorem fromStr_decimal (h : HeaderValue) (n : Nat) :
    h.fromStr (decimal n) = some (Utf8.encode (decimal n)) := by
  refine h.visible _ fun c hc => ?_
  obtain ⟨u, hu, rfl⟩ := List.mem_map.mp hc
  obtain ⟨d, hd, rfl⟩ := List.mem_map.mp hu
  have hlt := Json.decimal_lt hd
  rw [toNat_digit hlt]
  omega

/-- `HeaderValue::from_str` as it is: it takes what `is_valid` takes. -/
def headerValue : HeaderValue where
  fromStr s :=
    if (Utf8.encode s).all Fields.isText then some (Utf8.encode s) else none
  visible s hs := by
    refine if_pos (List.all_eq_true.mpr fun b hb => ?_)
    obtain ⟨c, hc, hb⟩ := List.mem_flatMap.mp hb
    obtain ⟨hlo, hup⟩ := hs c hc
    rw [Utf8.encodeChar_low (by omega), List.mem_singleton] at hb
    have hn : b.toNat = c.toNat := by rw [hb, Utf8.toNat_ofNat (by omega)]
    simp only [Fields.isText, Bool.or_eq_true, Bool.and_eq_true, decide_eq_true_eq, bne_iff_ne]
    refine .inl ⟨?_, ?_⟩
    · rw [UInt8.le_iff_toNat_le, hn]
      exact hlo
    · rintro rfl
      exact absurd hn (by simp; omega)
  sound s v hv := by
    split at hv
    · next htext =>
        obtain rfl := Option.some.inj hv
        exact ⟨rfl, List.all_eq_true.mp htext⟩
    · cases hv

end WebSshTool.Headers
