import WebSshTool.Http.Headers

/-!
# Assets and their codings

`internal_file_send` answers with an asset that is built in. It looks for the
names of its two codings in `Accept-Encoding`, as they stand, wherever they
stand, and whatever stands around them.

What the answer is worth is said by the field's own grammar, with weights and
names that are not sensitive to case, and by decoding the body. The name
`deflate` stands for the zlib format, which is a raw stream with two bytes
before it; what `DeflateEncoder` makes is the raw stream.
-/

namespace WebSshTool.Assets

open Fields (ascii)
open Headers

/-- The encoders, what they make of an asset unless they fail, and the decoders
on the other side. -/
structure Flate where
  gzip : Bytes → Option Bytes
  deflate : Bytes → Option Bytes
  gunzip : Bytes → Option Bytes
  /-- A raw stream and its checksum: what is behind the header of the zlib format. -/
  checked : Bytes → Option Bytes
  gunzip_gzip : ∀ data out, gzip data = some out → gunzip out = some data
  /-- A raw stream begins with the head of a block. Its type is not 0, or the
  block is stored, and the rest of the byte is left empty. -/
  deflate_raw : ∀ data out, deflate data = some out →
    ∃ b rest, out = b :: rest ∧ (b.toNat / 2 % 4 ≠ 0 ∨ b.toNat < 2)

structure Response where
  headers : HeaderMap
  body : Bytes
  deriving DecidableEq, Repr

def contains (value : Bytes) (name : String) : Prop := ascii name <:+: value

instance (value : Bytes) (name : String) : Decidable (contains value name) :=
  inferInstanceAs (Decidable (_ <:+: _))

section

variable (f : Flate)

/-- A coding and its header, unless the encoder fails. -/
def encoded (encoder : Bytes → Option Bytes) (name : String) (data : Bytes) : Response :=
  match encoder data with
  | some compress => ⟨[(.contentEncoding, ascii name)], compress⟩
  | none => ⟨[], data⟩

/-- `convert_data`. -/
def convertData (data : Bytes) (acceptEncoding : Option Bytes) : Response :=
  match acceptEncoding.bind toStr with
  | some value =>
      if contains value "Gzip" then encoded f.gzip "Gzip" data
      else if contains value "gzip" then encoded f.gzip "gzip" data
      else if contains value "Deflate" then encoded f.deflate "Deflate" data
      else if contains value "deflate" then encoded f.deflate "deflate" data
      else ⟨[], data⟩
  | none => ⟨[], data⟩

/-- `internal_file_send`. -/
def internalFileSend (h : HeaderValue) (assetsMap : List Char → Option Bytes)
    (filename : List Char) (acceptEncoding : Option Bytes) : Option Response :=
  (assetsMap filename).map fun v =>
    let res := convertData f v acceptEncoding
    let length := match h.fromStr (decimal res.body.length) with
      | some n => (.contentLength, n)
      | none => (.transferEncoding, ascii "chunked")
    { res with headers := res.headers ++ [(.vary, ascii "Accept-Encoding"), length] }

end

/-! ## What an answer is worth -/

/-- The name of a coding without its spellings. -/
def canonical (name : Bytes) : Bytes :=
  let name := name.map Fields.lower
  if name = ascii "x-gzip" then ascii "gzip" else name

/-- The field lists the coding, or an asterisk for those it does not list, and
with a weight that is not 0. -/
def Permits (value coding : Bytes) : Prop :=
  let listed := (Fields.weights value).filter fun w => canonical w.1 = canonical coding
  if listed = [] then ∃ w ∈ Fields.weights value, w.1 = ascii "*" ∧ w.2 ≠ 0
  else ∃ w ∈ listed, w.2 ≠ 0

instance (value coding : Bytes) : Decidable (Permits value coding) := by
  unfold Permits
  infer_instance

/-- Without the field every coding is acceptable. -/
def Acceptable (acceptEncoding : Option Bytes) (coding : Bytes) : Prop :=
  ∀ value, acceptEncoding = some value → Permits value coding

/-- The zlib format: a header of two bytes without a dictionary, and what is
behind it. -/
def unzlib (f : Flate) : Bytes → Option Bytes
  | cmf :: flg :: rest =>
      if cmf.toNat % 16 = 8 ∧ cmf.toNat / 16 ≤ 7 ∧ (cmf.toNat * 256 + flg.toNat) % 31 = 0 ∧
        flg.toNat / 32 % 2 = 0 then f.checked rest
      else none
  | _ => none

/-- Decoding, by the name of the coding. -/
def decode (f : Flate) (coding : Bytes) (body : Bytes) : Option Bytes :=
  if canonical coding = ascii "gzip" then f.gunzip body
  else if canonical coding = ascii "deflate" then unzlib f body
  else none

/-- The answer is the asset, or a coding of it that is acceptable; and the
length is that of the body. -/
structure Sound (f : Flate) (data : Bytes) (acceptEncoding : Option Bytes) (res : Response) :
    Prop where
  coding : valuesOf .contentEncoding res.headers = [] ∧ res.body = data ∨
    ∃ name, valuesOf .contentEncoding res.headers = [name] ∧
      Acceptable acceptEncoding name ∧ decode f name res.body = some data
  length : valuesOf .contentLength res.headers = [Utf8.encode (decimal res.body.length)] ∧
    valuesOf .transferEncoding res.headers = []

/-- No coding is looked for in vain: a field with `gzip` in it permits that, and
no other has `deflate` in it; unless an encoder fails. -/
def Negotiable (f : Flate) (data : Bytes) (acceptEncoding : Option Bytes) : Prop :=
  ∀ value, acceptEncoding = some value → toStr value ≠ none →
    if contains value "Gzip" ∨ contains value "gzip" then
      Permits value (ascii "gzip") ∨ f.gzip data = none
    else contains value "Deflate" ∨ contains value "deflate" → f.deflate data = none

/-! ## Codings -/

variable {f : Flate}

theorem toStr_eq {v s : Bytes} (h : toStr v = some s) : s = v := by
  unfold toStr at h
  split at h
  · exact (Option.some.inj h).symm
  · cases h

/-- A raw stream is none in the zlib format. -/
theorem unzlib_deflate {data out : Bytes} (h : f.deflate data = some out) :
    unzlib f out = none := by
  obtain ⟨b, rest, rfl, hb⟩ := f.deflate_raw data out h
  cases rest with
  | nil => rfl
  | cons flg rest => exact if_neg (by omega)

theorem permits_congr {value coding coding' : Bytes}
    (h : canonical coding = canonical coding') :
    Permits value coding ↔ Permits value coding' := by
  unfold Permits
  rw [h]

/-- What `encoded` answers is right if the encoder fails, or its name permitted
and its stream read. -/
theorem encoded_coding {encoder : Bytes → Option Bytes} {name : String} {data : Bytes}
    {acceptEncoding : Option Bytes} :
    (valuesOf .contentEncoding (encoded encoder name data).headers = [] ∧
        (encoded encoder name data).body = data ∨
      ∃ n, valuesOf .contentEncoding (encoded encoder name data).headers = [n] ∧
        Acceptable acceptEncoding n ∧
          decode f n (encoded encoder name data).body = some data) ↔
    ∀ out, encoder data = some out →
      Acceptable acceptEncoding (ascii name) ∧ decode f (ascii name) out = some data := by
  unfold encoded
  cases encoder data with
  | none => exact iff_of_true (.inl ⟨rfl, rfl⟩) nofun
  | some out =>
      constructor
      · rintro (⟨hnone, -⟩ | ⟨n, hn, hacceptable, hdecode⟩) out' hout'
        · cases hnone
        · obtain rfl := Option.some.inj hout'
          obtain rfl : ascii name = n := (List.cons.inj hn).1
          exact ⟨hacceptable, hdecode⟩
      · intro h
        exact .inr ⟨ascii name, rfl, h out rfl⟩

theorem gzip_right {name : String} (hname : canonical (ascii name) = ascii "gzip")
    {data value : Bytes} :
    (∀ out, f.gzip data = some out →
      Acceptable (some value) (ascii name) ∧ decode f (ascii name) out = some data) ↔
    Permits value (ascii "gzip") ∨ f.gzip data = none := by
  have hpermits : Permits value (ascii name) ↔ Permits value (ascii "gzip") :=
    permits_congr (hname.trans (by decide))
  constructor
  · intro h
    cases hgzip : f.gzip data with
    | none => exact .inr rfl
    | some out => exact .inl (hpermits.mp ((h out hgzip).1 value rfl))
  · rintro (h | hnone) out hout
    · refine ⟨fun v hv => ?_, ?_⟩
      · obtain rfl := Option.some.inj hv
        exact hpermits.mpr h
      · unfold decode
        rw [if_pos hname]
        exact f.gunzip_gzip data out hout
    · rw [hnone] at hout
      cases hout

theorem deflate_right {name : String} (hname : canonical (ascii name) = ascii "deflate")
    {data : Bytes} {acceptEncoding : Option Bytes} :
    (∀ out, f.deflate data = some out →
      Acceptable acceptEncoding (ascii name) ∧ decode f (ascii name) out = some data) ↔
    f.deflate data = none := by
  constructor
  · intro h
    cases hdeflate : f.deflate data with
    | none => rfl
    | some out =>
        have hdecode := (h out hdeflate).2
        unfold decode at hdecode
        rw [hname, if_neg (by decide), if_pos rfl, unzlib_deflate hdeflate] at hdecode
        cases hdecode
  · intro hnone out hout
    rw [hnone] at hout
    cases hout

/-- The coding of an answer is right if and only if the field can be taken at
its letter. -/
theorem convertData_iff {data : Bytes} {acceptEncoding : Option Bytes} :
    (valuesOf .contentEncoding (convertData f data acceptEncoding).headers = [] ∧
        (convertData f data acceptEncoding).body = data ∨
      ∃ name, valuesOf .contentEncoding (convertData f data acceptEncoding).headers = [name] ∧
        Acceptable acceptEncoding name ∧
          decode f name (convertData f data acceptEncoding).body = some data) ↔
    Negotiable f data acceptEncoding := by
  unfold convertData Negotiable
  cases hstr : acceptEncoding.bind toStr with
  | none =>
      refine iff_of_true (.inl ⟨rfl, rfl⟩) fun value hvalue hne => ?_
      rw [hvalue] at hstr
      exact absurd hstr hne
  | some value =>
      obtain ⟨v, rfl, hv⟩ := Option.bind_eq_some_iff.mp hstr
      obtain rfl := toStr_eq hv
      have hone (P : Bytes → Prop) :
          (∀ v, some value = some v → toStr v ≠ none → P v) ↔ P value := by
        refine ⟨fun h => h value rfl (by simp [hv]), fun h v hvalue _ => ?_⟩
        exact Option.some.inj hvalue ▸ h
      rw [hone]
      simp only []
      split
      · next hGzip =>
          rw [encoded_coding, gzip_right (by decide), if_pos (.inl hGzip)]
      · next hGzip =>
          split
          · next hgzip =>
              rw [encoded_coding, gzip_right (by decide), if_pos (.inr hgzip)]
          · next hgzip =>
              have hno : ¬ (contains value "Gzip" ∨ contains value "gzip") :=
                not_or.mpr ⟨hGzip, hgzip⟩
              rw [if_neg hno]
              split
              · next hDeflate =>
                  rw [encoded_coding, deflate_right (by decide)]
                  exact ⟨fun h _ => h, fun h => h (.inl hDeflate)⟩
              · next hDeflate =>
                  split
                  · next hdeflate =>
                      rw [encoded_coding, deflate_right (by decide)]
                      exact ⟨fun h _ => h, fun h => h (.inr hdeflate)⟩
                  · next hdeflate =>
                      exact iff_of_true (.inl ⟨rfl, rfl⟩)
                        fun h => absurd h (not_or.mpr ⟨hDeflate, hdeflate⟩)

/-- An asset is answered rightly if and only if no coding is found in
`Accept-Encoding`, or `gzip` is and the field permits it. -/
theorem negotiation_iff (f : Flate) (h : HeaderValue) (assetsMap : List Char → Option Bytes)
    (filename : List Char) (acceptEncoding : Option Bytes) {data : Bytes} {res : Response}
    (hdata : assetsMap filename = some data)
    (hres : internalFileSend f h assetsMap filename acceptEncoding = some res) :
    Sound f data acceptEncoding res ↔ Negotiable f data acceptEncoding := by
  unfold internalFileSend at hres
  rw [hdata] at hres
  simp only [Option.map_some, fromStr_decimal] at hres
  obtain rfl := Option.some.inj hres
  rw [← convertData_iff]
  have hplain (other : HeaderName) (hother : other ≠ .contentEncoding) :
      valuesOf other (convertData f data acceptEncoding).headers = [] := by
    have hencoded (encoder : Bytes → Option Bytes) (name : String) :
        valuesOf other (encoded encoder name data).headers = [] := by
      unfold encoded
      cases encoder data with
      | none => rfl
      | some out => simp [valuesOf, hother.symm]
    unfold convertData
    repeat' split
    all_goals first | exact hencoded _ _ | rfl
  constructor
  · intro hsound
    have hcoding := hsound.coding
    rw [valuesOf_append] at hcoding
    simpa [valuesOf] using hcoding
  · intro hcoding
    refine ⟨?_, ?_, ?_⟩
    · rw [valuesOf_append]
      simpa [valuesOf] using hcoding
    · rw [valuesOf_append, hplain .contentLength (by decide)]
      rfl
    · rw [valuesOf_append, hplain .transferEncoding (by decide)]
      rfl

/-! ## Two answers -/

/-- An asset of one byte, and what the encoders make of it. -/
def letter : Bytes := [0x61]

def letterGzip : Bytes :=
  [0x1f, 0x8b, 0x08, 0, 0, 0, 0, 0, 0, 0xff, 0x4b, 0x04, 0, 0x43, 0xbe, 0xb7, 0xe8, 0x01, 0, 0, 0]

def letterFlate : Flate where
  gzip data := if data = letter then some letterGzip else none
  deflate data := if data = letter then some [0x4b, 0x04, 0] else none
  gunzip out := if out = letterGzip then some letter else none
  checked rest := if rest = [0x4b, 0x04, 0, 0, 0x62, 0, 0x62] then some letter else none
  gunzip_gzip data out h := by
    split at h
    · next hdata =>
        obtain rfl := Option.some.inj h
        rw [if_pos rfl, hdata]
    · cases h
  deflate_raw data out h := by
    split at h
    · exact ⟨0x4b, _, (Option.some.inj h).symm, .inl (by decide)⟩
    · cases h

theorem negotiation_iff_gzip :
    Sound letterFlate letter (some (ascii "deflate, GZIP;q=0.1, gzip"))
      ⟨[(.contentEncoding, ascii "gzip"), (.vary, ascii "Accept-Encoding"),
        (.contentLength, ascii "21")], letterGzip⟩ := by
  refine (negotiation_iff letterFlate headerValue (fun _ => some letter) [] _ rfl rfl).mpr ?_
  intro value hvalue _
  obtain rfl := Option.some.inj hvalue
  rw [if_pos (.inr (by decide))]
  exact .inl (by decide)

/-- A raw stream under the name of the zlib format, and a coding that is asked
not to be used. -/
theorem negotiation_fails :
    ¬ (∀ res, internalFileSend letterFlate headerValue (fun _ => some letter) []
        (some (ascii "deflate")) = some res →
      Sound letterFlate letter (some (ascii "deflate")) res) ∧
    ¬ ∀ res, internalFileSend letterFlate headerValue (fun _ => some letter) []
        (some (ascii "gzip;q=0")) = some res →
      Sound letterFlate letter (some (ascii "gzip;q=0")) res := by
  constructor
  · intro h
    rcases (h _ rfl).coding with ⟨hnone, -⟩ | ⟨name, hname, -, hdecode⟩
    · cases hnone
    · obtain rfl : ascii "deflate" = name := (List.cons.inj hname).1
      exact absurd hdecode (by decide)
  · intro h
    rcases (h _ rfl).coding with ⟨hnone, -⟩ | ⟨name, hname, hacceptable, -⟩
    · cases hnone
    · obtain rfl : ascii "gzip" = name := (List.cons.inj hname).1
      exact absurd (hacceptable _ rfl) (by decide)

end WebSshTool.Assets
