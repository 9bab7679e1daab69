import WebSshTool.Dispatch.Messages
import WebSshTool.Http.StaticFiles
import WebSshTool.Lib.Urlencoded
import WebSshTool.Upload.RoundTrip

/-!
# The queries of an upload, a download and a preview

`Auth` writes what it asks for into the query of a URL: the token first, and
then a pair for each text, with `encodeURIComponent` for the text. The browser
percent-encodes once more what a query may not hold, which after
`encodeURIComponent` is nothing but the apostrophe. `on_http` reads the pairs
back, and what it makes of them is what `Auth` was asked for.

The directory of an upload travels as its parts. Both ends put them together
with `PathBuf::push`, the one that opens the file and the one that had put the
placeholder there, so it is one path however many parts are absolute.
-/

namespace WebSshTool.Http

open Paths Urlencoded
open Dispatch (utf16Units)
open Json (Text Value)
open Upload (pathLikeToPath push handleRequest openFile uploadArgument)

/-! ## The browser's side -/

/-- What `encodeURIComponent` leaves alone: letters, digits and
`- _ . ! ~ * ' ( )`. -/
def unescaped (n : Nat) : Bool :=
  (0x61 ≤ n && n ≤ 0x7A) || (0x41 ≤ n && n ≤ 0x5A) || (0x30 ≤ n && n ≤ 0x39) ||
    [0x2D, 0x5F, 0x2E, 0x21, 0x7E, 0x2A, 0x27, 0x28, 0x29].contains n

def encodeURIComponent (text : List Char) : Bytes :=
  text.flatMap fun c =>
    if unescaped c.toNat then [.ofNat c.toNat] else (String.utf8EncodeChar c).flatMap percent

/-- What the parser of URLs percent-encodes in a query: controls, whatever is
not ASCII, and space, quotes, the number sign and angle brackets. -/
def special (b : UInt8) : Bool :=
  b.toNat ≤ 0x20 || 0x7E < b.toNat || [0x22, 0x23, 0x27, 0x3C, 0x3E].contains b.toNat

/-- The query that goes out. -/
def sent (query : Bytes) : Bytes := encode (fun b => !special b) query

/-- A hex digit in lower case or a hyphen. -/
def hyphenated (n : Nat) : Bool :=
  (0x30 ≤ n && n ≤ 0x39) || (0x61 ≤ n && n ≤ 0x66) || n == 0x2D

/-- A token is the text of a UUID. -/
structure Token where
  text : List Char
  hyphenated : ∀ c ∈ text, hyphenated c.toNat = true

/-- As `Uuid::new_v4` draws them. -/
instance : Inhabited Token where
  default := ⟨"6fd1c7a0-93be-4c55-8d20-e4f1b2a30789".toList, List.all_eq_true.mp (by decide)⟩

/-- One part of a query that stands behind the token. -/
def field (key : String) (value : List Char) : Bytes :=
  Utf8.encode key.toList ++ encodeURIComponent value

/-- The query of `Auth.upload`. -/
def uploadQuery (token : Token) (dest : List (List Char)) (filename : Option (List Char)) :
    Bytes :=
  Utf8.encode ("t=".toList ++ token.text) ++ (dest.map (field "&u=")).flatten ++
    match filename with
    | none => []
    | some filename => field "&n=" filename

/-- `filePath: string | string[]`. -/
inductive FilePath where
  | one (path : List Char)
  | many (paths : List (List Char))
  deriving DecidableEq, Repr

def FilePath.toList : FilePath → List (List Char)
  | .one path => [path]
  | .many paths => paths

/-- The query of `Auth.download`, which asks for nothing with an empty list. -/
def downloadQuery (token : Token) : FilePath → Option Bytes
  | .one path => some (Utf8.encode ("t=".toList ++ token.text) ++ field "&p=" path)
  | .many paths =>
      if paths = [] then none
      else some (Utf8.encode ("t=".toList ++ token.text) ++ (paths.map (field "&p=")).flatten)

/-- The query of `Auth.previewUrl`. -/
def previewQuery (token : Token) (path : List Char) : Bytes :=
  Utf8.encode ("t=".toList ++ token.text) ++ field "&v=" path

/-! ## The server's side -/

/-- A request with this query. -/
def Request.ofQuery (method : Method) (path : List Char) (query : Bytes) : Request where
  method := method
  path := path
  query := some (parse (sent query))

/-- What a request comes to that names a token and asks for `route`. -/
def Token.answer (token : Token) (peerMap : List Char → Bool) (route : Route) : Route :=
  if peerMap token.text then route else .notFound .authRequestFailed

/-! ## Two encoders in a row -/

/-- What both the component and the query leave alone. -/
def kept (b : UInt8) : Bool := unescaped b.toNat && !special b

theorem kept_escapes : Escapes kept :=
  ⟨by decide, by decide, by decide, by decide⟩

theorem not_special_of_hex (b : UInt8) (h : b = 0x25 ∨ (hexValue b).isSome) :
    (!special b) = true := by
  have hrange : b.toNat = 0x25 ∨ 0x30 ≤ b.toNat ∧ b.toNat ≤ 0x39 ∨
      0x41 ≤ b.toNat ∧ b.toNat ≤ 0x46 ∨ 0x61 ≤ b.toNat ∧ b.toNat ≤ 0x66 := by
    rcases h with rfl | h
    · exact .inl rfl
    · simp only [hexValue] at h
      split at h
      · next hn => exact .inr (.inl hn)
      · split at h
        · next hn => exact .inr (.inr (.inl hn))
        · split at h
          · next hn => exact .inr (.inr (.inr hn))
          · exact absurd h (by simp)
  simp only [special, List.contains_cons, List.contains_nil, Bool.not_eq_true',
    Bool.or_eq_false_iff, decide_eq_false_iff_not, beq_eq_false_iff_ne, and_true]
  omega

theorem unescaped_lt {n : Nat} (h : unescaped n = true) : n < 0x80 := by
  simp only [unescaped, List.contains_cons, List.contains_nil, Bool.or_eq_true, Bool.and_eq_true,
    decide_eq_true_eq, beq_iff_eq, Bool.false_eq_true, or_false] at h
  omega

theorem encodeChar_ascii {c : Char} (h : c.toNat < 0x80) :
    String.utf8EncodeChar c = [.ofNat c.toNat] := by
  have hval : c.val.toNat ≤ 0x7f := by
    have : c.val.toNat = c.toNat := rfl
    omega
  simp only [String.utf8EncodeChar, if_pos hval]
  rfl

/-- The bytes of a character that is not ASCII are no ASCII. -/
theorem encodeChar_ge {c : Char} (h : ¬ c.toNat < 0x80) {b : UInt8}
    (hb : b ∈ String.utf8EncodeChar c) : 0x80 ≤ b.toNat := by
  have hval : ¬ c.val.toNat ≤ 0x7f := fun hle => h (Nat.lt_succ_of_le hle)
  simp only [String.utf8EncodeChar, if_neg hval] at hb
  split at hb
  · simp only [List.mem_cons, List.not_mem_nil, or_false] at hb
    rcases hb with rfl | rfl <;> rw [Utf8.toNat_ofNat (by omega)] <;> omega
  · split at hb
    · simp only [List.mem_cons, List.not_mem_nil, or_false] at hb
      rcases hb with rfl | rfl | rfl <;> rw [Utf8.toNat_ofNat (by omega)] <;> omega
    · simp only [List.mem_cons, List.not_mem_nil, or_false] at hb
      rcases hb with rfl | rfl | rfl | rfl <;> rw [Utf8.toNat_ofNat (by omega)] <;> omega

theorem encodeChar_unescaped (c : Char) :
    (if unescaped c.toNat then [UInt8.ofNat c.toNat]
      else (String.utf8EncodeChar c).flatMap percent) =
        encode (fun b => unescaped b.toNat) (String.utf8EncodeChar c) := by
  by_cases hc : unescaped c.toNat = true
  · have hlt := unescaped_lt hc
    rw [if_pos hc, encodeChar_ascii hlt, encode_of_keep]
    intro b hb
    obtain rfl := List.mem_singleton.mp hb
    rwa [Utf8.toNat_ofNat (by omega)]
  · rw [if_neg hc, encode]
    refine List.flatMap_congr fun b hb => ?_
    have hb' : unescaped b.toNat ≠ true := by
      by_cases hlt : c.toNat < 0x80
      · rw [encodeChar_ascii hlt] at hb
        obtain rfl := List.mem_singleton.mp hb
        rwa [Utf8.toNat_ofNat (by omega)]
      · intro hkeep
        have hge := encodeChar_ge hlt hb
        have hlt' := unescaped_lt hkeep
        omega
    rw [if_neg hb']

/-- `encodeURIComponent` goes by characters, but what it leaves alone is one
byte, and the bytes of the others are none of these. -/
theorem encodeURIComponent_eq (text : List Char) :
    encodeURIComponent text = encode (fun b => unescaped b.toNat) (Utf8.encode text) := by
  induction text with
  | nil => rfl
  | cons c text ih =>
      rw [encodeURIComponent, List.flatMap_cons, ← encodeURIComponent, ih, encodeChar_unescaped,
        ← encode_append]
      rfl

/-! ## The query that arrives -/

theorem sent_append (xs ys : Bytes) : sent (xs ++ ys) = sent xs ++ sent ys := encode_append xs ys

theorem sent_encodeURIComponent (text : List Char) :
    sent (encodeURIComponent text) = encode kept (Utf8.encode text) := by
  rw [encodeURIComponent_eq]
  exact encode_encode not_special_of_hex

example : sent (encodeURIComponent "it's 1&é".toList) =
    Utf8.encode "it%27s%201%26%C3%A9".toList := by decide

theorem sent_field (key : String) (name : List Char)
    (h : sent (Utf8.encode key.toList) = 0x26 :: (encode kept (Utf8.encode name) ++ [0x3D]))
    (value : List Char) : sent (field key value) = 0x26 :: serializePair kept (name, value) := by
  rw [field, sent_append, h, sent_encodeURIComponent, serializePair]
  simp

theorem sent_fields (key : String) (name : List Char)
    (h : sent (Utf8.encode key.toList) = 0x26 :: (encode kept (Utf8.encode name) ++ [0x3D]))
    (values : List (List Char)) :
    sent (values.map (field key)).flatten =
      ((values.map fun value => (name, value)).map fun p => 0x26 :: serializePair kept p).flatten
        := by
  induction values with
  | nil => rfl
  | cons value values ih =>
      rw [List.map_cons, List.flatten_cons, sent_append, sent_field key name h, ih]
      rfl

/-- No character of a token is ever percent-encoded. -/
theorem kept_of_hyphenated {c : Char} (h : hyphenated c.toNat = true) {b : UInt8}
    (hb : b ∈ String.utf8EncodeChar c) : kept b = true := by
  simp only [hyphenated, Bool.or_eq_true, Bool.and_eq_true, decide_eq_true_eq, beq_iff_eq] at h
  rw [encodeChar_ascii (by omega)] at hb
  obtain rfl := List.mem_singleton.mp hb
  simp only [kept, unescaped, special, Utf8.toNat_ofNat (show c.toNat < 256 by omega),
    List.contains_cons, List.contains_nil, Bool.and_eq_true, Bool.or_eq_true, decide_eq_true_eq,
    beq_iff_eq, Bool.not_eq_true', Bool.or_eq_false_iff, decide_eq_false_iff_not,
    beq_eq_false_iff_ne, Bool.false_eq_true, or_false, and_true]
  omega

theorem sent_token (token : Token) :
    sent (Utf8.encode ("t=".toList ++ token.text)) = serializePair kept (['t'], token.text) := by
  have hkept : ∀ b ∈ Utf8.encode token.text, kept b = true := by
    intro b hb
    obtain ⟨c, hc, hb⟩ := List.mem_flatMap.mp hb
    exact kept_of_hyphenated (token.hyphenated c hc) hb
  have hsent : sent (Utf8.encode token.text) = Utf8.encode token.text :=
    encode_of_keep fun b hb => (Bool.and_eq_true_iff.mp (hkept b hb)).2
  rw [serializePair, encode_of_keep hkept, Utf8.encode, List.flatMap_append, sent_append]
  exact congrArg _ hsent

/-- The pairs that arrive are those that were written. -/
theorem parse_sent (token : Token) (fields : Bytes) (pairs : List (List Char × List Char))
    (h : sent fields = (pairs.map fun p => 0x26 :: serializePair kept p).flatten) :
    parse (sent (Utf8.encode ("t=".toList ++ token.text) ++ fields)) =
      (['t'], token.text) :: pairs := by
  rw [sent_append, sent_token, h, ← serialize_cons, parse_serialize kept_escapes]

/-! ## What `on_http` makes of the pairs -/

theorem foldl_add_upload (dest : List (List Char)) (q : Peers) :
    (dest.map fun value => (['u'], value)).foldl Peers.add q =
      { q with uploadDir := q.uploadDir ++ dest } := by
  induction dest generalizing q with
  | nil => simp
  | cons value dest ih =>
      rw [List.map_cons, List.foldl_cons, ih]
      simp [Peers.add]

theorem foldl_add_download (files : List (List Char)) (q : Peers) :
    (files.map fun value => (['p'], value)).foldl Peers.add q =
      { q with files := q.files ++ files } := by
  induction files generalizing q with
  | nil => simp
  | cons value files ih =>
      rw [List.map_cons, List.foldl_cons, ih]
      simp [Peers.add]

section

variable (peerMap : List Char → Bool) (token : Token) (method : Method) (path : List Char)

/-- A query that starts with the token is decided by the pairs behind it. -/
theorem onHttp_token {query : Bytes} {pairs : List (List Char × List Char)}
    (h : parse (sent query) = (['t'], token.text) :: pairs) :
    onHttp peerMap (.ofQuery method path query) =
      onHttp peerMap ⟨method, path, some ((['t'], token.text) :: pairs)⟩ := by
  rw [Request.ofQuery, h]

theorem onHttp_upload (first : List Char) (below : List (List Char))
    (filename : Option (List Char)) :
    onHttp peerMap (.ofQuery method path (uploadQuery token (first :: below) filename)) =
      token.answer peerMap (.upload ((first :: below).foldl join []) filename) := by
  have hu := sent_fields "&u=" ['u'] (by decide) (first :: below)
  cases filename with
  | none =>
      have hparse := parse_sent token _ _ hu
      rw [uploadQuery, List.append_nil, onHttp_token _ _ _ _ hparse]
      simp only [onHttp, Option.bind_some, findToken, if_true, foldl_add_upload]
      rfl
  | some filename =>
      have hn := sent_field "&n=" ['n'] (by decide) filename
      have hparse := parse_sent token
        (((first :: below).map (field "&u=")).flatten ++ field "&n=" filename)
        ((first :: below).map (fun value => (['u'], value)) ++ [(['n'], filename)])
        (by rw [sent_append, hu, hn]; simp)
      rw [uploadQuery, List.append_assoc, onHttp_token _ _ _ _ hparse]
      simp only [onHttp, Option.bind_some, findToken, if_true, List.foldl_append,
        foldl_add_upload]
      rfl

theorem onHttp_download (filePath : FilePath) :
    (downloadQuery token filePath).map (fun query => onHttp peerMap (.ofQuery method path query)) =
      if filePath.toList = [] then none
      else some (token.answer peerMap (.download filePath.toList)) := by
  have hmany : ∀ file files, onHttp peerMap (.ofQuery method path
      (Utf8.encode ("t=".toList ++ token.text) ++ ((file :: files).map (field "&p=")).flatten)) =
        token.answer peerMap (.download (file :: files)) := by
    intro file files
    have hp := sent_fields "&p=" ['p'] (by decide) (file :: files)
    rw [onHttp_token _ _ _ _ (parse_sent token _ _ hp)]
    simp only [onHttp, Option.bind_some, findToken, if_true, foldl_add_download]
    rfl
  cases filePath with
  | one file =>
      have hone := hmany file []
      rw [List.map_singleton, List.flatten_singleton] at hone
      rw [downloadQuery, Option.map_some, hone]
      rfl
  | many files =>
      cases files with
      | nil => rfl
      | cons file files =>
          rw [downloadQuery, if_neg (by simp), Option.map_some, hmany]
          rfl

theorem onHttp_preview (file : List Char) :
    onHttp peerMap (.ofQuery method path (previewQuery token file)) =
      token.answer peerMap (.preview file) := by
  have hv := sent_field "&v=" ['v'] (by decide) file
  have hparse := parse_sent token (field "&v=" file) [(['v'], file)] (by rw [hv]; simp)
  rw [previewQuery, onHttp_token _ _ _ _ hparse]
  rfl

end

/-! ## One path from its parts

The server hands over its strings as JSON, and there they are UTF-16 units
again. -/

def utf16 (text : List Char) : Text := text.flatMap utf16Units

theorem units_ne_nil (c : Char) : utf16Units c ≠ [] := by
  rw [utf16Units]
  split <;> simp

/-- No other character has the unit of a slash. -/
theorem slash_mem_units {c : Char} : Upload.slash ∈ utf16Units c ↔ c = '/' := by
  constructor
  · intro h
    simp only [utf16Units, Upload.slash] at h
    split at h
    · have htoNat : c.toNat = 0x2f := (List.mem_singleton.mp h).symm
      rw [← Char.ofNat_toNat c, htoNat]
    · simp only [List.mem_cons, List.not_mem_nil, or_false] at h
      omega
  · rintro rfl
    decide

theorem head_utf16 (p : Path) : (utf16 p).head? = some Upload.slash ↔ p.head? = some '/' := by
  cases p with
  | nil => decide
  | cons c p =>
      rw [utf16, List.flatMap_cons, List.head?_append_of_ne_nil _ (units_ne_nil c), List.head?_cons,
        Option.some_inj]
      constructor
      · exact fun h => slash_mem_units.mp (List.mem_of_mem_head? h)
      · rintro rfl
        rfl

theorem getLast_utf16 (p : Path) :
    (utf16 p).getLast? = some Upload.slash ↔ p.getLast? = some '/' := by
  induction p using List.reverseRecOn with
  | nil => decide
  | append_singleton p c =>
      rw [utf16, List.flatMap_append, List.flatMap_singleton,
        List.getLast?_append_of_ne_nil _ (units_ne_nil c), List.getLast?_concat, Option.some_inj]
      constructor
      · exact fun h => slash_mem_units.mp (List.mem_of_getLast? h)
      · rintro rfl
        rfl

theorem utf16_eq_nil (p : Path) : utf16 p = [] ↔ p = [] := by
  cases p with
  | nil => exact iff_of_true rfl rfl
  | cons c p => simp [utf16, units_ne_nil]

theorem utf16_join (p q : Path) : utf16 (join p q) = push (utf16 p) (utf16 q) := by
  have happend : ∀ p q : Path, utf16 (p ++ q) = utf16 p ++ utf16 q :=
    fun p q => List.flatMap_append
  rw [join, push]
  by_cases hq : absolute q
  · rw [if_pos hq, if_pos ((head_utf16 q).mpr hq)]
  · rw [if_neg hq, if_neg (mt (head_utf16 q).mp hq)]
    simp only [utf16_eq_nil, getLast_utf16]
    split
    · exact happend p q
    · exact happend p ('/' :: q)

theorem utf16_foldl (clips : List (List Char)) (buf : Path) :
    utf16 (clips.foldl join buf) = (clips.map utf16).foldl push (utf16 buf) := by
  induction clips generalizing buf with
  | nil => rfl
  | cons clip clips ih => rw [List.foldl_cons, ih, utf16_join, List.map_cons, List.foldl_cons]

theorem pathLikeToPath_join (dest : List (List Char)) (filename : List Char) :
    pathLikeToPath ((dest ++ [filename]).map fun clip => .str (utf16 clip)) =
      some (push (utf16 (dest.foldl join [])) (utf16 filename)) := by
  have hmap : ((dest ++ [filename]).map fun clip => Value.str (utf16 clip)) =
      ((dest ++ [filename]).map utf16).map .str := List.map_map.symm
  rw [hmap, Upload.pathLikeToPath_map, List.map_append, List.foldl_append, utf16_foldl]
  rfl

/-! ## The round trip -/

/-- Whatever the texts: `on_http` reads back the directory, the file name, the
files and the path that `Auth` was given, and the one file that the handler of
an upload creates is where `path_like_to_path` had put the placeholder. -/
theorem query_roundTrip {π : Type*} [DecidableEq π] (peerMap : List Char → Bool) (token : Token)
    (method : Method) (path : List Char) :
    (∀ first below filename,
      onHttp peerMap (.ofQuery method path (uploadQuery token (first :: below) filename)) =
        token.answer peerMap (.upload ((first :: below).foldl join []) filename)) ∧
    (∀ filePath,
      (downloadQuery token filePath).map
          (fun query => onHttp peerMap (.ofQuery method path query)) =
        if filePath.toList = [] then none
        else some (token.answer peerMap (.download filePath.toList))) ∧
    (∀ file, onHttp peerMap (.ofQuery method path (previewQuery token file)) =
      token.answer peerMap (.preview file)) ∧
    ∀ dest filename, ∃ placeholder,
      pathLikeToPath ((dest ++ [filename]).map fun clip => .str (utf16 clip)) = some placeholder ∧
        push (utf16 (dest.foldl join [])) (utf16 filename) = placeholder ∧
        ∀ (locate : Text → π) describe uuid env token id disk,
          let outcome := handleRequest locate describe uuid env token id
            (uploadArgument (utf16 (dest.foldl join [])) (some (utf16 filename))) disk
          (∀ p, p ≠ locate placeholder → outcome.disk p = disk p) ∧
            ∀ disk', openFile env disk (locate placeholder) = .ok disk' →
              ∃ content, outcome.disk (locate placeholder) = some (.file content) := by
  refine ⟨onHttp_upload peerMap token method path, onHttp_download peerMap token method path,
    onHttp_preview peerMap token method path, fun dest filename => ?_⟩
  refine ⟨_, pathLikeToPath_join dest filename, rfl, ?_⟩
  intro locate describe uuid env token id disk
  exact Upload.handleRequest_creates locate describe uuid env token id _ _ disk

end WebSshTool.Http
