import Mathlib.Data.List.Find
import WebSshTool.Lib.JsonRoundTrip

/-!
# JSON text in another encoding

The same value has its strings in UTF-16 on one side and as scalar values on the
other. The grammar is ASCII, so it does not matter whether a value is printed
before or after its strings are recoded: `print_recode`. A reader that is strict
about strings or numbers, `traverse`, may refuse a value for one of them, and one
that has other numbers than the writer maps them, `mapNumbers`.
-/

namespace WebSshTool.Json

/-! ## The strings and the numbers of a value -/

mutual

/-- The strings and names of a value. -/
def Value.texts : Value → List Text
  | .null | .bool _ | .num .. => []
  | .str s => [s]
  | .arr items => textsItems items
  | .obj members => textsMembers members

def textsItems : List Value → List Text
  | [] => []
  | v :: vs => v.texts ++ textsItems vs

def textsMembers : List (Text × Value) → List Text
  | [] => []
  | (k, v) :: ms => k :: (v.texts ++ textsMembers ms)

end

mutual

/-- The numbers of a value, each with its mantissa and its power of ten. -/
def Value.numbers : Value → List (Int × Int)
  | .null | .bool _ | .str _ => []
  | .num m e => [(m, e)]
  | .arr items => numbersItems items
  | .obj members => numbersMembers members

def numbersItems : List Value → List (Int × Int)
  | [] => []
  | v :: vs => v.numbers ++ numbersItems vs

def numbersMembers : List (Text × Value) → List (Int × Int)
  | [] => []
  | (_, v) :: ms => v.numbers ++ numbersMembers ms

end

mutual

/-- How many arrays and objects are in one another. -/
def Value.depth : Value → Nat
  | .null | .bool _ | .num .. | .str _ => 0
  | .arr items => depthItems items + 1
  | .obj members => depthMembers members + 1

def depthItems : List Value → Nat
  | [] => 0
  | v :: vs => max v.depth (depthItems vs)

def depthMembers : List (Text × Value) → Nat
  | [] => 0
  | (_, v) :: ms => max v.depth (depthMembers ms)

end

section

variable (f : Text → Option Text) (r : Int → Int → Option (Int × Int))

mutual

/-- The value with its strings and names read by `f` and its numbers by `r`, which
may refuse one. -/
def Value.traverse : Value → Option Value
  | .null => some .null
  | .bool b => some (.bool b)
  | .num m e => (r m e).map fun n => .num n.1 n.2
  | .str s => (f s).map .str
  | .arr items => (traverseItems items).map .arr
  | .obj members => (traverseMembers members).map .obj

def traverseItems : List Value → Option (List Value)
  | [] => some []
  | v :: vs =>
      match v.traverse, traverseItems vs with
      | some v, some vs => some (v :: vs)
      | _, _ => none

def traverseMembers : List (Text × Value) → Option (List (Text × Value))
  | [] => some []
  | (k, v) :: ms =>
      match f k, v.traverse, traverseMembers ms with
      | some k, some v, some ms => some ((k, v) :: ms)
      | _, _, _ => none

end

end

mutual

/-- The value with every number replaced. -/
def Value.mapNumbers (r : Int → Int → Int × Int) : Value → Value
  | .null => .null
  | .bool b => .bool b
  | .num m e => .num (r m e).1 (r m e).2
  | .str s => .str s
  | .arr items => .arr (mapNumbersItems r items)
  | .obj members => .obj (mapNumbersMembers r members)

def mapNumbersItems (r : Int → Int → Int × Int) : List Value → List Value
  | [] => []
  | v :: vs => v.mapNumbers r :: mapNumbersItems r vs

def mapNumbersMembers (r : Int → Int → Int × Int) :
    List (Text × Value) → List (Text × Value)
  | [] => []
  | (k, v) :: ms => (k, v.mapNumbers r) :: mapNumbersMembers r ms

end

mutual

/-- The value with every unit of its strings and names replaced. -/
def Value.recode (g : Nat → Text) : Value → Value
  | .null => .null
  | .bool b => .bool b
  | .num m e => .num m e
  | .str s => .str (s.flatMap g)
  | .arr items => .arr (recodeItems g items)
  | .obj members => .obj (recodeMembers g members)

def recodeItems (g : Nat → Text) : List Value → List Value
  | [] => []
  | v :: vs => v.recode g :: recodeItems g vs

def recodeMembers (g : Nat → Text) : List (Text × Value) → List (Text × Value)
  | [] => []
  | (k, v) :: ms => (k.flatMap g, v.recode g) :: recodeMembers g ms

end

section

variable {f : Text → Option Text} {r : Int → Int → Option (Int × Int)}

mutual

/-- What the reader takes as it is stays as it is. -/
theorem traverse_of_fixed : (v : Value) → (∀ t ∈ v.texts, f t = some t) →
    (∀ n ∈ v.numbers, r n.1 n.2 = some n) → v.traverse f r = some v
  | .null, _, _ | .bool _, _, _ => rfl
  | .num m e, _, hr => by simp [Value.traverse, hr (m, e) (by simp [Value.numbers])]
  | .str s, h, _ => by simp [Value.traverse, h s (by simp [Value.texts])]
  | .arr items, h, hr => by
      simp [Value.traverse, traverseItems_of_fixed items (by simpa [Value.texts] using h)
        (by simpa [Value.numbers] using hr)]
  | .obj members, h, hr => by
      simp [Value.traverse, traverseMembers_of_fixed members (by simpa [Value.texts] using h)
        (by simpa [Value.numbers] using hr)]

theorem traverseItems_of_fixed : (vs : List Value) → (∀ t ∈ textsItems vs, f t = some t) →
    (∀ n ∈ numbersItems vs, r n.1 n.2 = some n) → traverseItems f r vs = some vs
  | [], _, _ => rfl
  | v :: vs, h, hr => by
      have hv := traverse_of_fixed v (fun t ht => h t (by simp [textsItems, ht]))
        fun n hn => hr n (by simp [numbersItems, hn])
      have hvs := traverseItems_of_fixed vs (fun t ht => h t (by simp [textsItems, ht]))
        fun n hn => hr n (by simp [numbersItems, hn])
      simp [traverseItems, hv, hvs]

theorem traverseMembers_of_fixed : (ms : List (Text × Value)) →
    (∀ t ∈ textsMembers ms, f t = some t) → (∀ n ∈ numbersMembers ms, r n.1 n.2 = some n) →
    traverseMembers f r ms = some ms
  | [], _, _ => rfl
  | (k, v) :: ms, h, hr => by
      have hk := h k (by simp [textsMembers])
      have hv := traverse_of_fixed v (fun t ht => h t (by simp [textsMembers, ht]))
        fun n hn => hr n (by simp [numbersMembers, hn])
      have hms := traverseMembers_of_fixed ms (fun t ht => h t (by simp [textsMembers, ht]))
        fun n hn => hr n (by simp [numbersMembers, hn])
      simp [traverseMembers, hk, hv, hms]

end

end

section

variable {f : Text → Option Text} {r : Int → Int → Option (Int × Int)} {w : Value}

theorem traverse_obj {ms : List (Text × Value)} : (Value.obj ms).traverse f r = some w ↔
    ∃ ms', traverseMembers f r ms = some ms' ∧ w = .obj ms' := by
  rw [Value.traverse, Option.map_eq_some_iff]
  exact exists_congr fun ms' => and_congr_right fun _ => eq_comm

/-- A member is read if its name and its value are. -/
theorem traverseMembers_cons {k : Text} {v : Value} {ms ms' : List (Text × Value)} :
    traverseMembers f r ((k, v) :: ms) = some ms' ↔ ∃ k' v' rest, f k = some k' ∧
      v.traverse f r = some v' ∧ traverseMembers f r ms = some rest ∧
        ms' = (k', v') :: rest := by
  rw [traverseMembers]
  cases f k <;> cases v.traverse f r <;> cases traverseMembers f r ms <;> simp [eq_comm]

end

/-! ## Other numbers -/

section

variable {r : Int → Int → Int × Int}

mutual

theorem mapNumbers_of_fixed : (v : Value) → (∀ n ∈ v.numbers, r n.1 n.2 = n) →
    v.mapNumbers r = v
  | .null, _ | .bool _, _ | .str _, _ => rfl
  | .num m e, h => by simp [Value.mapNumbers, h (m, e) (by simp [Value.numbers])]
  | .arr items, h => by
      rw [Value.mapNumbers, mapNumbersItems_of_fixed items (by simpa [Value.numbers] using h)]
  | .obj members, h => by
      rw [Value.mapNumbers, mapNumbersMembers_of_fixed members (by simpa [Value.numbers] using h)]

theorem mapNumbersItems_of_fixed : (vs : List Value) → (∀ n ∈ numbersItems vs, r n.1 n.2 = n) →
    mapNumbersItems r vs = vs
  | [], _ => rfl
  | v :: vs, h => by
      rw [mapNumbersItems, mapNumbers_of_fixed v fun n hn => h n (by simp [numbersItems, hn]),
        mapNumbersItems_of_fixed vs fun n hn => h n (by simp [numbersItems, hn])]

theorem mapNumbersMembers_of_fixed : (ms : List (Text × Value)) →
    (∀ n ∈ numbersMembers ms, r n.1 n.2 = n) → mapNumbersMembers r ms = ms
  | [], _ => rfl
  | (_, v) :: ms, h => by
      rw [mapNumbersMembers,
        mapNumbers_of_fixed v fun n hn => h n (by simp [numbersMembers, hn]),
        mapNumbersMembers_of_fixed ms fun n hn => h n (by simp [numbersMembers, hn])]

end

mutual

/-- The strings are what they were. -/
theorem texts_mapNumbers : (v : Value) → (v.mapNumbers r).texts = v.texts
  | .null | .bool _ | .num .. | .str _ => rfl
  | .arr items => by rw [Value.mapNumbers, Value.texts, Value.texts, textsItems_mapNumbers]
  | .obj members => by rw [Value.mapNumbers, Value.texts, Value.texts, textsMembers_mapNumbers]

theorem textsItems_mapNumbers : (vs : List Value) →
    textsItems (mapNumbersItems r vs) = textsItems vs
  | [] => rfl
  | v :: vs => by
      rw [mapNumbersItems, textsItems, textsItems, texts_mapNumbers v, textsItems_mapNumbers vs]

theorem textsMembers_mapNumbers : (ms : List (Text × Value)) →
    textsMembers (mapNumbersMembers r ms) = textsMembers ms
  | [] => rfl
  | (_, v) :: ms => by
      rw [mapNumbersMembers, textsMembers, textsMembers, texts_mapNumbers v,
        textsMembers_mapNumbers ms]

end

mutual

/-- It does not matter what is done first. -/
theorem mapNumbers_recode (g : Nat → Text) : (v : Value) →
    (v.recode g).mapNumbers r = (v.mapNumbers r).recode g
  | .null | .bool _ | .num .. | .str _ => rfl
  | .arr items => by
      simp only [Value.recode, Value.mapNumbers, mapNumbersItems_recode g items]
  | .obj members => by
      simp only [Value.recode, Value.mapNumbers, mapNumbersMembers_recode g members]

theorem mapNumbersItems_recode (g : Nat → Text) : (vs : List Value) →
    mapNumbersItems r (recodeItems g vs) = recodeItems g (mapNumbersItems r vs)
  | [] => rfl
  | v :: vs => by
      simp only [recodeItems, mapNumbersItems, mapNumbers_recode g v,
        mapNumbersItems_recode g vs]

theorem mapNumbersMembers_recode (g : Nat → Text) : (ms : List (Text × Value)) →
    mapNumbersMembers r (recodeMembers g ms) = recodeMembers g (mapNumbersMembers r ms)
  | [] => rfl
  | (_, v) :: ms => by
      simp only [recodeMembers, mapNumbersMembers, mapNumbers_recode g v,
        mapNumbersMembers_recode g ms]

end

theorem mapNumbersMembers_eq (ms : List (Text × Value)) :
    mapNumbersMembers r ms = ms.map fun m => (m.1, m.2.mapNumbers r) := by
  induction ms with
  | nil => rfl
  | cons m ms ih => rw [mapNumbersMembers, ih, List.map_cons]

/-- What is found under a name is found there still. -/
theorem get?_mapNumbers (v : Value) (k : Text) :
    (v.mapNumbers r).get? k = (v.get? k).map (·.mapNumbers r) := by
  cases v with
  | obj members =>
      rw [Value.mapNumbers, Value.get?, Value.get?, mapNumbersMembers_eq, ← List.map_reverse,
        List.find?_map, Option.map_map, Option.map_map]
      rfl
  | null | bool | num | str | arr => rfl

end

/-! ## Members and recoding -/

theorem recodeMembers_eq (g : Nat → Text) (ms : List (Text × Value)) :
    recodeMembers g ms = ms.map fun m => (m.1.flatMap g, m.2.recode g) := by
  induction ms with
  | nil => rfl
  | cons m ms ih => rw [recodeMembers, ih, List.map_cons]

theorem name_mem_texts {ms : List (Text × Value)} {m : Text × Value} (h : m ∈ ms) :
    m.1 ∈ (Value.obj ms).texts := by
  rw [Value.texts]
  induction ms with
  | nil => cases h
  | cons x ms ih =>
      rw [textsMembers]
      rcases List.mem_cons.mp h with rfl | hmem
      · exact List.mem_cons_self
      · exact List.mem_cons_of_mem _ (List.mem_append_right _ (ih hmem))

/-- A name that no other is recoded to is found as before. -/
theorem get?_recode {g : Nat → Text} {ms : List (Text × Value)} {k : Text}
    (h : ∀ m ∈ ms, m.1.flatMap g = k.flatMap g → m.1 = k) :
    ((Value.obj ms).recode g).get? (k.flatMap g) = ((Value.obj ms).get? k).map (·.recode g) := by
  have hname : ∀ m ∈ ms.reverse, (m.1.flatMap g == k.flatMap g) = (m.1 == k) := by
    intro m hm
    rw [Bool.eq_iff_iff, beq_iff_eq, beq_iff_eq]
    exact ⟨h m (List.mem_reverse.mp hm), fun heq => by rw [heq]⟩
  have hfind : (ms.reverse.find? ((fun m => m.1 == k.flatMap g) ∘ fun m =>
      (m.1.flatMap g, m.2.recode g))) = ms.reverse.find? fun m => m.1 == k :=
    List.find?_congr hname
  rw [Value.recode, Value.get?, Value.get?, recodeMembers_eq, ← List.map_reverse, List.find?_map,
    hfind, Option.map_map, Option.map_map]
  rfl

/-! ## Printing and recoding -/

/-- ASCII stays what it is, and nothing else becomes ASCII. -/
structure Recodes (g : Nat → Text) : Prop where
  ascii : ∀ u, u < 0x80 → g u = [u]
  high : ∀ u, 0x80 ≤ u → ∀ x ∈ g u, 0x80 ≤ x

theorem escapeUnit_high {u : Nat} (h : 0x80 ≤ u) : escapeUnit u = [u] := by
  have hshort : shortEscape? u = none := by
    simp only [shortEscape?, quote, backslash]
    repeat rw [if_neg (by omega)]
  rw [escapeUnit, hshort]
  exact if_neg (by omega)

theorem escapeUnit_low {u : Nat} (h : u < 0x80) : ∀ x ∈ escapeUnit u, x < 0x80 := by
  revert u
  decide

section

variable {g : Nat → Text}

theorem Recodes.flatMap_low (hg : Recodes g) {t : Text} (ht : ∀ u ∈ t, u < 0x80) :
    t.flatMap g = t := by
  induction t with
  | nil => rfl
  | cons u t ih =>
      rw [List.flatMap_cons, hg.ascii u (ht u List.mem_cons_self),
        ih fun x hx => ht x (List.mem_cons_of_mem u hx)]
      rfl

theorem flatMap_escapeUnit_high {t : Text} (ht : ∀ u ∈ t, 0x80 ≤ u) :
    t.flatMap escapeUnit = t := by
  induction t with
  | nil => rfl
  | cons u t ih =>
      rw [List.flatMap_cons, escapeUnit_high (ht u List.mem_cons_self),
        ih fun x hx => ht x (List.mem_cons_of_mem u hx)]
      rfl

theorem Recodes.escapeUnit (hg : Recodes g) (u : Nat) :
    (g u).flatMap Json.escapeUnit = (Json.escapeUnit u).flatMap g := by
  by_cases hu : u < 0x80
  · rw [hg.ascii u hu, hg.flatMap_low (escapeUnit_low hu), List.flatMap_singleton]
  · have hu : 0x80 ≤ u := by omega
    rw [escapeUnit_high hu, List.flatMap_singleton, flatMap_escapeUnit_high (hg.high u hu)]

theorem Recodes.printString (hg : Recodes g) (s : Text) :
    Json.printString (s.flatMap g) = (Json.printString s).flatMap g := by
  have hquote : g quote = [quote] := hg.ascii quote (by decide)
  have hs : (s.flatMap g).flatMap Json.escapeUnit = (s.flatMap Json.escapeUnit).flatMap g := by
    rw [List.flatMap_assoc, List.flatMap_assoc]
    exact congrArg (List.flatMap · s) (funext hg.escapeUnit)
  simp only [Json.printString, List.flatMap_cons, List.flatMap_append, List.flatMap_nil, hquote,
    hs, List.append_nil, List.singleton_append]

theorem printNat_low (n : Nat) : ∀ u ∈ printNat n, u < 0x80 := by
  intro u hu
  obtain ⟨d, hd, rfl⟩ := List.mem_map.mp hu
  have := decimal_lt hd
  omega

theorem printInt_low (m : Int) : ∀ u ∈ printInt m, u < 0x80 := by
  intro u hu
  rw [printInt] at hu
  split at hu
  · rcases List.mem_cons.mp hu with rfl | hu
    · decide
    · exact printNat_low _ u hu
  · exact printNat_low _ u hu

theorem print_num_low (m e : Int) : ∀ u ∈ print (.num m e), u < 0x80 := by
  intro u hu
  rw [print] at hu
  split at hu
  · exact printInt_low m u hu
  · rcases List.mem_append.mp hu with hu | hu
    · exact printInt_low m u hu
    · rcases List.mem_cons.mp hu with rfl | hu
      · decide
      · exact printInt_low e u hu

mutual

/-- A value may be printed before or after its strings are recoded. -/
theorem print_recode (hg : Recodes g) : (v : Value) → print (v.recode g) = (print v).flatMap g
  | .null => by
      rw [Value.recode, hg.flatMap_low (by decide)]
  | .bool b => by
      rw [Value.recode, hg.flatMap_low (by cases b <;> decide)]
  | .num m e => by
      rw [Value.recode, hg.flatMap_low (print_num_low m e)]
  | .str s => by
      rw [Value.recode, print, print, hg.printString]
  | .arr items => by
      have hopen : g openBracket = [openBracket] := hg.ascii _ (by decide)
      have hitems := printItems_recode hg items (show ∀ u ∈ [], u < 0x80 by simp)
      simp only [Value.recode, print, hitems, List.flatMap_cons, hopen, List.singleton_append]
  | .obj members => by
      have hopen : g openBrace = [openBrace] := hg.ascii _ (by decide)
      have hmembers := printMembers_recode hg members (show ∀ u ∈ [], u < 0x80 by simp)
      simp only [Value.recode, print, hmembers, List.flatMap_cons, hopen, List.singleton_append]

theorem printItems_recode (hg : Recodes g) : (vs : List Value) → ∀ {sep : Text},
    (∀ u ∈ sep, u < 0x80) → printItems sep (recodeItems g vs) = (printItems sep vs).flatMap g
  | [], sep, _ => (hg.flatMap_low (show ∀ u ∈ [closeBracket], u < 0x80 by decide)).symm
  | v :: vs, sep, hsep => by
      have hvs := printItems_recode hg vs (show ∀ u ∈ [comma], u < 0x80 by decide)
      simp only [recodeItems, printItems, print_recode hg v, hvs, List.flatMap_append,
        hg.flatMap_low hsep]

theorem printMembers_recode (hg : Recodes g) : (ms : List (Text × Value)) → ∀ {sep : Text},
    (∀ u ∈ sep, u < 0x80) →
    printMembers sep (recodeMembers g ms) = (printMembers sep ms).flatMap g
  | [], sep, _ => (hg.flatMap_low (show ∀ u ∈ [closeBrace], u < 0x80 by decide)).symm
  | (k, v) :: ms, sep, hsep => by
      have hcolon : g colon = [colon] := hg.ascii _ (by decide)
      have hms := printMembers_recode hg ms (show ∀ u ∈ [comma], u < 0x80 by decide)
      simp only [recodeMembers, printMembers, print_recode hg v, hms, hg.printString,
        List.flatMap_append, List.flatMap_cons, hcolon, hg.flatMap_low hsep,
        List.singleton_append]

end

end

/-! ## The units of the text -/

section

variable {P : Nat → Prop}

theorem forall_printString (hP : ∀ u, u < 0x80 → P u) {s : Text} (hs : ∀ u ∈ s, P u) :
    ∀ u ∈ printString s, P u := by
  intro u hu
  rcases List.mem_cons.mp hu with rfl | hu
  · exact hP _ (by decide)
  · rcases List.mem_append.mp hu with hu | hu
    · obtain ⟨x, hx, hu⟩ := List.mem_flatMap.mp hu
      by_cases hlow : x < 0x80
      · exact hP u (escapeUnit_low hlow u hu)
      · rw [escapeUnit_high (by omega), List.mem_singleton] at hu
        exact hu ▸ hs x hx
    · exact hP u (List.mem_singleton.mp hu ▸ by decide)

mutual

/-- The text is ASCII and what the strings have in them. -/
theorem forall_print (hP : ∀ u, u < 0x80 → P u) : (v : Value) →
    (∀ t ∈ v.texts, ∀ u ∈ t, P u) → ∀ u ∈ print v, P u
  | .null, _ => fun u hu => hP u ((by decide : ∀ u ∈ print .null, u < 0x80) u hu)
  | .bool true, _ => fun u hu => hP u ((by decide : ∀ u ∈ print (.bool true), u < 0x80) u hu)
  | .bool false, _ => fun u hu => hP u ((by decide : ∀ u ∈ print (.bool false), u < 0x80) u hu)
  | .num m e, _ => fun u hu => hP u (print_num_low m e u hu)
  | .str s, h => forall_printString hP (h s (by simp [Value.texts]))
  | .arr items, h => by
      have hitems := forall_printItems hP items (by simpa [Value.texts] using h)
        (show ∀ u ∈ [], u < 0x80 by simp)
      simp only [print, List.forall_mem_cons]
      exact ⟨hP _ (by decide), hitems⟩
  | .obj members, h => by
      have hmembers := forall_printMembers hP members (by simpa [Value.texts] using h)
        (show ∀ u ∈ [], u < 0x80 by simp)
      simp only [print, List.forall_mem_cons]
      exact ⟨hP _ (by decide), hmembers⟩

theorem forall_printItems (hP : ∀ u, u < 0x80 → P u) : (vs : List Value) →
    (∀ t ∈ textsItems vs, ∀ u ∈ t, P u) → ∀ {sep : Text}, (∀ u ∈ sep, u < 0x80) →
    ∀ u ∈ printItems sep vs, P u
  | [], _, sep, _ => fun u hu => hP u (List.mem_singleton.mp hu ▸ by decide)
  | v :: vs, h, sep, hsep => by
      have hv := forall_print hP v fun t ht => h t (by simp [textsItems, ht])
      have hvs := forall_printItems hP vs (fun t ht => h t (by simp [textsItems, ht]))
        (show ∀ u ∈ [comma], u < 0x80 by decide)
      simp only [printItems, List.forall_mem_append]
      exact ⟨⟨fun u hu => hP u (hsep u hu), hv⟩, hvs⟩

theorem forall_printMembers (hP : ∀ u, u < 0x80 → P u) : (ms : List (Text × Value)) →
    (∀ t ∈ textsMembers ms, ∀ u ∈ t, P u) → ∀ {sep : Text}, (∀ u ∈ sep, u < 0x80) →
    ∀ u ∈ printMembers sep ms, P u
  | [], _, sep, _ => fun u hu => hP u (List.mem_singleton.mp hu ▸ by decide)
  | (k, v) :: ms, h, sep, hsep => by
      have hk := forall_printString hP (h k (by simp [textsMembers]))
      have hv := forall_print hP v fun t ht => h t (by simp [textsMembers, ht])
      have hms := forall_printMembers hP ms (fun t ht => h t (by simp [textsMembers, ht]))
        (show ∀ u ∈ [comma], u < 0x80 by decide)
      simp only [printMembers, List.forall_mem_append, List.forall_mem_cons]
      exact ⟨⟨⟨fun u hu => hP u (hsep u hu), hk⟩, hP _ (by decide), hv⟩, hms⟩

end

end

end WebSshTool.Json
