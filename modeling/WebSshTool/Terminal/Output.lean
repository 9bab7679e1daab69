import WebSshTool.Lib.Utf8

/-!
# What a terminal shows of a shell's output

A shell's output reaches the browser as one event for each data message of
the ssh channel, cut wherever ssh cut it. `_listener` decodes the bytes of
each event on their own with `iconv.decode` and writes the text to xterm;
nothing is kept from one event to the next.

So the text is that of the whole stream only where decoding is a
homomorphism. For an encoding in which every byte stands for itself it always
is. In UTF-8 it is unless a cut falls inside a character, or an event starts
with the mark U+FEFF, which `iconv.decode` takes off the start of whatever it
is given. The two faults cannot make up for each other: one adds replacement
characters, and the other removes none.
-/

namespace WebSshTool.Terminal

open Utf8

/-- The `detail` of an event dispatched to a controller: whether it has a
`close` member, and its `data`. -/
structure Detail where
  close : Bool
  data : Option (List UInt8)

/-- `MultiTerminalView.Controller`: whether it is closed, and the text
written to its xterm. -/
structure Controller where
  closed : Bool
  xterm : List Char

/-- `iconv.decode` of a piece of data, by the name of the encoding. -/
abbrev Iconv := String → List UInt8 → List Char

/-- `_listener`, while `textDecoder()` is the given encoding. Closing removes
it from the shell. -/
def listener (iconv : Iconv) (textDecoder : String) (c : Controller)
    (detail : Detail) : Controller :=
  if c.closed then c
  else if detail.close then { c with closed := true }
  else match detail.data with
    | some data => { c with xterm := c.xterm ++ iconv textDecoder data }
    | none => c

/-- What xterm has been given after one data event for each of `chunks`. -/
def shown (iconv : Iconv) (textDecoder : String) (chunks : List (List UInt8)) :
    List Char :=
  ((chunks.map fun data => ⟨false, some data⟩).foldl
    (listener iconv textDecoder) ⟨false, []⟩).xterm

theorem shown_eq (iconv : Iconv) (enc : String) (chunks : List (List UInt8)) :
    shown iconv enc chunks = (chunks.map (iconv enc)).flatten := by
  have hrun : ∀ text, (chunks.map fun data => (⟨false, some data⟩ : Detail)).foldl
      (listener iconv enc) ⟨false, text⟩ =
        ⟨false, text ++ (chunks.map (iconv enc)).flatten⟩ := by
    induction chunks with
    | nil => simp
    | cons c cs ih =>
        intro text
        simp only [List.map_cons, List.foldl_cons, listener, Bool.false_eq_true,
          if_false, List.flatten_cons]
        rw [ih, List.append_assoc]
  rw [shown, hrun]
  rfl

/-! ## Any encoding -/

/-- What `iconv.decode` does with `utf-8`: malformed input is replaced and a
mark at the start is taken off. -/
def iconvDecode (data : List UInt8) : List Char := stripBom (decode data)

end WebSshTool.Terminal
