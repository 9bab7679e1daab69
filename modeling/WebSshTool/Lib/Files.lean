import Mathlib.Logic.Function.Basic
import WebSshTool.Lib.Json

/-!
# Files by location

A file system as far as opening, writing and removing single files goes. A
location is what a path comes down to once its directories are resolved; two
paths of one file are one location. Writing goes to an offset and leaves the
bytes behind it alone, which is what opening a file with or without truncation
makes a difference to.
-/

namespace WebSshTool.Files

abbrev Bytes := List UInt8

inductive Node where
  | file (content : Bytes)
  | directory
  deriving DecidableEq, Repr

abbrev Disk (π : Type*) := π → Option Node

/-- Why an operation fails; `other` is whatever the operating system has
against it for reasons of its own. -/
inductive Error where
  | exists
  | notFound
  | isDirectory
  | other (code : Nat)
  deriving DecidableEq, Repr

/-! ## Writing -/

/-- `content` after `bytes` are written at `offset`; a gap before the offset
is filled with zeros. -/
def writeAt (content : Bytes) (offset : Nat) (bytes : Bytes) : Bytes :=
  content.take offset ++ List.replicate (offset - content.length) 0 ++ bytes ++
    content.drop (offset + bytes.length)

theorem length_writeAt {content : Bytes} {offset : Nat} (bytes : Bytes)
    (h : offset ≤ content.length) :
    offset + bytes.length ≤ (writeAt content offset bytes).length := by
  simp [writeAt]
  omega

theorem writeAt_length (content bytes : Bytes) :
    writeAt content content.length bytes = content ++ bytes := by
  simp [writeAt]

theorem writeAt_zero (content bytes : Bytes) :
    writeAt content 0 bytes = bytes ++ content.drop bytes.length := by
  simp [writeAt]

/-- A body that is written part by part. -/
theorem writeAt_take (body : Bytes) {offset : Nat} (h : offset ≤ body.length) (n : Nat) :
    writeAt (body.take offset) offset ((body.drop offset).take n) = body.take (offset + n) := by
  have hlen : (body.take offset).length = offset := List.length_take_of_le h
  have happend := writeAt_length (body.take offset) ((body.drop offset).take n)
  rw [hlen] at happend
  rw [happend, List.take_add]

/-- Two writes in a row are one. -/
theorem writeAt_writeAt {content a b : Bytes} {offset : Nat}
    (h : offset ≤ content.length) :
    writeAt (writeAt content offset a) (offset + a.length) b =
      writeAt content offset (a ++ b) := by
  have hpad : offset - content.length = 0 := by omega
  have hpad' : offset + a.length - (writeAt content offset a).length = 0 := by
    have := length_writeAt a h
    omega
  have htake : (writeAt content offset a).take (offset + a.length) =
      content.take offset ++ a := by
    rw [writeAt, hpad, List.replicate_zero, List.append_nil]
    refine List.take_left' ?_
    simp
    omega
  have hdrop : (writeAt content offset a).drop (offset + a.length + b.length) =
      content.drop (offset + (a ++ b).length) := by
    rw [writeAt, hpad, List.replicate_zero, List.append_nil, ← List.drop_drop,
      List.drop_left' (by simp; omega), List.drop_drop, List.length_append, Nat.add_assoc]
  rw [writeAt, hpad', htake, hdrop, writeAt, hpad]
  simp

/-- Writing over a file from its start leaves exactly what was written if and
only if that is no shorter than what was there. -/
theorem writeAt_zero_eq_iff (content bytes : Bytes) :
    writeAt content 0 bytes = bytes ↔ content.length ≤ bytes.length := by
  rw [writeAt_zero]
  constructor
  · intro h
    have hlen := congrArg List.length h
    simp at hlen
    omega
  · intro h
    rw [List.drop_eq_nil_of_le h, List.append_nil]

/-! ## Text as bytes -/

/-- A code point in UTF-8. -/
def utf8Point (u : Nat) : Bytes :=
  if u < 0x80 then [.ofNat u]
  else if u < 0x800 then [.ofNat (0xc0 + u / 0x40), .ofNat (0x80 + u % 0x40)]
  else if u < 0x10000 then
    [.ofNat (0xe0 + u / 0x1000), .ofNat (0x80 + u / 0x40 % 0x40), .ofNat (0x80 + u % 0x40)]
  else
    [.ofNat (0xf0 + u / 0x40000), .ofNat (0x80 + u / 0x1000 % 0x40),
      .ofNat (0x80 + u / 0x40 % 0x40), .ofNat (0x80 + u % 0x40)]

/-- UTF-16 units in UTF-8, behind a high surrogate that waits for its other
half: the two are one code point. -/
def utf8From : Option Nat → Json.Text → Bytes
  | none, [] => []
  | some u, [] => utf8Point u
  | none, v :: rest =>
      if 0xd800 ≤ v ∧ v < 0xdc00 then utf8From (some v) rest
      else utf8Point v ++ utf8From none rest
  | some u, v :: rest =>
      if 0xdc00 ≤ v ∧ v < 0xe000 then
        utf8Point (0x10000 + (u - 0xd800) * 0x400 + (v - 0xdc00)) ++ utf8From none rest
      else utf8Point u ++
        (if 0xd800 ≤ v ∧ v < 0xdc00 then utf8From (some v) rest
         else utf8Point v ++ utf8From none rest)

def utf8 (t : Json.Text) : Bytes := utf8From none t

/-! ## Operations -/

variable {π : Type*} [DecidableEq π]

/-- Write only, create, truncate. -/
def create (disk : Disk π) (p : π) : Except Error (Disk π) :=
  match disk p with
  | some .directory => .error .isDirectory
  | _ => .ok (Function.update disk p (some (.file [])))

/-- Write only, create, fail where something is there. -/
def createNew (disk : Disk π) (p : π) : Except Error (Disk π) :=
  match disk p with
  | some _ => .error .exists
  | none => .ok (Function.update disk p (some (.file [])))

/-- Write only, create, keep what is there. -/
def openCreate (disk : Disk π) (p : π) : Except Error (Disk π) :=
  match disk p with
  | some .directory => .error .isDirectory
  | some (.file content) => .ok (Function.update disk p (some (.file content)))
  | none => .ok (Function.update disk p (some (.file [])))

def read (disk : Disk π) (p : π) : Except Error Bytes :=
  match disk p with
  | some (.file content) => .ok content
  | some .directory => .error .isDirectory
  | none => .error .notFound

/-- Through a handle on `p`; nothing happens to it once `p` is gone. -/
def write (disk : Disk π) (p : π) (offset : Nat) (bytes : Bytes) : Disk π :=
  match disk p with
  | some (.file content) =>
      Function.update disk p (some (.file (writeAt content offset bytes)))
  | _ => disk

def unlink (disk : Disk π) (p : π) : Except Error (Disk π) :=
  match disk p with
  | some (.file _) => .ok (Function.update disk p none)
  | some .directory => .error .isDirectory
  | none => .error .notFound

theorem write_file {disk : Disk π} {p : π} {content : Bytes}
    (h : disk p = some (.file content)) (offset : Nat) (bytes : Bytes) :
    write disk p offset bytes =
      Function.update disk p (some (.file (writeAt content offset bytes))) := by
  simp [write, h]

theorem write_of_ne (disk : Disk π) {p q : π} (h : q ≠ p) (offset : Nat) (bytes : Bytes) :
    write disk p offset bytes q = disk q := by
  cases hp : disk p with
  | none => simp [write, hp]
  | some node => cases node <;> simp [write, hp, Function.update_of_ne h]

/-- Chunk after chunk, each behind the one before. -/
def writeAll (disk : Disk π) (p : π) (offset : Nat) : List Bytes → Disk π
  | [] => disk
  | chunk :: chunks =>
      writeAll (write disk p offset chunk) p (offset + chunk.length) chunks

theorem writeAll_file {disk : Disk π} {p : π} {content : Bytes} {offset : Nat}
    (chunks : List Bytes) (h : disk p = some (.file content))
    (ho : offset ≤ content.length) :
    writeAll disk p offset chunks p =
      some (.file (writeAt content offset chunks.flatten)) := by
  induction chunks generalizing disk content offset with
  | nil => simpa [writeAll, writeAt, Nat.sub_eq_zero_of_le ho] using h
  | cons chunk chunks ih =>
      have hwritten : write disk p offset chunk p =
          some (.file (writeAt content offset chunk)) := by
        rw [write_file h, Function.update_self]
      rw [writeAll, ih hwritten (length_writeAt chunk ho), writeAt_writeAt ho, List.flatten_cons]

theorem writeAll_of_ne (disk : Disk π) {p q : π} (h : q ≠ p) (offset : Nat)
    (chunks : List Bytes) : writeAll disk p offset chunks q = disk q := by
  induction chunks generalizing disk offset with
  | nil => rfl
  | cons chunk chunks ih => rw [writeAll, ih, write_of_ne disk h]

theorem create_ok {disk : Disk π} {p : π} (h : disk p ≠ some .directory) :
    create disk p = .ok (Function.update disk p (some (.file []))) := by
  cases hp : disk p with
  | none => simp [create, hp]
  | some node =>
      cases node with
      | file content => simp [create, hp]
      | directory => exact absurd hp h

theorem create_apply {disk disk' : Disk π} {p : π} (h : create disk p = .ok disk') :
    disk' p = some (.file []) := by
  rw [create] at h
  split at h
  · exact absurd h (by simp)
  · obtain rfl := Except.ok.inj h
    exact Function.update_self ..

/-- Nothing else is created. -/
theorem create_of_ne {disk disk' : Disk π} {p q : π} (h : create disk p = .ok disk')
    (hq : q ≠ p) : disk' q = disk q := by
  rw [create] at h
  split at h
  · exact absurd h (by simp)
  · rw [← Except.ok.inj h, Function.update_of_ne hq]

end WebSshTool.Files
