import Mathlib.Algebra.Order.Ring.Nat
import Mathlib.Data.List.Lex
import Mathlib.Tactic.Common

/-!
# Texts in lexicographic order

Which of two texts comes first, where both are put together of fields. A field
decides if it differs, and the rest does if it does not; for that the field has
to have one length, or to end in a unit below all of its own. A number written
with leading zeros in one length is in its own order.
-/

namespace WebSshTool.Lexical

abbrev Text := List Nat

/-- A field of one length. -/
theorem append_lt_append_iff {xs ys : Text} (h : xs.length = ys.length) (s t : Text) :
    xs ++ s < ys ++ t ↔ xs < ys ∨ xs = ys ∧ s < t := by
  induction xs generalizing ys with
  | nil =>
      obtain rfl := List.length_eq_zero_iff.mp h.symm
      simp
  | cons x xs ih =>
      cases ys with
      | nil => simp at h
      | cons y ys =>
          have hlen : xs.length = ys.length := by simpa using h
          rw [List.cons_append, List.cons_append, List.cons_lt_cons_iff, List.cons_lt_cons_iff,
            ih hlen, List.cons.injEq, and_or_left, or_assoc, and_assoc]

/-- A field of any length, up to a unit below all of its own. -/
theorem append_cons_lt_append_cons_iff {sep : Nat} {xs ys : Text}
    (hx : ∀ u ∈ xs, sep < u) (hy : ∀ u ∈ ys, sep < u) (s t : Text) :
    xs ++ sep :: s < ys ++ sep :: t ↔ xs < ys ∨ xs = ys ∧ s < t := by
  induction xs generalizing ys with
  | nil =>
      cases ys with
      | nil => simp
      | cons y ys =>
          have hlt := hy y (by simp)
          simp [List.cons_lt_cons_iff, hlt]
  | cons x xs ih =>
      have hlt := hx x (by simp)
      cases ys with
      | nil =>
          simp [List.cons_lt_cons_iff, Nat.lt_asymm hlt, Nat.ne_of_gt hlt]
      | cons y ys =>
          rw [List.cons_append, List.cons_append, List.cons_lt_cons_iff, List.cons_lt_cons_iff,
            ih (fun u hu => hx u (by simp [hu])) (fun u hu => hy u (by simp [hu])), List.cons.injEq,
            and_or_left, or_assoc, and_assoc]

/-! ## Numbers of one length -/

/-- The last `width` decimal digits. -/
def padded : Nat → Nat → Text
  | 0, _ => []
  | width + 1, n => padded width (n / 10) ++ [0x30 + n % 10]

@[simp] theorem length_padded (width n : Nat) : (padded width n).length = width := by
  induction width generalizing n with
  | zero => rfl
  | succ width ih => simp [padded, ih]

theorem padded_range {width n u : Nat} (hu : u ∈ padded width n) : 0x30 ≤ u ∧ u ≤ 0x39 := by
  induction width generalizing n with
  | zero => cases hu
  | succ width ih =>
      rcases List.mem_append.mp hu with hu | hu
      · exact ih hu
      · rw [List.mem_singleton] at hu
        omega

/-- The number a text of digits is read as. -/
def value (t : Text) : Nat := t.foldl (fun v u => v * 10 + (u - 0x30)) 0

theorem value_padded {width n : Nat} (h : n < 10 ^ width) : value (padded width n) = n := by
  unfold value
  induction width generalizing n with
  | zero =>
      simp only [padded, List.foldl_nil]
      omega
  | succ width ih =>
      rw [padded, List.foldl_append, ih (by omega), List.foldl_cons, List.foldl_nil]
      omega

theorem padded_inj {width m n : Nat} (hm : m < 10 ^ width) (hn : n < 10 ^ width) :
    padded width m = padded width n ↔ m = n :=
  ⟨fun h => by rw [← value_padded hm, h, value_padded hn], fun h => h ▸ rfl⟩

theorem padded_lt_padded_iff {width m n : Nat} (hm : m < 10 ^ width) (hn : n < 10 ^ width) :
    padded width m < padded width n ↔ m < n := by
  induction width generalizing m n with
  | zero =>
      have heq : m = n := by omega
      simp [heq]
  | succ width ih =>
      rw [padded, padded, append_lt_append_iff (by simp), ih (by omega) (by omega),
        padded_inj (by omega) (by omega), List.cons_lt_cons_iff]
      have hnil : ¬ ([] : Text) < [] := List.not_lt_nil _
      simp only [hnil, and_false, or_false]
      omega

/-- A number decides where its field stands, and the rest where two are equal. -/
theorem padded_append_lt_iff {width m n : Nat} (hm : m < 10 ^ width) (hn : n < 10 ^ width)
    (s t : Text) :
    padded width m ++ s < padded width n ++ t ↔ m < n ∨ m = n ∧ s < t := by
  rw [append_lt_append_iff (by simp), padded_lt_padded_iff hm hn, padded_inj hm hn]

end WebSshTool.Lexical
