import Mathlib.Tactic.Common
import WebSshTool.Lib.JsonText

/-!
# Numbers as doubles

A decimal number is rounded to the nearest double, ties to even, and what becomes
of it is written as a decimal again, exactly: a double is a mantissa over a power
of two, and that is a decimal of as many places. The integers up to 2^53 stay what
they are, and beyond them not every integer does.
-/

namespace WebSshTool.Doubles

open Float.Model

/-- A mantissa and a power of two, in lowest terms, as a decimal. -/
def ofBinary (m : Nat) (e : Int) : Nat × Int :=
  if 0 ≤ e then (m * 2 ^ e.toNat, 0)
  else
    let places := (-e).toNat
    let common := (Nat.gcd m (2 ^ places)).log2
    (m / 2 ^ common * 5 ^ (places - common), -(places - common : Nat))

/-- The first power of two beyond the doubles. It stands for infinity. -/
def infinity : Nat × Int := (2 ^ 1024, 0)

def magnitude : UnpackedFloat → Nat × Int
  | .zero _ => (0, 0)
  | .finite _ m e _ => if 971 < e then infinity else ofBinary m e
  | .infinity _ | .notANumber => infinity

/-- The nearest double. -/
def round (m e : Int) : Int × Int :=
  let x := magnitude (.ofScientific .binary64 m.natAbs e)
  (Json.withSign (m < 0) x.1, x.2)

/-! ## Integers that are doubles -/

theorem mantissaBits_binary64 : Format.binary64.mantissaBits = 53 := rfl

theorem repeat_shift {m k : Nat} : ∀ n, n ≤ k →
    n.repeat UnpackedFloat.ExtendedMantissa.shiftRightOne ⟨m * 2 ^ k, false, false⟩ =
      ⟨m * 2 ^ (k - n), false, false⟩ := by
  intro n
  induction n with
  | zero => intro _; rfl
  | succ n ih =>
      intro hn
      rw [Nat.repeat, ih (by omega), show k - n = (k - (n + 1)) + 1 by omega, Nat.pow_succ,
        ← Nat.mul_assoc]
      simp [UnpackedFloat.ExtendedMantissa.shiftRightOne]

section

variable {m : Nat}

theorem log2_mul_two_pow (hm : m ≠ 0) (k : Nat) : (m * 2 ^ k).log2 = m.log2 + k := by
  refine (Nat.log2_eq_iff (Nat.mul_ne_zero hm (Nat.two_pow_pos k).ne')).mpr ⟨?_, ?_⟩
  · rw [Nat.pow_add]
    exact Nat.mul_le_mul_right _ (Nat.log2_self_le hm)
  · rw [show m.log2 + k + 1 = m.log2 + 1 + k by omega, Nat.pow_add]
    exact Nat.mul_lt_mul_of_pos_right Nat.lt_log2_self (Nat.two_pow_pos k)

/-- Twos that the mantissa and the power share cancel. -/
theorem ofBinary_cancel (m k : Nat) : ofBinary (m * 2 ^ k) (-(k : Int)) = (m, 0) := by
  rw [ofBinary]
  split
  · next h =>
      obtain rfl : k = 0 := by omega
      simp
  · simp [Nat.log2_two_pow, Nat.mul_div_cancel m (Nat.two_pow_pos k)]

variable {z : Nat}

/-- Of the zeros behind the mantissa, those beyond its 53 bits are dropped. -/
theorem shift_zeros (hm : m ≠ 0) (hz : m.log2 + z = 52) {k : Nat} (hk : z ≤ k) :
    UnpackedFloat.shiftToTargetExponent .binary64 (m * 2 ^ k) (-(k : Int)) .exact =
      (⟨m * 2 ^ z, false, false⟩, -(z : Int)) := by
  have htarget : Format.binary64.targetExponent (totalExponent (m * 2 ^ k) (-(k : Int))) =
      -(z : Int) := by
    simp only [Format.targetExponent, totalExponent, log2_mul_two_pow hm,
      mantissaBits_binary64, Format.minExponent]
    omega
  have hshift : (-(z : Int) - -(k : Int)).toNat = k - z := by omega
  simp only [UnpackedFloat.shiftToTargetExponent, UnpackedFloat.shiftToExponent, htarget, hshift,
    UnpackedFloat.ExtendedMantissa.ofMantissaAndAccuracy, HShiftRight.hShiftRight,
    repeat_shift _ (Nat.sub_le k z), Prod.mk.injEq]
  exact ⟨by rw [Nat.sub_sub_self hk], by omega⟩

theorem roundWithAccuracy_zeros (hm : m ≠ 0) (hz : m.log2 + z = 52) {k : Nat} (hk : z ≤ k) :
    magnitude (.roundWithAccuracy .binary64 .positive (m * 2 ^ k) (-(k : Int)) .exact) =
      (m, 0) := by
  have hpos : m * 2 ^ z ≠ 0 := Nat.mul_ne_zero hm (Nat.two_pow_pos z).ne'
  have hfinite : UnpackedFloat.roundWithAccuracy .binary64 .positive (m * 2 ^ k) (-(k : Int))
      .exact = .finite .positive (m * 2 ^ z) (-(z : Int)) (Nat.pos_of_ne_zero hpos) := by
    unfold UnpackedFloat.roundWithAccuracy
    rw [shift_zeros hm hz hk]
    show (match UnpackedFloat.shiftToTargetExponent .binary64 (m * 2 ^ z) (-(z : Int)) .exact with
      | (em, e) => if h : em.mantissa = 0 then UnpackedFloat.zero .positive
        else .finite .positive em.mantissa e (Nat.pos_of_ne_zero h)) = _
    rw [shift_zeros hm hz (Nat.le_refl z)]
    exact dif_neg hpos
  rw [hfinite]
  show (if 971 < -(z : Int) then infinity else ofBinary (m * 2 ^ z) (-(z : Int))) = _
  rw [if_neg (by omega), ofBinary_cancel]

end

/-- Up to 2^53 every natural number is a double. -/
theorem magnitude_nat {m : Nat} (h : m ≤ 2 ^ 53) :
    magnitude (.ofScientific .binary64 m 0) = (m, 0) := by
  rcases Nat.eq_zero_or_pos m with rfl | hpos
  · rfl
  have hm := Nat.pos_iff_ne_zero.mp hpos
  rcases Nat.lt_or_eq_of_le h with hlt | rfl
  · have hlog := (Nat.log2_lt hm).mpr hlt
    have hproduct : UnpackedFloat.ofScientific .binary64 m 0 =
        .roundWithAccuracy .binary64 .positive (m * 2 ^ 53) (-(53 : Nat)) .exact := by
      rw [UnpackedFloat.ofScientific, dif_neg hm, if_neg (by decide), if_neg ?_,
        if_pos (Int.le_refl 0)]
      · show UnpackedFloat.roundWithAccuracy .binary64 .positive (m <<< 53 * 1)
          (-(53 : Nat) + 0) .exact = _
        rw [Nat.mul_one, Int.add_zero, Nat.shiftLeft_eq]
      · have hbits : (0 : Int) ≤ 2 ^ Format.binary64.exponentBits := by decide
        omega
    rw [hproduct, roundWithAccuracy_zeros hm (Nat.add_sub_cancel' (Nat.le_of_lt_succ hlog))
      (Nat.le_succ_of_le (Nat.sub_le 52 m.log2))]
  · decide +kernel

/-- And every integer of that size. -/
theorem round_int {m : Int} (h : m.natAbs ≤ 2 ^ 53) : round m 0 = (m, 0) := by
  rw [round, magnitude_nat h, Json.withSign]
  refine Prod.ext ?_ rfl
  split
  · next hneg =>
      have := of_decide_eq_true hneg
      omega
  · next hneg =>
      have := of_decide_eq_false (Bool.eq_false_iff.mpr hneg)
      omega

example : round (2 ^ 53 + 1) 0 = (2 ^ 53, 0) := by decide +kernel

example : round (-15) (-1) = (-15, -1) := by decide +kernel

end WebSshTool.Doubles
