import LijsCompiler.ESTree.Json
import LijsCompiler.Number.Decimal

/-!
# Whole numbers as doubles

A whole number below `2 ^ 53` is a double as it stands: its digits are shifted to the left until
there are 53 of them, nothing is rounded away, and the exponent undoes the shift (`ofRatio_one`).  So
the number is read from decimal text and given back as data without a change (`toValue_ofDecimal`).
-/

namespace LijsCompiler

namespace Binary64

/-- The places by which a number is shifted so that its leading digit is the 53rd one. -/
def shiftOf (n : Nat) : Nat := 52 - n.log2

section

variable {n : Nat}

theorem log2_add_shiftOf (hn : n < Nat.pow 2 53) : n.log2 + shiftOf n = 52 := by
  have hlog : n.log2 ≤ 52 := by
    rcases Nat.eq_zero_or_pos n with rfl | hpos
    · decide
    · exact Nat.le_of_lt_succ ((Nat.log2_lt (Nat.ne_of_gt hpos)).2 hn)
  rw [shiftOf, Nat.add_sub_cancel' hlog]

theorem pow_52_le_shifted (hpos : 0 < n) (hn : n < Nat.pow 2 53) :
    Nat.pow 2 52 ≤ n * Nat.pow 2 (shiftOf n) := by
  calc
    Nat.pow 2 52 = Nat.pow 2 n.log2 * Nat.pow 2 (shiftOf n) := by
      rw [← log2_add_shiftOf hn]
      exact Nat.pow_add 2 _ _
    _ ≤ n * Nat.pow 2 (shiftOf n) :=
      Nat.mul_le_mul_right _ (Nat.log2_self_le (Nat.ne_of_gt hpos))

theorem shifted_lt_pow_53 (hn : n < Nat.pow 2 53) : n * Nat.pow 2 (shiftOf n) < Nat.pow 2 53 := by
  calc
    n * Nat.pow 2 (shiftOf n) < Nat.pow 2 (n.log2 + 1) * Nat.pow 2 (shiftOf n) :=
      Nat.mul_lt_mul_of_pos_right Nat.lt_log2_self (Nat.two_pow_pos _)
    _ = Nat.pow 2 (n.log2 + 1 + shiftOf n) := (Nat.pow_add 2 _ _).symm
    _ = Nat.pow 2 53 := by rw [Nat.add_right_comm, log2_add_shiftOf hn]

theorem roundDiv_one (n : Nat) : roundDiv n 1 = n := by
  simp [roundDiv, Nat.mod_one]

theorem scaled_shift (n k : Nat) : scaled n 1 (-(k : Int)) = (n * Nat.pow 2 k, 1) := by
  simp [scaled]

theorem exponentOf_one (hpos : 0 < n) (hn : n < Nat.pow 2 53) :
    exponentOf n 1 = -(shiftOf n : Int) := by
  have hshift := log2_add_shiftOf hn
  have hestimate : (n.log2 : Int) - (Nat.log2 1 : Nat) - 52 = -(shiftOf n : Int) := by
    have hone : Nat.log2 1 = 0 := by decide
    rw [hone]
    omega
  have hnormal : ¬ n * Nat.pow 2 (shiftOf n) < 1 * Nat.pow 2 52 := by
    rw [Nat.one_mul]
    exact Nat.not_lt.2 (pow_52_le_shifted hpos hn)
  have hleast : leastExponent ≤ -(shiftOf n : Int) := by
    unfold leastExponent
    omega
  unfold exponentOf
  simp only [hestimate, scaled_shift]
  rw [if_neg hnormal]
  exact Int.max_eq_left hleast

theorem ofRounded_of_ne {negative : Bool} {rounded : Nat} {exponent : Int}
    (hcarry : rounded ≠ Nat.pow 2 53) (hfinite : exponent ≤ greatestExponent) :
    ofRounded negative rounded exponent = .finite negative rounded exponent := by
  have hcarry : ¬ (rounded == Nat.pow 2 53) = true := mt eq_of_beq hcarry
  unfold ofRounded
  rw [if_neg hcarry]
  exact if_neg (Int.not_lt.2 hfinite)

/-- A positive number below `2 ^ 53` is not rounded. -/
theorem ofRatio_one (negative : Bool) (hpos : 0 < n) (hn : n < Nat.pow 2 53) :
    ofRatio negative n 1 = .finite negative (n * Nat.pow 2 (shiftOf n)) (-(shiftOf n : Int)) := by
  have hcarry := Nat.ne_of_lt (shifted_lt_pow_53 hn)
  have hfinite : -(shiftOf n : Int) ≤ greatestExponent := by
    unfold greatestExponent
    omega
  unfold ofRatio
  simp only [exponentOf_one hpos hn, scaled_shift, roundDiv_one]
  exact ofRounded_of_ne hcarry hfinite

end

/-- The exponent undoes the shift. -/
theorem toInt?_shifted (n k : Nat) :
    (finite false (n * Nat.pow 2 k) (-(k : Int))).toInt? = some (n : Int) := by
  unfold toInt?
  cases k with
  | zero => simp
  | succ k =>
      have hneg : ¬ (0 : Int) ≤ -((k + 1 : Nat) : Int) := by omega
      have hplaces : (- -((k + 1 : Nat) : Int)).toNat = k + 1 := by omega
      have hmod : n * Nat.pow 2 (k + 1) % Nat.pow 2 (k + 1) = 0 := Nat.mul_mod_left _ _
      have hdiv : n * Nat.pow 2 (k + 1) / Nat.pow 2 (k + 1) = n :=
        Nat.mul_div_cancel _ (Nat.two_pow_pos _)
      simp only [hplaces, Bool.false_eq_true, if_false]
      rw [if_neg hneg, hmod, hdiv]
      rfl

theorem ofDecimal_whole (negative : Bool) {n : Nat} (hpos : 0 < n) :
    ofDecimal negative n 0 = ofRatio negative n 1 := by
  have hne : ¬ (n == 0) = true := by
    rw [beq_iff_eq]
    exact Nat.ne_of_gt hpos
  unfold ofDecimal
  rw [if_neg hne, if_neg (by decide), if_neg (by omega)]
  simp

theorem toInt?_ofDecimal {n : Nat} (hn : n < Nat.pow 2 53) :
    (ofDecimal false n 0).toInt? = some (n : Int) := by
  rcases Nat.eq_zero_or_pos n with rfl | hpos
  · decide +kernel
  · rw [ofDecimal_whole false hpos, ofRatio_one false hpos hn, toInt?_shifted]

end Binary64

/-- A whole number that is safe is given as an integer. -/
theorem Literal.toValue_ofDecimal {n : Nat} (hn : n ≤ greatestSafeInteger) :
    (Literal.number (.ofDecimal false n 0)).toValue = .integer n := by
  have hlt : n < Nat.pow 2 53 := Nat.lt_of_le_of_lt hn (by decide)
  unfold Literal.toValue
  simp only [Binary64.toInt?_ofDecimal hlt, Int.natAbs_natCast, if_pos hn]

end LijsCompiler
