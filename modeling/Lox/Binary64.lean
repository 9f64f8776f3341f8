set_option autoImplicit false

namespace Lox.Binary64

-- One is 2 ^ 1074 units, the unit being the least positive double.
def unitPlaces : Nat := 1074
def unitsPerOne : Nat := Nat.pow 2 unitPlaces
def binade : Nat := 0x10000000000000
def infinity : Nat := 0x7ff0000000000000
def signPlace : Nat := 0x8000000000000000

def droppedPlaces (units : Nat) : Nat := units.log2 - 52

def roundEven (numerator denominator : Nat) : Nat :=
  let quotient := numerator / denominator
  let remainder := numerator % denominator
  if 2 * remainder < denominator ∨ (2 * remainder = denominator ∧ quotient % 2 = 0) then quotient
  else quotient + 1

-- The encoding nearest to numerator / denominator. A significand that rounds up to
-- 2 ^ 53 carries into the exponent field by the same addition.
def ofQuotient (numerator denominator : Nat) : Nat :=
  let units := numerator * unitsPerOne
  let dropped := droppedPlaces (units / denominator)
  min (dropped * binade + roundEven units (denominator * Nat.pow 2 dropped)) infinity

def units (encoding : Nat) : Nat :=
  let dropped := encoding / binade - 1
  (encoding - dropped * binade) * Nat.pow 2 dropped

theorem round_even_exact (quotient denominator : Nat) (positive : 0 < denominator) :
    roundEven (quotient * denominator) denominator = quotient := by
  simp [roundEven, Nat.mul_div_cancel _ positive, positive]

theorem dropped_places_units (encoding : Nat) :
    droppedPlaces (units encoding) = encoding / binade - 1 := by
  simp only [droppedPlaces, units, Nat.pow_eq]
  by_cases small : encoding < binade
  · have none : encoding / binade = 0 := Nat.div_eq_of_lt small
    simp only [none, Nat.zero_sub, Nat.zero_mul, Nat.sub_zero, Nat.pow_zero, Nat.mul_one]
    by_cases zero : encoding = 0
    · simp [zero]
    · have place : encoding < 2 ^ 52 := small
      have := (Nat.log2_lt zero).mpr place
      omega
  · have field : 1 ≤ encoding / binade := (Nat.one_le_div_iff (by decide)).mpr (Nat.le_of_not_lt small)
    have split := Nat.div_add_mod encoding binade
    have low : encoding % binade < binade := Nat.mod_lt _ (by decide)
    generalize encoding / binade = place at *
    obtain ⟨dropped, rfl⟩ : ∃ dropped, place = dropped + 1 := ⟨place - 1, by omega⟩
    have significand : encoding - dropped * binade = binade + encoding % binade := by
      rw [Nat.mul_succ, Nat.mul_comm] at split
      omega
    simp only [Nat.add_sub_cancel, significand]
    have size : (binade + encoding % binade) * 2 ^ dropped ≠ 0 := by
      apply Nat.mul_ne_zero
      · have : 0 < binade := by decide
        omega
      · exact Nat.ne_of_gt (Nat.two_pow_pos dropped)
    have place : ((binade + encoding % binade) * 2 ^ dropped).log2 = 52 + dropped := by
      rw [Nat.log2_eq_iff size]
      constructor
      · rw [Nat.pow_add]
        apply Nat.mul_le_mul_right
        have : (2 : Nat) ^ 52 = binade := by decide
        omega
      · rw [show 52 + dropped + 1 = 53 + dropped by omega, Nat.pow_add]
        apply Nat.mul_lt_mul_of_pos_right _ (Nat.two_pow_pos _)
        have : (2 : Nat) ^ 53 = binade + binade := by decide
        omega
    omega

theorem of_quotient_units (encoding scale : Nat) (finite : encoding < infinity) (positive : 0 < scale) :
    ofQuotient (units encoding * scale) (unitsPerOne * scale) = encoding := by
  have one : 0 < unitsPerOne := by
    unfold unitsPerOne
    generalize unitPlaces = places
    exact Nat.two_pow_pos places
  have denominator : 0 < unitsPerOne * scale := Nat.mul_pos one positive
  have same : units encoding * scale * unitsPerOne = units encoding * (unitsPerOne * scale) := by
    rw [Nat.mul_assoc, Nat.mul_comm scale]
  simp only [ofQuotient, same, Nat.mul_div_cancel _ denominator, dropped_places_units]
  have significand : units encoding * (unitsPerOne * scale) =
      (encoding - (encoding / binade - 1) * binade) *
        (unitsPerOne * scale * Nat.pow 2 (encoding / binade - 1)) := by
    rw [units, Nat.mul_assoc, Nat.mul_comm (Nat.pow 2 _)]
  have carried : 0 < unitsPerOne * scale * Nat.pow 2 (encoding / binade - 1) :=
    Nat.mul_pos denominator (Nat.two_pow_pos _)
  rw [significand, round_even_exact _ _ carried]
  have below : (encoding / binade - 1) * binade ≤ encoding :=
    Nat.le_trans (Nat.mul_le_mul_right _ (Nat.sub_le _ _)) (Nat.div_mul_le_self _ _)
  rw [Nat.add_sub_cancel' below]
  exact Nat.min_eq_left (Nat.le_of_lt finite)

def magnitude (x : Float) : Nat := x.toBits.toNat % signPlace
def isNegative (x : Float) : Bool := signPlace ≤ x.toBits.toNat

def ofMagnitude (encoding : Nat) : Float := Float.ofBits (UInt64.ofNat encoding)

end Lox.Binary64
