import Lox.Binary64
import Mathlib

set_option autoImplicit false

namespace Lox.Binary64

open Float.Model Float.Model.UnpackedFloat

structure ActsOnSign (act : UnpackedFloat → UnpackedFloat) (onSign : Sign → Sign) : Prop where
  notANumber : act .notANumber = .notANumber
  infinity : ∀ sign, act (.infinity sign) = .infinity (onSign sign)
  zero : ∀ sign, act (.zero sign) = .zero (onSign sign)
  finite : ∀ sign mantissa exponent positive, act (.finite sign mantissa exponent positive) =
    .finite (onSign sign) mantissa exponent positive

theorem neg_acts : ActsOnSign UnpackedFloat.neg (- ·) :=
  ⟨rfl, fun _ => rfl, fun _ => rfl, fun _ _ _ _ => rfl⟩

theorem abs_acts : ActsOnSign UnpackedFloat.abs fun _ => .positive :=
  ⟨rfl, fun _ => rfl, fun _ => rfl, fun _ _ _ _ => rfl⟩

structure Fields where
  sign : Sign
  exponent : BitVec 11
  significand : BitVec 52

namespace Fields

def bits (fields : Fields) : BitVec 64 :=
  packComponents .binary64 fields.sign fields.exponent fields.significand

def ofBits (bits : BitVec 64) : Fields :=
  ⟨Sign.ofBitVec (@unpackSign .binary64 bits), @unpackExponent .binary64 bits,
    @unpackMantissa .binary64 bits⟩

-- An exponent field of all ones is left to the infinities and to NaN.
def Finite (fields : Fields) : Prop := fields.exponent ≠ -1#11

theorem bits_to_nat (fields : Fields) :
    fields.bits.toNat = fields.sign.toBitVec.toNat * 2 ^ 63 +
      (fields.exponent.toNat * 2 ^ 52 + fields.significand.toNat) := by
  have exponent := fields.exponent.isLt
  have significand := fields.significand.isLt
  simp only [bits, packComponents, BitVec.toNat_append]
  rw [← Nat.shiftLeft_add_eq_or_of_lt exponent, ← Nat.shiftLeft_add_eq_or_of_lt significand]
  simp only [Nat.shiftLeft_eq]
  omega

theorem bits_of_bits (bits : BitVec 64) : (ofBits bits).bits = bits :=
  @packComponents_unpackSign_unpackExponent_unpackMantissa .binary64 bits

theorem of_bits_bits (fields : Fields) : ofBits fields.bits = fields := by
  rw [ofBits, bits, unpackExponent_packComponents, unpackMantissa_packComponents,
    unpackSign_packComponents, Sign.ofBitVec_toBitVec]

theorem unpack_bits (fields : Fields) :
    UnpackedFloat.unpack .binary64 fields.bits =
      if fields.exponent = -1#11 then
        if fields.significand = 0#52 then .infinity fields.sign else .notANumber
      else if fields.exponent = 0#11 then
        if zero : fields.significand = 0#52 then .zero fields.sign
        else .finite fields.sign fields.significand.toNat (fields.exponent.toNat - 1075 + 1)
          (by simpa [BitVec.toNat_pos, BitVec.pos_iff_ne_zero] using zero)
      else .finite fields.sign (1#1 ++ fields.significand).toNat (fields.exponent.toNat - 1075)
        (by rw [BitVec.toNat_append, ← Nat.shiftLeft_add_eq_or_of_lt fields.significand.isLt]; simp) := by
  rw [UnpackedFloat.unpack]
  simp only [bits, unpackExponent_packComponents, unpackMantissa_packComponents,
    unpackSign_packComponents, Sign.ofBitVec_toBitVec]
  rfl

theorem pack_unpack {fields : Fields} (finite : fields.Finite) :
    UnpackedFloat.pack .binary64 (UnpackedFloat.unpack .binary64 fields.bits) = fields.bits := by
  have number : ¬ @isNaNBits .binary64 fields.bits = true := by
    rw [isNaNBits, bits, unpackExponent_packComponents]
    simpa using fun special => absurd special finite
  rw [@UnpackedFloat.pack_unpack .binary64 fields.bits (by decide), if_neg number]

theorem unpack_acts {act : UnpackedFloat → UnpackedFloat} {onSign : Sign → Sign}
    (acts : ActsOnSign act onSign) (fields : Fields) :
    act (UnpackedFloat.unpack .binary64 fields.bits) =
      UnpackedFloat.unpack .binary64 (bits { fields with sign := onSign fields.sign }) := by
  rw [unpack_bits, unpack_bits]
  dsimp only
  split
  · split
    · exact acts.infinity _
    · exact acts.notANumber
  · split
    · split
      · exact acts.zero _
      · exact acts.finite _ _ _ _
    · exact acts.finite _ _ _ _

end Fields

def fieldsOf (x : Float) : Fields := .ofBits x.toBits.toBitVec

theorem bits_fields (x : Float) : (fieldsOf x).bits = x.toBits.toBitVec := Fields.bits_of_bits _

theorem is_finite_iff (x : Float) : x.isFinite = true ↔ (fieldsOf x).Finite := by
  have read : x.isFinite = (UnpackedFloat.unpack .binary64 (fieldsOf x).bits).isFinite := by
    rw [bits_fields]
    rfl
  rw [read, Fields.unpack_bits, Fields.Finite]
  by_cases special : (fieldsOf x).exponent = -1#11
  · rw [if_pos special]
    refine ⟨?_, fun finite => absurd special finite⟩
    split <;> exact fun finite => (by cases finite)
  · rw [if_neg special]
    refine ⟨fun _ => special, fun _ => ?_⟩
    split
    · split <;> rfl
    · rfl

theorem fields_acts {act : UnpackedFloat → UnpackedFloat} {onSign : Sign → Sign}
    (acts : ActsOnSign act onSign) {x y : Float} (finite : x.isFinite = true)
    (packed : y.toBits.toBitVec =
      UnpackedFloat.pack .binary64 (act (UnpackedFloat.unpack .binary64 x.toBits.toBitVec))) :
    fieldsOf y = { fieldsOf x with sign := onSign (fieldsOf x).sign } := by
  have finite : Fields.Finite { fieldsOf x with sign := onSign (fieldsOf x).sign } :=
    (is_finite_iff x).mp finite
  rw [fieldsOf, packed, ← bits_fields, Fields.unpack_acts acts, Fields.pack_unpack finite,
    Fields.of_bits_bits]

theorem fields_abs {x : Float} (finite : x.isFinite = true) :
    fieldsOf x.abs = { fieldsOf x with sign := .positive } := fields_acts abs_acts finite rfl

theorem fields_neg {x : Float} (finite : x.isFinite = true) :
    fieldsOf (-x) = { fieldsOf x with sign := -(fieldsOf x).sign } := fields_acts neg_acts finite rfl

theorem fields_injective {x y : Float} (same : fieldsOf x = fieldsOf y) : x = y := by
  rw [← Float.toBits_inj, ← UInt64.toBitVec_inj, ← bits_fields, ← bits_fields, same]

theorem abs_finite {x : Float} (finite : x.isFinite = true) : x.abs.isFinite = true := by
  rw [is_finite_iff, fields_abs finite]
  exact (is_finite_iff x).mp finite

theorem to_nat_fields (x : Float) :
    x.toBits.toNat = (fieldsOf x).sign.toBitVec.toNat * 2 ^ 63 +
      ((fieldsOf x).exponent.toNat * 2 ^ 52 + (fieldsOf x).significand.toNat) := by
  rw [← Fields.bits_to_nat, bits_fields]
  rfl

theorem magnitude_fields (x : Float) :
    magnitude x = (fieldsOf x).exponent.toNat * 2 ^ 52 + (fieldsOf x).significand.toNat := by
  have exponent := (fieldsOf x).exponent.isLt
  have significand := (fieldsOf x).significand.isLt
  rw [magnitude, to_nat_fields, signPlace]
  omega

theorem is_negative_iff (x : Float) : isNegative x = true ↔ (fieldsOf x).sign = .negative := by
  have exponent := (fieldsOf x).exponent.isLt
  have significand := (fieldsOf x).significand.isLt
  rw [isNegative, to_nat_fields, signPlace, decide_eq_true_iff]
  cases (fieldsOf x).sign with
  | negative => simp [Sign.toBitVec]
  | positive => simp [Sign.toBitVec]; omega

theorem magnitude_finite {x : Float} (finite : x.isFinite = true) : magnitude x < infinity := by
  have exponent := (fieldsOf x).exponent.isLt
  have significand := (fieldsOf x).significand.isLt
  have other : (fieldsOf x).exponent.toNat ≠ 2047 := fun same =>
    (is_finite_iff x).mp finite (BitVec.eq_of_toNat_eq same)
  rw [magnitude_fields, infinity]
  omega

theorem of_magnitude_abs {x : Float} (finite : x.isFinite = true) :
    ofMagnitude (magnitude x) = x.abs := by
  have encoding : magnitude x = x.abs.toBits.toNat := by
    rw [to_nat_fields, fields_abs finite, magnitude_fields]
    simp [Sign.toBitVec]
  rw [ofMagnitude, encoding, UInt64.ofNat_toNat, Float.ofBits_toBits]

theorem abs_positive {x : Float} (finite : x.isFinite = true) (clear : isNegative x = false) :
    x.abs = x := by
  apply fields_injective
  rw [fields_abs finite]
  cases sign : (fieldsOf x).sign with
  | positive => rw [← sign]
  | negative =>
    rw [(is_negative_iff x).mpr sign] at clear
    cases clear

theorem neg_abs {x : Float} (finite : x.isFinite = true) (negative : isNegative x = true) :
    -x.abs = x := by
  apply fields_injective
  rw [fields_neg (abs_finite finite), fields_abs finite]
  have sign : (fieldsOf x).sign = -Sign.positive := (is_negative_iff x).mp negative
  dsimp only
  rw [← sign]

theorem of_magnitude_bits {encoding : Nat} (below : encoding < infinity) :
    (ofMagnitude encoding).toBits.toNat = encoding := by
  have size : encoding < 2 ^ 64 := Nat.lt_trans below (by decide)
  have whole : (UInt64.ofNat encoding).toBitVec.toNat = encoding := Nat.mod_eq_of_lt size
  have same := Fields.bits_of_bits (UInt64.ofNat encoding).toBitVec
  have fields := Fields.bits_to_nat (.ofBits (UInt64.ofNat encoding).toBitVec)
  rw [same, whole] at fields
  have finite : Fields.Finite (.ofBits (UInt64.ofNat encoding).toBitVec) := by
    intro special
    rw [special] at fields
    simp [infinity] at fields below
    omega
  have packed : (ofMagnitude encoding).toBits.toBitVec = UnpackedFloat.pack .binary64
      (UnpackedFloat.unpack .binary64 (UInt64.ofNat encoding).toBitVec) := rfl
  have unpacked := Fields.pack_unpack finite
  rw [same, ← packed] at unpacked
  rw [← UInt64.toNat_toBitVec, unpacked, whole]

theorem of_magnitude_finite {encoding : Nat} (below : encoding < infinity) :
    (ofMagnitude encoding).isFinite = true ∧ isNegative (ofMagnitude encoding) = false := by
  have bits := of_magnitude_bits below
  constructor
  · rw [is_finite_iff]
    intro special
    rw [to_nat_fields, special] at bits
    simp [infinity] at bits below
    omega
  · rw [isNegative, bits, decide_eq_false_iff_not, signPlace]
    simp only [infinity] at below
    omega

theorem of_magnitude_infinity : (ofMagnitude infinity).isInf = true := by decide +kernel

end Lox.Binary64
