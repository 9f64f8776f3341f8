import Lox.Binary64

set_option autoImplicit false

namespace Lox

structure Decimal where
  mantissa : Nat
  places : Nat
deriving DecidableEq

namespace Decimal

def ofDigits (whole fraction : List Char) : Decimal :=
  ⟨Nat.ofDigitChars 10 (whole ++ fraction) 0, fraction.length⟩

def wholeDigits (d : Decimal) : List Char :=
  Nat.toDigits 10 (d.mantissa / Nat.pow 10 d.places)

def fractionDigits (d : Decimal) : List Char :=
  if d.places = 0 then []
  else (Nat.toDigits 10 (d.mantissa % Nat.pow 10 d.places)).leftpad d.places '0'

theorem of_digits_text (d : Decimal) : ofDigits d.wholeDigits d.fractionDigits = d := by
  obtain ⟨mantissa, places⟩ := d
  by_cases whole : places = 0
  · subst whole
    simp [ofDigits, wholeDigits, fractionDigits, Nat.ofDigitChars_toDigits]
  · have positive : 0 < 10 ^ places := Nat.pow_pos (by decide)
    have width : (Nat.toDigits 10 (mantissa % 10 ^ places)).length ≤ places :=
      (Nat.length_toDigits_le_iff (by decide) (by omega)).mpr (Nat.mod_lt _ positive)
    have length : (fractionDigits ⟨mantissa, places⟩).length = places := by
      simp [fractionDigits, whole, List.leftpad]
      omega
    have value : Nat.ofDigitChars 10 (fractionDigits ⟨mantissa, places⟩) 0 = mantissa % 10 ^ places := by
      simp [fractionDigits, whole, List.leftpad, Nat.ofDigitChars_append,
        Nat.ofDigitChars_replicate_zero, Nat.ofDigitChars_toDigits]
    rw [ofDigits, Nat.ofDigitChars_append, Nat.ofDigitChars_eq_ofDigitChars_zero, value, length,
      wholeDigits, Nat.ofDigitChars_toDigits (by decide) (by decide)]
    simp only [Nat.pow_eq, Nat.div_add_mod]

def pointed (whole : List Char) : List Char → List Char
  | [] => whole
  | digit :: digits => whole ++ '.' :: digit :: digits

def text (d : Decimal) : List Char :=
  pointed d.wholeDigits d.fractionDigits

def encoding (d : Decimal) : Nat :=
  Binary64.ofQuotient d.mantissa (Nat.pow 10 d.places)

def toFloat (d : Decimal) : Float :=
  Binary64.ofMagnitude d.encoding

end Decimal
end Lox
