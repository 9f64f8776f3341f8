import Lox.Decimal

set_option autoImplicit false

namespace Lox.Decimal

def atPlace (count : Nat) (place : Int) : Decimal :=
  ⟨count * Nat.pow 10 place.toNat, (-place).toNat⟩

def abovePlace (numerator denominator : Nat) : Int :=
  if denominator ≤ numerator then (Nat.toDigits 10 (numerator / denominator)).length
  else 1 - (Nat.toDigits 10 (denominator / numerator)).length

-- The two neighbours on the grid of 10 ^ place, the nearer first; a tie goes up.
def neighbours (numerator denominator : Nat) (place : Int) : List Decimal :=
  let scaled := numerator * Nat.pow 10 (-place).toNat
  let divisor := denominator * Nat.pow 10 place.toNat
  let lower := scaled / divisor
  if 2 * (scaled % divisor) < divisor then [atPlace lower place, atPlace (lower + 1) place]
  else [atPlace (lower + 1) place, atPlace lower place]

-- Seventeen significant digits always suffice.
def gridCount : Nat := 18

-- A unit is 5 ^ unitPlaces / 10 ^ unitPlaces.
def exact (encoding : Nat) : Decimal :=
  ⟨Binary64.units encoding * Nat.pow 5 Binary64.unitPlaces, Binary64.unitPlaces⟩

def shortest (encoding : Nat) : Decimal :=
  let units := Binary64.units encoding
  let top := abovePlace units Binary64.unitsPerOne
  let found := (List.range gridCount).findSome? fun (step : Nat) =>
    (neighbours units Binary64.unitsPerOne (top - step)).find? fun d => d.encoding == encoding
  found.getD (exact encoding)

theorem exact_encoding (encoding : Nat) (finite : encoding < Binary64.infinity) :
    (exact encoding).encoding = encoding := by
  have tens : Nat.pow 10 Binary64.unitPlaces =
      Binary64.unitsPerOne * Nat.pow 5 Binary64.unitPlaces := by
    unfold Binary64.unitsPerOne
    generalize Binary64.unitPlaces = places
    exact Nat.mul_pow 2 5 places
  have fives : 0 < Nat.pow 5 Binary64.unitPlaces := by
    generalize Binary64.unitPlaces = places
    exact Nat.pow_pos (by decide)
  rw [exact, Decimal.encoding, tens]
  exact Binary64.of_quotient_units encoding _ finite fives

theorem shortest_encoding (encoding : Nat) (finite : encoding < Binary64.infinity) :
    (shortest encoding).encoding = encoding := by
  unfold shortest
  dsimp only
  generalize search : List.findSome? _ _ = found
  cases found with
  | none => exact exact_encoding encoding finite
  | some decimal =>
    obtain ⟨step, _, hit⟩ := List.exists_of_findSome?_eq_some search
    simpa using List.find?_some hit

end Lox.Decimal
