import Lox.Decimal.Shortest

set_option autoImplicit false

namespace Lox.Number

-- Zero keeps its sign. Every NaN has one text.
def text (infinity : String) (x : Float) : String :=
  let encoding := Binary64.magnitude x
  if Binary64.infinity < encoding then "NaN"
  else
    let size := if encoding = Binary64.infinity then infinity
      else String.ofList (Decimal.shortest encoding).text
    if Binary64.isNegative x then "-" ++ size else size

end Lox.Number
