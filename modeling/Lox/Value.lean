import Lox.Number

set_option autoImplicit false

namespace Lox

-- Values of two kinds are never equal; numbers compare as doubles do.
inductive Value where
  | nil
  | boolean (value : Bool)
  | number (value : Float)
  | string (value : String)
deriving BEq

namespace Value

def isTruthy : Value → Bool
  | .nil => false
  | .boolean value => value
  | .number _ => true
  | .string _ => true

def text : Value → String
  | .nil => "nil"
  | .boolean true => "true"
  | .boolean false => "false"
  | .number value => Number.text "Infinity" value
  | .string value => value

end Value
end Lox
