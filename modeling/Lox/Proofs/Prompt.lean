import Lox.Proofs.Steps

set_option autoImplicit false

namespace Lox

namespace Console

end Console

namespace Console

def told (turns : List Turn) : String :=
  errorLines (turns.flatMap fun turn => turn.answer.errors)

end Console

namespace Machine

end Machine

namespace Console

def after (sources : List String) : Machine := fresh.leave (sources.map .run)

end Console

end Lox
