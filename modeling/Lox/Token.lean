import Lox.Number

set_option autoImplicit false

namespace Lox

inductive Mark where
  | leftParen | rightParen | leftBrace | rightBrace
  | comma | dot | minus | plus | semicolon | slash | star
  | bang | bangEqual | equal | equalEqual
  | greater | greaterEqual | less | lessEqual
deriving DecidableEq

namespace Mark

def all : List Mark :=
  [leftParen, rightParen, leftBrace, rightBrace, comma, dot, minus, plus, semicolon, slash, star,
   bang, bangEqual, equal, equalEqual, greater, greaterEqual, less, lessEqual]

def spelling : Mark → String
  | .leftParen => "("
  | .rightParen => ")"
  | .leftBrace => "\x7b"
  | .rightBrace => "\x7d"
  | .comma => ","
  | .dot => "."
  | .minus => "-"
  | .plus => "+"
  | .semicolon => ";"
  | .slash => "/"
  | .star => "*"
  | .bang => "!"
  | .bangEqual => "!="
  | .equal => "="
  | .equalEqual => "=="
  | .greater => ">"
  | .greaterEqual => ">="
  | .less => "<"
  | .lessEqual => "<="

def title : Mark → String
  | .leftParen => "LEFT_PAREN"
  | .rightParen => "RIGHT_PAREN"
  | .leftBrace => "LEFT_BRACE"
  | .rightBrace => "RIGHT_BRACE"
  | .comma => "COMMA"
  | .dot => "DOT"
  | .minus => "MINUS"
  | .plus => "PLUS"
  | .semicolon => "SEMICOLON"
  | .slash => "SLASH"
  | .star => "STAR"
  | .bang => "BANG"
  | .bangEqual => "BANG_EQUAL"
  | .equal => "EQUAL"
  | .equalEqual => "EQUAL_EQUAL"
  | .greater => "GREATER"
  | .greaterEqual => "GREATER_EQUAL"
  | .less => "LESS"
  | .lessEqual => "LESS_EQUAL"

def ofSpelling? (text : String) : Option Mark :=
  all.find? fun mark => mark.spelling == text

end Mark

inductive Keyword where
  | and | «class» | «else» | false | «for» | «fun» | «if» | nil
  | or | print | «return» | super | this | true | var | «while»
deriving DecidableEq

namespace Keyword

def all : List Keyword :=
  [.and, .class, .else, .false, .for, .fun, .if, .nil,
   .or, .print, .return, .super, .this, .true, .var, .while]

def spelling : Keyword → String
  | .and => "and"
  | .class => "class"
  | .else => "else"
  | .false => "false"
  | .for => "for"
  | .fun => "fun"
  | .if => "if"
  | .nil => "nil"
  | .or => "or"
  | .print => "print"
  | .return => "return"
  | .super => "super"
  | .this => "this"
  | .true => "true"
  | .var => "var"
  | .while => "while"

def title (word : Keyword) : String :=
  String.ofList (word.spelling.toList.map Char.toUpper)

def ofSpelling? (text : String) : Option Keyword :=
  all.find? fun word => word.spelling == text

end Keyword

-- A literal's kind carries its value, so numbers compare as doubles do: NaN differs
-- from itself and the two zeros agree.
inductive TokenKind where
  | mark (mark : Mark)
  | keyword (word : Keyword)
  | identifier
  | string (value : String)
  | number (value : Float)
  | eof
deriving BEq

def TokenKind.title : TokenKind → String
  | .mark m => m.title
  | .keyword w => w.title
  | .identifier => "IDENTIFIER"
  | .string _ => "STRING"
  | .number _ => "NUMBER"
  | .eof => "EOF"

structure Token where
  kind : TokenKind
  lexeme : String
  line : Nat
deriving BEq

namespace Token

def atEnd (line : Nat) : Token := ⟨.eof, "", line⟩

def isEnd (token : Token) : Bool :=
  match token.kind with
  | .eof => true
  | _ => false

def text (token : Token) : String :=
  let head := token.kind.title ++ " " ++ token.lexeme
  match token.kind with
  | .string value => head ++ " " ++ value
  | .number value => head ++ " " ++ Number.text "inf" value
  | _ => head

end Token
end Lox
