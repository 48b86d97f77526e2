import ScriptRepl.Text.Letter

/-! The words of the language: keywords, punctuators and the tokens that a source is cut into. -/
namespace ScriptRepl.Syntax

inductive DeclKind where
  | varKind
  | letKind
  | constKind
  deriving DecidableEq, Repr

def DeclKind.text : DeclKind → String
  | .varKind => "var"
  | .letKind => "let"
  | .constKind => "const"

inductive Literal where
  | bool (b : Bool)
  | null
  | undefined
  deriving DecidableEq, Repr

def Literal.text : Literal → String
  | .bool true => "true"
  | .bool false => "false"
  | .null => "null"
  | .undefined => "undefined"

inductive Keyword where
  | decl (kind : DeclKind)
  | literal (l : Literal)
  | typeof
  deriving DecidableEq, Repr

namespace Keyword

def text : Keyword → String
  | decl kind => kind.text
  | literal l => l.text
  | typeof => "typeof"

def all : List Keyword :=
  [decl .varKind, decl .letKind, decl .constKind, literal (.bool true), literal (.bool false), literal .null,
   literal .undefined, typeof]

def ofText? (s : String) : Option Keyword :=
  all.find? (·.text == s)

end Keyword

inductive Punct where
  | strictEq | strictNe | spread | power | eq | ne | le | ge | and | or | nullish | arrow
  | plus | minus | times | divide | percent | lt | gt | assign | not | question | colon | dot | comma | semicolon
  | openParen | closeParen | openBracket | closeBracket | openBrace | closeBrace
  deriving DecidableEq, Repr

namespace Punct

def text : Punct → String
  | strictEq => "==="
  | strictNe => "!=="
  | spread => "..."
  | power => "**"
  | eq => "=="
  | ne => "!="
  | le => "<="
  | ge => ">="
  | and => "&&"
  | or => "||"
  | nullish => "??"
  | arrow => "=>"
  | plus => "+"
  | minus => "-"
  | times => "*"
  | divide => "/"
  | percent => "%"
  | lt => "<"
  | gt => ">"
  | assign => "="
  | not => "!"
  | question => "?"
  | colon => ":"
  | dot => "."
  | comma => ","
  | semicolon => ";"
  | openParen => "("
  | closeParen => ")"
  | openBracket => "["
  | closeBracket => "]"
  | openBrace => "\x7b"
  | closeBrace => "\x7d"

/-- Longer ones first, so that the first that fits is the longest. -/
def all : List Punct :=
  [strictEq, strictNe, spread, power, eq, ne, le, ge, and, or, nullish, arrow,
   plus, minus, times, divide, percent, lt, gt, assign, not, question, colon, dot, comma, semicolon,
   openParen, closeParen, openBracket, closeBracket, openBrace, closeBrace]

end Punct

/-- The source of an expression inside a template and the byte offset where it starts. -/
structure Hole where
  offset : Nat
  source : String
  deriving DecidableEq, Repr

/-- A text before the first hole, and after each hole another one. -/
structure Template where
  head : String
  parts : List (Hole × String)
  deriving DecidableEq, Repr

inductive TokenKind where
  | number (x : Float)
  | text (s : String)
  | template (t : Template)
  | name (s : String)
  | keyword (k : Keyword)
  | punct (p : Punct)
  | comment
  deriving DecidableEq

/-- A token takes the bytes from `start` up to `stop`. -/
structure Token where
  kind : TokenKind
  start : Nat
  stop : Nat
  newlineBefore : Bool

/-- The end of a source that was cut up whole. -/
structure EndMark where
  offset : Nat
  newlineBefore : Bool

inductive LexCause where
  /-- A string that ends with its line; `continued` if the last thing in it is a backslash and a line end. -/
  | unterminatedText (continued : Bool)
  | unterminatedTemplate
  | unterminatedComment
  | invalidNumber
  | unexpectedChar (c : Char)
  deriving DecidableEq, Repr

def LexCause.message : LexCause → String
  | .unterminatedText _ => "Invalid or unexpected token"
  | .unterminatedTemplate => "Unterminated template literal"
  | .unterminatedComment => "Unterminated comment"
  | .invalidNumber => "Invalid or unexpected token"
  | .unexpectedChar c => "Invalid or unexpected token '" ++ c.toString ++ "'"

structure LexError where
  cause : LexCause
  offset : Nat
  deriving DecidableEq, Repr

/-- The tokens up to the end of the source, or up to the first place where no token can be read. -/
structure Lexed where
  tokens : List Token
  result : Except LexError EndMark

def TokenKind.isComment : TokenKind → Bool
  | .comment => true
  | _ => false

end ScriptRepl.Syntax
