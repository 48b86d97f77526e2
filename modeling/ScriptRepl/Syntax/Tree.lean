import ScriptRepl.Syntax.Token

/-! Programs as trees. Assignments are told apart by their target, so a tree has no target that cannot be assigned. -/
namespace ScriptRepl.Syntax

inductive UnaryOp where
  | negate
  | plus
  | not
  | typeof
  deriving DecidableEq, Repr

inductive BinaryOp where
  | add | sub | mul | div | rem | pow
  | eq | ne | strictEq | strictNe
  | lt | gt | le | ge
  deriving DecidableEq, Repr

inductive LogicalOp where
  | and
  | or
  | nullish
  deriving DecidableEq, Repr

inductive Expr where
  | number (x : Float)
  | text (s : String)
  | template (head : String) (parts : List (Expr × String))
  | literal (l : Literal)
  | name (s : String)
  | array (items : List Expr)
  | object (fields : List (String × Expr))
  | member (object : Expr) (key : String)
  | index (object key : Expr)
  | call (callee : Expr) (args : List Expr)
  | unary (op : UnaryOp) (operand : Expr)
  | binary (op : BinaryOp) (left right : Expr)
  | logical (op : LogicalOp) (left right : Expr)
  | conditional (test yes no : Expr)
  | assignName (target : String) (value : Expr)
  | assignMember (object : Expr) (key : String) (value : Expr)
  | assignIndex (object key value : Expr)

inductive Stmt where
  | expr (e : Expr)
  | decl (kind : DeclKind) (name : String) (init : Option Expr)
  | empty

abbrev Program := List Stmt

inductive SyntaxCause where
  | lexical (cause : LexCause)
  | unexpected (found : TokenKind)
  | endOfInput
  | nesting
  | missingInitializer
  | invalidTarget
  /-- The fault lies in a hole of a closed template. -/
  | inHole (cause : SyntaxCause)

def describeToken : TokenKind → String
  | .number _ => "Unexpected number"
  | .text _ => "Unexpected string"
  | .template _ => "Unexpected template string"
  | .name s => "Unexpected identifier '" ++ s ++ "'"
  | .keyword (.literal (.bool _)) => "Unexpected boolean"
  | .keyword k => "Unexpected token '" ++ k.text ++ "'"
  | .punct p => "Unexpected token '" ++ p.text ++ "'"
  | .comment => "Unexpected token"

namespace SyntaxCause

def message : SyntaxCause → String
  | lexical cause => cause.message
  | unexpected found => describeToken found
  | endOfInput => "Unexpected end of input"
  | nesting => "Maximum nesting depth exceeded"
  | missingInitializer => "Missing initializer in const declaration"
  | invalidTarget => "Invalid left-hand side in assignment"
  | inHole cause => cause.message

/-- Whether more lines may mend the fault: the source ends inside a construct, or inside a token that may go on in
the next line. -/
def mayContinue : SyntaxCause → Bool
  | endOfInput => true
  | lexical (.unterminatedText continued) => continued
  | lexical .unterminatedTemplate => true
  | lexical .unterminatedComment => true
  | _ => false

end SyntaxCause

structure SyntaxError where
  cause : SyntaxCause
  offset : Nat

def SyntaxError.message (e : SyntaxError) : String :=
  e.cause.message

end ScriptRepl.Syntax
