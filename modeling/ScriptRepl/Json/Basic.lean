import ScriptRepl.Dict
import ScriptRepl.Number.Text
import ScriptRepl.Text.Cursor
import ScriptRepl.Text.Printable

/-! JSON values, and what can be wrong with a JSON text. -/
namespace ScriptRepl

namespace Json

/-- A whole number of at most 64 bits is kept exactly. -/
inductive Num where
  | whole (n : Int)
  | real (x : Float)

end Json

inductive Json where
  | null
  | bool (b : Bool)
  | number (n : Json.Num)
  | text (s : String)
  | array (items : List Json)
  | object (fields : List (String × Json))
  deriving Inhabited

namespace Json

def Num.toFloat : Num → Float
  | .whole n => Number.ofInt n
  | .real x => x

/-- A number with a fraction mark or an exponent: positional from `10 ^ -5` up to `10 ^ 16`. -/
def spellReal (x : Float) : String :=
  match Number.Binary.ofFloat? x with
  | none => "null"
  | some b =>
    Number.withSign b.negative <|
      if b.mantissa = 0 then "0.0"
      else
        let d := Number.shortest .toEven b
        let top := d.magnitude
        if top < -5 ∨ 15 < top then
          Number.scientificDigits d ++ "e" ++ (if top < 0 then "-" else "+") ++ toString top.natAbs
        else if 0 ≤ d.exponent then Number.positional d ++ ".0"
        else Number.positional d

def Num.spell : Num → String
  | .whole n => toString n
  | .real x => spellReal x

/-- What a message says was found in place of what was expected. -/
inductive Found where
  | null
  | bool (b : Bool)
  | number (n : Num)
  | text (s : String)
  | sequence
  | map

def Found.describe : Found → String
  | .null => "null"
  | .bool b => "boolean " ++ tick (if b then "true" else "false")
  | .number (.whole n) => "integer " ++ tick (toString n)
  | .number (.real x) => "floating point " ++ tick (spellReal x)
  | .text s => "string " ++ Text.shown s
  | .sequence => "sequence"
  | .map => "map"
where
  tick (s : String) : String := "\x60" ++ s ++ "\x60"

inductive Cause where
  | endInList | endInObject | endInText | endInValue
  | expectedColon | expectedListEnd | expectedObjectEnd | expectedLiteral | expectedValue
  | invalidEscape | invalidNumber | numberOutOfRange | controlCharacter | keyNotText
  | loneSurrogate | unfinishedSurrogate | trailingComma | trailingCharacters | tooDeep
  | wrongType (found : Found) (expected : String)
  | wrongValue (found : Found) (expected : String)
  | duplicateField (name : String)

def Cause.message : Cause → String
  | endInList => "EOF while parsing a list"
  | endInObject => "EOF while parsing an object"
  | endInText => "EOF while parsing a string"
  | endInValue => "EOF while parsing a value"
  | expectedColon => "expected \x60:\x60"
  | expectedListEnd => "expected \x60,\x60 or \x60]\x60"
  | expectedObjectEnd => "expected \x60,\x60 or \x60\x7d\x60"
  | expectedLiteral => "expected ident"
  | expectedValue => "expected value"
  | invalidEscape => "invalid escape"
  | invalidNumber => "invalid number"
  | numberOutOfRange => "number out of range"
  | controlCharacter => "control character (\\u0000-\\u001F) found while parsing a string"
  | keyNotText => "key must be a string"
  | loneSurrogate => "lone leading surrogate in hex escape"
  | unfinishedSurrogate => "unexpected end of hex escape"
  | trailingComma => "trailing comma"
  | trailingCharacters => "trailing characters"
  | tooDeep => "recursion limit exceeded"
  | wrongType found expected => "invalid type: " ++ found.describe ++ ", expected " ++ expected
  | wrongValue found expected => "invalid value: " ++ found.describe ++ ", expected " ++ expected
  | duplicateField name => "duplicate field \x60" ++ name ++ "\x60"

/-- A fault lies before the byte with the given offset. -/
structure Fault where
  cause : Cause
  offset : Nat

/-- Line, from one, and number of bytes in it that lie before the offset. -/
def lineAndColumn (offset : Nat) : (line column n : Nat) → List Char → Nat × Nat
  | line, column, _, [] => (line, column)
  | line, column, n, c :: cs =>
    if offset ≤ n then (line, column)
    else if c == '\n' then lineAndColumn offset (line + 1) 0 (n + 1) cs
    else lineAndColumn offset line (column + min c.utf8Size (offset - n)) (n + c.utf8Size) cs

def Fault.message (f : Fault) (source : String) : String :=
  let (line, column) := lineAndColumn f.offset 1 0 0 source.toList
  f.cause.message ++ " at line " ++ toString line ++ " column " ++ toString column

end Json

end ScriptRepl
