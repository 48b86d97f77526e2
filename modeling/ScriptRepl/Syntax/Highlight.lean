import ScriptRepl.Syntax.Lexer
import ScriptRepl.Text.Style

/-! Colouring a source by the classes of its tokens. -/
namespace ScriptRepl.Syntax

open Text (Color)

/-- Names that are shown like constants. -/
def highlightedNames : List String :=
  ["Math", "JSON", "Object", "Array", "console", "String", "Number", "Boolean", "parseInt", "parseFloat", "isNaN",
   "isFinite", "NaN", "Infinity"]

def TokenKind.color? : TokenKind → Option Color
  | .keyword (.literal _) => some .darkCyan
  | .keyword _ => some .darkGreen
  | .number _ => some .darkBlue
  | .text _ => some .darkGreen
  | .template _ => some .darkGreen
  | .comment => some .darkGrey
  | .name s => if highlightedNames.contains s then some .darkCyan else none
  | .punct _ => none

def TokenKind.paint (kind : TokenKind) (text : String) : String :=
  match kind.color? with
  | some c => Text.Style.paint c text
  | none => text

/-- Paints the tokens of a text; `offset` bytes of the source come before it. What lies between tokens, and what
cannot be read as tokens, stays as it is. -/
def highlightFrom (offset : Nat) (cs : List Char) : List Token → String
  | [] => String.ofList cs
  | t :: ts =>
    let (gap, rest) := Text.splitNear (t.start - offset) cs
    let (word, rest) := Text.splitNear (t.stop - t.start) rest
    String.ofList gap ++ t.kind.paint (String.ofList word) ++ highlightFrom t.stop rest ts

def highlight (source : String) : String :=
  highlightFrom 0 source.toList (lex source).tokens

end ScriptRepl.Syntax
