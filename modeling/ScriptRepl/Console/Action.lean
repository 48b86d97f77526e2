import ScriptRepl.Console.Key

/-! What a key does. It depends on the key and on a few facts about the line, and on nothing else. -/
namespace ScriptRepl.Console

inductive Action where
  | left
  | right
  | wordLeft
  | wordRight
  | toStart
  | toEnd
  | older
  | newer
  | search
  | insert (text : String)
  | deleteBackward
  | deleteForward
  | deleteWordBackward
  | deleteToEnd
  | deleteToStart
  | complete
  | accept
  | nextCandidate
  | previousCandidate
  | dismiss
  | submit
  | clearScreen
  | interrupt
  | endOfInput
  | unsupported
  deriving DecidableEq, Repr

/-- What the actions of some keys depend on. -/
structure KeyContext where
  atEnd : Bool := false
  isEmpty : Bool := false
  hasCompletion : Bool := false
  /-- Something is shown behind the line. -/
  hasSuffix : Bool := false
  deriving DecidableEq, Repr

namespace Key

def controlAction (context : KeyContext) (c : Char) : Action :=
  match c with
  | 'a' => .toStart
  | 'b' => .left
  | 'c' => .interrupt
  | 'd' => if context.isEmpty then .endOfInput else .deleteForward
  | 'e' => .toEnd
  | 'f' => if context.hasCompletion && context.atEnd then .accept else .right
  | 'h' => .deleteBackward
  | 'k' => .deleteToEnd
  | 'l' => .clearScreen
  | 'n' => .newer
  | 'p' => .older
  | 'r' => .search
  | 'u' => .deleteToStart
  | 'w' => .deleteWordBackward
  | _ => .unsupported

def altAction (c : Char) : Action :=
  match c with
  | 'b' => .wordLeft
  | 'f' => .wordRight
  | ']' => .nextCandidate
  | '[' => .previousCandidate
  | _ => .unsupported

def action (context : KeyContext) (k : Key) : Action :=
  let plain := !k.ctrl && !k.alt
  match k.name with
  | .text => if plain then .insert k.sequence else .unsupported
  | .char c =>
    if k.ctrl then if k.alt then .unsupported else controlAction context c
    else if k.alt then altAction c
    else .unsupported
  | .enter | .lineFeed => if k.alt then .unsupported else .submit
  | .up => if plain then .older else .unsupported
  | .down => if plain then .newer else .unsupported
  | .left => if plain then .left else .wordLeft
  | .right =>
    if !plain then .wordRight
    else if context.hasCompletion && context.atEnd then .accept
    else .right
  | .home => .toStart
  | .endKey => .toEnd
  | .backspace => if k.alt then .deleteWordBackward else .deleteBackward
  | .delete => .deleteForward
  | .tab => if plain then .complete else .unsupported
  | .escape => if context.hasSuffix then .dismiss else .unsupported
  | .insert | .pageUp | .pageDown | .unknown => .unsupported

end Key

end ScriptRepl.Console
