import ScriptRepl.Text.LetterCase

/-! Colours of the terminal and the texts that switch them on and off. -/
namespace ScriptRepl.Text

inductive Color where
  | black | darkRed | darkGreen | darkYellow | darkBlue | darkMagenta | darkCyan | grey
  | darkGrey | red | green | yellow | blue | magenta | cyan | white
  | reset
  deriving DecidableEq, Repr

namespace Color

/-- The number of a colour in the terminal's palette; `reset` stands for the terminal's own colour. -/
def index? : Color → Option Nat
  | black => some 0
  | darkRed => some 1
  | darkGreen => some 2
  | darkYellow => some 3
  | darkBlue => some 4
  | darkMagenta => some 5
  | darkCyan => some 6
  | grey => some 7
  | darkGrey => some 8
  | red => some 9
  | green => some 10
  | yellow => some 11
  | blue => some 12
  | magenta => some 13
  | cyan => some 14
  | white => some 15
  | reset => none

def named : List (String × Color) :=
  [("black", black), ("dark_red", darkRed), ("dark_green", darkGreen), ("dark_yellow", darkYellow),
   ("dark_blue", darkBlue), ("dark_magenta", darkMagenta), ("dark_cyan", darkCyan), ("grey", grey),
   ("dark_grey", darkGrey), ("red", red), ("green", green), ("yellow", yellow), ("blue", blue),
   ("magenta", magenta), ("cyan", cyan), ("white", white)]

/-- The colour of a name in any letter case; `reset` is only known in ASCII letters. -/
def ofName? (name : String) : Option Color :=
  if name.toList.map Char.toLower = "reset".toList then some reset
  else named.lookup (String.ofList (lower name.toList))

end Color

namespace Style

def resetForeground : String := "\x1b[39m"

def foreground (c : Color) : String :=
  match c.index? with
  | some n => "\x1b[38;5;" ++ toString n ++ "m"
  | none => resetForeground

def paint (c : Color) (text : String) : String :=
  foreground c ++ text ++ resetForeground

def bold (text : String) : String :=
  "\x1b[1m" ++ text ++ "\x1b[0m"

end Style

end ScriptRepl.Text
