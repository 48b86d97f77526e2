import ScriptRepl.Console.Buffer
import ScriptRepl.Text.Escape
import ScriptRepl.Text.Style

/-! What is written to the terminal to show the line. The screen remembers how many rows below the first row of the
line it left the cursor, so that it can paint over what it painted before. -/
namespace ScriptRepl.Console

open Text (Color displayWidth)

inductive Command where
  | hideCursor
  | showCursor
  | up (rows : Nat)
  | column (n : Nat)
  | clearBelow
  | clearAll
  | clearScrollback
  | home
  | print (text : String)
  deriving DecidableEq, Repr

namespace Command

/-- Counts are sent as numbers of 16 bits, columns from one. -/
def text : Command → String
  | hideCursor => "\x1b[?25l"
  | showCursor => "\x1b[?25h"
  | up rows => "\x1b[" ++ toString (rows % 65536) ++ "A"
  | column n => "\x1b[" ++ toString (n % 65536 + 1) ++ "G"
  | clearBelow => "\x1b[J"
  | clearAll => "\x1b[2J"
  | clearScrollback => "\x1b[3J"
  | home => "\x1b[1;1H"
  | print s => s

def newline : Command :=
  print "\r\n"

end Command

structure Frame where
  prompt : String
  /-- The line with its colours. -/
  line : String
  /-- The line without colours up to the cursor. -/
  beforeCursor : String
  suffix : Option Suffix
  deriving DecidableEq, Repr

structure Screen where
  columns : Nat
  columns_pos : 0 < columns
  /-- Rows between the first row of the line and the cursor. -/
  cursorRow : Nat := 0
  ghost : Color := .darkGrey
  highlight : Color := .reset
  deriving DecidableEq, Repr

namespace Screen

/-- A terminal has at least one column. -/
def ofColumns (columns : Nat) (ghost highlight : Color) : Screen :=
  { columns := max 1 columns, columns_pos := by omega, ghost, highlight }

def setColumns (s : Screen) (columns : Nat) : Screen :=
  { s with columns := max 1 columns, columns_pos := by omega }

/-- Goes back to the first row of the line and clears it and what is below. -/
def begin (s : Screen) : List Command :=
  [.hideCursor] ++ (if 0 < s.cursorRow then [.up s.cursorRow] else []) ++ [.column 0, .clearBelow]

/-- A terminal leaves the cursor in the last column after filling a row. A new row brings it to where the width says
it is. -/
def settle (s : Screen) (width : Nat) : List Command :=
  if 0 < width && width % s.columns = 0 then [.newline] else []

/-- What is behind a line of the given width, and the row on which it ends. A preview has a row of its own. -/
def behind (s : Screen) (width : Nat) : Option Suffix → List Command × Nat
  | none => (s.settle width, width / s.columns)
  | some ⟨text, .preview⟩ =>
    let preview := Text.truncate (s.columns - 1) text
    (s.settle width ++ [.newline, .print (Text.Style.paint s.ghost preview)], width / s.columns + 1)
  | some ⟨text, _⟩ =>
    let width := width + displayWidth text
    (.print (Text.Style.paint s.ghost text) :: s.settle width, width / s.columns)

def render (s : Screen) (f : Frame) : List Command × Screen :=
  let (behind, lastRow) := s.behind (displayWidth f.prompt + displayWidth f.line) f.suffix
  let target := displayWidth f.prompt + displayWidth f.beforeCursor
  let row := target / s.columns
  let back := if row < lastRow then [.up (lastRow - row)] else []
  (s.begin ++ [.print f.prompt, .print f.line] ++ behind ++ back ++ [.column (target % s.columns), .showCursor],
    { s with cursorRow := row })

def searchLabel : String := "(reverse-i-search): "

/-- Paints the line that was found above the text that is searched for. -/
def renderSearch (s : Screen) (found : Option String) (query : String) : List Command × Screen :=
  let line := (found.map (Text.underline query)).getD ""
  let label := searchLabel ++ query
  (s.begin ++ [.print (Text.Style.paint s.highlight line)] ++ s.settle (displayWidth line) ++
      [.newline, .print label, .showCursor] ++ s.settle (displayWidth label),
    { s with cursorRow := displayWidth line / s.columns + 1 + displayWidth label / s.columns })

def newline (s : Screen) : List Command × Screen :=
  ([.newline], { s with cursorRow := 0 })

/-- Puts a carriage return before each line feed that has none; `last` is the character before the text. -/
def rawLines (last : Char) : List Char → List Char
  | [] => []
  | c :: cs => (if c = '\n' && last ≠ '\r' then ['\r', '\n'] else [c]) ++ rawLines c cs

def print (s : Screen) (text : String) : List Command × Screen :=
  ([.print (String.ofList (rawLines '\x00' text.toList))], { s with cursorRow := 0 })

def clear (s : Screen) : List Command × Screen :=
  ([.clearAll, .clearScrollback, .home], { s with cursorRow := 0 })

end Screen

end ScriptRepl.Console
