import ScriptRepl.Text.Search
import ScriptRepl.Text.Width

/-! Terminal escape sequences inside a text. A text is read as a list of pieces, each a whole escape sequence or a
character that shows; widths, cuts and underlining are said on the pieces. -/
namespace ScriptRepl.Text

namespace Escape

def isParameter (c : Char) : Bool :=
  c.isDigit || c == ';' || c == '?'

def isIntermediate (c : Char) : Bool :=
  ' ' ≤ c && c ≤ '/'

def isFinal (c : Char) : Bool :=
  '@' ≤ c && c ≤ '~'

/-- What completes an escape sequence of two characters. -/
def isSingle (c : Char) : Bool :=
  ('@' ≤ c && c ≤ 'Z') || ('\\' ≤ c && c ≤ '_')

/-- How many characters a control sequence has after its opening `[`. -/
def controlLength? (cs : List Char) : Option Nat :=
  let parameters := cs.takeWhile isParameter
  let afterParameters := cs.drop parameters.length
  let intermediates := afterParameters.takeWhile isIntermediate
  match afterParameters.drop intermediates.length with
  | c :: _ => if isFinal c then some (parameters.length + intermediates.length + 1) else none
  | [] => none

/-- How many characters an operating system command has after its opening `]`. -/
def commandLength? (cs : List Char) : Option Nat :=
  let body := cs.takeWhile fun c => c != '\x07' && c != '\x1b'
  match cs.drop body.length with
  | '\x07' :: _ => some (body.length + 1)
  | '\x1b' :: '\\' :: _ => some (body.length + 2)
  | _ => none

/-- The length of the escape sequence that the text starts with, less one. A command that never ends counts as its
first two characters. -/
def lengthPred? : List Char → Option Nat
  | '\x1b' :: '[' :: cs => (controlLength? cs).map (· + 1)
  | '\x1b' :: ']' :: cs => some ((commandLength? cs).getD 0 + 1)
  | '\x1b' :: c :: _ => if isSingle c then some 1 else none
  | _ => none

end Escape

inductive Piece where
  | code (text : List Char)
  | shown (c : Char)
  deriving DecidableEq, Repr

/-- Reads escape sequences from left to right; a character that starts none shows. -/
def pieces : List Char → List Piece
  | [] => []
  | c :: cs =>
    match Escape.lengthPred? (c :: cs) with
    | some n => .code (c :: cs.take n) :: pieces (cs.drop n)
    | none => .shown c :: pieces cs
termination_by cs => cs.length
decreasing_by all_goals simp only [List.length_cons, List.length_drop]; omega

def Piece.text : Piece → List Char
  | .code cs => cs
  | .shown c => [c]

theorem pieces_flatMap_text (cs : List Char) : (pieces cs).flatMap Piece.text = cs := by
  fun_induction pieces cs with
  | case1 => rfl
  | case2 c cs n h ih => simp [Piece.text, ih]
  | case3 c cs h ih => simp [Piece.text, ih]

def Piece.shown? : Piece → Option Char
  | .code _ => none
  | .shown c => some c

/-- The characters that show. -/
def visible (cs : List Char) : List Char :=
  (pieces cs).filterMap Piece.shown?

def stripEscapes (s : String) : String :=
  String.ofList (visible s.toList)

/-- Columns that the characters take as they stand. -/
def columnsOf : List Char → Nat
  | [] => 0
  | c :: cs => columns c + columnsOf cs

/-- Columns that a text takes on the terminal; escape sequences take none. -/
def displayWidth (s : String) : Nat :=
  columnsOf (visible s.toList)

/-- The longest start of the text that takes at most `room` columns. -/
def fitting : Nat → List Char → List Char
  | _, [] => []
  | room, c :: cs => if columns c ≤ room then c :: fitting (room - columns c) cs else []

/-- Cuts a text that is wider than `room` columns and marks the cut with an ellipsis. -/
def truncate (room : Nat) (s : String) : String :=
  if displayWidth s ≤ room then s
  else if room = 0 then ""
  else String.ofList (fitting (room - 1) s.toList ++ ['…'])

namespace Underline

def start : List Char := "\x1b[4m".toList

def stop : List Char := "\x1b[24m".toList

/-- Underlines the shown characters numbered from `first` up to `last`; `n` is the number of the next one and `on`
says whether the last one was underlined. After each code inside the line starts again, since a code may end it. -/
def between (first last : Nat) : (n : Nat) → (on : Bool) → List Piece → List Char
  | _, on, [] => if on then stop else []
  | n, on, .code cs :: ps => cs ++ (if on then start else []) ++ between first last n on ps
  | n, on, .shown c :: ps =>
    let opens := n == first && !on
    let closes := n == last && (on || opens)
    (if opens then start else []) ++ (if closes then stop else []) ++
      c :: between first last (n + 1) ((on || opens) && !closes) ps

end Underline

/-- Underlines the first occurrence of `needle` among the characters that show. -/
def underline (needle : String) (line : String) : String :=
  if needle.isEmpty then line
  else
    match find? needle.toList (visible line.toList) with
    | none => line
    | some first =>
      String.ofList (Underline.between first (first + needle.length) 0 false (pieces line.toList))

end ScriptRepl.Text
