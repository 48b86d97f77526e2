import ScriptRepl.Text.Bytes
import ScriptRepl.Text.Word

/-! The line that is being edited. The cursor is a byte offset into the text. An operation that changes the text or
moves the cursor takes away what is shown behind the line and starts a new generation; one that has nothing to do
changes nothing. -/
namespace ScriptRepl.Console

inductive SuffixKind where
  /-- Text that can be taken into the line. -/
  | completion
  /-- A remark, such as the arguments that a call still expects. -/
  | hint
  /-- The value of the statement so far. -/
  | preview
  deriving DecidableEq, Repr

/-- What is shown behind the line without being part of it. -/
structure Suffix where
  text : String
  kind : SuffixKind
  deriving DecidableEq, Repr

structure Buffer where
  text : String := ""
  cursor : Nat := 0
  prompt : String
  suffix : Option Suffix := none
  /-- The lines of the statement that are above this one. -/
  committed : String := ""
  generation : Nat := 0
  deriving DecidableEq, Repr

namespace Buffer

def isEmpty (b : Buffer) : Bool :=
  b.text.isEmpty

def sides (b : Buffer) : List Char × List Char :=
  (Text.splitAt? b.cursor b.text.toList).getD (b.text.toList, [])

def before (b : Buffer) : List Char :=
  b.sides.1

def after (b : Buffer) : List Char :=
  b.sides.2

def beforeCursor (b : Buffer) : String :=
  String.ofList b.before

def atEnd (b : Buffer) : Bool :=
  b.cursor = b.text.utf8ByteSize

def statement (b : Buffer) : String :=
  b.committed ++ b.text

def place (b : Buffer) (before after : List Char) : Buffer :=
  { b with
    text := String.ofList (before ++ after)
    cursor := Text.size before
    suffix := none
    generation := b.generation + 1 }

/-- Puts the cursor between two texts, if it is not there already; the answer says whether this changed anything. -/
def edit (b : Buffer) (before after : List Char) : Bool × Buffer :=
  if (before, after) = b.sides then (false, b) else (true, b.place before after)

def insert (b : Buffer) (s : String) : Buffer :=
  (b.edit (b.before ++ s.toList) b.after).2

def deleteBackward (b : Buffer) : Bool × Buffer :=
  b.edit b.before.dropLast b.after

def deleteForward (b : Buffer) : Bool × Buffer :=
  b.edit b.before (b.after.drop 1)

/-- Moves by a number of characters, to the left if it is negative, and not beyond the ends. -/
def move (b : Buffer) (delta : Int) : Bool × Buffer :=
  let n := delta.natAbs
  if delta < 0 then
    let kept := b.before.length - n
    b.edit (b.before.take kept) (b.before.drop kept ++ b.after)
  else b.edit (b.before ++ b.after.take n) (b.after.drop n)

def toStart (b : Buffer) : Bool × Buffer :=
  b.edit [] (b.before ++ b.after)

def toEnd (b : Buffer) : Bool × Buffer :=
  b.edit (b.before ++ b.after) []

theorem sides_append (b : Buffer) : b.before ++ b.after = b.text.toList := by
  unfold before after sides
  cases h : Text.splitAt? b.cursor b.text.toList with
  | none => simp
  | some parts => exact (Text.eq_append_of_splitAt? h).1.symm

theorem sides_place (b : Buffer) (before after : List Char) : (b.place before after).sides = (before, after) := by
  simp [sides, place, Text.splitAt?_size]

theorem sides_edit (b : Buffer) (before after : List Char) : (b.edit before after).2.sides = (before, after) := by
  unfold edit
  split
  · rename_i h
    exact h.symm
  · exact b.sides_place before after

theorem edit_fst (b : Buffer) (before after : List Char) :
    (b.edit before after).1 = true ↔ (before, after) ≠ b.sides := by
  unfold edit
  split <;> simp_all

/-- The text before the cursor, cut where a motion to the left by a word goes. -/
def cutWordLeft (b : Buffer) : List Char × List Char :=
  let kept := b.before.length - (Text.wordLeft b.before).length
  (b.before.take kept, b.before.drop kept)

def wordLeft (b : Buffer) : Bool × Buffer :=
  let (kept, passed) := b.cutWordLeft
  b.edit kept (passed ++ b.after)

def wordRight (b : Buffer) : Bool × Buffer :=
  let passed := Text.wordRight b.after
  b.edit (b.before ++ passed) (b.after.drop passed.length)

def deleteWordBackward (b : Buffer) : Bool × Buffer :=
  b.edit b.cutWordLeft.1 b.after

def clearToCursor (b : Buffer) : Bool × Buffer :=
  b.edit [] b.after

def clearFromCursor (b : Buffer) : Bool × Buffer :=
  b.edit b.before []

/-- Replaces the line; the cursor goes to the last place between characters that is not after the offset. -/
def replace (b : Buffer) (s : String) (cursor : Nat) : Buffer :=
  let (before, after) := Text.splitNear cursor s.toList
  b.place before after

def clear (b : Buffer) : Buffer :=
  b.replace "" 0

def setSuffix (b : Buffer) (suffix : Option Suffix) : Buffer :=
  { b with suffix }

def completion? (b : Buffer) : Option String :=
  match b.suffix with
  | some ⟨text, .completion⟩ => some text
  | _ => none

/-- Takes the completion that is shown into the line, if the cursor is at its end. -/
def accept (b : Buffer) : Bool × Buffer :=
  match b.completion? with
  | some text => if b.atEnd then (true, { b with suffix := none }.insert text) else (false, b)
  | none => (false, b)

/-- Commits the line as part of a statement that goes on with the next one. -/
def continueLine (b : Buffer) (prompt : String) : Buffer :=
  { b with committed := b.statement ++ "\n", prompt }.clear

def reset (b : Buffer) (prompt : String) : Buffer :=
  { b with committed := "", prompt }.clear

end Buffer

end ScriptRepl.Console
