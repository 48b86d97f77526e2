import ScriptRepl.Text.Escape

/-! A table of entries below the line: columns of one width, filled row by row. -/
namespace ScriptRepl.Console

structure Listing where
  columnWidth : Nat
  columns : Nat
  rows : Nat
  deriving DecidableEq, Repr

namespace Listing

/-- Columns are two wider than the widest entry; there are as many as the terminal has room for, and at least one. -/
def ofWidths (widths : List Nat) (terminal : Nat) : Listing :=
  let columnWidth := widths.foldl max 0 + 2
  let columns := max 1 (terminal / columnWidth)
  { columnWidth, columns, rows := (widths.length + columns - 1) / columns }

def ofEntries (entries : List String) (terminal : Nat) : Listing :=
  ofWidths (entries.map Text.displayWidth) terminal

/-- Cuts a list into rows of `n + 1` entries; the last row may be shorter. -/
def chunks (n : Nat) : List α → List (List α)
  | [] => []
  | x :: xs => (x :: xs.take n) :: chunks n (xs.drop n)
termination_by xs => xs.length
decreasing_by simp only [List.length_cons, List.length_drop]; omega

theorem chunks_flatten (n : Nat) (xs : List α) : (chunks n xs).flatten = xs := by
  fun_induction chunks n xs with
  | case1 => rfl
  | case2 x xs ih => simp [ih]

/-- One row: all entries but the last are filled up with spaces. -/
def row (columnWidth : Nat) : List String → String
  | [] => ""
  | [last] => last
  | entry :: rest =>
    entry ++ "".pushn ' ' (columnWidth - Text.displayWidth entry) ++ row columnWidth rest

theorem toList_padding (n : Nat) : ("".pushn ' ' n).toList = List.replicate n ' ' := by
  induction n with
  | zero => rfl
  | succ n ih =>
      rw [List.replicate_succ', ← ih, ← String.toList_push]
      rfl

def newline : String := "\r\n"

/-- The text of a table. It begins on a new line, and an empty line follows it. -/
def format (entries : List String) (terminal : Nat) : String :=
  let table := ofEntries entries terminal
  let rows := (chunks (table.columns - 1) entries).map (row table.columnWidth)
  newline ++ newline.intercalate rows ++ if entries.isEmpty then "" else newline ++ newline

end Listing

end ScriptRepl.Console
