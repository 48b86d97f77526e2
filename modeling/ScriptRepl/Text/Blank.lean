/-! Blank space: the characters with the property White_Space, the line ends among them, and the text operations
that see nothing else of a character. -/
namespace ScriptRepl.Text

/-- Exactly the characters with the property White_Space. -/
def isBlank (c : Char) : Bool :=
  if c.toNat < 0x80 then c == ' ' || (0x09 ≤ c.toNat && c.toNat ≤ 0x0d)
  else
    c.toNat == 0x85 || c.toNat == 0xa0 || c.toNat == 0x1680 || (0x2000 ≤ c.toNat && c.toNat ≤ 0x200a) ||
      c.toNat == 0x2028 || c.toNat == 0x2029 || c.toNat == 0x202f || c.toNat == 0x205f || c.toNat == 0x3000

def isLineEnd (c : Char) : Bool :=
  c == '\n' || c == '\r' || c == '\u2028' || c == '\u2029'

theorem isBlank_of_isLineEnd {c : Char} (h : isLineEnd c = true) : isBlank c = true := by
  simp only [isLineEnd, Bool.or_eq_true, beq_iff_eq] at h
  rcases h with ((rfl | rfl) | rfl) | rfl <;> decide

def trimLeft (cs : List Char) : List Char :=
  cs.dropWhile isBlank

def trimRight (cs : List Char) : List Char :=
  (cs.reverse.dropWhile isBlank).reverse

def trimBoth (cs : List Char) : List Char :=
  trimRight (trimLeft cs)

/-- The maximal runs of characters that are not blank. -/
def words : List Char → List (List Char)
  | [] => []
  | c :: cs =>
    if isBlank c then words cs
    else
      match cs with
      | [] => [[c]]
      | d :: _ =>
        if isBlank d then [c] :: words cs
        else
          match words cs with
          | w :: ws => (c :: w) :: ws
          | [] => [[c]]

/-- The words of a text with one space between each two. -/
def collapse (s : String) : String :=
  String.ofList (List.intercalate [' '] (words s.toList))

def isBlankText (s : String) : Bool :=
  s.toList.all isBlank

end ScriptRepl.Text
