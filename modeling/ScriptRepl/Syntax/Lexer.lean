import ScriptRepl.Number.Numeral
import ScriptRepl.Syntax.Token
import ScriptRepl.Text.Cursor

/-! Cutting a source into tokens. Each reader starts behind the first character of its token and gives the place
behind the last one; `reaches_lexeme` says that it only moves forward, so every token takes at least one character. -/
namespace ScriptRepl.Syntax

open Text (Cursor isBlank isLineEnd isNameStart isNameChar)

namespace Lexer

/-! ### Strings -/

/-- The character of four hexadecimal digits; a plus sign may stand for the first. -/
def hexChar? (cs : List Char) : Option Char :=
  let digits :=
    match cs with
    | '+' :: ds => ds
    | ds => ds
  let n? := digits.foldl (fun n? c => n?.bind fun n => (Number.digitValue? 16 c).map (16 * n + ·)) (some 0)
  match n? with
  | some n => if cs.length = 4 ∧ n.isValidChar then some (Char.ofNat n) else none
  | none => none

/-- What stands for a backslash and the characters after it: one character, or none at a line end. -/
def escape (place : Cursor) : Option Char × Cursor :=
  match place.next? with
  | none => (none, place)
  | some (c, after) =>
    match c with
    | 'n' => (some '\n', after)
    | 't' => (some '\t', after)
    | 'r' => (some '\r', after)
    | 'b' => (some '\x08', after)
    | 'f' => (some '\x0c', after)
    | 'v' => (some '\x0b', after)
    | '0' => (some '\x00', after)
    | 'u' =>
      match hexChar? (after.rest.take 4) with
      | some d => (some d, after.skip 4)
      | none => (some 'u', after)
    | '\r' => (none, if after.peek? = some '\n' then after.skip 1 else after)
    | c => if isLineEnd c then (none, after) else (some c, after)

theorem reaches_escape (place : Cursor) : place.Reaches (escape place).2 := by
  unfold escape
  split
  · exact .refl _
  · rename_i c after h
    have hnext := Cursor.reaches_of_next? h
    split
    all_goals first
      | exact hnext
      | (split <;> first | exact hnext | exact hnext.trans (Cursor.reaches_skip ..))

/-- The text of a string up to its closing quote, or the place where the line or the source ends before it. -/
def quoted (quote : Char) (place : Cursor) : Except Cursor (List Char × Cursor) :=
  match _h : place.next? with
  | none => .error place
  | some (c, after) =>
    if c = '\n' ∨ c = '\r' then .error place
    else if c = quote then .ok ([], after)
    else if c = '\\' then
      match quoted quote (escape after).2 with
      | .ok (cs, stop) => .ok ((escape after).1.toList ++ cs, stop)
      | .error stop => .error stop
    else
      match quoted quote after with
      | .ok (cs, stop) => .ok (c :: cs, stop)
      | .error stop => .error stop
termination_by place.rest.length
decreasing_by
  · have := Cursor.length_lt_of_next? _h
    have := (reaches_escape after).length_le
    omega
  · exact Cursor.length_lt_of_next? _h

/-- Whether a backslash and a line end come last. -/
def endsContinued (cs : List Char) : Bool :=
  match cs.reverse with
  | '\n' :: '\r' :: '\\' :: _ => true
  | c :: '\\' :: _ => isLineEnd c
  | _ => false

/-! ### Templates -/

inductive Inside where
  | code
  | quote (q : Char)
  | escaped (q : Char)

/-- How many characters come before the brace that closes a hole. Braces nest; those in quotes do not count. -/
def holeLength? (n depth : Nat) : Inside → List Char → Option Nat
  | _, [] => none
  | .code, c :: cs =>
    if c = '\x7b' then holeLength? (n + 1) (depth + 1) .code cs
    else if c = '\x7d' then
      match depth with
      | 0 => some n
      | depth + 1 => holeLength? (n + 1) depth .code cs
    else if c = '\'' ∨ c = '"' ∨ c = '\x60' then holeLength? (n + 1) depth (.quote c) cs
    else holeLength? (n + 1) depth .code cs
  | .quote q, c :: cs =>
    holeLength? (n + 1) depth (if c = '\\' then .escaped q else if c = q then .code else .quote q) cs
  | .escaped q, _ :: cs => holeLength? (n + 1) depth (.quote q) cs

/-- Characters up to the first hole, and the holes with the characters after them. -/
structure Pieces where
  head : List Char
  parts : List (Hole × List Char)

def Pieces.push (p : Pieces) (cs : List Char) : Pieces :=
  { p with head := cs ++ p.head }

def Pieces.template (p : Pieces) : Template :=
  ⟨String.ofList p.head, p.parts.map fun (hole, cs) => (hole, String.ofList cs)⟩

/-- The template up to its closing backquote. -/
def pieces? (place : Cursor) : Option (Pieces × Cursor) :=
  match _h : place.next? with
  | none => none
  | some (c, after) =>
    if c = '\x60' then some (⟨[], []⟩, after)
    else if c = '\\' then
      (pieces? (escape after).2).map fun (p, stop) => (p.push (escape after).1.toList, stop)
    else if c = '$' ∧ after.peek? = some '\x7b' then
      let inner := after.skip 1
      match holeLength? 0 0 .code inner.rest with
      | none => none
      | some n =>
        let hole : Hole := ⟨inner.offset, String.ofList (inner.rest.take n)⟩
        (pieces? ((after.skip 1).skip (n + 1))).map fun (p, stop) => (⟨[], (hole, p.head) :: p.parts⟩, stop)
    else (pieces? after).map fun (p, stop) => (p.push [c], stop)
termination_by place.rest.length
decreasing_by
  · have := Cursor.length_lt_of_next? _h
    have := (reaches_escape after).length_le
    omega
  · have := Cursor.length_lt_of_next? _h
    have := ((Cursor.reaches_skip 1 after).trans (Cursor.reaches_skip (n + 1) _)).length_le
    omega
  · exact Cursor.length_lt_of_next? _h

/-! ### Comments and numbers -/

/-- The place behind the end of a comment that spans lines. -/
def blockEnd? (n : Nat) : List Char → Option Cursor
  | '*' :: '/' :: cs => some ⟨n + 2, cs⟩
  | c :: cs => blockEnd? (n + c.utf8Size) cs
  | [] => none

/-- How many characters a point and the digits after it take at the start of the text. -/
def fractionLength (cs : List Char) : Nat :=
  match cs with
  | '.' :: r => 1 + (r.takeWhile Number.isDigit).length
  | _ => 0

/-- How many characters the sign of an exponent takes. -/
def signLength (cs : List Char) : Nat :=
  if cs.head? = some '+' ∨ cs.head? = some '-' then 1 else 0

/-- How many characters an exponent takes at the start of the text; none if it has no digits. -/
def exponentLength? (cs : List Char) : Option Nat :=
  match cs with
  | c :: r =>
    if c = 'e' ∨ c = 'E' then
      let digits := ((r.drop (signLength r)).takeWhile Number.isDigit).length
      if digits = 0 then none else some (1 + signLength r + digits)
    else some 0
  | [] => some 0

/-- How many characters the number takes at the start of the text; none if its exponent has no digits or a name
follows at once. -/
def numberLength? (cs : List Char) : Option Nat :=
  let whole := (cs.takeWhile Number.isDigit).length
  let fraction := fractionLength (cs.drop whole)
  match exponentLength? (cs.drop (whole + fraction)) with
  | none => none
  | some exponent =>
    let length := whole + fraction + exponent
    if (cs.drop length).head?.any isNameStart then none else some length

/-! ### Tokens -/

/-- A comment that spans lines, from the place behind its first slash. -/
def blockComment (after : Cursor) : Except LexCause (TokenKind × Cursor) :=
  let inner := after.skip 1
  match blockEnd? inner.offset inner.rest with
  | some stop => .ok (.comment, stop)
  | none => .error .unterminatedComment

def textToken (quote : Char) (after : Cursor) : Except LexCause (TokenKind × Cursor) :=
  match quoted quote after with
  | .ok (cs, stop) => .ok (.text (String.ofList cs), stop)
  | .error stop => .error (.unterminatedText (endsContinued (after.rest.take (after.rest.length - stop.rest.length))))

def templateToken (after : Cursor) : Except LexCause (TokenKind × Cursor) :=
  match pieces? after with
  | some (p, stop) => .ok (.template p.template, stop)
  | none => .error .unterminatedTemplate

def numberToken (c : Char) (after : Cursor) : Except LexCause (TokenKind × Cursor) :=
  match numberLength? (c :: after.rest) with
  | some n =>
    match Number.ofNumeral? (c :: after.rest.take (n - 1)) with
    | some x => .ok (.number x, after.skip (n - 1))
    | none => .error .invalidNumber
  | none => .error .invalidNumber

/-- A keyword is a name as well. -/
def nameKind (s : String) : TokenKind :=
  match Keyword.ofText? s with
  | some k => .keyword k
  | none => .name s

def punctToken (c : Char) (after : Cursor) : Except LexCause (TokenKind × Cursor) :=
  match Punct.all.find? fun p => p.text.toList.isPrefixOf (c :: after.rest) with
  | some p => .ok (.punct p, after.skip (p.text.length - 1))
  | none => .error (.unexpectedChar c)

/-- The token whose first character is `c`, from the place behind that. -/
def lexeme (c : Char) (after : Cursor) : Except LexCause (TokenKind × Cursor) :=
  if c = '/' ∧ after.peek? = some '/' then .ok (.comment, after.skipWhile (· != '\n'))
  else if c = '/' ∧ after.peek? = some '*' then blockComment after
  else if c = '\'' ∨ c = '"' then textToken c after
  else if c = '\x60' then templateToken after
  else if Number.isDigit c || (c == '.' && after.peek?.any Number.isDigit) then numberToken c after
  else if isNameStart c then
    .ok (nameKind (String.ofList (c :: after.rest.takeWhile isNameChar)), after.skipWhile isNameChar)
  else punctToken c after

theorem reaches_quoted {quote : Char} {place stop : Cursor} {cs : List Char}
    (h : quoted quote place = .ok (cs, stop)) : place.Reaches stop := by
  fun_induction quoted quote place generalizing cs stop with
  | case1 => simp at h
  | case2 => simp at h
  | case3 place after hn _ =>
    simp only [Except.ok.injEq, Prod.mk.injEq] at h
    exact h.2 ▸ Cursor.reaches_of_next? hn
  | case4 place after cs' stop' hq hn _ _ ih =>
    simp only [Except.ok.injEq, Prod.mk.injEq] at h
    exact h.2 ▸ ((Cursor.reaches_of_next? hn).trans (reaches_escape _)).trans (ih hq)
  | case5 => simp at h
  | case6 place c after hn _ _ _ cs' stop' hq ih =>
    simp only [Except.ok.injEq, Prod.mk.injEq] at h
    exact h.2 ▸ (Cursor.reaches_of_next? hn).trans (ih hq)
  | case7 => simp at h

theorem reaches_pieces? {place stop : Cursor} {p : Pieces} (h : pieces? place = some (p, stop)) :
    place.Reaches stop := by
  fun_induction pieces? place generalizing p stop with
  | case1 => simp at h
  | case2 place after hn =>
    simp only [Option.some.injEq, Prod.mk.injEq] at h
    exact h.2 ▸ Cursor.reaches_of_next? hn
  | case3 place after hn _ ih =>
    obtain ⟨⟨p', stop'⟩, hp, he⟩ := Option.map_eq_some_iff.1 h
    simp only [Prod.mk.injEq] at he
    exact he.2 ▸ ((Cursor.reaches_of_next? hn).trans (reaches_escape _)).trans (ih hp)
  | case4 => simp at h
  | case5 place c after hn =>
    rename_i ih
    obtain ⟨⟨p', stop'⟩, hp, he⟩ := Option.map_eq_some_iff.1 h
    simp only [Prod.mk.injEq] at he
    exact he.2 ▸ (((Cursor.reaches_of_next? hn).trans (Cursor.reaches_skip ..)).trans
      (Cursor.reaches_skip ..)).trans (ih hp)
  | case6 place c after hn _ _ _ ih =>
    obtain ⟨⟨p', stop'⟩, hp, he⟩ := Option.map_eq_some_iff.1 h
    simp only [Prod.mk.injEq] at he
    exact he.2 ▸ (Cursor.reaches_of_next? hn).trans (ih hp)

theorem reaches_blockEnd? {n : Nat} {cs : List Char} {stop : Cursor} (h : blockEnd? n cs = some stop) :
    Cursor.Reaches ⟨n, cs⟩ stop := by
  fun_induction blockEnd? n cs with
  | case1 n cs =>
    simp only [Option.some.injEq] at h
    subst h
    exact ⟨['*', '/'], rfl, rfl⟩
  | case2 n c cs _ ih => exact .trans (Cursor.reaches_of_next? rfl) (ih h)
  | case3 => simp at h

theorem reaches_blockComment {after stop : Cursor} {kind : TokenKind}
    (h : blockComment after = .ok (kind, stop)) : after.Reaches stop := by
  unfold blockComment at h
  dsimp only at h
  split at h
  · rename_i hb
    simp only [Except.ok.injEq, Prod.mk.injEq] at h
    exact h.2 ▸ (Cursor.reaches_skip 1 after).trans (reaches_blockEnd? hb)
  · simp at h

theorem reaches_textToken {quote : Char} {after stop : Cursor} {kind : TokenKind}
    (h : textToken quote after = .ok (kind, stop)) : after.Reaches stop := by
  unfold textToken at h
  split at h
  · rename_i hq
    simp only [Except.ok.injEq, Prod.mk.injEq] at h
    exact h.2 ▸ reaches_quoted hq
  · simp at h

theorem reaches_templateToken {after stop : Cursor} {kind : TokenKind}
    (h : templateToken after = .ok (kind, stop)) : after.Reaches stop := by
  unfold templateToken at h
  split at h
  · rename_i hp
    simp only [Except.ok.injEq, Prod.mk.injEq] at h
    exact h.2 ▸ reaches_pieces? hp
  · simp at h

theorem reaches_numberToken {c : Char} {after stop : Cursor} {kind : TokenKind}
    (h : numberToken c after = .ok (kind, stop)) : after.Reaches stop := by
  unfold numberToken at h
  split at h
  · split at h
    · simp only [Except.ok.injEq, Prod.mk.injEq] at h
      exact h.2 ▸ Cursor.reaches_skip ..
    · simp at h
  · simp at h

theorem reaches_punctToken {c : Char} {after stop : Cursor} {kind : TokenKind}
    (h : punctToken c after = .ok (kind, stop)) : after.Reaches stop := by
  unfold punctToken at h
  split at h
  · simp only [Except.ok.injEq, Prod.mk.injEq] at h
    exact h.2 ▸ Cursor.reaches_skip ..
  · simp at h

theorem reaches_lexeme {c : Char} {after stop : Cursor} {kind : TokenKind}
    (h : lexeme c after = .ok (kind, stop)) : after.Reaches stop := by
  unfold lexeme at h
  split at h
  · simp only [Except.ok.injEq, Prod.mk.injEq] at h
    exact h.2 ▸ Cursor.reaches_skipWhile ..
  split at h
  · exact reaches_blockComment h
  split at h
  · exact reaches_textToken h
  split at h
  · exact reaches_templateToken h
  split at h
  · exact reaches_numberToken h
  split at h
  · simp only [Except.ok.injEq, Prod.mk.injEq] at h
    exact h.2 ▸ Cursor.reaches_skipWhile ..
  · exact reaches_punctToken h

def scan (place : Cursor) : Lexed :=
  let newline := (place.rest.takeWhile isBlank).any isLineEnd
  let start := place.skipWhile isBlank
  match _hn : (place.skipWhile isBlank).next? with
  | none => ⟨[], .ok ⟨start.offset, newline⟩⟩
  | some (c, after) =>
    match _hl : lexeme c after with
    | .error cause => ⟨[], .error ⟨cause, start.offset⟩⟩
    | .ok (kind, stop) =>
      let rest := scan stop
      ⟨⟨kind, start.offset, stop.offset, newline⟩ :: rest.tokens, rest.result⟩
termination_by place.rest.length
decreasing_by
  have h1 := (Cursor.reaches_skipWhile isBlank place).length_le
  have h2 := Cursor.length_lt_of_next? _hn
  have h3 := (reaches_lexeme _hl).length_le
  omega

theorem scan_of_end {place : Cursor} (h : (place.skipWhile isBlank).next? = none) :
    scan place =
      ⟨[], .ok ⟨(place.skipWhile isBlank).offset, (place.rest.takeWhile isBlank).any isLineEnd⟩⟩ := by
  rw [scan.eq_def]
  dsimp only
  split
  · rfl
  · rename_i hsome
    rw [h] at hsome
    cases hsome

theorem scan_of_lexeme {place after stop : Cursor} {c : Char} {kind : TokenKind}
    (hn : (place.skipWhile isBlank).next? = some (c, after)) (hl : lexeme c after = .ok (kind, stop)) :
    scan place =
      ⟨⟨kind, (place.skipWhile isBlank).offset, stop.offset, (place.rest.takeWhile isBlank).any isLineEnd⟩ ::
        (scan stop).tokens, (scan stop).result⟩ := by
  rw [scan.eq_def]
  dsimp only
  split
  · rename_i hnone
    rw [hn] at hnone
    cases hnone
  · rename_i c' after' hsome
    rw [hn] at hsome
    cases hsome
    split
    · rename_i cause herror
      rw [hl] at herror
      cases herror
    · rename_i kind' stop' hok
      rw [hl] at hok
      cases hok
      rfl

theorem scan_of_error {place after : Cursor} {c : Char} {cause : LexCause}
    (hn : (place.skipWhile isBlank).next? = some (c, after)) (hl : lexeme c after = .error cause) :
    scan place = ⟨[], .error ⟨cause, (place.skipWhile isBlank).offset⟩⟩ := by
  rw [scan.eq_def]
  dsimp only
  split
  · rename_i hnone
    rw [hn] at hnone
    cases hnone
  · rename_i c' after' hsome
    rw [hn] at hsome
    cases hsome
    split
    · rename_i cause' herror
      rw [hl] at herror
      cases herror
      rfl
    · rename_i kind stop hok
      rw [hl] at hok
      cases hok

end Lexer

/-- The tokens of a source, comments among them. -/
def lex (source : String) : Lexed :=
  Lexer.scan (Cursor.ofString source)

theorem lex_empty : lex "" = ⟨[], .ok ⟨0, false⟩⟩ :=
  Lexer.scan_of_end rfl

end ScriptRepl.Syntax
