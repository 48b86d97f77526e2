import ScriptRepl.Proofs.Syntax.Extended

/-! The same text further on in a source has the same tokens further on: no reader looks back, and none asks where it
stands. Blanks before a text only mark its first token. -/
namespace ScriptRepl

namespace Text.Cursor

/-- The place with the same text ahead, so many bytes further on. -/
def moved (k : Nat) (place : Cursor) : Cursor :=
  ⟨k + place.offset, place.rest⟩

variable {k : Nat} {place after : Cursor}

theorem next?_moved : (place.moved k).next? = place.next?.map fun (c, after) => (c, after.moved k) := by
  obtain ⟨n, _ | ⟨c, cs⟩⟩ := place
  · rfl
  · simp [moved, next?, Nat.add_assoc]

theorem next?_moved_some {c : Char} (h : place.next? = some (c, after)) :
    (place.moved k).next? = some (c, after.moved k) := by
  rw [next?_moved, h]
  rfl

theorem next?_moved_none (h : place.next? = none) : (place.moved k).next? = none := by
  rw [next?_moved, h]
  rfl

theorem skip_moved (n : Nat) : (place.moved k).skip n = (place.skip n).moved k := by
  induction n generalizing place with
  | zero => rfl
  | succ n ih =>
      obtain ⟨offset, _ | ⟨c, cs⟩⟩ := place
      · rfl
      · have hrest := @ih ⟨offset + c.utf8Size, cs⟩
        rw [moved, ← Nat.add_assoc] at hrest
        exact hrest

theorem skipWhile_moved (p : Char → Bool) : (place.moved k).skipWhile p = (place.skipWhile p).moved k := by
  obtain ⟨n, cs⟩ := place
  unfold skipWhile moved
  dsimp only
  induction cs generalizing n with
  | nil => rfl
  | cons c cs ih =>
      simp only [skipWhile.go]
      split
      · rw [Nat.add_assoc]
        exact ih _
      · rfl

end Text.Cursor

namespace Syntax

open Text (Cursor isBlank isLineEnd isNameStart isNameChar size)

def Hole.moved (k : Nat) (hole : Hole) : Hole :=
  { hole with offset := k + hole.offset }

def Template.moved (k : Nat) (t : Template) : Template :=
  ⟨t.head, t.parts.map fun (hole, s) => (hole.moved k, s)⟩

def TokenKind.moved (k : Nat) : TokenKind → TokenKind
  | .template t => .template (t.moved k)
  | kind => kind

def Token.moved (k : Nat) (t : Token) : Token :=
  ⟨t.kind.moved k, k + t.start, k + t.stop, t.newlineBefore⟩

def Lexed.moved (k : Nat) (lexed : Lexed) : Lexed where
  tokens := lexed.tokens.map (·.moved k)
  result :=
    match lexed.result with
    | .ok mark => .ok ⟨k + mark.offset, mark.newlineBefore⟩
    | .error e => .error ⟨e.cause, k + e.offset⟩

/-- The first token, or else the end, comes behind a line end if there was one. -/
def Lexed.behind (newline : Bool) : Lexed → Lexed
  | ⟨t :: ts, result⟩ => ⟨{ t with newlineBefore := newline || t.newlineBefore } :: ts, result⟩
  | ⟨[], .ok mark⟩ => ⟨[], .ok { mark with newlineBefore := newline || mark.newlineBefore }⟩
  | lexed => lexed

namespace Lexer

variable {k : Nat} {place after stop : Cursor}

/-! ### Single tokens -/

theorem escape_moved : escape (place.moved k) = ((escape place).1, (escape place).2.moved k) := by
  unfold escape
  cases hn : place.next? with
  | none =>
      rw [Cursor.next?_moved_none hn]
  | some next =>
      obtain ⟨c, after⟩ := next
      rw [Cursor.next?_moved_some hn]
      dsimp only
      have hrest : (after.moved k).rest = after.rest := rfl
      have hpeek : (after.moved k).peek? = after.peek? := rfl
      rw [hrest, hpeek]
      split
      case h_8 =>
        split
        · exact congrArg (_, ·) (Cursor.skip_moved 4)
        · rfl
      case h_9 =>
        split
        · exact congrArg (_, ·) (Cursor.skip_moved 1)
        · rfl
      case h_10 => split <;> rfl
      all_goals rfl

theorem quoted_moved (quote : Char) :
    quoted quote (place.moved k) =
      match quoted quote place with
      | .ok (cs, stop) => .ok (cs, stop.moved k)
      | .error stop => .error (stop.moved k) := by
  fun_induction quoted quote place with
  | case1 place hn =>
      rw [quoted, Cursor.next?_moved_none hn]
  | case2 place c after hn hline =>
      rw [quoted, Cursor.next?_moved_some hn]
      simp only [if_pos hline]
  | case3 place after hn hline =>
      rw [quoted, Cursor.next?_moved_some hn]
      simp only [if_neg hline, ↓reduceIte]
  | case4 place after cs stop hq hn hline hquote ih =>
      rw [hq] at ih
      rw [quoted, Cursor.next?_moved_some hn]
      simp only [if_neg hline, if_neg hquote, ↓reduceIte, escape_moved, ih]
  | case5 place after stop hq hn hline hquote ih =>
      rw [hq] at ih
      rw [quoted, Cursor.next?_moved_some hn]
      simp only [if_neg hline, if_neg hquote, ↓reduceIte, escape_moved, ih]
  | case6 place c after hn hline hquote hescape cs stop hq ih =>
      rw [hq] at ih
      rw [quoted, Cursor.next?_moved_some hn]
      simp only [if_neg hline, if_neg hquote, if_neg hescape, ih]
  | case7 place c after hn hline hquote hescape stop hq ih =>
      rw [hq] at ih
      rw [quoted, Cursor.next?_moved_some hn]
      simp only [if_neg hline, if_neg hquote, if_neg hescape, ih]

def Pieces.moved (k : Nat) (p : Pieces) : Pieces :=
  ⟨p.head, p.parts.map fun (hole, cs) => (hole.moved k, cs)⟩

theorem Pieces.template_moved (p : Pieces) : (p.moved k).template = p.template.moved k := by
  simp [Pieces.moved, Pieces.template, Template.moved]

theorem pieces?_moved :
    pieces? (place.moved k) = (pieces? place).map fun (p, stop) => (p.moved k, stop.moved k) := by
  fun_induction pieces? place with
  | case1 place hn =>
      rw [pieces?, Cursor.next?_moved_none hn]
      rfl
  | case2 place after hn =>
      rw [pieces?, Cursor.next?_moved_some hn]
      simp only [↓reduceIte]
      rfl
  | case3 place after hn hquote ih =>
      rw [pieces?, Cursor.next?_moved_some hn]
      simp only [if_neg hquote, ↓reduceIte, escape_moved, ih, Option.map_map]
      rfl
  | case4 place c after hn hquote hescape hhole inner hlength =>
      have hinner : (after.moved k).skip 1 = inner.moved k := Cursor.skip_moved 1
      have hnone : holeLength? 0 0 .code (inner.moved k).rest = none := hlength
      have hopen : c = '$' ∧ (after.moved k).peek? = some '\x7b' := hhole
      rw [pieces?, Cursor.next?_moved_some hn]
      simp only [if_neg hquote, if_neg hescape, if_pos hopen, hinner, hnone]
      rfl
  | case5 place c after hn =>
      rename_i hquote hescape hhole inner n hlength hole ih
      have hinner : (after.moved k).skip 1 = inner.moved k := Cursor.skip_moved 1
      have hsome : holeLength? 0 0 .code (inner.moved k).rest = some n := hlength
      have hopen : c = '$' ∧ (after.moved k).peek? = some '\x7b' := hhole
      rw [pieces?, Cursor.next?_moved_some hn]
      have hrest : pieces? ((inner.moved k).skip (n + 1)) = _ := (congrArg pieces? (Cursor.skip_moved (n + 1))).trans ih
      simp only [if_neg hquote, if_neg hescape, if_pos hopen, hinner, hsome, hrest, Option.map_map]
      rfl
  | case6 place c after hn hquote hescape hhole ih =>
      have hplain : ¬(c = '$' ∧ (after.moved k).peek? = some '\x7b') := hhole
      rw [pieces?, Cursor.next?_moved_some hn]
      simp only [if_neg hquote, if_neg hescape, if_neg hplain, ih, Option.map_map]
      rfl

theorem blockEnd?_moved (n : Nat) (cs : List Char) : blockEnd? (k + n) cs = (blockEnd? n cs).map (·.moved k) := by
  fun_induction blockEnd? n cs with
  | case1 n cs => rfl
  | case2 n c cs hclose ih =>
      rw [blockEnd?, Nat.add_assoc]
      · exact ih
      · exact hclose
  | case3 => rfl

/-- What a token is, and the place behind it, from the place that was moved. -/
abbrev movedLexeme (k : Nat) (lexeme : TokenKind × Cursor) : TokenKind × Cursor :=
  (lexeme.1.moved k, lexeme.2.moved k)

theorem blockComment_moved : blockComment (after.moved k) = (blockComment after).map (movedLexeme k) := by
  unfold blockComment
  dsimp only
  rw [Cursor.skip_moved]
  have hend : blockEnd? ((after.skip 1).moved k).offset ((after.skip 1).moved k).rest =
      (blockEnd? (after.skip 1).offset (after.skip 1).rest).map (·.moved k) := blockEnd?_moved _ _
  rw [hend]
  cases blockEnd? (after.skip 1).offset (after.skip 1).rest with
  | none => rfl
  | some stop => rfl

theorem textToken_moved (quote : Char) :
    textToken quote (after.moved k) = (textToken quote after).map (movedLexeme k) := by
  unfold textToken
  rw [quoted_moved]
  cases quoted quote after with
  | error stop => rfl
  | ok text => rfl

theorem templateToken_moved : templateToken (after.moved k) = (templateToken after).map (movedLexeme k) := by
  unfold templateToken
  rw [pieces?_moved]
  cases pieces? after with
  | none => rfl
  | some pair =>
      have hkind : TokenKind.template (pair.1.moved k).template = (TokenKind.template pair.1.template).moved k :=
        congrArg TokenKind.template (Pieces.template_moved pair.1)
      exact congrArg (fun kind => Except.ok (kind, pair.2.moved k)) hkind

theorem numberToken_moved (c : Char) :
    numberToken c (after.moved k) = (numberToken c after).map (movedLexeme k) := by
  unfold numberToken
  have hrest : (after.moved k).rest = after.rest := rfl
  rw [hrest]
  split
  · split
    · rw [Cursor.skip_moved]
      rfl
    · rfl
  · rfl

theorem punctToken_moved (c : Char) : punctToken c (after.moved k) = (punctToken c after).map (movedLexeme k) := by
  unfold punctToken
  have hrest : (after.moved k).rest = after.rest := rfl
  rw [hrest]
  split
  · rw [Cursor.skip_moved]
    rfl
  · rfl

theorem nameKind_moved (s : String) : (nameKind s).moved k = nameKind s := by
  unfold nameKind
  split <;> rfl

theorem lexeme_moved (c : Char) : lexeme c (after.moved k) = (lexeme c after).map (movedLexeme k) := by
  unfold lexeme
  have hrest : (after.moved k).rest = after.rest := rfl
  have hpeek : (after.moved k).peek? = after.peek? := rfl
  rw [hrest, hpeek]
  split
  · rw [Cursor.skipWhile_moved]
    rfl
  split
  · exact blockComment_moved
  split
  · exact textToken_moved c
  split
  · exact templateToken_moved
  split
  · exact numberToken_moved c
  split
  · rw [Cursor.skipWhile_moved]
    exact congrArg (fun kind => Except.ok (kind, _)) (nameKind_moved _).symm
  · exact punctToken_moved c

/-! ### Sources -/

theorem scan_moved (k : Nat) (place : Cursor) : scan (place.moved k) = (scan place).moved k := by
  have hskip : (place.moved k).skipWhile isBlank = (place.skipWhile isBlank).moved k := Cursor.skipWhile_moved isBlank
  cases hn : (place.skipWhile isBlank).next? with
  | none =>
      have hend : ((place.moved k).skipWhile isBlank).next? = none := by
        rw [hskip]
        exact Cursor.next?_moved_none hn
      rw [scan_of_end hn, scan_of_end hend, hskip]
      rfl
  | some next =>
      obtain ⟨c, after⟩ := next
      have hnext : ((place.moved k).skipWhile isBlank).next? = some (c, after.moved k) := by
        rw [hskip]
        exact Cursor.next?_moved_some hn
      cases hl : lexeme c after with
      | error cause =>
          have hlexeme : lexeme c (after.moved k) = .error cause := by
            rw [lexeme_moved, hl]
            rfl
          rw [scan_of_error hn hl, scan_of_error hnext hlexeme, hskip]
          rfl
      | ok pair =>
          obtain ⟨kind, stop⟩ := pair
          have hlexeme : lexeme c (after.moved k) = .ok (kind.moved k, stop.moved k) := by
            rw [lexeme_moved, hl]
            rfl
          have hrest : scan (stop.moved k) = (scan stop).moved k := scan_moved k stop
          rw [scan_of_lexeme hn hl, scan_of_lexeme hnext hlexeme, hskip, hrest]
          rfl
termination_by place.rest.length
decreasing_by
  have hblank := (Cursor.reaches_skipWhile isBlank place).length_le
  have hfirst := Cursor.length_lt_of_next? hn
  have hstop := (reaches_lexeme hl).length_le
  omega

/-- Blanks before a text only mark its first token. -/
theorem scan_blanks {blanks : List Char} (h : ∀ c ∈ blanks, isBlank c = true) (n : Nat) (cs : List Char) :
    scan ⟨n, blanks ++ cs⟩ = (scan ⟨n + size blanks, cs⟩).behind (blanks.any isLineEnd) := by
  have hskip : Cursor.skipWhile isBlank ⟨n, blanks ++ cs⟩ = Cursor.skipWhile isBlank ⟨n + size blanks, cs⟩ :=
    Cursor.skipWhile_of_all h n cs
  have htake : ((blanks ++ cs).takeWhile isBlank).any isLineEnd =
      (blanks.any isLineEnd || (cs.takeWhile isBlank).any isLineEnd) := by
    rw [List.takeWhile_append_of_pos h, List.any_append]
  cases hn : (Cursor.skipWhile isBlank ⟨n + size blanks, cs⟩).next? with
  | none =>
      rw [scan_of_end hn, scan_of_end (hskip ▸ hn), hskip, htake]
      rfl
  | some next =>
      obtain ⟨c, after⟩ := next
      cases hl : lexeme c after with
      | error cause =>
          rw [scan_of_error hn hl, scan_of_error (hskip ▸ hn) hl, hskip]
          rfl
      | ok pair =>
          rw [scan_of_lexeme hn hl, scan_of_lexeme (hskip ▸ hn) hl, hskip, htake]
          rfl

end Lexer

end Syntax

end ScriptRepl
