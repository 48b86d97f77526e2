import ScriptRepl.Proofs.Syntax.Continuation
import ScriptRepl.Proofs.Syntax.Unclosed

/-! Sources that the lexer cannot cut up whole, and whether more lines can make a program of them. This takes two things:
a line that closes the token the source ends in the middle of, and that the tokens up to this one begin a program. -/
namespace ScriptRepl.Syntax

open Text (Cursor isBlank isLineEnd)

namespace Lexer

variable {place after : Cursor}

theorem scan_of_error_extended {more : List Char} {c : Char} {cause : LexCause}
    (hn : (place.skipWhile isBlank).next? = some (c, after)) (hl : lexeme c (after.extended more) = .error cause) :
    scan (place.extended more) = ⟨[], .error ⟨cause, (place.skipWhile isBlank).offset⟩⟩ := by
  obtain ⟨hskip, -⟩ := skipBlanks_extended hn more
  have hnext : ((place.extended more).skipWhile isBlank).next? = some (c, after.extended more) := by
    rw [hskip]
    exact Cursor.next?_extended hn
  rw [scan_of_error hnext hl, hskip]
  rfl

theorem lexeme_backquote_end (n : Nat) : lexeme '\x60' ⟨n, []⟩ = .error .unterminatedTemplate := by
  have htemplate : lexeme '\x60' ⟨n, []⟩ = templateToken ⟨n, []⟩ := rfl
  rw [htemplate, templateToken, pieces?]
  rfl

theorem lexeme_open_text {quote : Char} {end_ : Cursor} (hquote : quote = '\'' ∨ quote = '"')
    (h : quoted quote after = .error end_) :
    lexeme quote after =
      .error (.unterminatedText (endsContinued (after.rest.take (after.rest.length - end_.rest.length)))) := by
  have htext : lexeme quote after = textToken quote after := by rcases hquote with rfl | rfl <;> rfl
  rw [htext, textToken, h]

/-- Where the lexer stops, it stops at the first character of a token. -/
theorem exists_lexeme_of_scan {e : LexError} (h : scan place = ⟨[], .error e⟩) :
    ∃ c after, (place.skipWhile isBlank).next? = some (c, after) ∧ lexeme c after = .error e.cause ∧
      e.offset = (place.skipWhile isBlank).offset := by
  cases hn : (place.skipWhile isBlank).next? with
  | none =>
      rw [scan_of_end hn] at h
      cases h
  | some first =>
      obtain ⟨c, after⟩ := first
      cases hl : lexeme c after with
      | error cause =>
          rw [scan_of_error hn hl] at h
          cases h
          exact ⟨c, after, rfl, hl, rfl⟩
      | ok closed =>
          obtain ⟨kind, stop⟩ := closed
          rw [scan_of_lexeme hn hl] at h
          cases h

end Lexer

/-- The place in a source where no token can be read: `after` is behind the character `c` there. -/
structure StopsAt (s : String) (e : LexError) (c : Char) (after : Cursor) (newline : Bool) : Prop where
  fails : Lexer.lexeme c after = .error e.cause
  place : ∃ before, s.toList = before ++ c :: after.rest ∧ Text.size before = e.offset
  offset : after.offset = e.offset + c.utf8Size
  /-- A line that closes a token there. -/
  closed : ∀ line kind stop, Lexer.lexeme c (after.followed line) = .ok (kind, stop) →
    lex (s ++ "\n" ++ String.ofList line) =
      ⟨(lex s).tokens ++ ⟨kind, e.offset, stop.offset, newline⟩ :: (Lexer.scan stop).tokens, (Lexer.scan stop).result⟩
  /-- A line that closes none. -/
  stuck : ∀ line cause, Lexer.lexeme c (after.followed line) = .error cause →
    (lex (s ++ "\n" ++ String.ofList line)).result = .error ⟨cause, e.offset⟩

theorem exists_stopsAt {s : String} {e : LexError} (h : (lex s).result = .error e) :
    ∃ c after newline, StopsAt s e c after newline := by
  obtain ⟨last, hreaches, hlast, hextended⟩ := Lexer.scan_extended (List.append_nil (lex s).tokens).symm
  rw [show (Lexer.scan (Cursor.ofString s)).result = _ from h] at hlast
  obtain ⟨c, after, hn, hfails, hoffset⟩ := Lexer.exists_lexeme_of_scan hlast
  have hline : ∀ line, lex (s ++ "\n" ++ String.ofList line) =
      ⟨(lex s).tokens ++ (Lexer.scan (last.followed line)).tokens, (Lexer.scan (last.followed line)).result⟩ := by
    intro line
    have hplace : Cursor.ofString (s ++ "\n" ++ String.ofList line) = (Cursor.ofString s).followed line := by
      simp [Cursor.ofString, Cursor.followed]
    rw [lex, hplace]
    exact hextended _ (Lexer.unpunctuated_line line) fun _ => rfl
  have hstart := Cursor.passes_of_next? hn
  refine ⟨c, after, (last.rest.takeWhile isBlank).any isLineEnd, hfails, ?_, ?_, ?_, ?_⟩
  · obtain ⟨before, hbefore, hsize⟩ := hreaches.trans (Cursor.reaches_skipWhile isBlank last)
    refine ⟨before, ?_, ?_⟩
    · rw [hstart.rest] at hbefore
      exact hbefore
    · rw [hoffset, hsize]
      exact (Nat.zero_add _).symm
  · rw [hstart.offset, hoffset]
    rfl
  · intro line kind stop hclosed
    rw [hline, hoffset]
    rw [show Lexer.scan (last.followed line) = _ from Lexer.scan_of_lexeme_extended hn hclosed]
  · intro line cause hstuck
    rw [hline, hoffset]
    dsimp only
    rw [show Lexer.scan (last.followed line) = _ from Lexer.scan_of_error_extended hn hstuck]

/-! ### Closing the open token -/

/-- The token that the source ends in the middle of becomes `t` when more lines follow. -/
def ClosesAs (s : String) (t : Token) : Prop :=
  ∃ line mark, lex (s ++ "\n" ++ line) = ⟨(lex s).tokens ++ [t], .ok mark⟩

/-- A program can begin with the tokens. -/
def BeginsProgram (ts : List Token) : Prop :=
  ∃ ext fin out, (Parser.statements (ts ++ ext).length).run ⟨ts ++ ext, fin⟩ = .ok out

/-- The source ends in the string that begins at the offset, with a backslash that nothing was escaped by and behind it a
part of a line end. -/
def AwaitsLine (s : String) (start : Nat) (tail : List Char) : Prop :=
  ∃ before quote rest, s.toList = before ++ quote :: rest ∧ Text.size before = start ∧
    Lexer.Awaits quote tail ⟨start + quote.utf8Size, rest⟩

theorem AwaitsLine.exists_front {s : String} {start : Nat} {tail : List Char} (h : AwaitsLine s start tail) :
    ∃ front, s.toList = front ++ '\\' :: tail := by
  obtain ⟨before, quote, rest, htext, -, hawaits⟩ := h
  obtain ⟨passed, hpassed⟩ := hawaits.exists_rest
  refine ⟨before ++ quote :: passed, ?_⟩
  rw [htext, show rest = passed ++ '\\' :: tail from hpassed]
  simp

namespace StopsAt

variable {s : String} {e : LexError} {c : Char} {after : Cursor} {newline : Bool}

theorem awaitsLine_iff (h : StopsAt s e c after newline) (tail : List Char) :
    AwaitsLine s e.offset tail ↔ Lexer.Awaits c tail after := by
  obtain ⟨before, hbefore, hsize⟩ := h.place
  have hafter : (⟨e.offset + c.utf8Size, after.rest⟩ : Cursor) = after := by rw [← h.offset]
  constructor
  · rintro ⟨before', quote, rest, hbefore', hsize', hawaits⟩
    have hsplit : (before, c :: after.rest) = (before', quote :: rest) := by
      rw [← Text.splitNear_size before, ← Text.splitNear_size before', ← hbefore, ← hbefore', hsize, hsize']
    obtain ⟨-, hrest⟩ := Prod.mk.inj hsplit
    obtain ⟨rfl, rfl⟩ := List.cons.inj hrest
    rw [hafter] at hawaits
    exact hawaits
  · intro hawaits
    exact ⟨before, c, after.rest, hbefore, hsize, hafter ▸ hawaits⟩

/-- The part of the lines up to the end of the token closes it. -/
theorem closesAs (h : StopsAt s e c after newline) {line : List Char} {kind : TokenKind} {stop : Cursor}
    (hclosed : Lexer.lexeme c (after.followed line) = .ok (kind, stop)) :
    ClosesAs s ⟨kind, e.offset, stop.offset, newline⟩ := by
  obtain ⟨closing, -, hclosing⟩ := (Lexer.unclosed_of_error h.fails).shortened hclosed
  refine ⟨String.ofList closing, ⟨stop.offset, false⟩, ?_⟩
  rw [h.closed closing _ _ hclosing, Lexer.scan_of_end rfl]
  rfl

theorem exists_closesAs_iff (h : StopsAt s e c after newline) :
    (∃ t, ClosesAs s t) ↔ Lexer.Closable c after e.cause := by
  rw [← (Lexer.unclosed_of_error h.fails).exists_closed_iff]
  constructor
  · rintro ⟨t, line, mark, hlex⟩
    cases hline : Lexer.lexeme c (after.followed line.toList) with
    | ok closed => exact ⟨line.toList, closed.1, closed.2, hline⟩
    | error cause =>
        have hstuck := h.stuck line.toList cause hline
        rw [String.ofList_toList, hlex] at hstuck
        cases hstuck
  · rintro ⟨line, kind, stop, hclosed⟩
    exact ⟨_, h.closesAs hclosed⟩

end StopsAt

/-! ### Going on -/

theorem exists_program_of_complete {s : String} (h : check s = .complete) : ∃ program, parseProgram s = .ok program := by
  cases hparse : parseProgram s with
  | ok program => exact ⟨program, rfl⟩
  | error e => exact absurd h (check_ne_complete hparse)

theorem parseProgram_of_lex_error {s : String} {e : LexError} (h : (lex s).result = .error e) :
    parseProgram s = .error ⟨.lexical e.cause, e.offset⟩ := by
  refine parseProgram_of_inputOf_error ?_
  unfold Parser.inputOf
  dsimp only
  rw [h]

theorem beginsProgram_of_complete {s : String} {ts more : List Token} {mark : EndMark}
    (hlex : lex s = ⟨ts ++ more, .ok mark⟩) (h : check s = .complete) : BeginsProgram (significant ts) := by
  obtain ⟨program, hparse⟩ := exists_program_of_complete h
  rw [parseProgram_of_inputOf (inputOf_of_lex hlex), significant_append] at hparse
  cases hrun : (Parser.statements (significant ts ++ significant more).length).run
      ⟨significant ts ++ significant more, mark.offset⟩ with
  | ok out => exact ⟨significant more, mark.offset, out, hrun⟩
  | error e =>
      rw [hrun] at hparse
      cases hparse

theorem run_statements_of_done {ts rest : List Token} {program : Program}
    (h : Parser.Done 0 (.marks []) (fun n => Parser.statements n) ts program rest) (fin : Nat) :
    (Parser.statements ts.length).run ⟨ts, fin⟩ = .ok (program, ⟨rest, fin⟩) := by
  have hrun := h.run [] fin ts.length (by simp) fun _ => Parser.Next.allows_nil _
  simpa only [List.append_nil] using hrun

theorem not_beginsProgram_of_refused {ts : List Token} (h : Parser.Refused (fun n => Parser.statements n) ts) :
    ¬BeginsProgram ts := by
  rintro ⟨ext, fin, out, hrun⟩
  obtain ⟨e, herror, -⟩ := h ext fin _ (Nat.le_refl _)
  rw [hrun] at herror
  cases herror

/-- A program can begin with the tokens exactly if the parser takes them all, or does not stop before their end. -/
theorem beginsProgram_iff {ts : List Token} (fin : Nat) :
    BeginsProgram ts ↔
      ∀ e, (Parser.statements ts.length).run ⟨ts, fin⟩ = .error e → e.cause.mayContinue = true := by
  have hviable : Parser.Viable 0 (.marks []) (fun n => Parser.statements n) ts := Parser.viable_statements ts
  cases hviable with
  | done program rest hdone =>
      have hrun := run_statements_of_done hdone fin
      refine iff_of_true ⟨[], fin, (program, ⟨rest, fin⟩), by simpa only [List.append_nil] using hrun⟩ ?_
      intro e herror
      rw [hrun] at herror
      cases herror
  | refused hrefused =>
      refine iff_of_false (not_beginsProgram_of_refused hrefused) ?_
      intro hends
      obtain ⟨e, herror, hfinal⟩ := hrefused [] fin ts.length (by simp)
      rw [List.append_nil] at herror
      rw [hends e herror] at hfinal
      cases hfinal
  | hungry program fillers hhungry =>
      refine iff_of_true ?_ ?_
      · have hspells : Spells (fillers.map fun filler => ⟨filler.kind, 0, 0, false⟩) fillers := by simp [Spells]
        have hrun := hhungry.feeds _ [] fin _ (Nat.le_refl _) hspells (Parser.Next.allows_nil _)
        rw [List.append_nil] at hrun
        exact ⟨_, fin, _, hrun⟩
      · intro e herror
        obtain ⟨e', herror', hends⟩ := hhungry.starves fin _ (Nat.le_refl _)
        rw [herror'] at herror
        cases herror
        exact hends

/-- A source whose tokens begin a program is one, or becomes one. -/
theorem exists_complete_of_begins {s : String} {mark : EndMark} (hlex : (lex s).result = .ok mark)
    (h : BeginsProgram (significant (lex s).tokens)) :
    check s = .complete ∨ ∃ t, check (s ++ "\n" ++ t) = .complete := by
  have hviable : Parser.Viable 0 (.marks []) (fun n => Parser.statements n) (significant (lex s).tokens) :=
    Parser.viable_statements _
  cases hviable with
  | done program rest hdone =>
      have hinput : Parser.inputOf s = .ok ⟨significant (lex s).tokens, mark.offset⟩ := by
        refine inputOf_of_lex ?_
        rw [← hlex]
      have hparse : parseProgram s = .ok program := by
        rw [parseProgram_of_inputOf hinput, run_statements_of_done hdone]
        rfl
      exact .inl (check_of_ok hparse)
  | refused hrefused => exact absurd h (not_beginsProgram_of_refused hrefused)
  | hungry program fillers hhungry =>
      obtain ⟨t, hparse⟩ := parseProgram_of_hungry hlex hhungry
      exact .inr ⟨t, check_of_ok hparse⟩

/-- More lines make a program of a source exactly if some line closes the open token in such a way that the tokens up to
it begin a program. -/
theorem exists_complete_iff_closes {s : String} {e : LexError} (h : (lex s).result = .error e) :
    (∃ t, check (s ++ "\n" ++ t) = .complete) ↔
      ∃ t, ClosesAs s t ∧ BeginsProgram (significant ((lex s).tokens ++ [t])) := by
  obtain ⟨c, after, newline, hstops⟩ := exists_stopsAt h
  constructor
  · rintro ⟨t, hcomplete⟩
    cases hline : Lexer.lexeme c (after.followed t.toList) with
    | error cause =>
        have hstuck := hstops.stuck t.toList cause hline
        rw [String.ofList_toList] at hstuck
        exact absurd hcomplete (check_ne_complete (parseProgram_of_lex_error hstuck))
    | ok closed =>
        obtain ⟨kind, stop⟩ := closed
        have hlex := hstops.closed t.toList kind stop hline
        rw [String.ofList_toList] at hlex
        refine ⟨_, hstops.closesAs hline, ?_⟩
        -- what stands behind the token in the same lines has to be cut up as well
        cases hresult : (Lexer.scan stop).result with
        | error e' =>
            have herror : (lex (s ++ "\n" ++ t)).result = .error e' := by rw [hlex, hresult]
            exact absurd hcomplete (check_ne_complete (parseProgram_of_lex_error herror))
        | ok mark =>
            rw [hresult, ← List.singleton_append, ← List.append_assoc] at hlex
            exact beginsProgram_of_complete hlex hcomplete
  · -- the line that closes the token leaves a source with all its tokens: what this lacks can stand in one more line
    rintro ⟨t, ⟨line, mark, hlex⟩, hbegins⟩
    have hresult : (lex (s ++ "\n" ++ line)).result = .ok mark := by rw [hlex]
    have htokens : (lex (s ++ "\n" ++ line)).tokens = (lex s).tokens ++ [t] := by rw [hlex]
    rw [← htokens] at hbegins
    rcases exists_complete_of_begins hresult hbegins with hcomplete | ⟨more, hcomplete⟩
    · exact ⟨line, hcomplete⟩
    · refine ⟨line ++ "\n" ++ more, ?_⟩
      rw [← hcomplete]
      simp only [String.append_assoc]

/-- A source that the lexer cannot cut up and that is taken for incomplete becomes a program by more lines exactly if
they can close the open token in such a way that the tokens up to it begin a program. A comment and a template can always
be closed, a string only if the source ends in it behind a backslash and a carriage return. -/
theorem check_incomplete_mendable {s : String} {e : LexError} (hlex : (lex s).result = .error e)
    (hcheck : check s = .incomplete) :
    ((∃ t, check (s ++ "\n" ++ t) = .complete) ↔
        ∃ t, ClosesAs s t ∧ BeginsProgram (significant ((lex s).tokens ++ [t]))) ∧
      ((∃ t, ClosesAs s t) ↔ (e.cause = .unterminatedText true → AwaitsLine s e.offset ['\r'])) := by
  refine ⟨exists_complete_iff_closes hlex, ?_⟩
  obtain ⟨c, after, newline, hstops⟩ := exists_stopsAt hlex
  rw [hstops.exists_closesAs_iff, hstops.awaitsLine_iff]
  rw [check_of_error (parseProgram_of_lex_error hlex)] at hcheck
  cases hcause : e.cause with
  | unterminatedComment | unterminatedTemplate => simp [Lexer.Closable]
  | unterminatedText continued =>
      cases continued with
      | true => simp [Lexer.Closable]
      | false => simp [hcause, SyntaxCause.mayContinue] at hcheck
  | invalidNumber | unexpectedChar _ => simp [hcause, SyntaxCause.mayContinue] at hcheck

theorem lex_backquote : lex "\x60" = ⟨[], .error ⟨.unterminatedTemplate, 0⟩⟩ := by
  have hfirst : (Cursor.skipWhile isBlank (Cursor.ofString "\x60")).next? = some ('\x60', ⟨1, []⟩) := rfl
  exact Lexer.scan_of_error hfirst (Lexer.lexeme_backquote_end 1)

theorem check_incomplete_mendable_template :
    (lex "\x60").result = .error ⟨.unterminatedTemplate, 0⟩ ∧ check "\x60" = .incomplete ∧
      ((∃ t, check ("\x60" ++ "\n" ++ t) = .complete) ↔
        ∃ t, ClosesAs "\x60" t ∧ BeginsProgram (significant ((lex "\x60").tokens ++ [t]))) ∧
      ((∃ t, ClosesAs "\x60" t) ↔ (LexCause.unterminatedTemplate = .unterminatedText true →
        AwaitsLine "\x60" 0 ['\r'])) := by
  have hlex : (lex "\x60").result = .error ⟨.unterminatedTemplate, 0⟩ := by rw [lex_backquote]
  have hcheck : check "\x60" = .incomplete := by
    rw [check_of_error (parseProgram_of_lex_error hlex)]
    rfl
  exact ⟨hlex, hcheck, check_incomplete_mendable hlex hcheck⟩

/-- What is open at the end says nothing of the tokens before it. Nor does a line end that already stands behind the
backslash leave room for another. -/
theorem incomplete_past_mending :
    (check ")\x60" = .incomplete ∧ ∀ t, check (")\x60" ++ "\n" ++ t) ≠ .complete) ∧
      check "'abc\\\n" = .incomplete ∧ ∀ t, check ("'abc\\\n" ++ "\n" ++ t) ≠ .complete := by
  constructor
  · have hfirst : (Cursor.skipWhile isBlank (Cursor.ofString ")\x60")).next? = some (')', ⟨1, ['\x60']⟩) := rfl
    have hparen : Lexer.lexeme ')' ⟨1, ['\x60']⟩ = .ok (.punct .closeParen, ⟨1, ['\x60']⟩) := rfl
    have hsecond : (Cursor.skipWhile isBlank ⟨1, ['\x60']⟩).next? = some ('\x60', ⟨2, []⟩) := rfl
    have hlex : lex ")\x60" = ⟨[⟨.punct .closeParen, 0, 1, false⟩], .error ⟨.unterminatedTemplate, 1⟩⟩ := by
      rw [lex, Lexer.scan_of_lexeme hfirst hparen, Lexer.scan_of_error hsecond (Lexer.lexeme_backquote_end 2)]
      rfl
    have hresult : (lex ")\x60").result = .error ⟨.unterminatedTemplate, 1⟩ := by rw [hlex]
    refine ⟨by rw [check_of_error (parseProgram_of_lex_error hresult)]; rfl, ?_⟩
    intro t hcomplete
    obtain ⟨closed, -, hbegins⟩ := (exists_complete_iff_closes hresult).mp ⟨t, hcomplete⟩
    rw [hlex, significant_append] at hbegins
    -- the parser stops at the first token, whatever comes behind it
    cases (beginsProgram_iff 0).mp hbegins _ rfl
  · have hfirst : (Cursor.skipWhile isBlank (Cursor.ofString "'abc\\\n")).next? =
        some ('\'', ⟨1, ['a', 'b', 'c', '\\', '\n']⟩) := rfl
    have hopen : Lexer.quoted '\'' ⟨1, ['a', 'b', 'c', '\\', '\n']⟩ = .error ⟨6, []⟩ := by
      simp [Lexer.quoted, Lexer.escape, Cursor.next?, isLineEnd]
      rfl
    have htext : Lexer.lexeme '\'' ⟨1, ['a', 'b', 'c', '\\', '\n']⟩ = .error (.unterminatedText true) :=
      Lexer.lexeme_open_text (.inl rfl) hopen
    have hresult : (lex "'abc\\\n").result = .error ⟨.unterminatedText true, 0⟩ := by
      rw [lex, Lexer.scan_of_error hfirst htext]
      rfl
    refine ⟨by rw [check_of_error (parseProgram_of_lex_error hresult)]; rfl, ?_⟩
    intro t hcomplete
    obtain ⟨closed, hcloses, -⟩ := (exists_complete_iff_closes hresult).mp ⟨t, hcomplete⟩
    obtain ⟨c, after, newline, hstops⟩ := exists_stopsAt hresult
    have hawaits : AwaitsLine "'abc\\\n" 0 ['\r'] :=
      (hstops.awaitsLine_iff _).mpr (hstops.exists_closesAs_iff.mp ⟨closed, hcloses⟩)
    obtain ⟨front, hfront⟩ := hawaits.exists_front
    have hlast := congrArg List.getLast? hfront
    rw [List.getLast?_append] at hlast
    cases hlast

/-- A source that the lexer cannot cut up and that is taken for invalid becomes a program by more lines exactly if it ends
in a string right behind a backslash that nothing was escaped by, and the tokens up to this string begin a program. -/
theorem check_invalid_mendable {s message : String} {e : LexError} (hlex : (lex s).result = .error e)
    (hcheck : check s = .invalid message) :
    ((∃ t, check (s ++ "\n" ++ t) = .complete) ↔
        ∃ t, ClosesAs s t ∧ BeginsProgram (significant ((lex s).tokens ++ [t]))) ∧
      ((∃ t, ClosesAs s t) ↔ e.cause = .unterminatedText false ∧ AwaitsLine s e.offset []) := by
  refine ⟨exists_complete_iff_closes hlex, ?_⟩
  obtain ⟨c, after, newline, hstops⟩ := exists_stopsAt hlex
  rw [hstops.exists_closesAs_iff, hstops.awaitsLine_iff]
  rw [check_of_error (parseProgram_of_lex_error hlex)] at hcheck
  cases hcause : e.cause with
  | unterminatedComment | unterminatedTemplate => simp [hcause, SyntaxCause.mayContinue] at hcheck
  | unterminatedText continued =>
      cases continued with
      | true => simp [hcause, SyntaxCause.mayContinue] at hcheck
      | false => simp [Lexer.Closable]
  | invalidNumber | unexpectedChar _ => simp [Lexer.Closable]

theorem lex_backslash : (lex "'a\\").result = .error ⟨.unterminatedText false, 0⟩ := by
  have hfirst : (Cursor.skipWhile isBlank (Cursor.ofString "'a\\")).next? = some ('\'', ⟨1, ['a', '\\']⟩) := rfl
  have hopen : Lexer.quoted '\'' ⟨1, ['a', '\\']⟩ = .error ⟨3, []⟩ := by
    simp [Lexer.quoted, Lexer.escape, Cursor.next?]
    rfl
  rw [lex, Lexer.scan_of_error hfirst (Lexer.lexeme_open_text (.inl rfl) hopen)]
  rfl

theorem check_backslash : check "'a\\" = .invalid "Invalid or unexpected token" := by
  rw [check_of_error (parseProgram_of_lex_error lex_backslash)]
  rfl

theorem check_invalid_mendable_backslash :
    (lex "'a\\").result = .error ⟨.unterminatedText false, 0⟩ ∧
      check "'a\\" = .invalid "Invalid or unexpected token" ∧
      ((∃ t, check ("'a\\" ++ "\n" ++ t) = .complete) ↔
        ∃ t, ClosesAs "'a\\" t ∧ BeginsProgram (significant ((lex "'a\\").tokens ++ [t]))) ∧
      ((∃ t, ClosesAs "'a\\" t) ↔ LexCause.unterminatedText false = .unterminatedText false ∧
        AwaitsLine "'a\\" 0 []) :=
  ⟨lex_backslash, check_backslash, check_invalid_mendable lex_backslash check_backslash⟩

/-- A string whose line ends in a backslash is refused, although it can go on in the next line. -/
theorem backslash_refused :
    check "'a\\" = .invalid "Invalid or unexpected token" ∧ check ("'a\\" ++ "\n" ++ "'") = .complete := by
  refine ⟨check_backslash, ?_⟩
  have hfirst : (Cursor.skipWhile isBlank (Cursor.ofString ("'a\\" ++ "\n" ++ "'"))).next? =
      some ('\'', ⟨1, ['a', '\\', '\n', '\'']⟩) := rfl
  have hquoted : Lexer.quoted '\'' ⟨1, ['a', '\\', '\n', '\'']⟩ = .ok (['a'], ⟨5, []⟩) := by
    simp [Lexer.quoted, Lexer.escape, Cursor.next?, isLineEnd]
    rfl
  have htext : Lexer.lexeme '\'' ⟨1, ['a', '\\', '\n', '\'']⟩ = .ok (.text "a", ⟨5, []⟩) := by
    rw [show Lexer.lexeme '\'' _ = Lexer.textToken '\'' _ from rfl, Lexer.textToken, hquoted]
  have hlex : lex ("'a\\" ++ "\n" ++ "'") = ⟨[⟨.text "a", 0, 5, false⟩], .ok ⟨5, false⟩⟩ := by
    rw [lex, Lexer.scan_of_lexeme hfirst htext, Lexer.scan_of_end rfl]
    rfl
  exact check_of_ok (by rw [parseProgram_of_inputOf (inputOf_of_lex hlex)]; rfl)

end ScriptRepl.Syntax
