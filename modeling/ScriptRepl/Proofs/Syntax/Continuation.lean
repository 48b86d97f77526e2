import ScriptRepl.Proofs.Syntax.Extended
import ScriptRepl.Proofs.Syntax.ViableStatement

/-! A source that has all its tokens is incomplete exactly if further lines can make it a program. -/
namespace ScriptRepl

namespace Text.Cursor

/-- A span up to the first character that is not of the class. -/
theorem skipWhile_append {p : Char → Bool} {passed : List Char} (h : ∀ c ∈ passed, p c = true) {c : Char}
    (hc : p c = false) (n : Nat) (cs : List Char) :
    ∃ m, skipWhile p ⟨n, passed ++ c :: cs⟩ = ⟨m, c :: cs⟩ := by
  refine ⟨n + size passed, ?_⟩
  rw [skipWhile_of_all h]
  simp [skipWhile, skipWhile.go, hc]

end Text.Cursor

namespace Syntax

open Text (Cursor isBlank)

/-! ### Fillers as text -/

/-- A filler is written as one character. -/
def Filler.char : Filler → Char
  | word => 'a'
  | mark .closeParen _ => ')'
  | mark .closeBracket _ => ']'
  | mark .closeBrace _ => '\x7d'
  | mark .colon _ => ':'
  | mark _ _ => '='

/-- Fillers with a space behind each. -/
def fillerText (fillers : List Filler) : List Char :=
  fillers.flatMap fun filler => [filler.char, ' ']

theorem isBlank_filler (filler : Filler) : isBlank filler.char = false := by
  cases filler with
  | word => rfl
  | mark p h => cases p <;> rfl

theorem lexeme_filler (filler : Filler) (n : Nat) (cs : List Char) :
    Lexer.lexeme filler.char ⟨n, ' ' :: cs⟩ = .ok (filler.kind, ⟨n, ' ' :: cs⟩) := by
  cases filler with
  | word => rfl
  | mark p h =>
      cases p with
      | closeParen => rfl
      | closeBracket => rfl
      | closeBrace => rfl
      | colon => rfl
      | assign => rfl
      | _ => cases h

theorem scan_fillers (fillers : List Filler) {blanks : List Char} (h : ∀ c ∈ blanks, isBlank c = true) (n : Nat) :
    ∃ ts mark, Lexer.scan ⟨n, blanks ++ fillerText fillers⟩ = ⟨ts, .ok mark⟩ ∧ Spells ts fillers := by
  induction fillers generalizing blanks n with
  | nil =>
      have hend : (Cursor.skipWhile isBlank ⟨n, blanks⟩).next? = none :=
        Cursor.next?_skipWhile_eq_none.mpr h
      rw [show fillerText [] = [] from rfl, List.append_nil, Lexer.scan_of_end hend]
      exact ⟨[], _, rfl, rfl⟩
  | cons filler fillers ih =>
      obtain ⟨m, hskip⟩ := Cursor.skipWhile_append h (isBlank_filler filler) n (' ' :: fillerText fillers)
      have hspace : ∀ c ∈ [' '], isBlank c = true := List.forall_mem_singleton.mpr rfl
      obtain ⟨ts, mark, hscan, hspells⟩ := ih hspace (m + filler.char.utf8Size)
      have hnext : (Cursor.skipWhile isBlank ⟨n, blanks ++ fillerText (filler :: fillers)⟩).next? =
          some (filler.char, ⟨m + filler.char.utf8Size, ' ' :: fillerText fillers⟩) := by
        have htext : fillerText (filler :: fillers) = filler.char :: ' ' :: fillerText fillers := rfl
        rw [htext, hskip]
        rfl
      have hrest : Lexer.scan ⟨m + filler.char.utf8Size, ' ' :: fillerText fillers⟩ = ⟨ts, .ok mark⟩ := hscan
      rw [Lexer.scan_of_lexeme hnext (lexeme_filler filler _ _), hrest]
      refine ⟨_, mark, rfl, ?_⟩
      unfold Spells at hspells ⊢
      rw [List.map_cons, List.map_cons, hspells]

/-! ### Sources that go on -/

theorem Spells.not_isComment {ts : List Token} {fillers : List Filler} (h : Spells ts fillers) :
    ∀ t ∈ ts, t.kind.isComment = false := by
  intro t ht
  have hmem : t.kind ∈ fillers.map Filler.kind := by
    rw [← h]
    exact List.mem_map_of_mem ht
  obtain ⟨filler, _, hkind⟩ := List.mem_map.mp hmem
  rw [← hkind]
  cases filler <;> rfl

/-- The tokens that the parser reads. -/
def significant (ts : List Token) : List Token :=
  ts.filter fun t => !t.kind.isComment

theorem significant_append (a b : List Token) : significant (a ++ b) = significant a ++ significant b :=
  List.filter_append ..

theorem significant_eq_self {ts : List Token} (h : ∀ t ∈ ts, t.kind.isComment = false) : significant ts = ts := by
  refine List.filter_eq_self.mpr ?_
  intro t ht
  rw [h t ht]
  rfl

theorem Spells.significant_eq {ts : List Token} {fillers : List Filler} (h : Spells ts fillers) :
    significant ts = ts :=
  significant_eq_self h.not_isComment

theorem inputOf_of_lex {s : String} {ts : List Token} {mark : EndMark} (h : lex s = ⟨ts, .ok mark⟩) :
    Parser.inputOf s = .ok ⟨significant ts, mark.offset⟩ := by
  unfold Parser.inputOf
  rw [h]
  rfl

/-- The tokens of a longer source are those of its first lines and some more, whatever these are, if it has tokens at
all. -/
theorem lex_nextLine {s : String} {mark : EndMark} (h : (lex s).result = .ok mark) :
    ∃ last : Cursor, (∀ c ∈ last.rest, isBlank c = true) ∧ ∀ t : String,
      lex (s ++ "\n" ++ t) =
        ⟨(lex s).tokens ++ (Lexer.scan (last.followed t.toList)).tokens,
          (Lexer.scan (last.followed t.toList)).result⟩ := by
  obtain ⟨last, hblank, hscan⟩ := Lexer.scan_followed h
  refine ⟨last, hblank, ?_⟩
  intro t
  have hplace : Cursor.ofString (s ++ "\n" ++ t) = (Cursor.ofString s).followed t.toList := by
    simp [Cursor.ofString, Cursor.followed]
  rw [lex, hplace]
  exact hscan t.toList

/-- The first character of the next line begins a token of its own. -/
theorem lex_nextToken {s : String} {mark : EndMark} (h : (lex s).result = .ok mark) {t : String} {c : Char}
    {cs : List Char} (ht : t.toList = c :: cs) (hc : isBlank c = false) :
    ∃ place n, (place.skipWhile isBlank).next? = some (c, ⟨n, cs⟩) ∧
      lex (s ++ "\n" ++ t) = ⟨(lex s).tokens ++ (Lexer.scan place).tokens, (Lexer.scan place).result⟩ := by
  obtain ⟨last, hblank, hlex⟩ := lex_nextLine h
  have hblanks : ∀ c ∈ last.rest ++ ['\n'], isBlank c = true := by
    intro c hc
    rcases List.mem_append.mp hc with hrest | hline
    · exact hblank c hrest
    · rw [List.mem_singleton.mp hline]
      decide
  obtain ⟨m, hskip⟩ := Cursor.skipWhile_append hblanks hc last.offset cs
  have hplace : last.followed t.toList = ⟨last.offset, last.rest ++ ['\n'] ++ c :: cs⟩ := by
    simp [Cursor.followed, ht]
  refine ⟨last.followed t.toList, m + c.utf8Size, ?_, hlex t⟩
  rw [hplace, hskip]
  rfl

theorem inputOf_nextLine {s : String} {mark : EndMark} (h : (lex s).result = .ok mark) (t : String) :
    (∃ e, Parser.inputOf (s ++ "\n" ++ t) = .error e) ∨
      ∃ ext fin, Parser.inputOf (s ++ "\n" ++ t) = .ok ⟨significant (lex s).tokens ++ ext, fin⟩ := by
  obtain ⟨last, _, hlex⟩ := lex_nextLine h
  cases hresult : (Lexer.scan (last.followed t.toList)).result with
  | error e =>
      refine .inl ⟨⟨.lexical e.cause, e.offset⟩, ?_⟩
      unfold Parser.inputOf
      rw [hlex t, hresult]
  | ok last' =>
      have hlex' := hlex t
      rw [hresult] at hlex'
      refine .inr ⟨significant (Lexer.scan (last.followed t.toList)).tokens, last'.offset, ?_⟩
      rw [inputOf_of_lex hlex', significant_append]

/-- Any fillers can be written in the next line. -/
theorem inputOf_fillers {s : String} {mark : EndMark} (h : (lex s).result = .ok mark) (fillers : List Filler) :
    ∃ t cs fin, Spells cs fillers ∧
      Parser.inputOf (s ++ "\n" ++ t) = .ok ⟨significant (lex s).tokens ++ cs, fin⟩ := by
  obtain ⟨last, hblank, hlex⟩ := lex_nextLine h
  have hblanks : ∀ c ∈ last.rest ++ ['\n'], isBlank c = true := by
    intro c hc
    rcases List.mem_append.mp hc with hrest | hline
    · exact hblank c hrest
    · rw [List.mem_singleton.mp hline]
      decide
  obtain ⟨cs, last', hscan, hspells⟩ := scan_fillers fillers hblanks last.offset
  have hlex' := hlex (String.ofList (fillerText fillers))
  have hplace : last.followed (fillerText fillers) = ⟨last.offset, last.rest ++ ['\n'] ++ fillerText fillers⟩ := by
    simp [Cursor.followed]
  rw [String.toList_ofList, hplace, hscan] at hlex'
  refine ⟨String.ofList (fillerText fillers), cs, last'.offset, hspells, ?_⟩
  rw [inputOf_of_lex hlex', significant_append, hspells.significant_eq]

/-! ### What more lines can mend -/

theorem parseProgram_of_inputOf {s : String} {ts : List Token} {fin : Nat} (h : Parser.inputOf s = .ok ⟨ts, fin⟩) :
    parseProgram s = ((Parser.statements ts.length).run ⟨ts, fin⟩).map Prod.fst := by
  unfold parseProgram
  rw [h]
  rfl

theorem parseProgram_of_inputOf_error {s : String} {e : SyntaxError} (h : Parser.inputOf s = .error e) :
    parseProgram s = .error e := by
  unfold parseProgram
  rw [h]
  rfl

theorem parseProgram_of_refused {s : String} {mark : EndMark} (hlex : (lex s).result = .ok mark)
    (h : Parser.Refused (fun n => Parser.statements n) (significant (lex s).tokens)) (t : String) :
    ∃ e, parseProgram (s ++ "\n" ++ t) = .error e := by
  rcases inputOf_nextLine hlex t with ⟨e, hinput⟩ | ⟨ext, fin, hinput⟩
  · exact ⟨e, parseProgram_of_inputOf_error hinput⟩
  · obtain ⟨e, hrun, _⟩ := h ext fin _ (Nat.le_refl _)
    refine ⟨e, ?_⟩
    rw [parseProgram_of_inputOf hinput, hrun]
    rfl

theorem parseProgram_of_hungry {s : String} {mark : EndMark} (hlex : (lex s).result = .ok mark) {program : Program}
    {fillers : List Filler}
    (h : Parser.Hungry (.marks []) (fun n => Parser.statements n) (significant (lex s).tokens) program fillers) :
    ∃ t, parseProgram (s ++ "\n" ++ t) = .ok program := by
  obtain ⟨t, cs, fin, hspells, hinput⟩ := inputOf_fillers hlex fillers
  have hrun := h.feeds cs [] fin (significant (lex s).tokens ++ cs).length (by simp) hspells (Parser.Next.allows_nil _)
  rw [List.append_nil] at hrun
  refine ⟨t, ?_⟩
  rw [parseProgram_of_inputOf hinput, hrun]
  rfl

theorem check_of_ok {s : String} {program : Program} (h : parseProgram s = .ok program) : check s = .complete := by
  rw [check, h]

theorem check_of_error {s : String} {e : SyntaxError} (h : parseProgram s = .error e) :
    check s = if e.cause.mayContinue then .incomplete else .invalid e.message := by
  rw [check, h]

theorem check_ne_complete {s : String} {e : SyntaxError} (h : parseProgram s = .error e) : check s ≠ .complete := by
  rw [check_of_error h]
  split
  · nofun
  · nofun

/-- Incomplete always means that more lines can mend the source, and invalid that no more lines can. -/
theorem check_incomplete_iff {s : String} {mark : EndMark} {e : SyntaxError} (hlex : (lex s).result = .ok mark)
    (hparse : parseProgram s = .error e) :
    check s = .incomplete ↔ ∃ t, check (s ++ "\n" ++ t) = .complete := by
  have hinput : Parser.inputOf s = .ok ⟨significant (lex s).tokens, mark.offset⟩ := by
    refine inputOf_of_lex ?_
    rw [← hlex]
  have hrun := parseProgram_of_inputOf hinput
  have hviable : Parser.Viable 0 (.marks []) (fun n => Parser.statements n) (significant (lex s).tokens) :=
    Parser.viable_statements _
  cases hviable with
  | done program rest hdone =>
      have hok := hdone.run [] mark.offset (significant (lex s).tokens).length (by simp)
        fun _ => Parser.Next.allows_nil _
      rw [List.append_nil] at hok
      rw [hok, hparse] at hrun
      cases hrun
  | refused hrefused =>
      obtain ⟨e', herror, hfinal⟩ := hrefused [] mark.offset (significant (lex s).tokens).length (by simp)
      rw [List.append_nil] at herror
      rw [herror] at hrun
      rw [check_of_error hrun, hfinal]
      refine iff_of_false nofun ?_
      rintro ⟨t, hcomplete⟩
      obtain ⟨e'', hnext⟩ := parseProgram_of_refused hlex hrefused t
      exact check_ne_complete hnext hcomplete
  | hungry program fillers hhungry =>
      obtain ⟨e', herror, hends⟩ := hhungry.starves mark.offset _ (Nat.le_refl _)
      rw [herror] at hrun
      rw [check_of_error hrun, hends]
      obtain ⟨t, hnext⟩ := parseProgram_of_hungry hlex hhungry
      exact iff_of_true rfl ⟨t, check_of_ok hnext⟩

theorem check_incomplete_iff_paren :
    (lex "(").result = .ok ⟨1, false⟩ ∧ parseProgram "(" = .error ⟨.endOfInput, 1⟩ ∧
      (check "(" = .incomplete ↔ ∃ t, check ("(" ++ "\n" ++ t) = .complete) := by
  have htokens : lex "(" = ⟨[⟨.punct .openParen, 0, 1, false⟩], .ok ⟨1, false⟩⟩ := by
    have hfirst : (Cursor.skipWhile isBlank (Cursor.ofString "(")).next? = some ('(', ⟨1, []⟩) := rfl
    have hlexeme : Lexer.lexeme '(' ⟨1, []⟩ = .ok (.punct .openParen, ⟨1, []⟩) := rfl
    have hend : (Cursor.skipWhile isBlank ⟨1, []⟩).next? = none := rfl
    rw [lex, Lexer.scan_of_lexeme hfirst hlexeme, Lexer.scan_of_end hend]
    rfl
  have hlex : (lex "(").result = .ok ⟨1, false⟩ := by rw [htokens]
  have hparse : parseProgram "(" = .error ⟨.endOfInput, 1⟩ := by
    rw [parseProgram_of_inputOf (inputOf_of_lex htokens)]
    rfl
  exact ⟨hlex, hparse, check_incomplete_iff hlex hparse⟩

end Syntax

end ScriptRepl
