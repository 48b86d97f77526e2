import ScriptRepl.Proofs.Syntax.LineEnds
import ScriptRepl.Proofs.Syntax.Overwritten

/-! Comments are blank space to the parser, but for the line end before them: the token behind a comment does not know
of it. So the parser may refuse a token that a comment keeps apart from the line end before it, where it goes on if
there are blanks in place of the comment. This is the only difference. -/
namespace ScriptRepl.Syntax

open Text (Cursor)

theorem significant_comment {t : Token} (ht : t.kind.isComment = true) (ts : List Token) :
    significant (t :: ts) = significant ts :=
  List.filter_cons_of_neg (by rw [ht]; exact Bool.false_ne_true)

theorem significant_token {t : Token} (ht : t.kind.isComment = false) (ts : List Token) :
    significant (t :: ts) = t :: significant ts :=
  List.filter_cons_of_pos (by rw [ht]; rfl)

theorem offset_behind (newline : Bool) (ts : List Token) (mark : EndMark) :
    ∃ mark', (Lexed.behind newline ⟨ts, .ok mark⟩).result = .ok mark' ∧ mark'.offset = mark.offset := by
  cases ts with
  | nil => exact ⟨_, rfl, rfl⟩
  | cons u us => exact ⟨mark, rfl, rfl⟩

/-- A line end makes a difference to the token behind it, unless that is a comment or one was there. -/
theorem significant_behind (newline : Bool) (ts : List Token) (mark : EndMark) :
    significant (Lexed.behind newline ⟨ts, .ok mark⟩).tokens = significant ts ∨
      ∃ u us, ts = u :: us ∧ newline = true ∧ u.kind.isComment = false ∧ u.newlineBefore = false ∧
        significant (Lexed.behind newline ⟨ts, .ok mark⟩).tokens = u.broken :: significant us := by
  cases ts with
  | nil => exact .inl rfl
  | cons u us =>
      have hbehind : (Lexed.behind newline ⟨u :: us, .ok mark⟩).tokens =
          { u with newlineBefore := newline || u.newlineBefore } :: us := rfl
      rw [hbehind]
      cases hcomment : u.kind.isComment with
      | true =>
          rw [significant_comment hcomment]
          exact .inl (@significant_comment { u with newlineBefore := newline || u.newlineBefore } hcomment us)
      | false =>
          cases newline with
          | false => exact .inl rfl
          | true =>
              cases hline : u.newlineBefore with
              | true =>
                  obtain ⟨kind, start, stop, _⟩ := u
                  cases hline
                  exact .inl rfl
              | false => exact .inr ⟨u, us, rfl, rfl, hcomment, hline, @significant_token u.broken hcomment us⟩

/-- Overwriting a comment leaves the result as it was, statements or error and its place, unless the comment stands
behind a line end and before a token on its own line, and the parser refuses this token. -/
theorem parseProgram_overwrite {source : String} {before rest : List Token} {t : Token} {mark : EndMark}
    (h : lex source = ⟨before ++ t :: rest, .ok mark⟩) (ht : t.kind = .comment) :
    parseProgram (overwrite source t.start t.stop) = parseProgram source ∨
      ∃ u us, rest = u :: us ∧ t.newlineBefore = true ∧ u.kind.isComment = false ∧ u.newlineBefore = false ∧
        parseProgram source = .error ⟨.unexpected u.kind, u.start⟩ := by
  obtain ⟨mark', hresult, hoffset⟩ := offset_behind t.newlineBefore rest mark
  have hoverwrite := lex_overwrite h ht
  rw [hresult] at hoverwrite
  have hbroken := parseProgram_of_inputOf (inputOf_of_lex hoverwrite)
  have hsource := parseProgram_of_inputOf (inputOf_of_lex h)
  rw [significant_append, hoffset] at hbroken
  rw [significant_append, significant_comment (by rw [ht]; rfl)] at hsource
  rcases significant_behind t.newlineBefore rest mark with hsame | ⟨u, us, rfl, hline, hu, hnone, htokens⟩
  · rw [hsame] at hbroken
    exact .inl (hbroken.trans hsource.symm)
  · rw [htokens] at hbroken
    rw [significant_token hu] at hsource
    have hlength : (significant before ++ u.broken :: significant us).length =
        (significant before ++ u :: significant us).length := by
      rw [List.length_append, List.length_append]
      rfl
    rw [hlength] at hbroken
    rcases run_statements_broken hnone (significant before) (significant us) mark.offset _ with hsame | hrefused
    · exact .inl (hbroken.trans (hsame.trans hsource.symm))
    · rw [hrefused] at hsource
      exact .inr ⟨u, us, rfl, hline, hu, hnone, hsource⟩

/-! ### Comments behind and before line ends -/

def Token.fields (t : Token) : TokenKind × Nat × Nat × Bool :=
  (t.kind, t.start, t.stop, t.newlineBefore)

theorem lex_of_fields {source : String} {ts : List Token} {mark : EndMark}
    (htokens : (lex source).tokens.map Token.fields = ts.map Token.fields)
    (hmark : (lex source).result.toOption.map (fun m => (m.offset, m.newlineBefore)) =
      some (mark.offset, mark.newlineBefore)) : lex source = ⟨ts, .ok mark⟩ := by
  have hinjective : ∀ t u : Token, t.fields = u.fields → t = u := by
    rintro ⟨_, _, _, _⟩ ⟨_, _, _, _⟩ hsame
    cases hsame
    rfl
  generalize lex source = lexed at htokens hmark ⊢
  obtain ⟨us, result⟩ := lexed
  obtain rfl : us = ts := (List.map_inj_right hinjective).mp htokens
  cases result with
  | error e => cases hmark
  | ok m =>
      obtain ⟨offset, newline⟩ := mark
      cases hmark
      rfl

theorem parseProgram_overwrite_between :
    lex "a /*;*/ b" =
        ⟨[⟨.name "a", 0, 1, false⟩] ++ ⟨.comment, 2, 7, false⟩ :: [⟨.name "b", 8, 9, false⟩], .ok ⟨9, false⟩⟩ ∧
      parseProgram (overwrite "a /*;*/ b" 2 7) = parseProgram "a /*;*/ b" := by
  have hlex : lex "a /*;*/ b" =
      ⟨[⟨.name "a", 0, 1, false⟩] ++ ⟨.comment, 2, 7, false⟩ :: [⟨.name "b", 8, 9, false⟩], .ok ⟨9, false⟩⟩ :=
    lex_of_fields (by decide +kernel) (by decide +kernel)
  refine ⟨hlex, ?_⟩
  rcases parseProgram_overwrite hlex rfl with hsame | ⟨u, us, -, hline, -⟩
  · exact hsame
  · cases hline

def Stmt.soleName? : Stmt → Option String
  | .expr (.name s) => some s
  | _ => none

/-- The names of a program of names, or the name that a source is refused for, and where it stands. -/
def readNames : Except SyntaxError Program → Option (List String ⊕ String × Nat)
  | .ok p => (p.mapM Stmt.soleName?).map .inl
  | .error ⟨.unexpected (.name s), offset⟩ => some (.inr (s, offset))
  | _ => none

/-- A comment keeps the token behind it apart from the line end before it. -/
theorem comment_hides_line :
    lex "a\n/**/b" =
        ⟨[⟨.name "a", 0, 1, false⟩] ++ ⟨.comment, 2, 6, true⟩ :: [⟨.name "b", 6, 7, false⟩], .ok ⟨7, false⟩⟩ ∧
      readNames (parseProgram "a\n/**/b") = some (.inr ("b", 6)) ∧ overwrite "a\n/**/b" 2 6 = "a\n    b" ∧
      readNames (parseProgram "a\n    b") = some (.inl ["a", "b"]) ∧
      parseProgram (overwrite "a\n/**/b" 2 6) ≠ parseProgram "a\n/**/b" := by
  have hrefused : readNames (parseProgram "a\n/**/b") = some (.inr ("b", 6)) := by decide +kernel
  have hblank : overwrite "a\n/**/b" 2 6 = "a\n    b" := by decide +kernel
  have hread : readNames (parseProgram "a\n    b") = some (.inl ["a", "b"]) := by decide +kernel
  refine ⟨lex_of_fields (by decide +kernel) (by decide +kernel), hrefused, hblank, hread, ?_⟩
  rw [hblank]
  intro hsame
  rw [hsame, hrefused] at hread
  cases hread

end ScriptRepl.Syntax
