import ScriptRepl.Proofs.Syntax.Stratified

/-! The grammar of programs: a statement is closed by a semicolon, or it ends before a line end or the end of the
source. The parser of a whole source returns exactly the program that the grammar derives. -/
namespace ScriptRepl.Syntax

namespace Grammar

/-- A declaration or an expression, without what closes the statement. -/
inductive Body : Phrase Stmt
  | expr {us : List Token} {e : Expr} (h : Expression us e) : Body us (.expr e)
  | bare {t t' : Token} {kind : DeclKind} {s : String} (hkey : t.kind = .keyword (.decl kind)) (hname : t'.kind = .name s)
      (hkind : kind ≠ .constKind) : Body [t, t'] (.decl kind s none)
  | valued {t t' t'' : Token} {us : List Token} {kind : DeclKind} {s : String} {e : Expr}
      (hkey : t.kind = .keyword (.decl kind)) (hname : t'.kind = .name s) (hassign : t''.kind = .punct .assign)
      (hvalue : Expression us e) : Body (t :: t' :: t'' :: us) (.decl kind s (some e))

/-- What comes next does not go on with the statement. -/
def BodyEnds : Stmt → List Token → Prop
  | .decl _ _ none, ts => ∀ t ∈ ts.head?, t.kind ≠ .punct .assign
  | _, ts => Parser.Ends 0 ts

/-- The end, or a token behind a line end that closes nothing. -/
def EndsLine (ts : List Token) : Prop :=
  ∀ t ∈ ts.head?, t.newlineBefore = true ∧ t.kind ≠ .punct .semicolon

inductive Program : Phrase Syntax.Program
  | nil : Program [] []
  | empty {t : Token} {us : List Token} {p : Syntax.Program} (hclose : t.kind = .punct .semicolon)
      (hmore : Program us p) : Program (t :: us) (.empty :: p)
  | closed {us vs : List Token} {t : Token} {s : Stmt} {p : Syntax.Program} (hbody : Body us s)
      (hclose : t.kind = .punct .semicolon) (hmore : Program vs p) : Program (us ++ t :: vs) (s :: p)
  | ended {us vs : List Token} {s : Stmt} {p : Syntax.Program} (hbody : Body us s) (hends : BodyEnds s vs)
      (hline : EndsLine vs) (hmore : Program vs p) : Program (us ++ vs) (s :: p)

end Grammar

namespace Parser

open Grammar

variable {ts us rest : List Token} {fin : Nat} {i : Input} {s : Stmt} {p : Program}

theorem bodyEnds_semicolon {t : Token} (h : t.kind = .punct .semicolon) (s : Stmt) (ts : List Token) :
    BodyEnds s (t :: ts) := by
  have hends : Ends 0 (t :: ts) := ends_cons h (by rintro _ ⟨⟩)
  cases s with
  | expr e => exact hends
  | empty => exact hends
  | decl kind name init? =>
      cases init? with
      | some e => exact hends
      | none =>
          rintro _ ⟨⟩
          rw [h]
          nofun

/-! ### Bodies -/

theorem sound_declarationTail {kind : DeclKind} {name : String}
    (h : (declarationTail kind name).run ⟨ts, fin⟩ = .ok (s, i)) :
    ∃ used rest, ts = used ++ rest ∧ i = ⟨rest, fin⟩ ∧ BodyEnds s rest ∧
      ∀ t t', t.kind = .keyword (.decl kind) → t'.kind = .name name → Body (t :: t' :: used) s := by
  obtain ⟨t'', ts, rfl, hassign, heat⟩ | ⟨hother, heat⟩ := eat_cases .assign ts fin
  · rw [declarationTail, run_bind_ok heat, if_pos rfl] at h
    obtain ⟨e, i', hvalue, hpure⟩ := ok_of_run_bind h
    obtain ⟨us, rest, rfl, rfl, hphrase, hends⟩ := reads_expression.sound hvalue
    cases hpure
    exact ⟨t'' :: us, rest, rfl, rfl, hends, fun t t' hkey hname => .valued hkey hname hassign hphrase⟩
  · rw [declarationTail, run_bind_ok heat, if_neg Bool.false_ne_true] at h
    by_cases hconst : kind = .constKind
    · rw [if_pos hconst] at h
      cases ts <;> cases h
    · rw [if_neg hconst] at h
      cases h
      exact ⟨[], ts, rfl, rfl, hother, fun t t' hkey hname => .bare hkey hname hconst⟩

theorem sound_statementBody (h : statementBody.run ⟨ts, fin⟩ = .ok (s, i)) :
    ∃ used rest, ts = used ++ rest ∧ i = ⟨rest, fin⟩ ∧ Body used s ∧ BodyEnds s rest := by
  have hexpr : (do return Stmt.expr (← expression)).run ⟨ts, fin⟩ = .ok (s, i) →
      ∃ used rest, ts = used ++ rest ∧ i = ⟨rest, fin⟩ ∧ Body used s ∧ BodyEnds s rest := by
    intro hrun
    obtain ⟨e, i', hvalue, hpure⟩ := ok_of_run_bind hrun
    obtain ⟨us, rest, hts, rfl, hphrase, hends⟩ := reads_expression.sound hvalue
    cases hpure
    exact ⟨us, rest, hts, rfl, .expr hphrase, hends⟩
  cases ts with
  | nil => exact hexpr h
  | cons t ts =>
      by_cases hkey : ∃ kind, t.kind = .keyword (.decl kind)
      · obtain ⟨kind, hkey⟩ := hkey
        obtain ⟨_, start, stop, newline⟩ := t
        cases hkey
        have hdecl : (accept declaredName? >>= declarationTail kind).run ⟨ts, fin⟩ = .ok (s, i) := by
          rw [← run_declaration]
          exact h
        obtain ⟨name, i', hname, htail⟩ := ok_of_run_bind hdecl
        cases ts with
        | nil => cases hname
        | cons t' ts =>
            obtain ⟨k, start', stop', newline'⟩ := t'
            cases k <;> cases hname
            obtain ⟨used, rest, rfl, rfl, hends, hbody⟩ := sound_declarationTail htail
            exact ⟨_ :: _ :: used, rest, rfl, rfl, hbody _ _ rfl rfl, hends⟩
      · refine hexpr ?_
        obtain ⟨kind, start, stop, newline⟩ := t
        cases kind with
        | keyword k =>
            cases k with
            | decl kind => exact absurd ⟨kind, rfl⟩ hkey
            | literal l => exact h
            | typeof => exact h
        | _ => exact h

theorem complete_statementBody (hbody : Body us s) (hends : BodyEnds s rest) (fin : Nat) :
    statementBody.run ⟨us ++ rest, fin⟩ = .ok (s, ⟨rest, fin⟩) := by
  cases hbody with
  | expr hphrase =>
      have hrun : expression.run ⟨us ++ rest, fin⟩ = .ok (_, ⟨rest, fin⟩) := reads_expression.complete hphrase hends
      generalize us ++ rest = ts at hrun ⊢
      cases ts with
      | nil => cases hrun
      | cons t ts => exact run_statementBody_of_expression hrun
  | @bare t t' kind name hkey hname hkind =>
      have htail : (declarationTail kind name).run ⟨rest, fin⟩ = .ok (.decl kind name none, ⟨rest, fin⟩) := by
        obtain ⟨t'', ts, rfl, hassign, _⟩ | ⟨_, heat⟩ := eat_cases .assign rest fin
        · exact absurd hassign (hends t'' rfl)
        · rw [declarationTail, run_bind_ok heat, if_neg Bool.false_ne_true, if_neg hkind]
          rfl
      obtain ⟨_, start, stop, newline⟩ := t
      obtain ⟨_, start', stop', newline'⟩ := t'
      cases hkey
      cases hname
      exact htail
  | @valued t t' t'' us kind name e hkey hname hassign hvalue =>
      have hrun : expression.run ⟨us ++ rest, fin⟩ = .ok (e, ⟨rest, fin⟩) := reads_expression.complete hvalue hends
      have htail : (declarationTail kind name).run ⟨t'' :: (us ++ rest), fin⟩ =
          .ok (.decl kind name (some e), ⟨rest, fin⟩) := by
        rw [declarationTail, run_bind_ok (run_eat_self hassign fin), if_pos rfl, run_bind_ok hrun]
        rfl
      obtain ⟨_, start, stop, newline⟩ := t
      obtain ⟨_, start', stop', newline'⟩ := t'
      cases hkey
      cases hname
      exact htail

/-! ### Statements -/

theorem run_endOfStatement_line (h : EndsLine rest) (fin : Nat) :
    endOfStatement.run ⟨rest, fin⟩ = .ok ((), ⟨rest, fin⟩) := by
  cases rest with
  | nil => rfl
  | cons t ts =>
      obtain ⟨hline, hother⟩ := h t rfl
      rw [endOfStatement, run_bind_ok (run_eat_other hother fin), if_neg Bool.false_ne_true]
      have hrun : (if t.newlineBefore then pure () else unexpected : Parse Unit).run ⟨t :: ts, fin⟩ =
          .ok ((), ⟨t :: ts, fin⟩) := by
        rw [hline]
        rfl
      exact hrun

theorem sound_endOfStatement (h : endOfStatement.run ⟨ts, fin⟩ = .ok ((), i)) :
    (∃ t us, ts = t :: us ∧ t.kind = .punct .semicolon ∧ i = ⟨us, fin⟩) ∨ EndsLine ts ∧ i = ⟨ts, fin⟩ := by
  obtain ⟨t, us, rfl, hkind, heat⟩ | ⟨hother, heat⟩ := eat_cases .semicolon ts fin
  · rw [endOfStatement, run_bind_ok heat, if_pos rfl] at h
    cases h
    exact .inl ⟨t, us, rfl, hkind, rfl⟩
  · rw [endOfStatement, run_bind_ok heat, if_neg Bool.false_ne_true] at h
    refine .inr ?_
    cases ts with
    | nil =>
        cases h
        exact ⟨nofun, rfl⟩
    | cons t ts =>
        have hrun : (if t.newlineBefore then pure () else unexpected : Parse Unit).run ⟨t :: ts, fin⟩ = .ok ((), i) := h
        cases hline : t.newlineBefore with
        | true =>
            rw [hline] at hrun
            cases hrun
            refine ⟨?_, rfl⟩
            rintro _ ⟨⟩
            exact ⟨hline, hother t rfl⟩
        | false =>
            rw [hline] at hrun
            cases hrun

/-- A body begins with a token that is no semicolon. -/
theorem exists_first_of_body (h : Body us s) : ∃ t vs, us = t :: vs ∧ t.kind ≠ .punct .semicolon := by
  cases h with
  | @bare t t' kind name hkey hname hkind => exact ⟨t, [t'], rfl, by rw [hkey]; nofun⟩
  | @valued t t' t'' vs kind name e hkey hname hassign hvalue => exact ⟨t, t' :: t'' :: vs, rfl, by rw [hkey]; nofun⟩
  | expr hphrase =>
      have hrun : expression.run ⟨us ++ [], 0⟩ = .ok (_, ⟨[], 0⟩) := reads_expression.complete hphrase (ends_nil 0)
      rw [List.append_nil] at hrun
      cases us with
      | nil => cases hrun
      | cons t us =>
          refine ⟨t, us, rfl, ?_⟩
          obtain ⟨kind, start, stop, newline⟩ := t
          rintro ⟨⟩
          cases hrun

theorem length_pos_of_body (h : Body us s) : 0 < us.length := by
  obtain ⟨t, vs, rfl, _⟩ := exists_first_of_body h
  exact Nat.succ_pos _

theorem run_statement_empty {t : Token} (h : t.kind = .punct .semicolon) (ts : List Token) (fin : Nat) :
    statement.run ⟨t :: ts, fin⟩ = .ok (.empty, ⟨ts, fin⟩) := by
  exact run_bind_ok (run_eat_self h fin)

theorem run_statement_body {t : Token} (h : t.kind ≠ .punct .semicolon) (ts : List Token) (fin : Nat) :
    statement.run ⟨t :: ts, fin⟩ =
      (do let s ← statementBody; endOfStatement; return s : Parse Stmt).run ⟨t :: ts, fin⟩ := by
  exact run_bind_ok (run_eat_other h fin)

theorem run_statement_of_body (hbody : Body us s) (hends : BodyEnds s rest)
    (hend : endOfStatement.run ⟨rest, fin⟩ = .ok ((), i)) : statement.run ⟨us ++ rest, fin⟩ = .ok (s, i) := by
  have hrun := complete_statementBody hbody hends fin
  obtain ⟨t, us, rfl, hother⟩ := exists_first_of_body hbody
  rw [List.cons_append] at hrun ⊢
  rw [run_statement_body hother, run_bind_ok hrun, run_bind_ok hend]
  rfl

theorem run_statements_cons {n : Nat} (hne : ts ≠ []) (hstatement : statement.run ⟨ts, fin⟩ = .ok (s, ⟨rest, fin⟩))
    (hmore : (statements n).run ⟨rest, fin⟩ = .ok (p, i)) : (statements (n + 1)).run ⟨ts, fin⟩ = .ok (s :: p, i) := by
  obtain ⟨t, ts, rfl⟩ := List.exists_cons_of_ne_nil hne
  rw [run_statements, run_bind_ok hstatement, run_bind_ok hmore]
  rfl

theorem sound_statements {n : Nat} (hle : ts.length ≤ n) (h : (statements n).run ⟨ts, fin⟩ = .ok (p, i)) :
    Grammar.Program ts p := by
  induction n generalizing ts p i with
  | zero =>
      obtain rfl : ts = [] := List.eq_nil_of_length_eq_zero (Nat.le_zero.mp hle)
      cases h
      exact .nil
  | succ n ih =>
      cases ts with
      | nil =>
          cases h
          exact .nil
      | cons t ts =>
          rw [run_statements] at h
          obtain ⟨s, i', hstatement, hmore⟩ := ok_of_run_bind h
          obtain ⟨p, i'', hrest, hpure⟩ := ok_of_run_bind hmore
          cases hpure
          by_cases hkind : t.kind = .punct .semicolon
          · rw [run_statement_empty hkind] at hstatement
            cases hstatement
            exact .empty hkind (ih (Nat.le_of_succ_le_succ hle) hrest)
          · rw [run_statement_body hkind] at hstatement
            obtain ⟨s', i', hbody, hend⟩ := ok_of_run_bind hstatement
            obtain ⟨_, i'', hend, hpure⟩ := ok_of_run_bind hend
            cases hpure
            obtain ⟨us, rest, hts, rfl, hphrase, hends⟩ := sound_statementBody hbody
            have hpos := length_pos_of_body hphrase
            rw [hts, List.length_append] at hle
            rw [hts]
            obtain ⟨t', ws, rfl, hclose, rfl⟩ | ⟨hline, rfl⟩ := sound_endOfStatement hend
            · rw [List.length_cons] at hle
              exact .closed hphrase hclose (ih (by omega) hrest)
            · exact .ended hphrase hends hline (ih (by omega) hrest)

theorem complete_statements (h : Grammar.Program ts p) {n : Nat} (hle : ts.length ≤ n) (fin : Nat) :
    (statements n).run ⟨ts, fin⟩ = .ok (p, ⟨[], fin⟩) := by
  induction h generalizing n with
  | nil => cases n <;> rfl
  | empty hclose _ ih =>
      obtain ⟨k, rfl, hk⟩ := exists_succ_of_length_le hle
      exact run_statements_cons (List.cons_ne_nil _ _) (run_statement_empty hclose _ fin) (ih hk)
  | @closed us vs t s p hbody hclose _ ih =>
      have hpos := length_pos_of_body hbody
      rw [List.length_append, List.length_cons] at hle
      obtain ⟨k, rfl⟩ : ∃ k, n = k + 1 := ⟨n - 1, by omega⟩
      have hend : endOfStatement.run ⟨t :: vs, fin⟩ = .ok ((), ⟨vs, fin⟩) := run_bind_ok (run_eat_self hclose fin)
      exact run_statements_cons (List.append_ne_nil_of_left_ne_nil (List.ne_nil_of_length_pos hpos) _)
        (run_statement_of_body hbody (bodyEnds_semicolon hclose s vs) hend) (ih (by omega))
  | @ended us vs s p hbody hends hline _ ih =>
      have hpos := length_pos_of_body hbody
      rw [List.length_append] at hle
      obtain ⟨k, rfl⟩ : ∃ k, n = k + 1 := ⟨n - 1, by omega⟩
      exact run_statements_cons (List.append_ne_nil_of_left_ne_nil (List.ne_nil_of_length_pos hpos) _)
        (run_statement_of_body hbody hends (run_endOfStatement_line hline fin)) (ih (by omega))

end Parser

/-- The parser of a whole source returns a program exactly if the grammar derives it from all of the tokens. -/
theorem parseProgram_derives {source : String} {p : Program} :
    parseProgram source = .ok p ↔ Grammar.Program.OfSource source p := by
  constructor
  · intro h
    cases hinput : Parser.inputOf source with
    | error e =>
        rw [parseProgram_of_inputOf_error hinput] at h
        cases h
    | ok i =>
        obtain ⟨ts, mark, hlex, rfl⟩ := Parser.inputOf_eq_ok_iff.mp hinput
        rw [parseProgram_of_inputOf hinput] at h
        cases hrun : (Parser.statements (significant ts).length).run ⟨significant ts, mark.offset⟩ with
        | error e =>
            rw [hrun] at h
            cases h
        | ok pair =>
            rw [hrun] at h
            cases h
            exact ⟨ts, mark, hlex, Parser.sound_statements (Nat.le_refl _) hrun⟩
  · rintro ⟨ts, mark, hlex, hphrase⟩
    rw [parseProgram_of_inputOf (inputOf_of_lex hlex), Parser.complete_statements hphrase (Nat.le_refl _)]
    rfl

end ScriptRepl.Syntax
