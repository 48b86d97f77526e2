import ScriptRepl.Proofs.Syntax.ViableExpression

/-! The parsers of statements are viable on every input, and so is the one of a whole source. -/
namespace ScriptRepl.Syntax.Parser

section

variable {ts : List Token}

theorem viable_expression : Viable 1 (.marks stops) (fun _ => expression) ts :=
  viable_assignment (sound_level maxNesting)

theorem begins_expression : Begins (.marks stops) (fun _ => expression) :=
  begins_assignment

/-- At the end a source that has to end there may. -/
theorem done_end {parse : Nat → Parse α} (x : α) (hrun : ∀ n fin, (parse n).run ⟨[], fin⟩ = .ok (x, ⟨[], fin⟩)) :
    Done 0 (.marks []) parse [] x [] := by
  refine done_of_marks x hrun ?_
  rintro t n ts fin ⟨m, hm, _⟩
  cases hm

theorem viable_endOfStatement : Viable 0 (.marks []) (fun _ => endOfStatement) ts := by
  cases ts with
  | nil => exact .done () [] (done_end () fun _ _ => rfl)
  | cons t ts =>
      by_cases hkind : t.kind = .punct .semicolon
      · exact ((viable_pure ()).skip fun _ _ fin => run_bind_ok (run_eat_self hkind fin)).loosen
      · have hrun : ∀ rest fin, endOfStatement.run ⟨t :: rest, fin⟩ =
            (if t.newlineBefore then pure () else unexpected : Parse Unit).run ⟨t :: rest, fin⟩ :=
          fun _ fin => run_bind_ok (run_eat_other hkind fin)
        cases hline : t.newlineBefore with
        | true =>
            refine .stop () fun _ rest fin => ?_
            rw [hrun, hline]
            rfl
        | false =>
            refine .unexpected fun _ rest fin => ?_
            rw [hrun, hline]
            rfl

/-- The name to declare that a token spells. -/
def declaredName? : TokenKind → Option String
  | .name s => some s
  | _ => none

/-- What a declaration does behind the name. -/
def declarationTail (kind : DeclKind) (name : String) : Parse Stmt := do
  if ← eat .assign then return .decl kind name (some (← expression))
  else if kind = .constKind then
    match ← peek with
    | none => fail .endOfInput
    | some _ => fail .missingInitializer
  else return .decl kind name none

theorem run_declaration (kind : DeclKind) (i : Input) :
    (declaration kind).run i = (accept declaredName? >>= declarationTail kind).run i := by
  obtain ⟨ts, fin⟩ := i
  cases ts with
  | nil => rfl
  | cons t ts =>
      obtain ⟨k, start, stop, newline⟩ := t
      cases k <;> rfl

theorem viable_declarationTail (kind : DeclKind) (name : String) (hne : ts ≠ []) :
    Viable 0 (.marks []) (fun _ => declarationTail kind name) ts := by
  cases ts with
  | nil => exact absurd rfl hne
  | cons t ts =>
      by_cases hkind : t.kind = .punct .assign
      · have hvalue : Viable 1 (.marks []) (fun _ => do return Stmt.decl kind name (some (← expression))) ts :=
          (viable_expression.map fun e => Stmt.decl kind name (some e)).weaken (Nat.le_refl _)
            fun _ => Next.allows_of_subset (List.nil_subset _)
        refine (hvalue.skip fun _ rest fin => ?_).loosen
        rw [declarationTail, run_bind_ok (run_eat_self hkind fin), if_pos rfl]
      · by_cases hconst : kind = .constKind
        · refine .refuse .missingInitializer rfl fun _ rest fin => ⟨t.start, ?_⟩
          rw [declarationTail, run_bind_ok (run_eat_other hkind fin), if_neg Bool.false_ne_true, if_pos hconst]
          rfl
        · refine .stop (.decl kind name none) fun _ rest fin => ?_
          rw [declarationTail, run_bind_ok (run_eat_other hkind fin), if_neg Bool.false_ne_true, if_neg hconst]
          rfl

/-- At the end only a constant still needs a value. -/
theorem follows_declarationTail (kind : DeclKind) (name : String) :
    Follows .anything (.marks []) (fun _ => declarationTail kind name) := by
  by_cases hconst : kind = .constKind
  · obtain ⟨e, more, hhungry⟩ := begins_expression
    refine .needs (.decl kind name (some e)) (.mark .assign rfl :: .word :: more) ⟨?_, ?_⟩
      fun _ _ _ => trivial
    · intro fin n _
      subst hconst
      exact ⟨⟨.endOfInput, fin⟩, rfl, rfl⟩
    · intro cs rest fin n hn hcs hrest
      obtain ⟨t, cs', rfl, hkind, hcs'⟩ := hcs.of_cons
      have hvalue := hhungry.feeds cs' rest fin n (by simp at hn ⊢; omega) hcs'
        (Next.allows_of_subset (List.nil_subset _) hrest)
      rw [List.nil_append] at hvalue
      rw [List.nil_append, List.cons_append, declarationTail, run_bind_ok (run_eat_self hkind fin), if_pos rfl,
        run_bind_ok hvalue]
      rfl
  · refine .returns (.decl kind name none) (done_end _ fun _ fin => ?_) fun _ _ => trivial
    rw [declarationTail, run_bind_ok (run_eat_nil .assign fin), if_neg Bool.false_ne_true, if_neg hconst]
    rfl

theorem viable_declaration (kind : DeclKind) : Viable 1 (.marks []) (fun _ => declaration kind) ts := by
  have hname : Viable 1 .anything (fun _ => accept declaredName?) ts := viable_accept rfl
  have hboth : Viable 1 (.marks []) (fun _ => accept declaredName? >>= declarationTail kind) ts :=
    hname.bind (fun name _ hne _ => viable_declarationTail kind name hne) (follows_declarationTail kind)
  exact hboth.of_run (Nat.le_refl _) fun ext fin n hn => ⟨n, hn, run_declaration kind ⟨ts ++ ext, fin⟩⟩

theorem viable_statementBody {t : Token} : Viable 1 (.marks []) (fun _ => statementBody) (t :: ts) := by
  have hexpr : Viable 1 (.marks []) (fun _ => do return Stmt.expr (← expression)) (t :: ts) :=
    (viable_expression.map Stmt.expr).weaken (Nat.le_refl _) fun _ => Next.allows_of_subset (List.nil_subset _)
  obtain ⟨kind, start, stop, newline⟩ := t
  cases kind with
  | keyword k =>
      cases k with
      | decl kind => exact (viable_declaration kind).skip fun _ _ _ => rfl
      | literal l => exact hexpr.congr fun _ _ _ => rfl
      | typeof => exact hexpr.congr fun _ _ _ => rfl
  | _ => exact hexpr.congr fun _ _ _ => rfl

theorem viable_statement {t : Token} : Viable 1 (.marks []) (fun _ => statement) (t :: ts) := by
  by_cases hkind : t.kind = .punct .semicolon
  · exact (viable_pure Stmt.empty).skip fun _ _ fin => run_bind_ok (run_eat_self hkind fin)
  · have hboth : Viable 1 (.marks []) (fun _ => do let s ← statementBody; endOfStatement; return s) (t :: ts) := by
      refine viable_statementBody.bind (fun s _ _ _ => viable_endOfStatement.map fun _ => s) ?_
      intro s
      exact .returns s (done_end s fun _ _ => rfl) fun _ h => h
    exact hboth.congr fun _ _ fin => run_bind_ok (run_eat_other hkind fin)

theorem run_statements (n : Nat) (t : Token) (ts : List Token) (fin : Nat) :
    (statements (n + 1)).run ⟨t :: ts, fin⟩ =
      (do let s ← statement; return s :: (← statements n) : Parse Program).run ⟨t :: ts, fin⟩ := by
  rfl

theorem viable_statements (ts : List Token) : Viable 0 (.marks []) (fun n => statements n) ts := by
  induction ts using length_induction with
  | h ts ih =>
      cases ts with
      | nil =>
          refine .done [] [] (done_end [] fun n fin => ?_)
          cases n <;> rfl
      | cons t ts =>
          have hcont : ∀ (s : Stmt) (rest : List Token), rest ≠ [] → rest.length ≤ (t :: ts).length - 1 →
              Viable 0 (.marks []) (fun n => do return s :: (← statements n)) rest := by
            intro s rest _ hle
            exact (ih rest (Nat.lt_succ_of_le hle)).map (s :: ·)
          have hend : ∀ s : Stmt, Follows (.marks []) (.marks []) (fun n => do return s :: (← statements n)) := by
            intro s
            refine .returns [s] (done_end [s] fun n fin => ?_) fun _ h => h
            cases n <;> rfl
          have hboth := viable_statement.bind_sub (Nat.succ_le_succ (Nat.zero_le ts.length)) (Nat.le_refl 1) hcont hend
          exact (hboth.congr fun n rest fin => run_statements n t rest fin).loosen

end

end ScriptRepl.Syntax.Parser
