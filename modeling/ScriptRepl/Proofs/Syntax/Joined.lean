import ScriptRepl.Proofs.Syntax.Moved
import ScriptRepl.Proofs.Syntax.Placeless

/-! Two programs with a semicolon on a line of its own between them are one program. No token reaches from the first
into the second, whatever the first ends with, and the second is read as if nothing came before it. -/
namespace ScriptRepl.Syntax

open Text (Cursor isBlank size)

def Stmt.isEmpty : Stmt → Bool
  | .empty => true
  | _ => false

/-- The statements that do something. -/
def effective (p : Program) : Program :=
  p.filter fun s => !s.isEmpty

theorem effective_cons {s : Stmt} {p q r : Program} (h : effective r = effective p ++ effective q) :
    effective (s :: r) = effective (s :: p) ++ effective q := by
  have hfirst : ∀ r, effective (s :: r) = effective [s] ++ effective r := fun r => List.filter_append [s] r
  rw [hfirst r, hfirst p, h, List.append_assoc]

/-! ### Tokens -/

theorem bare_moved (k : Nat) (kind : TokenKind) : (kind.moved k).bare = kind.bare := by
  cases kind with
  | template t =>
      have hparts : (t.moved k).bare = t.bare := by
        simp [Template.moved, Template.bare, Hole.moved, Hole.bare]
      exact congrArg TokenKind.template hparts
  | _ => rfl

theorem respaced_moved (k : Nat) (ts : List Token) : Respaced ts (ts.map (·.moved k)) :=
  List.forall₂_map_right_iff.mpr (List.forall₂_same.mpr fun t _ => ⟨bare_moved k t.kind, id⟩)

theorem respaced_behind (newline : Bool) (lexed : Lexed) : Respaced lexed.tokens (lexed.behind newline).tokens := by
  obtain ⟨_ | ⟨t, ts⟩, result⟩ := lexed
  · cases result <;> exact .nil
  · exact .cons ⟨rfl, fun h => by rw [h, Bool.or_true]⟩ (Respaced.refl ts)

theorem ok_of_behind {lexed : Lexed} {mark : EndMark} (newline : Bool) (h : lexed.result = .ok mark) :
    ∃ mark', (lexed.behind newline).result = .ok mark' := by
  obtain ⟨_ | ⟨t, ts⟩, result⟩ := lexed
  · obtain rfl : result = .ok mark := h
    exact ⟨_, rfl⟩
  · exact ⟨mark, h⟩

/-- The tokens of the second source, where they stand behind the first one. -/
theorem lex_joined {a b : String} {mark mark' : EndMark} (ha : (lex a).result = .ok mark)
    (hb : (lex b).result = .ok mark') :
    ∃ t us mark'', t.kind = .punct .semicolon ∧ Respaced (lex b).tokens us ∧
      lex (a ++ "\n;\n" ++ b) = ⟨(lex a).tokens ++ t :: us, .ok mark''⟩ := by
  have htext : (";\n" ++ b).toList = ';' :: '\n' :: b.toList := by
    rw [String.toList_append]
    rfl
  obtain ⟨place, n, hfirst, hjoined⟩ := lex_nextToken ha htext (by decide)
  have hsemicolon : Lexer.lexeme ';' ⟨n, '\n' :: b.toList⟩ = .ok (.punct .semicolon, ⟨n, '\n' :: b.toList⟩) :=
    rfl
  have hline : ∀ c ∈ ['\n'], isBlank c = true := by
    intro c hc
    rw [List.mem_singleton.mp hc]
    decide
  have hrest : Lexer.scan ⟨n, '\n' :: b.toList⟩ = ((lex b).moved (n + 1)).behind true :=
    (Lexer.scan_blanks hline n b.toList).trans
      (congrArg (Lexed.behind true) (Lexer.scan_moved (n + 1) (Cursor.ofString b)))
  have hsource : a ++ "\n" ++ (";\n" ++ b) = a ++ "\n;\n" ++ b := by
    rw [← String.toList_inj]
    simp
  have hmoved : ((lex b).moved (n + 1)).result = .ok ⟨n + 1 + mark'.offset, mark'.newlineBefore⟩ := by
    rw [Lexed.moved, hb]
  obtain ⟨mark'', hmark⟩ := ok_of_behind true hmoved
  rw [hsource, Lexer.scan_of_lexeme hfirst hsemicolon, hrest, hmark] at hjoined
  have hspaced := respaced_behind true ((lex b).moved (n + 1))
  exact ⟨_, _, mark'', rfl, (respaced_moved (n + 1) (lex b).tokens).trans hspaced, hjoined⟩

/-! ### Programs -/

theorem Grammar.BodyEnds.append {s : Stmt} {us : List Token} (h : BodyEnds s us) (hne : us ≠ []) (vs : List Token) :
    BodyEnds s (us ++ vs) := by
  obtain ⟨t, us, rfl⟩ := List.exists_cons_of_ne_nil hne
  cases s with
  | decl kind name init? => cases init? <;> exact h
  | _ => exact h

theorem Grammar.Program.eq_nil {us : List Token} {p : Syntax.Program} (h : Program us p) (hus : us = []) : p = [] := by
  cases h with
  | nil => rfl
  | empty => cases hus
  | closed => exact absurd (List.append_eq_nil_iff.mp hus).2 (List.cons_ne_nil _ _)
  | ended hbody =>
      have hpos := Parser.length_pos_of_body hbody
      exact absurd (List.append_eq_nil_iff.mp hus).1 (List.ne_nil_of_length_pos hpos)

/-- A semicolon behind a program closes its last statement, or it is an empty one. -/
theorem Grammar.Program.join {us vs : List Token} {t : Token} {p q : Syntax.Program} (hp : Program us p)
    (ht : t.kind = .punct .semicolon) (hq : Program vs q) :
    ∃ r, Program (us ++ t :: vs) r ∧ effective r = effective p ++ effective q := by
  induction hp with
  | nil => exact ⟨.empty :: q, .empty ht hq, rfl⟩
  | empty hclose _ ih =>
      obtain ⟨r, hr, heffective⟩ := ih
      exact ⟨.empty :: r, .empty hclose hr, heffective⟩
  | @closed us ws t' s p hbody hclose _ ih =>
      obtain ⟨r, hr, heffective⟩ := ih
      refine ⟨s :: r, ?_, effective_cons heffective⟩
      rw [List.append_assoc]
      exact .closed hbody hclose hr
  | @ended us ws s p hbody hends hline hmore ih =>
      cases ws with
      | nil =>
          obtain rfl : p = [] := hmore.eq_nil rfl
          refine ⟨s :: q, ?_, effective_cons rfl⟩
          rw [List.append_nil]
          exact .closed hbody ht hq
      | cons u ws =>
          obtain ⟨r, hr, heffective⟩ := ih
          refine ⟨s :: r, ?_, effective_cons heffective⟩
          rw [List.append_assoc]
          exact .ended hbody (hends.append (List.cons_ne_nil u ws) _) hline hr

/-- Sources compose: behind a semicolon on a line of its own a program goes on as another one. -/
theorem parseProgram_joined {a b : String} {p q : Program} (ha : parseProgram a = .ok p)
    (hb : parseProgram b = .ok q) :
    ∃ r, parseProgram (a ++ "\n;\n" ++ b) = .ok r ∧ effective r = effective p ++ effective q := by
  obtain ⟨us, mark, hlexa, hp⟩ := parseProgram_derives.mp ha
  obtain ⟨vs, mark', hlexb, hq⟩ := parseProgram_derives.mp hb
  obtain ⟨t, ws, mark'', ht, hws, hlex⟩ := lex_joined (a := a) (b := b) (by rw [hlexa]) (by rw [hlexb])
  rw [hlexa] at hlex
  rw [hlexb] at hws
  obtain ⟨r, hr, heffective⟩ := hp.join ht (hq.respaced hws.significant)
  refine ⟨r, parseProgram_derives.mpr ⟨_, mark'', hlex, ?_⟩, heffective⟩
  have hsemicolon : significant (t :: ws) = t :: significant ws :=
    List.filter_cons_of_pos (by rw [ht]; rfl)
  rw [significant_append, hsemicolon]
  exact hr

/-- The name that is all of a program. -/
def soleName? : Except SyntaxError Program → Option String
  | .ok [.expr (.name s)] => some s
  | _ => none

theorem eq_of_soleName? {r : Except SyntaxError Program} {s : String} (h : soleName? r = some s) :
    r = .ok [.expr (.name s)] := by
  unfold soleName? at h
  split at h <;> cases h
  rfl

theorem parseProgram_joined_parens :
    parseProgram "a // b" = .ok [.expr (.name "a")] ∧ parseProgram "(c)" = .ok [.expr (.name "c")] ∧
      ∃ r, parseProgram ("a // b" ++ "\n;\n" ++ "(c)") = .ok r ∧
        effective r = effective [.expr (.name "a")] ++ effective [.expr (.name "c")] := by
  have ha : parseProgram "a // b" = .ok [.expr (.name "a")] := eq_of_soleName? (by decide +kernel)
  have hb : parseProgram "(c)" = .ok [.expr (.name "c")] := eq_of_soleName? (by decide +kernel)
  exact ⟨ha, hb, parseProgram_joined ha hb⟩

end ScriptRepl.Syntax
