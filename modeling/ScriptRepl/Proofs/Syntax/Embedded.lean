import ScriptRepl.Proofs.Syntax.Holes
import ScriptRepl.Proofs.Syntax.Matched
import ScriptRepl.Proofs.Syntax.Mending
import ScriptRepl.Proofs.Syntax.Stratified

/-! Expressions in the hole of a template. The template is read as such exactly if the braces and quotes in the hole
are balanced; in what is an expression, only a backquote in a hole of its own can keep them from it. -/
namespace ScriptRepl.Syntax

open Text (Cursor isBlank isNameChar)

open Lexer (nest nestAll Nestable Nests Balanced marked)

/-! ### The braces of a phrase -/

variable {us vs ts : List Token} {t : Token}

theorem nestAll_cons (depth : Nat) (t : Token) (us : List Token) :
    nestAll depth (t :: us) = (nest depth t.kind).bind fun depth' => nestAll depth' us :=
  List.foldlM_cons

theorem nestAll_append (depth : Nat) (us vs : List Token) :
    nestAll depth (us ++ vs) = (nestAll depth us).bind fun depth' => nestAll depth' vs :=
  List.foldlM_append

theorem nest_of_isPlain {kind : TokenKind} (h : kind.IsPlain) (depth : Nat) : nest depth kind = some depth := by
  unfold nest
  split
  · exact absurd rfl (h (.openBrace, .closeBrace) (by decide)).1
  · exact absurd rfl (h (.openBrace, .closeBrace) (by decide)).2
  · rfl

/-- Every brace has its partner. -/
theorem Matched.nestAll_eq (h : Matched us) (depth : Nat) : nestAll depth us = some depth := by
  induction h generalizing depth with
  | nil => rfl
  | plain h _ ih =>
      rw [nestAll_cons, nest_of_isPlain h]
      exact ih depth
  | @pair t t' us vs p q hpair hopen _ hclose _ hinner hmore =>
      have hnest : (nest depth (.punct p)).bind (fun depth' => nest depth' (.punct q)) = some depth := by
        simp only [Punct.pairs, List.mem_cons, List.not_mem_nil, or_false, Prod.mk.injEq] at hpair
        rcases hpair with ⟨rfl, rfl⟩ | ⟨rfl, rfl⟩ | ⟨rfl, rfl⟩ <;> rfl
      rw [← hopen, ← hclose] at hnest
      obtain ⟨depth', hdepth', hback⟩ := Option.bind_eq_some_iff.mp hnest
      rw [nestAll_cons, hdepth', Option.bind_some, nestAll_append, hinner, Option.bind_some, nestAll_cons, hback]
      exact hmore depth

/-- An expression without comments and without a backquote in a hole is balanced. -/
theorem balanced_of_derives {room : Nat} {source : String} {e : Expr}
    (h : (Grammar.Assignment (Grammar.Nested.none.within room)).OfSource source e)
    (hcomments : ∀ t ∈ (lex source).tokens, t.kind.isComment = false)
    (hholes : ∀ t ∈ (lex source).tokens, ∀ hole ∈ t.kind.holes, '\x60' ∉ hole.source.toList) :
    Balanced source.toList := by
  obtain ⟨ts, mark, hlex, hphrase⟩ := h
  rw [hlex] at hcomments hholes
  rw [significant_eq_self hcomments] at hphrase
  have hmatched := hphrase.matched (Grammar.Nested.matched_within room)
  exact Lexer.nests_scan hlex (fun t ht => ⟨hcomments t ht, hholes t ht⟩) (hmatched.nestAll_eq 0)

/-! ### The template of one hole -/

/-- The template that has the source in its only hole, and no text besides. -/
def embedded (source : String) : String :=
  "\x60$\x7b" ++ source ++ "\x7d\x60"

theorem toList_embedded (source : String) :
    (embedded source).toList = '\x60' :: '$' :: '\x7b' :: (source.toList ++ ['\x7d', '\x60']) := by
  rw [embedded, String.toList_append, String.toList_append]
  rfl

namespace Lexer

theorem pieces?_hole (offset : Nat) (cs : List Char) :
    pieces? ⟨offset, '$' :: '\x7b' :: cs⟩ =
      (holeLength? 0 0 .code cs).bind fun n =>
        (pieces? (Cursor.skip (n + 1) ⟨offset + 2, cs⟩)).map fun (p, stop) =>
          (⟨[], (⟨offset + 2, String.ofList (cs.take n)⟩, p.head) :: p.parts⟩, stop) := by
  rw [pieces?]
  cases h : holeLength? 0 0 .code cs with
  | none => simp [Cursor.next?, Cursor.peek?, Cursor.skip, h]
  | some n =>
      simp [Cursor.next?, Cursor.peek?, Cursor.skip, h]
      rfl

/-- A source that begins with a backquote begins with a template. -/
theorem scan_template {p : Pieces} {stop : Cursor} {cs : List Char} (h : pieces? ⟨1, cs⟩ = some (p, stop)) :
    scan ⟨0, '\x60' :: cs⟩ =
      ⟨⟨.template p.template, 0, stop.offset, false⟩ :: (scan stop).tokens, (scan stop).result⟩ := by
  have hnext : (Cursor.skipWhile isBlank ⟨0, '\x60' :: cs⟩).next? = some ('\x60', ⟨1, cs⟩) := rfl
  have hlexeme : lexeme '\x60' ⟨1, cs⟩ = .ok (.template p.template, stop) := by
    have htemplate : lexeme '\x60' ⟨1, cs⟩ = templateToken ⟨1, cs⟩ := rfl
    rw [htemplate, templateToken, h]
  exact scan_of_lexeme hnext hlexeme

theorem exists_pieces?_of_scan {ts : List Token} {mark : EndMark} {cs : List Char}
    (h : scan ⟨0, '\x60' :: cs⟩ = ⟨ts, .ok mark⟩) : ∃ p stop, pieces? ⟨1, cs⟩ = some (p, stop) := by
  have hnext : (Cursor.skipWhile isBlank ⟨0, '\x60' :: cs⟩).next? = some ('\x60', ⟨1, cs⟩) := rfl
  cases hpieces : pieces? ⟨1, cs⟩ with
  | none =>
      have htemplate : lexeme '\x60' ⟨1, cs⟩ = templateToken ⟨1, cs⟩ := rfl
      have hlexeme : lexeme '\x60' ⟨1, cs⟩ = .error .unterminatedTemplate := by rw [htemplate, templateToken, hpieces]
      rw [scan_of_error hnext hlexeme] at h
      cases h
  | some read => exact ⟨read.1, read.2, rfl⟩

end Lexer

/-- A balanced source is the hole that it is put in. -/
theorem lex_embedded {source : String} (h : Balanced source.toList) :
    ∃ stop, lex (embedded source) =
      ⟨[⟨.template ⟨"", [(⟨3, source⟩, "")]⟩, 0, stop, false⟩], .ok ⟨stop, false⟩⟩ := by
  have hlength : Lexer.holeLength? 0 0 .code (source.toList ++ ['\x7d', '\x60']) = some source.toList.length :=
    Lexer.holeLength?_eq_some_iff.mpr ⟨_, _, rfl, h, rfl⟩
  have hbehind : (Cursor.skip (source.toList.length + 1) ⟨3, source.toList ++ ['\x7d', '\x60']⟩).rest = ['\x60'] := by
    rw [Cursor.rest_skip, ← List.drop_drop, List.drop_left]
    rfl
  generalize hclose : Cursor.skip (source.toList.length + 1) ⟨3, source.toList ++ ['\x7d', '\x60']⟩ = close at hbehind
  obtain ⟨n, cs⟩ := close
  cases hbehind
  have hpieces : Lexer.pieces? ⟨1, '$' :: '\x7b' :: (source.toList ++ ['\x7d', '\x60'])⟩ =
      some (⟨[], [(⟨3, source⟩, [])]⟩, ⟨n + 1, []⟩) := by
    rw [Lexer.pieces?_hole, hlength, Option.bind_some, hclose, Lexer.pieces?_backquote, List.take_left,
      String.ofList_toList]
    rfl
  refine ⟨n + 1, ?_⟩
  rw [lex, Cursor.ofString, toList_embedded, Lexer.scan_template hpieces, Lexer.scan_of_end rfl]
  rfl

/-- An expression in a hole takes one level of nesting more than by itself. -/
theorem derives_embedded {room : Nat} {source : String} {e : Expr}
    (h : (Grammar.Assignment (Grammar.Nested.none.within room)).OfSource source e)
    (hbalanced : Balanced source.toList) :
    (Grammar.Assignment (Grammar.Nested.none.within (room + 1))).OfSource (embedded source)
      (.template "" [(e, "")]) := by
  obtain ⟨stop, hlex⟩ := lex_embedded hbalanced
  have hparts : (Grammar.Nested.none.within (room + 1)).parts [(⟨3, source⟩, "")] [(e, "")] := .cons h .nil
  exact ⟨_, _, hlex, (@Grammar.Primary.template _ _ ⟨"", [(⟨3, source⟩, "")]⟩ _ rfl hparts).assignment⟩

/-! ### A brace behind a source -/

namespace Lexer

variable {place after stop : Cursor} {c : Char} {kind : TokenKind}

theorem uncontinued_brace (more : List Char) : Uncontinued ('\x7d' :: more) := by
  rintro _ ⟨⟩ p
  cases p <;> decide

/-- A brace makes no token begin otherwise. -/
theorem decided_brace (more : List Char) :
    ∀ d ∈ ('\x7d' :: more).head?, d ≠ '/' ∧ d ≠ '*' ∧ Number.isDigit d = false := by
  rintro _ ⟨⟩
  decide

theorem lexeme_punct_closed {p : Punct} (h : lexeme c after = .ok (.punct p, stop)) (more : List Char) :
    lexeme c (after.extended ('\x7d' :: more)) = .ok (.punct p, stop.extended ('\x7d' :: more)) := by
  cases yields_of_lexeme h with
  | punct hfirst hpunct =>
      obtain ⟨hline, hblock, hquote, hback, hnumber, hname⟩ := hfirst
      rw [lexeme_decided (decided_brace more), if_neg hline, if_neg hblock, if_neg hquote, if_neg hback, if_neg hnumber,
        if_neg hname]
      exact punctToken_extended hpunct (uncontinued_brace more)

/-- What is no comment is read alike in front of a brace. -/
theorem lexeme_closed (h : lexeme c after = .ok (kind, stop)) (hkind : kind.isComment = false) (more : List Char) :
    lexeme c (after.extended ('\x7d' :: more)) = .ok (kind, stop.extended ('\x7d' :: more)) := by
  have hhead : ∀ p : Char → Prop, p '\x7d' → ∀ d ∈ ('\x7d' :: more).head?, p d := by
    rintro p hp d ⟨⟩
    exact hp
  cases kind with
  | number x => exact lexeme_extended h fun _ => hhead (isNumeric · = false) (by decide)
  | name s => exact lexeme_extended h fun _ => hhead (isNameChar · = false) (by decide)
  | keyword k => exact lexeme_extended h fun _ => hhead (isNameChar · = false) (by decide)
  | text s => exact lexeme_extended h trivial
  | template t => exact lexeme_extended h trivial
  | punct p => exact lexeme_punct_closed h more
  | comment => cases hkind

/-- A comment may grow over the brace, but it stays a comment. -/
theorem lexeme_comment_closed (h : lexeme c after = .ok (.comment, stop)) (more : List Char) :
    ∃ stop, lexeme c (after.extended ('\x7d' :: more)) = .ok (.comment, stop) := by
  rw [lexeme_decided (decided_brace more)]
  cases yields_of_lexeme h with
  | line hfirst => exact ⟨_, if_pos hfirst⟩
  | block hfirst hblock =>
      have hother : ¬ (c = '/' ∧ after.peek? = some '/') := by
        rw [hfirst.2]
        rintro ⟨-, ⟨⟩⟩
      rw [if_neg hother, if_pos hfirst]
      exact ⟨_, blockComment_extended hfirst.2 hblock⟩

/-- The tokens of a source stay in front of a brace, which is a token of its own, unless one of them is a comment. -/
theorem scan_closed {ts : List Token} {mark : EndMark} {more : List Char} (h : scan place = ⟨ts, .ok mark⟩)
    (hcomments : ∀ t ∈ (scan (place.extended ('\x7d' :: more))).tokens, t.kind.isComment = false) :
    ∃ t rest result, t.kind = .punct .closeBrace ∧
      scan (place.extended ('\x7d' :: more)) = ⟨ts ++ t :: rest, result⟩ := by
  fun_induction scan place generalizing ts mark with
  | case1 place newline =>
      rename_i hn
      cases h
      have hall := Cursor.next?_skipWhile_eq_none.mp hn
      obtain ⟨n, hskip⟩ := Cursor.skipWhile_append (c := '\x7d') hall rfl place.offset more
      have hnext : (Cursor.skipWhile isBlank (place.extended ('\x7d' :: more))).next? =
          some ('\x7d', ⟨n + 1, more⟩) := by
        rw [Cursor.extended, hskip]
        rfl
      have hlexeme : lexeme '\x7d' ⟨n + 1, more⟩ = .ok (.punct .closeBrace, ⟨n + 1, more⟩) := rfl
      exact ⟨_, _, _, rfl, scan_of_lexeme hnext hlexeme⟩
  | case2 => cases h
  | case3 =>
      rename_i place newline start c after hn kind stop hl rest ih
      obtain ⟨rfl, hresult⟩ := (Lexed.mk.injEq ..).mp h
      cases hkind : kind.isComment with
      -- a comment up to the line end takes the brace along
      | true =>
          obtain rfl : kind = .comment := by cases kind <;> first | rfl | cases hkind
          obtain ⟨stop', hl'⟩ := lexeme_comment_closed hl more
          rw [scan_of_lexeme_extended hn hl'] at hcomments
          have hfalse : TokenKind.comment.isComment = false := hcomments _ List.mem_cons_self
          cases hfalse
      | false =>
          have hscan := scan_of_lexeme_extended hn (lexeme_closed hl hkind more)
          rw [hscan] at hcomments
          obtain ⟨t, behind, result, ht, hrest⟩ :=
            ih (by rw [← hresult]) fun t ht => hcomments t (List.mem_cons_of_mem _ ht)
          refine ⟨t, behind, result, ht, ?_⟩
          rw [hscan, hrest]
          rfl

end Lexer

/-- An expression with a brace behind it begins no other expression. -/
theorem not_derives_closed {l : Parser.Level} {d : Grammar.Nested} (h : l.Reads d) {inner source : String} {e e' : Expr}
    (hinner : (Grammar.Assignment d).OfSource inner e) (hsource : (Grammar.Assignment d).OfSource source e')
    (hcomments : ∀ t ∈ (lex source).tokens, t.kind.isComment = false) (more : List Char) :
    source.toList ≠ inner.toList ++ '\x7d' :: more := by
  intro hchars
  obtain ⟨ts, mark, hlex, hphrase⟩ := hinner
  obtain ⟨us, mark', hlex', hphrase'⟩ := hsource
  have hextended : lex source = Lexer.scan ((Cursor.ofString inner).extended ('\x7d' :: more)) := by
    rw [lex, Cursor.ofString, hchars]
    rfl
  rw [hextended] at hcomments
  obtain ⟨t, rest, result, ht, hscan⟩ := Lexer.scan_closed hlex hcomments
  obtain rfl : us = ts ++ t :: rest := by
    rw [hextended, hscan] at hlex'
    exact (congrArg Lexed.tokens hlex').symm
  have hclose : significant (t :: rest) = t :: significant rest :=
    List.filter_cons_of_pos (by rw [ht]; rfl)
  rw [significant_append, hclose] at hphrase'
  -- a phrase ends before a brace, so the parser stops there for the one source, and goes on for the other
  have hends : Parser.Ends 0 (t :: significant rest) := Parser.ends_cons ht (by rintro _ ⟨⟩)
  have hreads := Parser.reads_assignment h
  have hshort : (Parser.assignment l).run ⟨significant ts ++ t :: significant rest, 0⟩ =
      .ok (e, ⟨t :: significant rest, 0⟩) := hreads.complete hphrase hends
  have hlong : (Parser.assignment l).run ⟨significant ts ++ t :: significant rest ++ [], 0⟩ = .ok (e', ⟨[], 0⟩) :=
    hreads.complete hphrase' (Parser.ends_nil 0)
  rw [List.append_nil, hshort] at hlong
  cases hlong

/-! ### Templates as phrases -/

namespace Grammar

variable {d : Nested} {head : String} {parts : List (Expr × String)}

theorem unary_of_template {stratum : Nat} {e : Expr} (h : Binary d stratum us e) (he : e = .template head parts) :
    Unary d us e := by
  induction h with
  | unary h => exact h
  | power => cases he
  | tighter _ ih => exact ih he
  | operator _ hop =>
      obtain ⟨op, -, -, -, rfl⟩ := mem_operators_iff.mp hop
      cases op <;> cases he

theorem chain_of_template (h : Assignment d us (.template head parts)) : Chain d us (.template head parts) := by
  generalize he : Expr.template head parts = e at h ⊢
  cases h with
  | conditional h =>
      cases h with
      | binary h =>
          cases unary_of_template h he.symm with
          | chain h => exact h
          | operator => cases he
      | conditional => cases he
  | assign _ hbuild =>
      unfold Parser.assignTo? at hbuild
      split at hbuild <;> cases hbuild <;> cases he

/-- A phrase that begins with a template, and is one, is that token alone. -/
theorem parts_of_template {tpl : Template} (h : Assignment d (t :: us) (.template head parts))
    (ht : t.kind = .template tpl) : us = [] ∧ head = tpl.head ∧ d.parts tpl.parts parts := by
  generalize hts : t :: us = ts at h
  cases chain_of_template h with
  | primary h =>
      cases h with
      | template hkind hparts =>
          cases hts
          rw [ht] at hkind
          cases hkind
          exact ⟨rfl, rfl, hparts⟩
      | parens hopen =>
          cases hts
          rw [ht] at hopen
          cases hopen

theorem Parts.first {hole : Hole} {s s' : String} {rest : List (Hole × String)} {e : Expr}
    (h : Parts d ((hole, s) :: rest) ((e, s') :: parts)) : (Assignment d).OfSource hole.source e := by
  cases h with
  | cons hexpr _ => exact hexpr

end Grammar

/-- What the hole of an embedded source is: the source, or its part before a brace. -/
theorem eq_or_closed {source inner rest : List Char} (h : source ++ ['\x7d', '\x60'] = inner ++ '\x7d' :: rest) :
    inner = source ∨ ∃ more, source = inner ++ '\x7d' :: more := by
  obtain ⟨extra, hinner, hends⟩ | ⟨more, hsource, hends⟩ := List.append_eq_append_iff.mp h
  · match extra, hends with
    | [], _ => exact .inl (by rw [hinner, List.append_nil])
    | [c], hends => cases hends
    | _ :: _ :: extra, hends => cases extra <;> cases hends
  · match more, hends with
    | [], _ => exact .inl (by rw [hsource, List.append_nil])
    | c :: more, hends =>
        cases hends
        exact .inr ⟨more, hsource⟩

/-- A template that has an expression in its only hole has all of it there, so the expression is balanced. -/
theorem balanced_of_embedded {room : Nat} {source : String} {e : Expr}
    (hsource : (Grammar.Assignment (Grammar.Nested.none.within room)).OfSource source e)
    (hcomments : ∀ t ∈ (lex source).tokens, t.kind.isComment = false)
    (hembedded : (Grammar.Assignment (Grammar.Nested.none.within (room + 1))).OfSource (embedded source)
      (.template "" [(e, "")])) : Balanced source.toList := by
  obtain ⟨ts, mark, hlex, hphrase⟩ := hembedded
  rw [lex, Cursor.ofString, toList_embedded] at hlex
  obtain ⟨p, stop, hpieces⟩ := Lexer.exists_pieces?_of_scan hlex
  rw [Lexer.scan_template hpieces] at hlex
  obtain ⟨rfl, -⟩ := (Lexed.mk.injEq ..).mp hlex
  -- the first token is a template, so it is the whole phrase, and its first hole derives the expression
  obtain ⟨-, -, hparts⟩ := Grammar.parts_of_template hphrase rfl
  rw [Lexer.pieces?_hole] at hpieces
  obtain ⟨n, hlength, hread⟩ := Option.bind_eq_some_iff.mp hpieces
  obtain ⟨⟨p', stop'⟩, -, heq⟩ := Option.map_eq_some_iff.mp hread
  cases heq
  obtain ⟨inner, rest, hchars, hinner, rfl⟩ := Lexer.holeLength?_eq_some_iff.mp hlength
  rw [hchars, List.take_left] at hparts
  obtain rfl | ⟨more, hmore⟩ := eq_or_closed hchars
  · exact hinner
  · have hinside := Grammar.Parts.first hparts
    have hclosed := not_derives_closed (Parser.reads_level room) hinside hsource hcomments more
    rw [String.toList_ofList] at hclosed
    exact absurd hmore hclosed

/-- An expression without comments that leaves room for one more level of nesting can stand in the hole of a template
exactly if it is balanced, and it can if no hole in it has a backquote. -/
theorem parseExpression_embedded {source : String} {e : Expr}
    (h : Parser.entire (Parser.assignment (Parser.level (Parser.maxNesting - 1))) source = .ok e)
    (hcomments : ∀ t ∈ (lex source).tokens, t.kind.isComment = false) :
    parseExpression source = .ok e ∧
      (parseExpression (embedded source) = .ok (.template "" [(e, "")]) ↔ Balanced source.toList) ∧
      ((∀ t ∈ (lex source).tokens, ∀ hole ∈ t.kind.holes, '\x60' ∉ hole.source.toList) →
        parseExpression (embedded source) = .ok (.template "" [(e, "")])) := by
  have hsource := (Parser.entire_eq_ok_iff (Parser.reads_assignment (Parser.reads_level _))).mp h
  have hexpression : Grammar.Expression.OfSource source e :=
    hsource.mono (Grammar.Assignment.mono (Grammar.Nested.within_le_succ _))
  have hiff : parseExpression (embedded source) = .ok (.template "" [(e, "")]) ↔ Balanced source.toList := by
    rw [parseExpression, Parser.entire_eq_ok_iff Parser.reads_expression]
    exact ⟨balanced_of_embedded hsource hcomments, derives_embedded hsource⟩
  refine ⟨(Parser.entire_eq_ok_iff Parser.reads_expression).mpr hexpression, hiff, fun hholes => ?_⟩
  exact hiff.mpr (balanced_of_derives hsource hcomments hholes)

theorem derives_name (room : Nat) :
    (Grammar.Assignment (Grammar.Nested.none.within room)).OfSource "x" (.name "x") := by
  have hname : Text.isName "x" = true := by decide
  have hlex : lex "x" = ⟨[⟨Lexer.nameKind "x", 0, 1, false⟩], .ok ⟨1, false⟩⟩ := Lexer.scan_name hname 0
  exact ⟨_, _, hlex, (Grammar.Primary.name rfl).assignment⟩

theorem balanced_name : Balanced "x".toList :=
  .plain (by decide) .nil

/-- A template in the hole of a template. -/
theorem parseExpression_embedded_nested :
    Parser.entire (Parser.assignment (Parser.level (Parser.maxNesting - 1))) "\x60$\x7bx\x7d\x60" =
        .ok (.template "" [(.name "x", "")]) ∧
      (∀ t ∈ (lex "\x60$\x7bx\x7d\x60").tokens, t.kind.isComment = false) ∧
      (∀ t ∈ (lex "\x60$\x7bx\x7d\x60").tokens, ∀ hole ∈ t.kind.holes, '\x60' ∉ hole.source.toList) ∧
      parseExpression "\x60$\x7b\x60$\x7bx\x7d\x60\x7d\x60" =
        .ok (.template "" [(.template "" [(.name "x", "")], "")]) := by
  have hinner : embedded "x" = "\x60$\x7bx\x7d\x60" := by decide
  have houter : embedded (embedded "x") = "\x60$\x7b\x60$\x7bx\x7d\x60\x7d\x60" := by decide
  rw [← houter, ← hinner]
  obtain ⟨stop, hlex⟩ := lex_embedded balanced_name
  have hentire := (Parser.entire_eq_ok_iff (Parser.reads_assignment (Parser.reads_level _))).mpr
    (derives_embedded (derives_name 126) balanced_name)
  have hcomments : ∀ t ∈ (lex (embedded "x")).tokens, t.kind.isComment = false := by
    rw [hlex]
    exact List.forall_mem_singleton.mpr rfl
  have hholes : ∀ t ∈ (lex (embedded "x")).tokens, ∀ hole ∈ t.kind.holes, '\x60' ∉ hole.source.toList := by
    rw [hlex]
    exact List.forall_mem_singleton.mpr (List.forall_mem_singleton.mpr (by decide))
  exact ⟨hentire, hcomments, hholes, (parseExpression_embedded hentire hcomments).2.2 hholes⟩

theorem lex_brace : lex "\x60\x7d\x60" = ⟨[⟨.template ⟨"\x7d", []⟩, 0, 3, false⟩], .ok ⟨3, false⟩⟩ := by
  have hpieces : Lexer.pieces? ⟨1, ['\x7d', '\x60']⟩ = some (⟨['\x7d'], []⟩, ⟨3, []⟩) := by
    rw [Lexer.pieces?]
    have hclose : Lexer.pieces? ⟨1 + '\x7d'.utf8Size, ['\x60']⟩ = some (⟨[], []⟩, ⟨3, []⟩) :=
      Lexer.pieces?_backquote _
    simp [Cursor.next?, hclose, Lexer.Pieces.push]
  have hlex : lex "\x60\x7d\x60" = Lexer.scan ⟨0, ['\x60', '\x7d', '\x60']⟩ := rfl
  rw [hlex, Lexer.scan_template hpieces, Lexer.scan_of_end rfl]
  rfl

theorem derives_brace (room : Nat) :
    (Grammar.Assignment (Grammar.Nested.none.within (room + 1))).OfSource "\x60\x7d\x60" (.template "\x7d" []) := by
  have hparts : (Grammar.Nested.none.within (room + 1)).parts [] [] := .nil
  exact ⟨_, _, lex_brace, (@Grammar.Primary.template _ _ ⟨"\x7d", []⟩ _ rfl hparts).assignment⟩

theorem balanced_brace : Balanced "\x60\x7d\x60".toList :=
  Lexer.nests_quoted (by decide) (.plain (by decide) (by decide) .nil) 0

/-- A template with a backquote in its hole is an expression, but it cannot stand in a hole: there the first backquote
in the inner hole closes what the outer hole begins with, and the first brace closes the outer hole. -/
theorem embedded_refused :
    Parser.entire (Parser.assignment (Parser.level (Parser.maxNesting - 1))) "\x60$\x7b\x60\x7d\x60\x7d\x60" =
        .ok (.template "" [(.template "\x7d" [], "")]) ∧
      (∀ t ∈ (lex "\x60$\x7b\x60\x7d\x60\x7d\x60").tokens, t.kind.isComment = false) ∧
      parseExpression "\x60$\x7b\x60$\x7b\x60\x7d\x60\x7d\x60\x7d\x60" ≠
        .ok (.template "" [(.template "" [(.template "\x7d" [], "")], "")]) := by
  have hinner : embedded "\x60\x7d\x60" = "\x60$\x7b\x60\x7d\x60\x7d\x60" := by decide
  have houter : embedded (embedded "\x60\x7d\x60") = "\x60$\x7b\x60$\x7b\x60\x7d\x60\x7d\x60\x7d\x60" := by decide
  rw [← houter, ← hinner]
  have hderives := derives_embedded (derives_brace 125) balanced_brace
  have hcomments : ∀ t ∈ (lex (embedded "\x60\x7d\x60")).tokens, t.kind.isComment = false := by
    obtain ⟨stop, hlex⟩ := lex_embedded balanced_brace
    rw [hlex]
    exact List.forall_mem_singleton.mpr rfl
  refine ⟨(Parser.entire_eq_ok_iff (Parser.reads_assignment (Parser.reads_level _))).mpr hderives, hcomments, ?_⟩
  intro hparse
  have hembedded := (Parser.entire_eq_ok_iff Parser.reads_expression).mp hparse
  have hbalanced := balanced_of_embedded hderives hcomments hembedded
  have hlength : Lexer.holeLength? 0 0 .code ((embedded "\x60\x7d\x60").toList ++ ['\x7d']) = some 8 :=
    Lexer.holeLength?_eq_some_iff.mpr ⟨_, [], rfl, hbalanced, by rw [toList_embedded]; rfl⟩
  rw [toList_embedded] at hlength
  cases hlength

end ScriptRepl.Syntax
