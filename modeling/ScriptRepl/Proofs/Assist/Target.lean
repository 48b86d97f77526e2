import ScriptRepl.Proofs.Assist.Candidates
import ScriptRepl.Proofs.Assist.LastOperand
import ScriptRepl.Proofs.Syntax.Slice
import ScriptRepl.Proofs.Syntax.Weight

/-! The value before a dot, as the completer finds it and as the parser does. -/
namespace ScriptRepl.Assist

open Syntax (Token TokenKind Punct Keyword Expr Matched)
open Syntax.Grammar (Nested Primary MatchedUpTo)

variable {us vs pre earlier before rest : List Token} {t t' start : Token} {e : Expr} {p q : Punct}

/-! ### The scan over brackets -/

theorem not_bracket_of_isPlain (h : t.kind.IsPlain) : isClosing t = false ∧ isOpening t = false := by
  obtain ⟨hparen, hparen'⟩ := h (.openParen, .closeParen) (by decide)
  obtain ⟨hbracket, hbracket'⟩ := h (.openBracket, .closeBracket) (by decide)
  obtain ⟨hbrace, hbrace'⟩ := h (.openBrace, .closeBrace) (by decide)
  simp [isClosing, isOpening, hparen, hparen', hbracket, hbracket', hbrace, hbrace']

theorem isClosing_of_pair (hpair : (p, q) ∈ Punct.pairs) (h : t.kind = .punct q) : isClosing t = true := by
  simp only [Punct.pairs, List.mem_cons, List.not_mem_nil, or_false, Prod.mk.injEq] at hpair
  rcases hpair with ⟨-, rfl⟩ | ⟨-, rfl⟩ | ⟨-, rfl⟩ <;> simp [isClosing, h]

theorem isOpening_of_pair (hpair : (p, q) ∈ Punct.pairs) (h : t.kind = .punct p) :
    isClosing t = false ∧ isOpening t = true := by
  simp only [Punct.pairs, List.mem_cons, List.not_mem_nil, or_false, Prod.mk.injEq] at hpair
  rcases hpair with ⟨rfl, -⟩ | ⟨rfl, -⟩ | ⟨rfl, -⟩ <;> simp [isClosing, isOpening, h]

theorem openingOf?_closing (hclosing : isClosing t = true) (depth : Nat) (before : List Token) :
    openingOf? depth (t :: before) = openingOf? (depth + 1) before := by
  rw [openingOf?.eq_def]
  simp [hclosing]

theorem openingOf?_opening (hother : isClosing t = false) (hopening : isOpening t = true) (depth : Nat)
    (before : List Token) :
    openingOf? (depth + 1) (t :: before) = if depth = 0 then some (t, before) else openingOf? depth before := by
  rw [openingOf?.eq_def]
  cases depth <;> simp [hother, hopening]

theorem openingOf?_other (hother : isClosing t = false) (hopening : isOpening t = false) (depth : Nat)
    (before : List Token) : openingOf? depth (t :: before) = openingOf? depth before := by
  rw [openingOf?.eq_def]
  simp [hother, hopening]

/-- Matched brackets open nothing for what stands behind them. -/
theorem openingOf?_matched (h : Matched us) (depth : Nat) (rest : List Token) :
    openingOf? (depth + 1) (us.reverse ++ rest) = openingOf? (depth + 1) rest := by
  induction h generalizing depth rest with
  | nil => rfl
  | @plain t us h _ ih =>
      obtain ⟨hclosing, hopening⟩ := not_bracket_of_isPlain h
      rw [List.reverse_cons, List.append_assoc, ih]
      exact openingOf?_other hclosing hopening (depth + 1) rest
  | @pair t t' us vs p q hpair hopen _ hclose _ hinner hmore =>
      obtain ⟨hother, hopening⟩ := isOpening_of_pair hpair hopen
      rw [show (t :: (us ++ t' :: vs)).reverse ++ rest = vs.reverse ++ t' :: (us.reverse ++ t :: rest) by simp, hmore,
        openingOf?_closing (isClosing_of_pair hpair hclose), hinner, openingOf?_opening hother hopening,
        if_neg (Nat.succ_ne_zero depth)]

theorem bracketed?_matched (hpair : (p, q) ∈ Punct.pairs) (hopen : t.kind = .punct p) (hinner : Matched us)
    (hclose : t'.kind = .punct q) (rest : List Token) :
    bracketed? (t' :: (us.reverse ++ t :: rest)) = some (.begins t rest) := by
  obtain ⟨hother, hopening⟩ := isOpening_of_pair hpair hopen
  rw [bracketed?, openingOf?_closing (isClosing_of_pair hpair hclose), openingOf?_matched hinner,
    openingOf?_opening hother hopening, if_pos rfl]
  rfl

/-! ### The scan over a chain -/

theorem chainStart?_of_none {ts : List Token} (h : link? ts = none) : chainStart? ts = none := by
  rw [chainStart?.eq_def]
  split <;> simp_all

theorem chainStart?_applied {ts : List Token} (h : link? ts = some (.applied before)) :
    chainStart? ts = chainStart? before := by
  rw [chainStart?.eq_def]
  split <;> simp_all

theorem chainStart?_member {ts : List Token} {dot : Token} (h : link? ts = some (.begins t (dot :: t' :: before)))
    (hdot : dot.kind = .punct .dot) : chainStart? ts = chainStart? (t' :: before) := by
  rw [chainStart?.eq_def]
  split <;> simp_all

theorem chainStart?_begins {ts : List Token} (h : link? ts = some (.begins t before))
    (hdot : ∀ u ∈ before.head?, u.kind ≠ .punct .dot) : chainStart? ts = some t := by
  rw [chainStart?.eq_def]
  split <;> simp_all
  rename_i dot u rest heq
  obtain ⟨rfl, rfl⟩ := h
  exact fun hkind => absurd hkind (hdot dot rfl)

/-- A name or a literal is a part of a chain of its own. -/
theorem link?_single (hends : endsValue t = true) (hclosing : isClosing t = false) (before : List Token) :
    link? (t :: before) = some (.begins t before) := by
  unfold endsValue at hends
  unfold link?
  split at hends <;> simp_all [isClosing]

theorem link?_keyword {k : Keyword} (h : t.kind = .keyword k) (hunseen : endsValue t = false) (before : List Token) :
    link? (t :: before) = none := by
  unfold endsValue at hunseen
  unfold link?
  split at hunseen <;> simp_all

/-- Parentheses and brackets are applied to the value before them, if `endsValue` sees one there. -/
theorem link?_applied (hpair : (p, q) ∈ [(Punct.openParen, Punct.closeParen), (.openBracket, .closeBracket)])
    (hopen : t.kind = .punct p) (hinner : Matched us) (hclose : t'.kind = .punct q) (before : List Token) :
    link? (t' :: (us.reverse ++ t :: before)) =
      some (if before.head?.any endsValue then .applied before else .begins t before) := by
  have hlisted := List.mem_append_left [(.openBrace, .closeBrace)] hpair
  have hbracketed := bracketed?_matched hlisted hopen hinner hclose before
  simp only [List.mem_cons, List.not_mem_nil, or_false, Prod.mk.injEq] at hpair
  unfold link?
  rcases hpair with ⟨rfl, rfl⟩ | ⟨rfl, rfl⟩ <;>
  · dsimp only
    rw [hclose]
    dsimp only
    rw [hbracketed]
    rfl

theorem link?_brace (hopen : t.kind = .punct .openBrace) (hinner : Matched us) (hclose : t'.kind = .punct .closeBrace)
    (before : List Token) : link? (t' :: (us.reverse ++ t :: before)) = some (.begins t before) := by
  have hbracketed := bracketed?_matched (p := .openBrace) (q := .closeBrace) (by decide) hopen hinner hclose before
  unfold link?
  simp [hclose, hbracketed]

def OpensOperand (t : Token) : Prop :=
  t.kind = .punct .openParen ∨ t.kind = .punct .openBracket

/-- Where the scan for the start of a chain ends: at the first of its tokens, inside it behind a value that is not seen
to end there, or before it if its first part stands in brackets and a value ends before them. -/
inductive Scanned (d : Nested) (us earlier : List Token) (start : Token) : Prop
  | whole (h : us.head? = some start)
  | cut {vs ws : List Token} {e : Expr} (hsplit : us = vs ++ start :: ws) (hopens : OpensOperand start)
      (hunseen : Unseen vs) (hvalue : Syntax.Grammar.Chain d vs e)
  | beyond (hopens : ∀ t ∈ us.head?, OpensOperand t) (hends : earlier.head?.any endsValue = true)
      (h : chainStart? earlier = some start)

variable {d : Nested}

theorem Scanned.append (h : Scanned d us earlier start) (hne : us ≠ []) (more : List Token) :
    Scanned d (us ++ more) earlier start := by
  obtain ⟨t, us, rfl⟩ := List.exists_cons_of_ne_nil hne
  cases h with
  | whole h => exact .whole h
  | @cut vs ws e hsplit hopens hunseen hvalue =>
      have hlonger : t :: us ++ more = vs ++ start :: (ws ++ more) := by
        rw [hsplit, List.append_assoc, List.cons_append]
      exact .cut hlonger hopens hunseen hvalue
  | beyond hopens hends h => exact .beyond hopens hends h

/-- Where the scan goes on before brackets. -/
theorem scanned_brackets (hpair : (p, q) ∈ [(Punct.openParen, Punct.closeParen), (.openBracket, .closeBracket)])
    (hopen : t.kind = .punct p) (hinner : Matched us) (hclose : t'.kind = .punct q)
    (hdot : ∀ u ∈ before.head?, u.kind ≠ .punct .dot)
    (h : chainStart? (t' :: (us.reverse ++ t :: before)) = some start) :
    (before.head?.any endsValue = true ∧ chainStart? before = some start) ∨
      (before.head?.any endsValue = false ∧ start = t) := by
  have hlink := link?_applied hpair hopen hinner hclose before
  cases hends : before.head?.any endsValue with
  | true =>
      rw [if_pos hends] at hlink
      rw [chainStart?_applied hlink] at h
      exact .inl ⟨rfl, h⟩
  | false =>
      rw [if_neg (Bool.eq_false_iff.mp hends)] at hlink
      rw [chainStart?_begins hlink hdot] at h
      exact .inr ⟨rfl, (Option.some.inj h).symm⟩

theorem scanned_primary (hd : d.Matched) (h : Primary d us e) (hdot : ∀ u ∈ earlier.head?, u.kind ≠ .punct .dot)
    (hstart : chainStart? (us.reverse ++ earlier) = some start) : Scanned d us earlier start := by
  have hsingle : ∀ {t : Token}, us = [t] → endsValue t = true → isClosing t = false → Scanned d us earlier start := by
    rintro t rfl hends hclosing
    have hsame := chainStart?_begins (link?_single hends hclosing earlier) hdot
    rw [List.reverse_singleton, List.singleton_append, hsame] at hstart
    exact .whole hstart
  have hbrackets : ∀ {t t' : Token} {inner : List Token} {p q : Punct}, us = t :: (inner ++ [t']) →
      (p, q) ∈ [(Punct.openParen, Punct.closeParen), (.openBracket, .closeBracket)] → t.kind = .punct p →
      Matched inner → t'.kind = .punct q → Scanned d us earlier start := by
    rintro t t' inner p q rfl hpair hopen hinner hclose
    have hreverse : (t :: (inner ++ [t'])).reverse ++ earlier = t' :: (inner.reverse ++ t :: earlier) := by simp
    rw [hreverse] at hstart
    rcases scanned_brackets hpair hopen hinner hclose hdot hstart with ⟨hends, h⟩ | ⟨-, rfl⟩
    · refine .beyond ?_ hends h
      rintro _ ⟨⟩
      simp only [List.mem_cons, List.not_mem_nil, or_false, Prod.mk.injEq] at hpair
      rcases hpair with ⟨rfl, -⟩ | ⟨rfl, -⟩
      · exact .inl hopen
      · exact .inr hopen
    · exact .whole rfl
  cases h with
  | number h => exact hsingle rfl (by simp [endsValue, h]) (by simp [isClosing, h])
  | text h => exact hsingle rfl (by simp [endsValue, h]) (by simp [isClosing, h])
  | name h => exact hsingle rfl (by simp [endsValue, h]) (by simp [isClosing, h])
  | literal h => exact hsingle rfl (by simp [endsValue, h]) (by simp [isClosing, h])
  | template h => exact hsingle rfl (by simp [endsValue, h]) (by simp [isClosing, h])
  | parens hopen hinner hclose => exact hbrackets rfl (by decide) hopen (hd.assignment hinner) hclose
  | array hopen hitems =>
      obtain ⟨inner, t', rfl, hclose, hinner⟩ := hd.items hitems
      exact hbrackets rfl (by decide) hopen hinner hclose
  | @object t us fields hopen hfields =>
      obtain ⟨inner, t', rfl, hclose, hinner⟩ := hd.fields hfields
      have hreverse : (t :: (inner ++ [t'])).reverse ++ earlier = t' :: (inner.reverse ++ t :: earlier) := by simp
      rw [hreverse, chainStart?_begins (link?_brace hopen hinner hclose earlier) hdot] at hstart
      exact .whole hstart

theorem seen_or_unseen (h : ValueEnds us) (rest : List Token) :
    (us.reverse ++ rest).head?.any endsValue = true ∨ Unseen us := by
  cases h with
  | @seen before t h =>
      refine .inl ?_
      rw [List.reverse_append]
      exact h
  | unseen h => exact .inr h

theorem noDot_reverse (h : NoDot us) (hne : us ≠ []) (rest : List Token) :
    ∀ u ∈ (us.reverse ++ rest).head?, u.kind ≠ .punct .dot := by
  intro u hu
  rw [List.head?_append_of_ne_nil _ (by simpa using hne), List.head?_reverse] at hu
  exact h u hu

/-- An index or a call behind a chain. -/
theorem scanned_applied (hd : d.Matched) (hobject : Syntax.Grammar.Chain d us e)
    (hpair : (p, q) ∈ [(Punct.openParen, Punct.closeParen), (.openBracket, .closeBracket)]) (hopen : t.kind = .punct p)
    (hinner : Matched vs) (hclose : t'.kind = .punct q)
    (ih : chainStart? (us.reverse ++ earlier) = some start → Scanned d us earlier start)
    (hstart : chainStart? ((us ++ t :: (vs ++ [t'])).reverse ++ earlier) = some start) :
    Scanned d (us ++ t :: (vs ++ [t'])) earlier start := by
  have hvalue := valueEnds_chain hd hobject
  have hreverse : (us ++ t :: (vs ++ [t'])).reverse ++ earlier =
      t' :: (vs.reverse ++ t :: (us.reverse ++ earlier)) := by simp
  rw [hreverse] at hstart
  rcases scanned_brackets hpair hopen hinner hclose (noDot_reverse hvalue.noDot hvalue.ne_nil _) hstart with
    ⟨-, h⟩ | ⟨hends, rfl⟩
  · exact (ih h).append hvalue.ne_nil _
  · rcases seen_or_unseen hvalue earlier with hseen | hunseen
    · rw [hends] at hseen
      cases hseen
    · refine .cut rfl ?_ hunseen hobject
      simp only [List.mem_cons, List.not_mem_nil, or_false, Prod.mk.injEq] at hpair
      rcases hpair with ⟨rfl, -⟩ | ⟨rfl, -⟩
      · exact .inl hopen
      · exact .inr hopen

/-- Where the scan ends that begins behind a chain. -/
theorem scanned_chain (hd : d.Matched) (h : Syntax.Grammar.Chain d us e)
    (hdot : ∀ u ∈ earlier.head?, u.kind ≠ .punct .dot)
    (hstart : chainStart? (us.reverse ++ earlier) = some start) : Scanned d us earlier start := by
  induction h with
  | primary h => exact scanned_primary hd h hdot hstart
  | @member us dot t' e key hobject hdots hkey ih =>
      have hvalue := valueEnds_chain hd hobject
      have hreverse : (us ++ [dot, t']).reverse ++ earlier = t' :: dot :: (us.reverse ++ earlier) := by simp
      rw [hreverse] at hstart
      refine Scanned.append (ih ?_) hvalue.ne_nil _
      cases hends : endsValue t' with
      | true =>
          have hclosing := (not_bracket_of_isPlain (Syntax.isPlain_memberName hkey)).1
          have hlink := link?_single hends hclosing (dot :: (us.reverse ++ earlier))
          obtain ⟨u, rest, hrest⟩ := List.exists_cons_of_ne_nil (l := us.reverse ++ earlier) (by simp [hvalue.ne_nil])
          rw [hrest] at hlink hstart ⊢
          rwa [chainStart?_member hlink hdots] at hstart
      | false =>
          obtain ⟨k, hkind⟩ : ∃ k, t'.kind = .keyword k := by
            cases hkind : t'.kind with
            | keyword k => exact ⟨k, rfl⟩
            | name s => simp [endsValue, hkind] at hends
            | _ =>
                rw [hkind] at hkey
                cases hkey
          rw [chainStart?_of_none (link?_keyword hkind hends _)] at hstart
          cases hstart
  | @index us vs t t' e key hobject hopen hkey hclose ih =>
      exact scanned_applied hd hobject (by decide) hopen (hd.assignment hkey) hclose ih hstart
  | @call us vs t e args hcallee hopen hargs ih =>
      obtain ⟨inner, t', rfl, hclose, hinner⟩ := hd.items hargs
      exact scanned_applied hd hcallee (by decide) hopen hinner hclose ih hstart

/-! ### The text before the dot -/

/-- Tokens before the dot that a source ends with, or before the dot of the word that it ends with: what the completion
of a member is given. -/
inductive Target (source : String) : (target : List Token) → (word : String) → Prop
  | dot {before : List Token} {dot : Token} {mark : Syntax.EndMark}
      (hlex : Syntax.lex source = ⟨before ++ [dot], .ok mark⟩) (hkind : dot.kind = .punct .dot)
      (hend : source.toList.getLast?.any Text.isBlank = false) : Target source (code before) ""
  | word {before target : List Token} {t dot : Token} {word : String} {mark : Syntax.EndMark}
      (hlex : Syntax.lex source = ⟨before ++ [t], .ok mark⟩) (hkind : t.kind = .name word)
      (hcode : code before = dot :: target) (hdot : dot.kind = .punct .dot)
      (hend : source.toList.getLast?.any Text.isBlank = false) : Target source target word

/-- What completion evaluates is the part of the source from the start of the chain to its end. -/
theorem chainValue_of_start {source : String} {target : List Token} {last : Token} {group : Group}
    (hstart : chainStart? target = some start) (hlast : target.head? = some last) :
    chainValue source target group = peekValue (slice source start.start last.stop) group := by
  obtain ⟨_, before, rfl⟩ := List.exists_cons_of_ne_nil (l := target) (by rintro rfl; cases hlast)
  cases hlast
  unfold chainValue
  rw [hstart]

/-- Where there is something before the dot, a member is completed. -/
theorem completeSource_of_target {source word : String} {target : List Token} {group : Group}
    (h : Target source target word) (hne : target ≠ []) :
    ∃ ts, completeSource source group =
      completeMember source target word group >>= fun member? =>
        member?.elim (completeCall source ts group) (fun c => pure (some c)) := by
  have hcomplete : ∀ {last : Token} {before : List Token} {mark : Syntax.EndMark},
      Syntax.lex source = ⟨before ++ [last], .ok mark⟩ → last.kind.isComment = false →
      source.toList.getLast?.any Text.isBlank = false →
      completeSource source group = completeWord source (last :: code before) group >>= fun word? =>
        word?.elim (completeCall source (last :: code before).reverse group) (fun c => pure (some c)) := by
    intro last before mark hlex hcomment hend
    unfold completeSource
    rw [hlex]
    dsimp only
    rw [List.reverse_concat]
    dsimp only
    rw [hcomment, if_neg Bool.false_ne_true, completeTokens, hend, if_neg Bool.false_ne_true]
    refine bind_congr fun word? => ?_
    cases word? <;> rfl
  cases h with
  | @dot before dot mark hlex hkind hend =>
      obtain ⟨u, us, hcode⟩ := List.exists_cons_of_ne_nil hne
      refine ⟨(dot :: code before).reverse, (hcomplete hlex (by rw [hkind]; rfl) hend).trans ?_⟩
      simp only [completeWord, hcode, hkind]
  | @word before target t dot word mark hlex hkind hcode hdot hend =>
      obtain ⟨u, us, rfl⟩ := List.exists_cons_of_ne_nil hne
      refine ⟨(t :: code before).reverse, (hcomplete hlex (by rw [hkind]; rfl) hend).trans ?_⟩
      simp only [completeWord, hcode, hkind, hdot, if_true]

theorem reverse_code (ts : List Token) : (code ts).reverse = Syntax.significant ts := by
  rw [code, List.filter_reverse, List.reverse_reverse]
  rfl

theorem memberName?_nameKind (s : String) : ∃ key, Syntax.Parser.memberName? (Syntax.Lexer.nameKind s) = some key := by
  unfold Syntax.Lexer.nameKind
  split <;> exact ⟨_, rfl⟩

/-- The tokens of a source, and of what becomes of it when a name is completed. -/
theorem Target.tokens {source c word : String} {target : List Token} (h : Target source target word)
    (hname : Text.isName (word ++ c) = true) :
    ∃ dot t key, dot.kind = .punct .dot ∧ Syntax.Parser.memberName? t.kind = some key ∧
      Syntax.significant (Syntax.lex (source ++ c)).tokens = target.reverse ++ [dot, t] ∧
      ∃ rest, Syntax.significant (Syntax.lex source).tokens = target.reverse ++ rest := by
  have hone : ∀ {t : Token} {key : String}, Syntax.Parser.memberName? t.kind = some key →
      Syntax.significant [t] = [t] := by
    intro t key hkey
    have hcomment : t.kind.isComment = false := by
      cases hkind : t.kind <;> rw [hkind] at hkey <;> first | rfl | cases hkey
    simp [Syntax.significant, hcomment]
  obtain ⟨key, hkey⟩ := memberName?_nameKind (word ++ c)
  cases h with
  | @dot before dot mark hlex hkind hend =>
      rw [String.empty_append] at hname hkey
      obtain ⟨t, hkind', hgrown⟩ : ∃ t : Token, t.kind = Syntax.Lexer.nameKind c ∧
          (Syntax.lex (source ++ c)).tokens = before ++ [dot, t] :=
        ⟨_, rfl, congrArg Syntax.Lexed.tokens (Syntax.lex_append_of_dot (congrArg Syntax.Lexed.tokens hlex)
          (congrArg Syntax.Lexed.result hlex) hend hkind hname)⟩
      rw [← hkind'] at hkey
      have hdot : Syntax.significant [dot] = [dot] := by simp [Syntax.significant, hkind, TokenKind.isComment]
      refine ⟨dot, t, key, hkind, hkey, ?_, [dot], ?_⟩
      · rw [hgrown, reverse_code, List.append_cons, Syntax.significant_append, Syntax.significant_append, hdot,
          hone hkey, List.append_assoc]
        rfl
      · rw [hlex, reverse_code, Syntax.significant_append, hdot]
  | @word before target t dot word mark hlex hkind hcode hdot hend =>
      have hmore : ∀ d ∈ c.toList, Text.isNameChar d = true := by
        intro d hd
        refine Text.isNameChar_of_isName hname d ?_
        rw [String.toList_append]
        exact List.mem_append_right _ hd
      obtain ⟨t', hkind', hgrown⟩ : ∃ t' : Token, t'.kind = Syntax.Lexer.nameKind (word ++ c) ∧
          (Syntax.lex (source ++ c)).tokens = before ++ [t'] :=
        ⟨_, rfl, congrArg Syntax.Lexed.tokens (Syntax.lex_append_of_name (congrArg Syntax.Lexed.tokens hlex)
          (congrArg Syntax.Lexed.result hlex) hend hkind hmore)⟩
      rw [← hkind'] at hkey
      have hbefore : Syntax.significant before = target.reverse ++ [dot] := by
        rw [← reverse_code, hcode, List.reverse_cons]
      refine ⟨dot, t', key, hdot, hkey, ?_, [dot] ++ Syntax.significant [t], ?_⟩
      · rw [hgrown, Syntax.significant_append, hbefore, hone hkey, List.append_assoc]
        rfl
      · rw [hlex, Syntax.significant_append, hbefore, List.append_assoc]

/-- The tokens are read from a place on that is not where the value before the dot begins: from the brackets of an index
or a call behind a value that is not seen to end there, or from a name that is declared in the line before brackets. -/
inductive Misread (start : Token) : List Token → Prop
  | cut {before rest : List Token} (hopens : OpensOperand start) (hunseen : Unseen before) :
    Misread start (before ++ start :: rest)
  | declared {before rest : List Token} {key : Token} {kind : Syntax.DeclKind} {s : String}
      (hkey : key.kind = .keyword (.decl kind)) (hname : start.kind = .name s) (hdot : NoDot before) :
    Misread start (before ++ key :: start :: rest)

/-- The tokens of a source begin one after the other. -/
theorem significant_ordered (source : String) :
    (Syntax.significant (Syntax.lex source).tokens).Pairwise fun t u => t.start < u.start := by
  have htiling := Syntax.Lexer.tiling_scan (Text.Cursor.ofString source)
  have hcovers := htiling.covers (Text.Cursor.Reaches.refl _)
  refine List.Pairwise.sublist List.filter_sublist ?_
  refine htiling.ordered.imp_of_mem fun {t u} ht _ hle => ?_
  exact Nat.lt_of_lt_of_le (hcovers t ht).start_lt_stop hle

/-- A token stands in one place only. -/
theorem split_unique {a b a' b' : List Token} (hordered : (a ++ t :: b).Pairwise fun t u => t.start < u.start)
    (h : a ++ t :: b = a' ++ t :: b') : a = a' := by
  have hnodup : (a ++ t :: b).Nodup := by
    refine hordered.imp fun hlt heq => ?_
    rw [heq] at hlt
    exact Nat.lt_irrefl _ hlt
  obtain ⟨-, hb, hdisjoint⟩ := List.nodup_append.mp hnodup
  refine ((List.append_cons_inj_of_notMem (fun hmem => ?_) (List.nodup_cons.mp hb).1).mp h).1
  exact hdisjoint t hmem t List.mem_cons_self rfl

theorem OpensOperand.not_line (hopens : OpensOperand t)
    (hother : t.kind ≠ .punct .openParen ∧ t.kind ≠ .punct .openBracket) : False := by
  rcases hopens with hkind | hkind
  · exact hother.1 hkind
  · exact hother.2 hkind

/-- An operand in brackets does not come behind a value that is not seen to end there. -/
theorem Before.not_unseen (h : Before pre us) (hstart : us.head? = some start) (hopens : OpensOperand start) :
    ¬Unseen pre := by
  intro hunseen
  obtain ⟨before, t, rfl⟩ := hunseen.exists_last
  generalize hpre : before ++ [t] = pre at h
  cases h with
  | first => simp at hpre
  | operand h =>
      subst hpre
      rcases hunseen.last, h.last with ⟨hbrace | ⟨k, hkeyword, hdot⟩, ⟨p, hpunct, hother⟩ | ⟨htypeof, hnone⟩⟩
      · rw [hbrace] at hpunct
        cases hpunct
        exact absurd (by decide) hother
      · rw [hbrace] at htypeof
        cases htypeof
      · rw [hkeyword] at hpunct
        cases hpunct
      · exact hdot hnone
  | line h hhead => exact hopens.not_line (hhead start hstart)
  | @declared first _ key name kind s hkey hname hdot =>
      rw [show first ++ [key, name] = (first ++ [key]) ++ [name] by simp] at hpre
      obtain rfl : t = name := List.singleton_inj.mp (List.append_inj' hpre rfl).2
      rcases hunseen.last with hbrace | ⟨k, hkeyword, -⟩
      · rw [hbrace] at hname
        cases hname
      · rw [hkeyword] at hname
        cases hname

/-- Before an operand no declaration begins. -/
theorem Before.not_declaring {key : Token} {kind : Syntax.DeclKind} (h : Before (before ++ [key]) us)
    (hkey : key.kind = .keyword (.decl kind)) : ¬NoDot before := by
  intro hnone
  generalize hpre : before ++ [key] = pre at h
  cases h with
  | first => simp at hpre
  | operand h =>
      subst hpre
      rcases h.last with ⟨p, hpunct, -⟩ | ⟨htypeof, -⟩
      · rw [hkey] at hpunct
        cases hpunct
      · rw [hkey] at htypeof
        cases htypeof
  | line h _ =>
      cases h with
      | seen hseen =>
          obtain rfl := List.singleton_inj.mp (List.append_inj' hpre rfl).2
          simp [endsValue, hkey] at hseen
      | unseen hunseen =>
          subst hpre
          rcases hunseen.last with hbrace | ⟨k, -, hdot⟩
          · rw [hkey] at hbrace
            cases hbrace
          · exact hdot hnone
  | @declared first _ key' name kind s _ hname _ =>
      rw [show first ++ [key', name] = (first ++ [key']) ++ [name] by simp] at hpre
      obtain rfl : key = name := List.singleton_inj.mp (List.append_inj' hpre rfl).2
      rw [hkey] at hname
      cases hname

/-- Behind a value that is seen to end there, an operand in brackets only comes if that is a name that is declared. -/
theorem Before.declares (h : Before pre us) (hstart : us.head? = some t) (hopens : OpensOperand t)
    (hends : pre.reverse.head?.any endsValue = true) :
    ∃ before key name kind s, pre = before ++ [key, name] ∧ key.kind = .keyword (.decl kind) ∧ name.kind = .name s ∧
      NoDot before := by
  cases h with
  | first => cases hends
  | operand h =>
      cases h with
      | @punct before t' p h hother =>
          have hclosing : p = .closeParen ∨ p = .closeBracket := by simpa [endsValue, h] using hends
          rcases hclosing with rfl | rfl <;> exact absurd (by decide) hother
      | typeof h => simp [endsValue, h] at hends
  | line h hhead => exact (hopens.not_line (hhead t hstart)).elim
  | declared hkey hname hdot => exact ⟨_, _, _, _, _, rfl, hkey, hname, hdot⟩

theorem expression_of_chain {room : Nat} {value : Expr} (hle : room ≤ Syntax.Parser.maxNesting)
    (h : Syntax.Grammar.Chain (Nested.none.within room) us value) : Syntax.Grammar.Expression us value :=
  Syntax.Grammar.Assignment.mono (Nested.within_le hle) (.conditional (.binary (h.binary (by decide))))

/-- The same tree is not spelled with a further value, or a name, before it. -/
theorem not_expression_of_weight {room : Nat} {value : Expr}
    (h : Syntax.Grammar.Chain (Nested.none.within room) us value)
    (hvs : Syntax.weight us ≠ Syntax.weight vs) : ¬Syntax.Grammar.Expression vs value := by
  intro hphrase
  have hus := h.weighed (Nested.weighed_within room)
  have hsame : Syntax.weight vs = value.weight :=
    Syntax.Grammar.Assignment.weighed (Nested.weighed_within Syntax.Parser.maxNesting) hphrase
  exact hvs (hus.trans hsame.symm)

/-- Completion reads the value before a dot as the parser does, whatever name follows the dot, exactly if it does not
begin to read at a wrong place. -/
theorem parseExpression_target {source c word : String} {target : List Token} {start last : Token} {p : Syntax.Program}
    (htarget : Target source target word) (hstart : chainStart? target = some start) (hlast : target.head? = some last)
    (hname : Text.isName (word ++ c) = true) (hparse : Syntax.parseProgram (source ++ c) = .ok p) :
    ∃ value, p.lastObject? = some value ∧
      (Syntax.parseExpression (slice source start.start last.stop) = .ok value ↔ ¬Misread start target.reverse) := by
  obtain ⟨dot, t, key, hdot, hkey, hgrown, rest, hsource⟩ := htarget.tokens hname
  obtain ⟨ts, mark, hlex, hprogram⟩ := Syntax.parseProgram_derives.mp hparse
  rw [hlex] at hgrown
  rw [show Syntax.significant ts = target.reverse ++ [dot, t] from hgrown] at hprogram
  obtain ⟨pre, us, room, value, hsplit, hle, hchain, hbefore, hvalue⟩ := exists_lastObject hprogram hdot hkey
  have hne : us ≠ [] := (valueEnds_chain (Nested.matched_within room) hchain).ne_nil
  have hreverse : target = us.reverse ++ pre.reverse := by
    rw [← List.reverse_append, ← hsplit, List.reverse_reverse]
  have hend : us.getLast? = some last := by
    rw [hreverse, List.head?_append_of_ne_nil _ (by simpa using hne), List.head?_reverse] at hlast
    exact hlast
  rw [hreverse] at hstart
  have hnoDot : ∀ u ∈ pre.reverse.head?, u.kind ≠ .punct .dot := by
    rw [List.head?_reverse]
    exact hbefore.noDot
  refine ⟨value, hvalue, ?_⟩
  -- What is read are the tokens from `start` to the last one before the dot.
  have hread : ∀ {first tail : List Token}, target.reverse = first ++ start :: tail →
      (start :: tail).getLast? = some last →
      (Syntax.parseExpression (slice source start.start last.stop) = .ok value ↔
        Syntax.Grammar.Expression (start :: tail) value) := by
    intro first tail hpart htail
    have htokens : Syntax.significant (Syntax.lex source).tokens = first ++ ((start :: tail) ++ rest) := by
      rw [hsource, hpart, List.append_assoc]
    obtain ⟨text, htext, hphrase⟩ := Syntax.parseExpression_slice htokens rfl htail
    have hslice : slice source start.start last.stop = text := by
      rw [slice, htext.splitNear_eq, String.ofList_toList]
    rw [hslice]
    exact hphrase value
  cases scanned_chain (Nested.matched_within room) hchain hnoDot hstart with
  | whole hfirst =>
      obtain ⟨_, tail, rfl⟩ := List.exists_cons_of_ne_nil hne
      cases hfirst
      rw [hread hsplit hend]
      refine iff_of_true (expression_of_chain hle hchain) fun hmisread => ?_
      have hordered := significant_ordered source
      rw [hsource, hsplit] at hordered
      replace hordered := (List.pairwise_append.mp hordered).1
      generalize hts : target.reverse = ts at hmisread
      rw [hsplit] at hts
      cases hmisread with
      | cut hopens hunseen =>
          obtain rfl := split_unique hordered hts
          exact hbefore.not_unseen rfl hopens hunseen
      | @declared before after key' kind s hkey' _ hnone =>
          rw [List.append_cons before key'] at hts
          obtain rfl := split_unique hordered hts
          exact hbefore.not_declaring hkey' hnone
  | @cut vs ws e hcut hopens hunseen hobject =>
      subst hcut
      have hpart : target.reverse = (pre ++ vs) ++ start :: ws := by rw [hsplit, List.append_assoc]
      rw [List.getLast?_append_of_ne_nil _ (List.cons_ne_nil _ _)] at hend
      rw [hread hpart hend]
      refine iff_of_false (not_expression_of_weight hchain fun hsame => ?_) ?_
      · have hpos := e.weight_pos
        rw [← hobject.weighed (Nested.weighed_within room)] at hpos
        rw [Syntax.weight_append] at hsame
        omega
      · rw [hpart]
        exact not_not_intro (.cut hopens (hunseen.behind pre))
  | beyond hopens hends hearlier =>
      obtain ⟨first, tail, rfl⟩ := List.exists_cons_of_ne_nil hne
      obtain ⟨before, key', name, kind, s, rfl, hkey', hname', hnone⟩ := hbefore.declares rfl (hopens first rfl) hends
      obtain rfl : name = start := by
        have hlink := link?_single (t := name) (by simp [endsValue, hname']) (by simp [isClosing, hname'])
          (key' :: before.reverse)
        have hscan : chainStart? (name :: key' :: before.reverse) = some name := by
          refine chainStart?_begins hlink ?_
          rintro _ ⟨⟩ hkind
          rw [hkey'] at hkind
          cases hkind
        rw [List.reverse_append] at hearlier
        exact Option.some.inj (hscan.symm.trans hearlier)
      have hpart : target.reverse = (before ++ [key']) ++ name :: first :: tail := by rw [hsplit]; simp
      rw [hread hpart (by rw [List.getLast?_cons_cons]; exact hend)]
      refine iff_of_false (not_expression_of_weight hchain fun hsame => ?_) ?_
      · have hword : name.kind.weight = 1 := by rw [hname']; rfl
        rw [Syntax.weight_cons name, hword] at hsame
        omega
      · rw [hpart, List.append_assoc]
        exact not_not_intro (.declared hkey' hname' hnone)

theorem target_of_dot {source : String}
    (hlast : (Syntax.lex source).tokens.getLast?.map Token.kind = some (.punct .dot))
    (hok : (Syntax.lex source).result.toOption.isSome = true) (hend : source.toList.getLast?.any Text.isBlank = false) :
    Target source (code (Syntax.lex source).tokens.dropLast) "" := by
  obtain ⟨dot, hdot, hkind⟩ := Option.map_eq_some_iff.mp hlast
  cases hresult : (Syntax.lex source).result with
  | error e =>
      rw [hresult] at hok
      cases hok
  | ok mark =>
      have hlex : Syntax.lex source = ⟨(Syntax.lex source).tokens.dropLast ++ [dot], .ok mark⟩ := by
        rw [List.dropLast_append_getLast? _ hdot, ← hresult]
      exact .dot hlex hkind hend

theorem exists_of_isSome {ε α : Type} {x : Except ε α} (h : x.toOption.isSome = true) : ∃ a, x = .ok a := by
  cases x with
  | error e => cases h
  | ok a => exact ⟨a, rfl⟩

theorem parseExpression_target_call :
    ∃ target start last p value, Target "f(g)." target "" ∧ chainStart? target = some start ∧
      target.head? = some last ∧ Text.isName ("" ++ "x") = true ∧ Syntax.parseProgram ("f(g)." ++ "x") = .ok p ∧
      p.lastObject? = some value ∧ Syntax.parseExpression (slice "f(g)." start.start last.stop) = .ok value := by
  have htarget : Target "f(g)." (code (Syntax.lex "f(g).").tokens.dropLast) "" :=
    target_of_dot (by decide +kernel) (by decide +kernel) (by decide)
  have hkinds : (code (Syntax.lex "f(g).").tokens.dropLast).map Token.kind =
      [.punct .closeParen, .name "g", .punct .openParen, .name "f"] := by decide +kernel
  have hfound : (chainStart? (code (Syntax.lex "f(g).").tokens.dropLast)).map Token.kind = some (.name "f") := by
    decide +kernel
  obtain ⟨p, hp⟩ : ∃ p, Syntax.parseProgram ("f(g)." ++ "x") = .ok p := exists_of_isSome (by decide +kernel)
  generalize code (Syntax.lex "f(g).").tokens.dropLast = target at htarget hkinds hfound
  obtain ⟨start, hstart, hname⟩ := Option.map_eq_some_iff.mp hfound
  obtain ⟨last, before, rfl, -⟩ := List.map_eq_cons_iff.mp hkinds
  obtain ⟨value, hvalue, hiff⟩ := parseExpression_target htarget hstart rfl (c := "x") (by decide) hp
  refine ⟨_, start, last, p, value, htarget, hstart, rfl, by decide, hp, hvalue, hiff.mpr fun hmisread => ?_⟩
  generalize hts : (last :: before).reverse = ts at hmisread
  cases hmisread with
  | cut hopens => rcases hopens with hkind | hkind <;> rw [hname] at hkind <;> cases hkind
  | @declared first rest key kind s hkey =>
      have hmem : key.kind ∈ (last :: before).map Token.kind :=
        List.mem_map_of_mem (List.mem_reverse.mp (hts ▸ by simp))
      rw [hkinds, hkey] at hmem
      simp at hmem

/-- A source whose value before the dot is read as a tree of another weight. -/
theorem exists_disagreement {source grown : String} (text : String) (n : Int)
    (hdot : (Syntax.lex source).tokens.getLast?.map Token.kind = some (.punct .dot))
    (hok : (Syntax.lex source).result.toOption.isSome = true) (hend : source.toList.getLast?.any Text.isBlank = false)
    (hslice : ((chainStart? (code (Syntax.lex source).tokens.dropLast)).bind fun start =>
      (code (Syntax.lex source).tokens.dropLast).head?.map fun last => slice source start.start last.stop) = some text)
    (hvalue : ((Syntax.parseProgram grown).toOption.bind Syntax.Program.lastObject?).map Expr.weight = some n)
    (htext : (Syntax.parseExpression text).toOption.map Expr.weight ≠ some n) :
    ∃ target start last p value, Target source target "" ∧ chainStart? target = some start ∧
      target.head? = some last ∧ Syntax.parseProgram grown = .ok p ∧ p.lastObject? = some value ∧
      Syntax.parseExpression (slice source start.start last.stop) ≠ .ok value := by
  obtain ⟨start, hstart, htail⟩ := Option.bind_eq_some_iff.mp hslice
  obtain ⟨last, hlast, rfl⟩ := Option.map_eq_some_iff.mp htail
  obtain ⟨value, hobject, rfl⟩ := Option.map_eq_some_iff.mp hvalue
  obtain ⟨p, hp, hmember⟩ := Option.bind_eq_some_iff.mp hobject
  refine ⟨_, start, last, p, value, target_of_dot hdot hok hend, hstart, hlast, eq_ok_of_toOption hp, hmember, ?_⟩
  intro hsame
  rw [hsame] at htext
  exact htext rfl

/-- An index behind the brace of an object is read as a list, and a list below a declaration as an index. -/
theorem target_misread :
    (∃ target start last p value, Target "\x7ba:\x7b\x7d\x7d['a']." target "" ∧ chainStart? target = some start ∧
      target.head? = some last ∧ Syntax.parseProgram "\x7ba:\x7b\x7d\x7d['a'].b" = .ok p ∧
      p.lastObject? = some value ∧
      Syntax.parseExpression (slice "\x7ba:\x7b\x7d\x7d['a']." start.start last.stop) ≠ .ok value) ∧
    (∃ target start last p value, Target "let x\n[[]]." target "" ∧ chainStart? target = some start ∧
      target.head? = some last ∧ Syntax.parseProgram "let x\n[[]].b" = .ok p ∧
      p.lastObject? = some value ∧
      Syntax.parseExpression (slice "let x\n[[]]." start.start last.stop) ≠ .ok value) := by
  constructor
  · exact exists_disagreement "['a']" 4 (by decide +kernel) (by decide +kernel) (by decide)
      (by decide +kernel) (by decide +kernel) (by decide +kernel)
  · exact exists_disagreement "x\n[[]]" 2 (by decide +kernel) (by decide +kernel) (by decide)
      (by decide +kernel) (by decide +kernel) (by decide +kernel)

end ScriptRepl.Assist
