import ScriptRepl.Proofs.Syntax.Grammar

/-! The brackets of a phrase: each has its partner in the phrase, and what stands between the two is matched as well. -/
namespace ScriptRepl.Syntax

/-- Opening brackets, each with the one that closes it. -/
def Punct.pairs : List (Punct × Punct) :=
  [(.openParen, .closeParen), (.openBracket, .closeBracket), (.openBrace, .closeBrace)]

/-- No bracket. -/
def TokenKind.IsPlain (kind : TokenKind) : Prop :=
  ∀ pair ∈ Punct.pairs, kind ≠ .punct pair.1 ∧ kind ≠ .punct pair.2

inductive Matched : List Token → Prop
  | nil : Matched []
  | plain {t : Token} {us : List Token} (h : t.kind.IsPlain) (hmore : Matched us) : Matched (t :: us)
  | pair {t t' : Token} {us vs : List Token} {p q : Punct} (hpair : (p, q) ∈ Punct.pairs) (hopen : t.kind = .punct p)
      (hinner : Matched us) (hclose : t'.kind = .punct q) (hmore : Matched vs) : Matched (t :: (us ++ t' :: vs))

section

variable {t t' : Token} {us vs : List Token} {p q : Punct} {kind : TokenKind}

theorem Matched.append (hus : Matched us) (hvs : Matched vs) : Matched (us ++ vs) := by
  induction hus with
  | nil => exact hvs
  | plain h _ ih => exact .plain h ih
  | pair hpair hopen hinner hclose _ _ ih =>
      rw [List.cons_append, List.append_assoc]
      exact .pair hpair hopen hinner hclose ih

theorem Matched.enclosed (hpair : (p, q) ∈ Punct.pairs) (hopen : t.kind = .punct p) (hinner : Matched us)
    (hclose : t'.kind = .punct q) : Matched (t :: (us ++ [t'])) :=
  .pair hpair hopen hinner hclose .nil

theorem matched_singleton (h : t.kind.IsPlain) : Matched [t] :=
  .plain h .nil

theorem isPlain_of_not_punct (h : ∀ p, kind ≠ .punct p) : kind.IsPlain :=
  fun _ _ => ⟨h _, h _⟩

theorem isPlain_punct (hother : ∀ pair ∈ Punct.pairs, p ≠ pair.1 ∧ p ≠ pair.2) : (TokenKind.punct p).IsPlain := by
  intro pair hpair
  obtain ⟨hopen, hclose⟩ := hother pair hpair
  exact ⟨fun h => hopen (TokenKind.punct.inj h), fun h => hclose (TokenKind.punct.inj h)⟩

theorem isPlain_memberName {key : String} (h : Parser.memberName? kind = some key) : kind.IsPlain := by
  refine isPlain_of_not_punct ?_
  rintro p rfl
  cases h

end

namespace Grammar

theorem isPlain_fieldKey {kind : TokenKind} {key : String} (h : fieldKey? kind = some key) : kind.IsPlain := by
  refine isPlain_of_not_punct ?_
  rintro p rfl
  cases h

theorem isPlain_unaryOf {kind : TokenKind} {op : UnaryOp} (h : Parser.unaryOf? kind = some op) : kind.IsPlain := by
  unfold Parser.unaryOf? at h
  split at h
  case h_4 => exact isPlain_of_not_punct nofun
  case h_5 => cases h
  all_goals exact isPlain_punct (by decide)

theorem isPlain_operator {stratum : Nat} {p : Punct} {build : Expr → Expr → Expr} (h : (p, build) ∈ operators stratum) :
    (TokenKind.punct p).IsPlain := by
  obtain ⟨op, hop, -⟩ := mem_operators_iff.mp h
  refine isPlain_punct ?_
  cases p <;> first | decide | cases hop

/-- A list up to a closing bracket: all of it but that. -/
def MatchedUpTo (close : Punct) (us : List Token) : Prop :=
  ∃ inner t, us = inner ++ [t] ∧ t.kind = .punct close ∧ Matched inner

/-- The brackets of the phrases of a level are matched, but for those that close lists. -/
structure Nested.Matched (d : Nested) : Prop where
  assignment : ∀ {us e}, d.assignment us e → Syntax.Matched us
  operand : ∀ {stratum us e}, d.operand stratum us e → Syntax.Matched us
  unary : ∀ {us e}, d.unary us e → Syntax.Matched us
  items : ∀ {close us es}, d.items close us es → MatchedUpTo close us
  fields : ∀ {us fields}, d.fields us fields → MatchedUpTo .closeBrace us

section

variable {d : Nested} {us : List Token} {t : Token} {e : Expr}

theorem Separated.matched {α : Type} {close : Punct} {item : Phrase α} (hitem : ∀ {us x}, item us x → Syntax.Matched us)
    {xs : List α} (h : Separated close item us xs) : MatchedUpTo close us := by
  induction h with
  | close hclose => exact ⟨[], _, rfl, hclose, .nil⟩
  | last hx hclose => exact ⟨_, _, rfl, hclose, hitem hx⟩
  | @more us _ comma _ _ hx hcomma _ ih =>
      obtain ⟨inner, t, rfl, hclose, hinner⟩ := ih
      have hcommas : comma.kind.IsPlain := hcomma ▸ isPlain_punct (by decide)
      exact ⟨us ++ comma :: inner, t, by simp, hclose, (hitem hx).append (.plain hcommas hinner)⟩

theorem MatchedUpTo.enclosed {p q : Punct} (h : MatchedUpTo q us) (hpair : (p, q) ∈ Punct.pairs)
    (hopen : t.kind = .punct p) : Syntax.Matched (t :: us) := by
  obtain ⟨inner, t', rfl, hclose, hinner⟩ := h
  exact .enclosed hpair hopen hinner hclose

theorem Primary.matched (hd : d.Matched) (h : Primary d us e) : Syntax.Matched us := by
  cases h with
  | number h => exact matched_singleton (h ▸ isPlain_of_not_punct nofun)
  | text h => exact matched_singleton (h ▸ isPlain_of_not_punct nofun)
  | name h => exact matched_singleton (h ▸ isPlain_of_not_punct nofun)
  | literal h => exact matched_singleton (h ▸ isPlain_of_not_punct nofun)
  | template h => exact matched_singleton (h ▸ isPlain_of_not_punct nofun)
  | parens hopen hinner hclose => exact .enclosed (by decide) hopen (hd.assignment hinner) hclose
  | array hopen hitems => exact (hd.items hitems).enclosed (by decide) hopen
  | object hopen hfields => exact (hd.fields hfields).enclosed (by decide) hopen

theorem Chain.matched (hd : d.Matched) (h : Chain d us e) : Syntax.Matched us := by
  induction h with
  | primary h => exact h.matched hd
  | member _ hdot hkey ih =>
      have hdots := hdot ▸ isPlain_punct (by decide)
      exact ih.append (.plain hdots (matched_singleton (isPlain_memberName hkey)))
  | index _ hopen hkey hclose ih => exact ih.append (.enclosed (by decide) hopen (hd.assignment hkey) hclose)
  | call _ hopen hargs ih => exact ih.append ((hd.items hargs).enclosed (by decide) hopen)

theorem Unary.matched (hd : d.Matched) (h : Unary d us e) : Syntax.Matched us := by
  cases h with
  | chain h => exact h.matched hd
  | operator hop hoperand => exact .plain (isPlain_unaryOf hop) (hd.unary hoperand)

theorem Binary.matched {stratum : Nat} (hd : d.Matched) (h : Binary d stratum us e) : Syntax.Matched us := by
  induction h with
  | unary h => exact h.matched hd
  | power hleft hop hright =>
      have hops := hop ▸ isPlain_punct (by decide)
      exact (hleft.matched hd).append (.plain hops (hd.operand hright))
  | tighter _ ih => exact ih
  | operator _ hop hkind hright ih => exact ih.append (.plain (hkind ▸ isPlain_operator hop) (hd.operand hright))

theorem Conditional.matched (hd : d.Matched) (h : Conditional d us e) : Syntax.Matched us := by
  cases h with
  | binary h => exact h.matched hd
  | conditional htest hquestion hyes hcolon hno =>
      have hquestions := hquestion ▸ isPlain_punct (by decide)
      have hcolons := hcolon ▸ isPlain_punct (by decide)
      have hbranches := (hd.assignment hyes).append (.plain hcolons (hd.assignment hno))
      exact (htest.matched hd).append (.plain hquestions hbranches)

theorem Assignment.matched (hd : d.Matched) (h : Assignment d us e) : Syntax.Matched us := by
  cases h with
  | conditional h => exact h.matched hd
  | assign htarget _ hassign hvalue =>
      have hassigns := hassign ▸ isPlain_punct (by decide)
      exact (htarget.matched hd).append (.plain hassigns (hd.assignment hvalue))

theorem Field.matched {field : String × Expr} (hd : d.Matched) (h : Field d us field) : Syntax.Matched us := by
  cases h with
  | name h => exact matched_singleton (h ▸ isPlain_of_not_punct nofun)
  | keyed hkey hcolon hvalue =>
      have hcolons := hcolon ▸ isPlain_punct (by decide)
      exact .plain (isPlain_fieldKey hkey) (.plain hcolons (hvalue.matched hd))

end

theorem Nested.matched_above {d : Nested} (h : d.Matched) : d.above.Matched where
  assignment := Assignment.matched h
  operand := Binary.matched h
  unary := Unary.matched h
  items := Separated.matched (Assignment.matched h)
  fields := Separated.matched (Field.matched h)

theorem Nested.matched_within (room : Nat) : (Nested.none.within room).Matched := by
  induction room with
  | zero => exact ⟨nofun, nofun, nofun, nofun, nofun⟩
  | succ room ih => exact Nested.matched_above ih

end Grammar

end ScriptRepl.Syntax
