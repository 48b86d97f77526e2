import ScriptRepl.Proofs.Assist.Hinted
import ScriptRepl.Proofs.Assist.Target
import ScriptRepl.Proofs.Syntax.CallPlaces

/-! The arguments of an open call, as the scan over brackets counts them and as the parser reads them once the call is
closed. -/
namespace ScriptRepl.Assist

open Syntax (Token TokenKind Punct Expr Matched PlacedCall ReadsCall significant lex parseProgram)
open Syntax.Grammar (Nested Separated Primary Unary Binary Conditional Assignment MatchedUpTo)

variable {ts us vs : List Token} {t t' : Token} {b : OpenBracket} {bs : List OpenBracket}

/-! ### One more token -/

theorem openBrackets_opening (h : isOpening t = true) (ts : List Token) :
    ∃ b, openBrackets (ts ++ [t]) = b :: markContent (openBrackets ts) ∧ b.before = ts.reverse ∧ b.commas = 0 ∧
      b.content = false := by
  rw [openBrackets_concat]
  unfold openStep
  rw [if_pos h]
  exact ⟨_, rfl, rfl, rfl, rfl⟩

theorem isOpening_of_isClosing (h : isClosing t = true) : isOpening t = false := by
  simp only [isClosing, Bool.or_eq_true, decide_eq_true_eq] at h
  rcases h with (h | h) | h <;> simp [isOpening, h]

theorem openBrackets_closing (h : isClosing t = true) (ts : List Token) :
    openBrackets (ts ++ [t]) = (openBrackets ts).tail := by
  rw [openBrackets_concat]
  unfold openStep
  rw [if_neg (Bool.eq_false_iff.mp (isOpening_of_isClosing h)), if_pos h]

theorem openBrackets_comma (h : t.kind = .punct .comma) (hopen : openBrackets ts = b :: bs) :
    openBrackets (ts ++ [t]) = { b with commas := b.commas + 1, content := false } :: bs := by
  rw [openBrackets_concat, hopen, openStep]
  simp [isOpening, isClosing, h]

theorem openBrackets_other (h : t.kind.IsPlain) (hcomma : t.kind ≠ .punct .comma) (ts : List Token) :
    openBrackets (ts ++ [t]) = markContent (openBrackets ts) := by
  obtain ⟨hclosing, hopening⟩ := not_bracket_of_isPlain h
  rw [openBrackets_concat]
  unfold openStep
  rw [if_neg (Bool.eq_false_iff.mp hopening), if_neg (Bool.eq_false_iff.mp hclosing), if_neg hcomma]

/-! ### Where the open brackets stand -/

/-- How many tokens stand before each of the brackets. -/
def starts (stack : List OpenBracket) : List Nat :=
  stack.map fun b => b.before.length

theorem starts_markContent (stack : List OpenBracket) : starts (markContent stack) = starts stack := by
  cases stack <;> rfl

theorem starts_opening (h : isOpening t = true) (ts : List Token) :
    starts (openBrackets (ts ++ [t])) = ts.length :: starts (openBrackets ts) := by
  obtain ⟨b, hopen, hbefore, -⟩ := openBrackets_opening h ts
  rw [hopen, ← starts_markContent (openBrackets ts), starts, List.map_cons, hbefore, List.length_reverse]
  rfl

theorem starts_closing (h : isClosing t = true) (ts : List Token) :
    starts (openBrackets (ts ++ [t])) = (starts (openBrackets ts)).tail := by
  rw [openBrackets_closing h, starts, List.map_tail]
  rfl

theorem starts_plain (h : t.kind.IsPlain) (ts : List Token) :
    starts (openBrackets (ts ++ [t])) = starts (openBrackets ts) := by
  by_cases hcomma : t.kind = .punct .comma
  · cases hopen : openBrackets ts with
    | nil =>
        rw [openBrackets_concat, hopen, openStep]
        simp [isOpening, isClosing, hcomma]
    | cons b bs =>
        rw [openBrackets_comma hcomma hopen]
        rfl
  · rw [openBrackets_other h hcomma, starts_markContent]

/-- Every token is an opening bracket, a closing one or none. -/
theorem bracket_cases (t : Token) : isOpening t = true ∨ isClosing t = true ∨ t.kind.IsPlain := by
  by_cases hopening : isOpening t = true
  · exact .inl hopening
  by_cases hclosing : isClosing t = true
  · exact .inr (.inl hclosing)
  refine .inr (.inr ?_)
  simp only [isOpening, isClosing, Bool.or_eq_true, decide_eq_true_eq, not_or] at hopening hclosing
  simp [TokenKind.IsPlain, Punct.pairs, hopening, hclosing]

/-- Inner brackets stand behind outer ones. -/
theorem starts_ordered (ts : List Token) : (ts.length :: starts (openBrackets ts)).Pairwise (· > ·) := by
  induction ts using List.reverseRecOn with
  | nil => exact List.pairwise_singleton _ _
  | append_singleton ts t ih =>
      obtain ⟨hlater, hordered⟩ := List.pairwise_cons.mp ih
      rw [List.length_append, List.length_singleton]
      rcases bracket_cases t with hopening | hclosing | hplain
      · rw [starts_opening hopening]
        refine List.pairwise_cons.mpr ⟨fun n hn => ?_, ih⟩
        rcases List.mem_cons.mp hn with rfl | hn
        · exact Nat.lt_succ_self _
        · exact Nat.lt_succ_of_lt (hlater n hn)
      · rw [starts_closing hclosing]
        exact List.pairwise_cons.mpr
          ⟨fun n hn => Nat.lt_succ_of_lt (hlater n (List.mem_of_mem_tail hn)), hordered.sublist (List.tail_sublist _)⟩
      · rw [starts_plain hplain]
        exact List.pairwise_cons.mpr ⟨fun n hn => Nat.lt_succ_of_lt (hlater n hn), hordered⟩

/-- No bracket opens again at a place that lies behind. -/
theorem not_mem_starts_append {i : Nat} (hi : i < ts.length) (h : i ∉ starts (openBrackets ts)) (us : List Token) :
    i ∉ starts (openBrackets (ts ++ us)) := by
  induction us using List.reverseRecOn with
  | nil => rwa [List.append_nil]
  | append_singleton us t ih =>
      rw [← List.append_assoc]
      rcases bracket_cases t with hopening | hclosing | hplain
      · rw [starts_opening hopening, List.mem_cons, not_or]
        exact ⟨by rw [List.length_append]; omega, ih⟩
      · rw [starts_closing hclosing]
        exact fun hmem => ih (List.mem_of_mem_tail hmem)
      · rwa [starts_plain hplain]

/-- A bracket that is closed stays so. -/
theorem not_mem_starts_closed {i : Nat} (h : (starts (openBrackets ts)).head? = some i) (hclosing : isClosing t = true)
    (us : List Token) : i ∉ starts (openBrackets (ts ++ t :: us)) := by
  have hordered := starts_ordered ts
  obtain ⟨outer, houter⟩ := List.head?_eq_some_iff.mp h
  rw [houter] at hordered
  obtain ⟨hlater, hinner⟩ := List.pairwise_cons.mp hordered
  have hlength : i < (ts ++ [t]).length := by
    have := hlater i List.mem_cons_self
    rw [List.length_append]
    omega
  have hclosed : i ∉ starts (openBrackets (ts ++ [t])) := by
    rw [starts_closing hclosing, houter, List.tail_cons]
    exact fun hmem => Nat.lt_irrefl i ((List.pairwise_cons.mp hinner).1 i hmem)
  rw [List.append_cons]
  exact not_mem_starts_append hlength hclosed us

/-- A bracket is closed at one place only. -/
theorem closing_unique {a a' : List Token} {i : Nat} (ha : (starts (openBrackets a)).head? = some i)
    (ha' : (starts (openBrackets a')).head? = some i) (ht : isClosing t = true) (ht' : isClosing t' = true)
    (h : a ++ t :: us = a' ++ t' :: vs) : a = a' := by
  -- Otherwise one place comes first, and the bracket that is closed there is open again at the other.
  rcases List.append_eq_append_iff.mp h with ⟨ws, rfl, hws⟩ | ⟨ws, rfl, hws⟩
  · cases ws with
    | nil => exact (List.append_nil a).symm
    | cons w ws =>
        obtain rfl := (List.cons.inj hws).1
        exact absurd (List.mem_of_mem_head? ha') (not_mem_starts_closed ha ht ws)
  · cases ws with
    | nil => exact List.append_nil a'
    | cons w ws =>
        obtain rfl := (List.cons.inj hws).1
        exact absurd (List.mem_of_mem_head? ha) (not_mem_starts_closed ha' ht' ws)

/-! ### Items between commas -/

/-- Tokens that leave the bracket around them the innermost one. -/
def LeavesOpen (us : List Token) : Prop :=
  ∀ ts b bs, openBrackets ts = b :: bs → ∃ b', openBrackets (ts ++ us) = b' :: bs ∧ b'.before = b.before

/-- Tokens that stand in the bracket around them without a comma of its own. -/
def Fills (us : List Token) : Prop :=
  ∀ ts, openBrackets (ts ++ us) = markContent (openBrackets ts)

theorem Fills.leavesOpen (h : Fills us) : LeavesOpen us := by
  intro ts b bs hopen
  rw [h, hopen]
  exact ⟨_, rfl, rfl⟩

theorem LeavesOpen.append (hus : LeavesOpen us) (hvs : LeavesOpen vs) : LeavesOpen (us ++ vs) := by
  intro ts b bs hopen
  obtain ⟨b', hopen', hbefore'⟩ := hus ts b bs hopen
  obtain ⟨b'', hopen'', hbefore''⟩ := hvs (ts ++ us) b' bs hopen'
  rw [← List.append_assoc]
  exact ⟨b'', hopen'', hbefore''.trans hbefore'⟩

theorem Fills.append (hus : Fills us) (hvs : Fills vs) : Fills (us ++ vs) := by
  intro ts
  rw [← List.append_assoc, hvs, hus]
  cases openBrackets ts <;> rfl

theorem fills_plain (h : t.kind.IsPlain) (hcomma : t.kind ≠ .punct .comma) : Fills [t] :=
  openBrackets_other h hcomma

theorem leavesOpen_plain (h : t.kind.IsPlain) : LeavesOpen [t] := by
  by_cases hcomma : t.kind = .punct .comma
  · intro ts b bs hopen
    exact ⟨_, openBrackets_comma hcomma hopen, rfl⟩
  · exact (fills_plain h hcomma).leavesOpen

theorem fills_enclosed {p q : Punct} (hpair : (p, q) ∈ Punct.pairs) (hopen : t.kind = .punct p) (hinner : LeavesOpen us)
    (hclose : t'.kind = .punct q) : Fills (t :: (us ++ [t'])) := by
  intro ts
  obtain ⟨b, hopened, -⟩ := openBrackets_opening (isOpening_of_pair hpair hopen).2 ts
  obtain ⟨b', hkept, -⟩ := hinner (ts ++ [t]) b _ hopened
  have hclosed := openBrackets_closing (isClosing_of_pair hpair hclose) (ts ++ [t] ++ us)
  rw [hkept, List.tail_cons] at hclosed
  rw [← hclosed]
  simp

theorem leavesOpen_matched (h : Matched us) : LeavesOpen us := by
  induction h with
  | nil =>
      intro ts b bs hopen
      exact ⟨b, by rwa [List.append_nil], rfl⟩
  | plain h _ ih => exact (leavesOpen_plain h).append ih
  | @pair t t' us vs p q hpair hopen _ hclose _ hinner hmore =>
      rw [show t :: (us ++ t' :: vs) = t :: (us ++ [t']) ++ vs by simp]
      exact (fills_enclosed hpair hopen hinner hclose).leavesOpen.append hmore

section

variable {d : Nested} {e : Expr} {p : Punct}

theorem fills_word (h : ∀ p, t.kind ≠ .punct p) : Fills [t] :=
  fills_plain (Syntax.isPlain_of_not_punct h) (h .comma)

theorem fills_punct (h : t.kind = .punct p) (hother : ∀ pair ∈ Punct.pairs, p ≠ pair.1 ∧ p ≠ pair.2)
    (hcomma : p ≠ .comma) : Fills [t] := by
  refine fills_plain (h ▸ Syntax.isPlain_punct hother) fun hkind => hcomma ?_
  rw [h] at hkind
  exact TokenKind.punct.inj hkind

theorem fills_listed {close : Punct} (h : MatchedUpTo close us) (hpair : (p, close) ∈ Punct.pairs)
    (hopen : t.kind = .punct p) : Fills (t :: us) := by
  obtain ⟨inner, t', rfl, hclose, hinner⟩ := h
  exact fills_enclosed hpair hopen (leavesOpen_matched hinner) hclose

theorem fills_unaryOf {op : Syntax.UnaryOp} (h : Syntax.Parser.unaryOf? t.kind = some op) : Fills [t] := by
  refine fills_plain (Syntax.Grammar.isPlain_unaryOf h) fun hcomma => ?_
  rw [hcomma] at h
  cases h

theorem fills_operator {stratum : Nat} {build : Expr → Expr → Expr}
    (h : (p, build) ∈ Syntax.Grammar.operators stratum) (hkind : t.kind = .punct p) : Fills [t] := by
  refine fills_plain (hkind ▸ Syntax.Grammar.isPlain_operator h) fun hcomma => ?_
  obtain ⟨op, hop, -⟩ := Syntax.Grammar.mem_operators_iff.mp h
  rw [hkind] at hcomma
  cases hcomma
  cases hop

/-- The operands of a level stand between commas. -/
structure Filling (d : Nested) : Prop where
  assignment : ∀ {us e}, d.assignment us e → Fills us
  operand : ∀ {stratum us e}, d.operand stratum us e → Fills us
  unary : ∀ {us e}, d.unary us e → Fills us

variable (hd : d.Matched)

include hd

theorem fills_primary (h : Primary d us e) : Fills us := by
  cases h with
  | number h | text h | name h | literal h | template h => exact fills_word (by rw [h]; nofun)
  | parens hopen hinner hclose =>
      exact fills_enclosed (by decide) hopen (leavesOpen_matched (hd.assignment hinner)) hclose
  | array hopen hitems => exact fills_listed (hd.items hitems) (by decide) hopen
  | object hopen hfields => exact fills_listed (hd.fields hfields) (by decide) hopen

theorem fills_chain (h : Syntax.Grammar.Chain d us e) : Fills us := by
  induction h with
  | primary h => exact fills_primary hd h
  | @member us dot t' e key _ hdot hkey ih =>
      have hname : Fills [t'] := fills_word fun p hkind => by rw [hkind] at hkey; cases hkey
      exact ih.append ((fills_punct hdot (by decide) (by decide)).append hname)
  | index _ hopen hkey hclose ih =>
      exact ih.append (fills_enclosed (by decide) hopen (leavesOpen_matched (hd.assignment hkey)) hclose)
  | call _ hopen hargs ih => exact ih.append (fills_listed (hd.items hargs) (by decide) hopen)

variable (hfill : Filling d)

include hfill

theorem fills_unary (h : Unary d us e) : Fills us := by
  cases h with
  | chain h => exact fills_chain hd h
  | operator hop hoperand => exact (fills_unaryOf hop).append (hfill.unary hoperand)

theorem fills_binary {stratum : Nat} (h : Binary d stratum us e) : Fills us := by
  induction h with
  | unary h => exact fills_unary hd hfill h
  | power hleft hop hright =>
      exact (fills_unary hd hfill hleft).append
        ((fills_punct hop (by decide) (by decide)).append (hfill.operand hright))
  | tighter _ ih => exact ih
  | operator _ hop hkind hright ih => exact ih.append ((fills_operator hop hkind).append (hfill.operand hright))

theorem fills_conditional (h : Conditional d us e) : Fills us := by
  cases h with
  | binary h => exact fills_binary hd hfill h
  | conditional htest hquestion hyes hcolon hno =>
      have hbranches := (hfill.assignment hyes).append
        ((fills_punct hcolon (by decide) (by decide)).append (hfill.assignment hno))
      exact (fills_binary hd hfill htest).append ((fills_punct hquestion (by decide) (by decide)).append hbranches)

theorem fills_assignment (h : Assignment d us e) : Fills us := by
  cases h with
  | conditional h => exact fills_conditional hd hfill h
  | assign htarget _ hassign hvalue =>
      exact (fills_chain hd htarget).append
        ((fills_punct hassign (by decide) (by decide)).append (hfill.assignment hvalue))

end

theorem filling_within (room : Nat) : Filling (Nested.none.within room) := by
  induction room with
  | zero => exact ⟨nofun, nofun, nofun⟩
  | succ room ih =>
      have hd := Nested.matched_within room
      exact ⟨fills_assignment hd ih, fills_binary hd ih, fills_unary hd ih⟩

/-! ### Counting -/

/-- Behind all of a list but its last token, the scan has counted its items on top of what was counted before. -/
theorem counts_separated {α : Type} {close : Punct} {item : Syntax.Phrase α} {xs : List α}
    (h : Separated close item us xs) (hitem : ∀ {us x}, item us x → Fills us) (hopen : openBrackets ts = b :: bs)
    (hcontent : b.content = false) :
    ∃ inner t b', us = inner ++ [t] ∧ t.kind = .punct close ∧ openBrackets (ts ++ inner) = b' :: bs ∧
      b'.before = b.before ∧ b'.supplied = b.commas + xs.length := by
  induction h generalizing ts b with
  | @close t hclose =>
      exact ⟨[], t, b, rfl, hclose, by rwa [List.append_nil], rfl, by simp [OpenBracket.supplied, hcontent]⟩
  | @last us t x hx hclose =>
      refine ⟨us, t, { b with content := true }, rfl, hclose, ?_, rfl, rfl⟩
      rw [hitem hx, hopen]
      rfl
  | @more us vs t x xs hx hcomma _ ih =>
      have hfilled : openBrackets (ts ++ us) = { b with content := true } :: bs := by
        rw [hitem hx, hopen]
        rfl
      obtain ⟨inner, t', b', rfl, hclose, hopen', hbefore, hsupplied⟩ := ih (openBrackets_comma hcomma hfilled) rfl
      refine ⟨us ++ t :: inner, t', b', by simp, hclose, by simpa using hopen', hbefore, ?_⟩
      rw [hsupplied, List.length_cons]
      exact Nat.add_right_comm b.commas 1 xs.length

/-- The scan stops in the bracket that the next token closes. If items up to a closing parenthesis are spelled behind
that bracket, they end with this token, so it has counted all of them. -/
theorem supplied_of_items {room : Nat} {before after rest : List Token} {close : Token} {args : List Expr}
    (hopen : openCall? ts = some b) (hclose : isClosing close = true) (hbefore : before.length = b.before.length)
    (ht : isOpening t = true) (hargs : (Nested.none.within room).items .closeParen us args)
    (hsplit : ts ++ close :: rest = before ++ t :: (us ++ after)) : args.length = b.supplied := by
  cases room with
  | zero => exact hargs.elim
  | succ room =>
      obtain ⟨opened, hopened, hstart, hcommas, hcontent⟩ := openBrackets_opening ht before
      obtain ⟨inner, close', b', rfl, hclose', hinner, hsame, hcounted⟩ :=
        counts_separated hargs (filling_within (room + 1)).assignment hopened hcontent
      rw [openCall?_eq] at hopen
      obtain ⟨hhead, -⟩ := Option.filter_eq_some_iff.mp hopen
      -- The scan and the items stop in the same bracket, and that is closed at one place only.
      have hscanned : (starts (openBrackets ts)).head? = some b.before.length := by
        rw [starts, List.head?_map, hhead]
        rfl
      have hread : (starts (openBrackets (before ++ [t] ++ inner))).head? = some b.before.length := by
        rw [hinner, starts, List.map_cons, List.head?_cons, hsame, hstart, List.length_reverse, hbefore]
      have htokens : ts ++ close :: rest = before ++ [t] ++ inner ++ close' :: after := by
        rw [hsplit]
        simp
      obtain rfl := closing_unique hscanned hread hclose (by simp [isClosing, hclose']) htokens
      rw [hinner] at hhead
      obtain rfl := Option.some.inj hhead
      rw [hcounted, hcommas, Nat.zero_add]

/-! ### Sources -/

/-- A parenthesis in the next line is a token of its own. -/
theorem lex_parenthesis {source : String} {mark : Syntax.EndMark} (h : (lex source).result = .ok mark) (more : String) :
    ∃ t rest, t.kind = .punct .closeParen ∧
      (lex (source ++ "\n" ++ ")" ++ more)).tokens = (lex source).tokens ++ t :: rest := by
  have htext : (")" ++ more).toList = ')' :: more.toList := by
    rw [String.toList_append]
    rfl
  obtain ⟨place, n, hnext, hlex⟩ := Syntax.lex_nextToken h htext (by decide)
  have hparen : Syntax.Lexer.lexeme ')' ⟨n, more.toList⟩ = .ok (.punct .closeParen, ⟨n, more.toList⟩) := rfl
  rw [String.append_assoc, hlex, Syntax.Lexer.scan_of_lexeme hnext hparen]
  exact ⟨_, _, rfl, rfl⟩

/-- The arguments that the scan counts are those that the parser reads: if a parenthesis in the next line makes a
program of the source, whatever comes behind it, and the open bracket is read as that of a call, then this call has as
many arguments as were counted. -/
theorem arguments_counted {source more : String} {mark : Syntax.EndMark} {b : OpenBracket} {p : Syntax.Program}
    {c : PlacedCall} (hlex : (lex source).result = .ok mark)
    (hopen : openCall? (significant (lex source).tokens) = some b)
    (hreads : ReadsCall (source ++ "\n" ++ ")" ++ more) p c) (hplace : c.place = b.before.length) :
    c.args.length = b.supplied := by
  obtain ⟨close, rest, hclose, htokens⟩ := lex_parenthesis hlex more
  obtain ⟨-, room, before, t, us, after, hsplit, hbefore, ht, hargs⟩ := hreads.call.found
  have hcode : significant (close :: rest) = close :: significant rest :=
    List.filter_cons_of_pos (by rw [hclose]; rfl)
  rw [htokens, Syntax.significant_append, hcode] at hsplit
  have hclosing : isClosing close = true := by simp [isClosing, hclose]
  have hopening : isOpening t = true := by simp [isOpening, ht]
  exact supplied_of_items hopen hclosing (hbefore.trans hplace) hopening hargs hsplit

/-- Two arguments with a comma behind each: the commas in the brackets of the second one do not count. -/
theorem arguments_counted_conditional :
    ∃ mark b p c, (lex "f(x, a ? [1, 2,] : \x7bk: b\x7d, ").result = .ok mark ∧
      openCall? (significant (lex "f(x, a ? [1, 2,] : \x7bk: b\x7d, ").tokens) = some b ∧
      ReadsCall ("f(x, a ? [1, 2,] : \x7bk: b\x7d, " ++ "\n" ++ ")" ++ ".d") p c ∧ c.place = b.before.length ∧
      c.args.length = b.supplied ∧ b.supplied = 2 := by
  have hlex : (lex "f(x, a ? [1, 2,] : \x7bk: b\x7d, ").result.toOption.isSome = true := by decide +kernel
  have hscan : (openCall? (significant (lex "f(x, a ? [1, 2,] : \x7bk: b\x7d, ").tokens)).map
      (fun b => (b.before.length, b.supplied)) = some (1, 2) := by decide +kernel
  have hparse : (parseProgram ("f(x, a ? [1, 2,] : \x7bk: b\x7d, " ++ "\n" ++ ")" ++ ".d")).toOption.map
      (fun p => p.calls.length) = some 1 := by decide +kernel
  -- One parenthesis of the source opens, so the call stands there.
  have hplaces : ∀ i < (significant (lex ("f(x, a ? [1, 2,] : \x7bk: b\x7d, " ++ "\n" ++ ")" ++ ".d")).tokens).length,
      (significant (lex ("f(x, a ? [1, 2,] : \x7bk: b\x7d, " ++ "\n" ++ ")" ++ ".d")).tokens)[i]?.map Token.kind =
        some (.punct .openParen) → i = 1 := by decide +kernel
  obtain ⟨mark, hmark⟩ := exists_of_isSome hlex
  obtain ⟨b, hopen, hb⟩ := Option.map_eq_some_iff.mp hscan
  obtain ⟨hbefore, hsupplied⟩ := Prod.mk.inj hb
  obtain ⟨p, hp, hone⟩ := Option.map_eq_some_iff.mp hparse
  obtain ⟨cs, hcs, -, hreads⟩ := Syntax.calls_read (eq_ok_of_toOption hp)
  rw [← hcs, List.length_map] at hone
  obtain ⟨c, hc⟩ := List.exists_mem_of_length_pos (Nat.lt_of_lt_of_eq Nat.one_pos hone.symm)
  obtain ⟨t, ht, hkind⟩ := (hreads c hc).call.found.exists_parenthesis
  have hplace : c.place = b.before.length := by
    rw [hbefore]
    exact hplaces _ (List.getElem?_eq_some_iff.mp ht).1 (by rw [ht, Option.map_some, hkind])
  have hcounted := arguments_counted hmark hopen (hreads c hc) hplace
  exact ⟨mark, b, p, c, hmark, hopen, hreads c hc, hplace, hcounted, hsupplied⟩

end ScriptRepl.Assist
