import Mathlib.Data.List.Chain
import Mathlib.Data.List.Induction
import ScriptRepl.Proofs.Assist.Candidates
import ScriptRepl.Proofs.Syntax.Characters

/-! Hints for open calls: when a hint begins with a comma, by the token that the source ends with, and that no comma
follows at once on another, but after a comma in a call that takes any number of values. -/
namespace ScriptRepl

/-! ### Parameters -/

/-- The last parameter stands for any number of values. -/
def Builtin.TakesRest (f : Builtin) : Prop :=
  ∃ name, f.signature.getLast? = some (.rest name)

/-- A parameter for any number of values is the only one. -/
theorem Builtin.TakesRest.length {f : Builtin} (h : f.TakesRest) : f.signature.length = 1 := by
  obtain ⟨name, hlast⟩ := h
  cases f with
  | text op => cases op <;> first | rfl | cases hlast
  | list op => cases op <;> first | rfl | cases hlast
  | _ => first | rfl | cases hlast

/-- The text of a parameter is not empty and is no part of the notation around it. -/
def Param.Plain (p : Param) : Prop :=
  p.text.toList ≠ [] ∧ ',' ∉ p.text.toList ∧ ')' ∉ p.text.toList

instance (p : Param) : Decidable p.Plain :=
  inferInstanceAs (Decidable (_ ∧ _))

theorem Builtin.plain_signature (f : Builtin) : ∀ p ∈ f.signature, p.Plain := by
  cases f with
  | math op => cases op <;> decide
  | fields part => cases part <;> decide
  | text op => cases op <;> decide
  | list op => cases op <;> decide
  | _ => decide

namespace Assist

open Syntax (Token TokenKind lex)
open Text (isBlank)

/-! ### Commas -/

/-- No comma follows at once on another. -/
def CommasApart (cs : List Char) : Prop :=
  cs.IsChain fun a b => a = ',' → b ≠ ','

instance (cs : List Char) : Decidable (CommasApart cs) :=
  inferInstanceAs (Decidable (cs.IsChain _))

theorem commasApart_append {cs ds : List Char} :
    CommasApart (cs ++ ds) ↔
      CommasApart cs ∧ CommasApart ds ∧ ¬(cs.getLast? = some ',' ∧ ds.head? = some ',') := by
  rw [CommasApart, List.isChain_append]
  refine and_congr Iff.rfl (and_congr Iff.rfl ⟨fun h hboth => h ',' hboth.1 ',' hboth.2 rfl rfl, ?_⟩)
  rintro h _ hlast _ hhead rfl rfl
  exact h ⟨hlast, hhead⟩

theorem commasApart_of_not_mem {cs : List Char} (h : ',' ∉ cs) : CommasApart cs := by
  induction cs with
  | nil => exact .nil
  | cons c cs ih =>
      rw [List.mem_cons, not_or] at h
      exact List.isChain_cons.mpr ⟨fun _ _ hc => absurd hc.symm h.1, ih h.2⟩

theorem toList_joinParams (ps : List Param) :
    (joinParams ps).toList = [',', ' '].intercalate (ps.map fun p => p.text.toList) := by
  rw [joinParams, String.toList_intercalate, List.map_map]
  rfl

theorem commasApart_joinParams {ps : List Param} (h : ∀ p ∈ ps, p.Plain) : CommasApart (joinParams ps).toList := by
  rw [toList_joinParams]
  induction ps with
  | nil => exact .nil
  | cons p ps ih =>
      have hp : ',' ∉ p.text.toList := (h p List.mem_cons_self).2.1
      have hps := ih fun q hq => h q (List.mem_cons_of_mem p hq)
      cases ps with
      | nil => exact commasApart_of_not_mem (by simpa using hp)
      | cons q ps =>
          rw [List.map_cons, List.map_cons, List.intercalate_cons_cons, commasApart_append, commasApart_append]
          refine ⟨⟨commasApart_of_not_mem hp, by decide, fun hboth => hp (List.mem_of_getLast? hboth.1)⟩, hps, ?_⟩
          simp

/-- Missing parameters begin with a character of the first of them. -/
theorem head?_joinParams {ps : List Param} (hne : ps ≠ []) (h : ∀ p ∈ ps, p.Plain) :
    ∃ c, (joinParams ps).toList.head? = some c ∧ c ≠ ',' ∧ c ≠ ')' := by
  cases ps with
  | nil => exact absurd rfl hne
  | cons p ps =>
      obtain ⟨hfull, hcomma, hparen⟩ := h p List.mem_cons_self
      have hhead : (joinParams (p :: ps)).toList.head? = p.text.toList.head? := by
        rw [toList_joinParams]
        cases ps with
        | nil => simp
        | cons q ps =>
            rw [List.map_cons, List.map_cons, List.intercalate_cons_cons, List.append_assoc,
              List.head?_append_of_ne_nil _ hfull]
      obtain ⟨c, cs, htext⟩ := List.exists_cons_of_ne_nil hfull
      rw [htext, List.mem_cons, not_or] at hcomma hparen
      exact ⟨c, by rw [hhead, htext]; rfl, Ne.symm hcomma.1, Ne.symm hparen.1⟩

/-! ### The innermost open bracket -/

/-- The brackets that are open behind the tokens, innermost first. -/
def openBrackets (ts : List Token) : List OpenBracket :=
  (ts.foldl (fun (before, stack) t => (t :: before, openStep before stack t)) ([], [])).2

theorem openCall?_eq (ts : List Token) : openCall? ts = (openBrackets ts).head?.filter (·.isCall) :=
  rfl

theorem tokens_openSteps (ts : List Token) (state : List Token × List OpenBracket) :
    (ts.foldl (fun (before, stack) t => (t :: before, openStep before stack t)) state).1 = ts.reverse ++ state.1 := by
  induction ts generalizing state with
  | nil => rfl
  | cons t ts ih =>
      rw [List.foldl_cons, ih, List.reverse_cons, List.append_assoc]
      rfl

theorem openBrackets_concat (ts : List Token) (t : Token) :
    openBrackets (ts ++ [t]) = openStep ts.reverse (openBrackets ts) t := by
  have htokens := tokens_openSteps ts ([], [])
  rw [List.append_nil] at htokens
  rw [openBrackets, List.foldl_append, ← htokens]
  rfl

/-- In every bracket but the innermost stands something behind its last comma: the bracket inside of it. -/
def OuterFilled (stack : List OpenBracket) : Prop :=
  ∀ b ∈ stack.tail, b.content = true

theorem outerFilled_nil : OuterFilled [] :=
  nofun

theorem outerFilled_markContent {stack : List OpenBracket} (h : OuterFilled stack) :
    ∀ b ∈ markContent stack, b.content = true := by
  cases stack with
  | nil => nofun
  | cons b bs => exact List.forall_mem_cons.mpr ⟨rfl, h⟩

theorem outerFilled_openStep {stack : List OpenBracket} (h : OuterFilled stack) (before : List Token) (t : Token) :
    OuterFilled (openStep before stack t) := by
  unfold openStep
  split
  · exact outerFilled_markContent h
  split
  · exact fun b hb => h b (List.mem_of_mem_tail hb)
  split
  · cases stack with
    | nil => nofun
    | cons b bs => exact h
  · cases stack with
    | nil => nofun
    | cons b bs => exact h

theorem outerFilled_openBrackets (ts : List Token) : OuterFilled (openBrackets ts) := by
  induction ts using List.reverseRecOn with
  | nil => exact outerFilled_nil
  | append_singleton ts t ih =>
      rw [openBrackets_concat]
      exact outerFilled_openStep ih ts.reverse t

/-- Nothing is supplied exactly behind the opening parenthesis. -/
theorem supplied_openStep {stack : List OpenBracket} (h : OuterFilled stack) {before : List Token} {t : Token}
    {b : OpenBracket} (hb : (openStep before stack t).head? = some b) (hcall : b.isCall = true) :
    b.supplied = 0 ↔ t.kind = .punct .openParen := by
  unfold openStep at hb
  split at hb
  · obtain rfl := Option.some.inj hb
    simp only [Bool.and_eq_true, decide_eq_true_eq] at hcall
    exact iff_of_true rfl hcall.1
  rename_i hopening
  have hkind : t.kind ≠ .punct .openParen := fun hkind => hopening (by simp [isOpening, hkind])
  have hcontent (hb : b.content = true) : b.supplied = 0 ↔ t.kind = .punct .openParen :=
    iff_of_false (by simp [OpenBracket.supplied, hb]) hkind
  split at hb
  · exact hcontent (h b (List.mem_of_mem_head? hb))
  split at hb
  · cases stack with
    | nil => cases hb
    | cons c cs =>
        obtain rfl := Option.some.inj hb
        exact iff_of_false (by simp [OpenBracket.supplied]) hkind
  · exact hcontent (outerFilled_markContent h b (List.mem_of_mem_head? hb))

theorem supplied_openCall? {ts : List Token} {t : Token} {b : OpenBracket} (h : openCall? (ts ++ [t]) = some b) :
    b.supplied = 0 ↔ t.kind = .punct .openParen := by
  rw [openCall?_eq, openBrackets_concat] at h
  obtain ⟨hhead, hcall⟩ := Option.filter_eq_some_iff.mp h
  exact supplied_openStep (outerFilled_openBrackets ts) hhead hcall

/-! ### Hints -/

variable {f : Builtin} {supplied : Nat} {source : String}

theorem endsWithComma_iff {cs front blanks : List Char} {d : Char} (hcs : cs = front ++ d :: blanks)
    (hblanks : ∀ b ∈ blanks, isBlank b = true) (hd : isBlank d = false) : endsWithComma cs = true ↔ d = ',' := by
  have hreverse : cs.reverse = blanks.reverse ++ d :: front.reverse := by
    rw [hcs]
    simp
  have hdrop : cs.reverse.dropWhile isBlank = d :: front.reverse := by
    rw [hreverse, List.dropWhile_append_of_pos (by simpa using hblanks), List.dropWhile_cons_of_neg (by simp [hd])]
  rw [endsWithComma, hdrop, decide_eq_true_eq, List.head?_cons, Option.some.injEq]

theorem eq_of_getLast? {cs front blanks : List Char} {c d : Char} (hcs : cs = front ++ d :: blanks)
    (hblanks : ∀ b ∈ blanks, isBlank b = true) (hlast : cs.getLast? = some c) (hc : isBlank c = false) : d = c := by
  rcases blanks.eq_nil_or_concat with rfl | ⟨others, blank, rfl⟩
  · simpa [hcs] using hlast
  · have hend : cs = (front ++ d :: others) ++ [blank] := by simp [hcs]
    rw [hend, List.getLast?_concat, Option.some.injEq] at hlast
    rw [← hlast, hblanks blank (by simp)] at hc
    cases hc

/-- A hint is the parenthesis, or a parameter for any number of values behind a comma, or the missing parameters. -/
inductive IsHint (f : Builtin) (supplied : Nat) (source : String) : String → Prop where
  | full (hsupplied : f.signature.length ≤ supplied) (hrest : ¬f.TakesRest) : IsHint f supplied source ")"
  | further {name : String} (hsupplied : f.signature.length ≤ supplied)
      (hrest : f.signature.getLast? = some (.rest name)) : IsHint f supplied source (", " ++ (Param.rest name).text)
  | first (hmissing : f.signature ≠ []) (hnone : supplied = 0) :
    IsHint f supplied source (joinParams (f.signature.drop supplied))
  | afterComma {blank : String} (hmissing : supplied < f.signature.length) (hsome : supplied ≠ 0)
      (hcomma : endsWithComma source.toList = true) (hblank : blank = "" ∨ blank = " ") :
    IsHint f supplied source (blank ++ joinParams (f.signature.drop supplied))
  | afterArgument (hmissing : supplied < f.signature.length) (hsome : supplied ≠ 0)
      (hcomma : endsWithComma source.toList = false) :
    IsHint f supplied source (", " ++ joinParams (f.signature.drop supplied))

theorem isHint_callHint (f : Builtin) (supplied : Nat) (source : String) :
    IsHint f supplied source (callHint f supplied source) := by
  unfold callHint
  dsimp only
  split
  · rename_i hsupplied
    split
    · rename_i name hrest
      exact .further hsupplied hrest
    · rename_i hrest
      exact .full hsupplied fun ⟨name, hname⟩ => hrest name hname
  · rename_i hmissing
    have hmissing := Nat.lt_of_not_le hmissing
    split
    · rename_i hnone
      exact .first (List.ne_nil_of_length_pos (by omega)) hnone
    rename_i hsome
    split
    · rename_i hcomma
      split
      · exact .afterComma hmissing hsome hcomma (.inr rfl)
      · have hhint := IsHint.afterComma hmissing hsome hcomma (.inl rfl)
        rwa [String.empty_append] at hhint
    · rename_i hcomma
      exact .afterArgument hmissing hsome (Bool.not_eq_true _ ▸ hcomma)

theorem plain_missing (f : Builtin) (n : Nat) : ∀ p ∈ f.signature.drop n, p.Plain :=
  fun p hp => f.plain_signature p (List.mem_of_mem_drop hp)

theorem commasApart_hint {h : String} (hh : IsHint f supplied source h) : CommasApart h.toList := by
  have hmissing := commasApart_joinParams (plain_missing f supplied)
  cases hh with
  | full => decide
  | further _ hrest =>
      have hplain := f.plain_signature _ (List.mem_of_getLast? hrest)
      rw [String.toList_append, commasApart_append]
      exact ⟨by decide, commasApart_of_not_mem hplain.2.1, by simp⟩
  | first => exact hmissing
  | afterComma _ _ _ hblank =>
      rw [String.toList_append, commasApart_append]
      rcases hblank with rfl | rfl
      · exact ⟨by decide, hmissing, by simp⟩
      · exact ⟨by decide, hmissing, by simp⟩
  | afterArgument =>
      rw [String.toList_append, commasApart_append]
      exact ⟨by decide, hmissing, by simp⟩

theorem ne_paren_of_head? {h : String} {c : Char} (hhead : h.toList.head? = some c) (hc : c ≠ ')') : h ≠ ")" := by
  rintro rfl
  exact hc (Option.some.inj hhead).symm

theorem head?_comma (s : String) : (", " ++ s).toList.head? = some ',' := by
  rw [String.toList_append]
  rfl

/-- A call that takes any number of values is never full. -/
theorem ne_paren_of_takesRest {h : String} (hh : IsHint f supplied source h) (hrest : f.TakesRest) : h ≠ ")" := by
  have hlength := hrest.length
  cases hh with
  | full _ hnot => exact absurd hrest hnot
  | further => exact ne_paren_of_head? (head?_comma _) (by decide)
  | first hmissing hnone =>
      obtain rfl := hnone
      obtain ⟨c, hhead, -, hc⟩ := head?_joinParams hmissing f.plain_signature
      exact ne_paren_of_head? hhead hc
  | afterComma hmissing hsome => omega
  | afterArgument hmissing hsome => omega

/-- What a hint begins with, by the kind of the last token of the source. -/
theorem head?_hint {h : String} {kind : TokenKind} (hh : IsHint f supplied source h)
    (hopen : supplied = 0 ↔ kind = .punct .openParen)
    (hcomma : endsWithComma source.toList = true ↔ kind = .punct .comma) :
    h.toList.head? = some ',' ↔
      h ≠ ")" ∧ kind ≠ .punct .openParen ∧ (kind = .punct .comma → f.TakesRest) := by
  cases hh with
  | full => exact iff_of_false (by decide) fun hright => hright.1 rfl
  | @further name hsupplied hrest =>
      have hlength := Builtin.TakesRest.length ⟨name, hrest⟩
      have hsome : supplied ≠ 0 := by omega
      exact iff_of_true (head?_comma _)
        ⟨ne_paren_of_head? (head?_comma _) (by decide), fun hkind => hsome (hopen.mpr hkind), fun _ => ⟨name, hrest⟩⟩
  | first hmissing hnone =>
      obtain ⟨c, hhead, hc, -⟩ := head?_joinParams hmissing f.plain_signature
      refine iff_of_false ?_ fun hright => hright.2.1 (hopen.mp hnone)
      rw [hnone, List.drop_zero, hhead]
      exact fun heq => hc (Option.some.inj heq)
  | @afterComma blank hmissing hsome hends hblank =>
      have hne : f.signature.drop supplied ≠ [] := List.ne_nil_of_length_pos (by rw [List.length_drop]; omega)
      obtain ⟨c, hhead, hc, -⟩ := head?_joinParams hne (plain_missing f supplied)
      refine iff_of_false ?_ fun hright => ?_
      · rcases hblank with rfl | rfl
        · rw [String.empty_append, hhead]
          exact fun heq => hc (Option.some.inj heq)
        · rw [String.toList_append]
          exact fun heq => absurd (Option.some.inj heq) (by decide)
      · have hlength := (hright.2.2 (hcomma.mp hends)).length
        omega
  | afterArgument hmissing hsome hends =>
      refine iff_of_true (head?_comma _)
        ⟨ne_paren_of_head? (head?_comma _) (by decide), fun hkind => hsome (hopen.mpr hkind), fun hkind => ?_⟩
      rw [hcomma.mpr hkind] at hends
      cases hends

/-! ### Completions -/

variable {down : List Outage} {host after : Host} {group : Group} {h : String}

theorem candidates?_ne_hint (suffixes : List String) : candidates? suffixes ≠ some (.hint h) := by
  unfold candidates?
  split <;> nofun

theorem not_gives_completeName {word : String} :
    ¬(completeName word).Gives down host (some (.hint h)) after := by
  intro hgives
  obtain ⟨names, mid, -, hreply⟩ := gives_bind hgives
  exact candidates?_ne_hint _ (gives_pure hreply).1.symm

theorem not_gives_completeMember {target : List Token} {word : String} :
    ¬(completeMember source target word group).Gives down host (some (.hint h)) after := by
  intro hgives
  obtain ⟨remote?, mid, -, hrest⟩ := gives_bind hgives
  cases remote? with
  | none => cases (gives_pure hrest).1
  | some remote =>
      obtain ⟨reply, mid', -, hreply⟩ := gives_bind hrest
      cases reply with
      | error e => cases hreply
      | ok properties => exact candidates?_ne_hint _ (gives_pure hreply).1.symm

/-- A word has candidates, never a hint. -/
theorem not_gives_completeWord {ts : List Token} :
    ¬(completeWord source ts group).Gives down host (some (.hint h)) after := by
  intro hgives
  unfold completeWord at hgives
  split at hgives
  · cases (gives_pure hgives).1
  split at hgives
  · exact not_gives_completeMember hgives
  · split at hgives
    · exact not_gives_completeMember hgives
    split at hgives
    · cases (gives_pure hgives).1
    · exact not_gives_completeName hgives
  · split at hgives
    · cases (gives_pure hgives).1
    · exact not_gives_completeName hgives
  · cases (gives_pure hgives).1

/-- The chain before the bracket stands for the function, on a host on which at most the last word of the source has
been tried before. -/
def Calls (down : List Outage) (host : Host) (source : String) (group : Group) (b : OpenBracket) (f : Builtin) : Prop :=
  ∃ now later remote,
    (now = host ∨ (completeWord source (code (lex source).tokens) group).Gives down host none now) ∧
      (chainValue source b.before group).Gives down now (some remote) later ∧ later.builtin? remote.id = some f

theorem gives_completeCall {ts : List Token}
    (hgives : (completeCall source ts group).Gives down host (some (.hint h)) after) :
    ∃ b f remote mid, openCall? ts = some b ∧ (chainValue source b.before group).Gives down host (some remote) mid ∧
      mid.builtin? remote.id = some f ∧ h = callHint f b.supplied source := by
  unfold completeCall at hgives
  split at hgives
  · cases (gives_pure hgives).1
  · rename_i b hopen
    obtain ⟨remote?, mid, hvalue, hrest⟩ := gives_bind hgives
    cases remote? with
    | none => cases (gives_pure hrest).1
    | some remote =>
        obtain ⟨f?, mid', hask, hreply⟩ := gives_bind hrest
        have hanswer := congrArg Prod.fst (gives_ask hask)
        cases f? with
        | none => cases (gives_pure hreply).1
        | some f =>
            have hhint := (gives_pure hreply).1
            exact ⟨b, f, remote, mid, hopen, hvalue, hanswer, Completion.hint.inj (Option.some.inj hhint)⟩

theorem gives_completeTokens {ts : List Token}
    (hgives : (completeTokens source ts group).Gives down host (some (.hint h)) after) :
    ∃ now, (now = host ∨ (completeWord source ts group).Gives down host none now) ∧
      (completeCall source ts.reverse group).Gives down now (some (.hint h)) after := by
  unfold completeTokens at hgives
  dsimp only at hgives
  split at hgives
  · obtain ⟨word?, now, hword, hrest⟩ := gives_bind hgives
    obtain ⟨rfl, rfl⟩ := gives_pure hword
    exact ⟨_, .inl rfl, hrest⟩
  · obtain ⟨word?, now, hword, hrest⟩ := gives_bind hgives
    cases word? with
    | none => exact ⟨now, .inr hword, hrest⟩
    | some c =>
        obtain rfl := Option.some.inj (gives_pure hrest).1
        exact absurd hword not_gives_completeWord

/-- Where a hint comes from: the source can be read and ends with a token that is no comment, and inside of a call. -/
theorem gives_completeSource (hgives : (completeSource source group).Gives down host (some (.hint h)) after) :
    ∃ before last mark b f, (lex source).tokens = before ++ [last] ∧ (lex source).result = .ok mark ∧
      last.kind.isComment = false ∧ openCall? (code (lex source).tokens).reverse = some b ∧
      Calls down host source group b f ∧ h = callHint f b.supplied source := by
  unfold completeSource at hgives
  dsimp only at hgives
  split at hgives
  · cases (gives_pure hgives).1
  rename_i mark hok
  split at hgives
  · cases (gives_pure hgives).1
  rename_i last before htokens
  split at hgives
  · cases (gives_pure hgives).1
  rename_i hcomment
  have hsplit : (lex source).tokens = before.reverse ++ [last] := by
    rw [← List.reverse_reverse (lex source).tokens, htokens, List.reverse_cons]
  have hcode : last :: before.filter (fun t => !t.kind.isComment) = code (lex source).tokens := by
    rw [code, htokens, List.filter_cons_of_pos (by simpa using hcomment)]
  rw [hcode] at hgives
  obtain ⟨now, hnow, hcall⟩ := gives_completeTokens hgives
  obtain ⟨b, f, remote, later, hopen, hvalue, hf, hhint⟩ := gives_completeCall hcall
  exact ⟨before.reverse, last, mark, b, f, hsplit, hok, Bool.not_eq_true _ ▸ hcomment, hopen,
    ⟨now, later, remote, hnow, hvalue, hf⟩, hhint⟩

/-- A hint begins with a comma exactly if it is more than the parenthesis and an argument comes last: behind the opening
parenthesis none does, and behind a comma only in a call that takes any number of values, whose hint does not look at
what comes last. So two commas in a row that are not in the source already come from there. -/
theorem hint_begins (hhint : ((complete source group).run down host).1 = .ok (some (.hint h))) :
    ∃ before last b f, (lex source).tokens = before ++ [last] ∧ last.kind.isComment = false ∧
      openCall? (code (lex source).tokens).reverse = some b ∧ Calls down host source group b f ∧
      h = callHint f b.supplied source ∧
      (h.toList.head? = some ',' ↔
        h ≠ ")" ∧ last.kind ≠ .punct .openParen ∧ (last.kind = .punct .comma → f.TakesRest)) ∧
      (CommasApart (source ++ h).toList ↔
        CommasApart source.toList ∧ ¬(source.toList.getLast? = some ',' ∧ f.TakesRest)) := by
  obtain ⟨before, last, mark, b, f, htokens, hok, hcomment, hopen, hcalls, rfl⟩ :=
    gives_completeSource (gives_of_complete hhint)
  have hhint := isHint_callHint f b.supplied source
  obtain ⟨front, d, blanks, hsource, hblanks, hd, hlast⟩ := Syntax.exists_last_character htokens hok hcomment
  have hcomma : endsWithComma source.toList = true ↔ last.kind = .punct .comma :=
    (endsWithComma_iff hsource hblanks hd).trans hlast
  have hcode : (code (lex source).tokens).reverse = (code before).reverse ++ [last] := by
    rw [htokens]
    simp [code, hcomment]
  have hsupplied := supplied_openCall? (hcode ▸ hopen)
  have hbegins := head?_hint hhint hsupplied hcomma
  have hends (hcommaLast : source.toList.getLast? = some ',') : last.kind = .punct .comma :=
    hlast.mp (eq_of_getLast? hsource hblanks hcommaLast (by decide))
  refine ⟨before, last, b, f, htokens, hcomment, hopen, hcalls, rfl, hbegins, ?_⟩
  rw [String.toList_append, commasApart_append, hbegins]
  constructor
  · rintro ⟨hapart, -, hnot⟩
    refine ⟨hapart, ?_⟩
    rintro ⟨hcommaLast, hrest⟩
    have hparen := ne_paren_of_takesRest hhint hrest
    have hbehind : last.kind ≠ .punct .openParen := by simp [hends hcommaLast]
    exact hnot ⟨hcommaLast, hparen, hbehind, fun _ => hrest⟩
  · rintro ⟨hapart, hnot⟩
    refine ⟨hapart, commasApart_hint hhint, ?_⟩
    rintro ⟨hcommaLast, -, -, hrest⟩
    exact hnot ⟨hcommaLast, hrest (hends hcommaLast)⟩

/-- The hint for the one argument of a call that takes two, and it fits. -/
theorem hint_begins_pow :
    ((complete "Math.pow(2" (.completion 0)).run [] (Host.fresh 1)).1 = .ok (some (.hint ", exponent")) ∧
      CommasApart "Math.pow(2, exponent".toList := by
  have hhint : ((complete "Math.pow(2" (.completion 0)).run [] (Host.fresh 1)).1 =
      .ok (some (.hint ", exponent")) :=
    eq_ok_of_toOption (by decide +kernel)
  obtain ⟨before, last, b, f, -, -, -, -, -, -, hcommas⟩ := hint_begins hhint
  exact ⟨hhint, hcommas.mpr ⟨by decide, by simp⟩⟩

/-- Behind a comma the hint for any number of values begins with another one. -/
theorem hint_repeats_comma :
    ((complete "Math.max(1," (.completion 0)).run [] (Host.fresh 1)).1 = .ok (some (.hint ", ...values")) ∧
      (lex "Math.max(1,").tokens.getLast?.map Token.kind = some (.punct .comma) ∧
      CommasApart "Math.max(1,".toList ∧ ¬CommasApart ("Math.max(1," ++ ", ...values").toList :=
  ⟨eq_ok_of_toOption (by decide +kernel), by decide +kernel, by decide, by decide⟩

end Assist

end ScriptRepl
