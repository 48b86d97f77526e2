import ScriptRepl.Proofs.Syntax.Characters
import ScriptRepl.Proofs.Syntax.LastWord

/-! Where a hole of a template ends: at the first brace that closes none of the hole's own. Braces in quotes do not
count, and a backquote is a quote like the others: it ends at the next backquote, whatever is between them. -/
namespace ScriptRepl.Syntax.Lexer

open Text (Cursor isBlank isNameStart isNameChar)

/-- The characters that the search for the end of a hole stops at. -/
def marked : List Char :=
  '\x7b' :: '\x7d' :: quotes

/-- What can stand between two quotes: a backslash takes the character behind it along. -/
inductive Quoted (q : Char) : List Char → Prop
  | nil : Quoted q []
  | plain {c : Char} {cs : List Char} (hquote : c ≠ q) (hescape : c ≠ '\\') (hrest : Quoted q cs) : Quoted q (c :: cs)
  | escaped {c : Char} {cs : List Char} (hrest : Quoted q cs) : Quoted q ('\\' :: c :: cs)

/-- From one depth of braces to another. -/
inductive Nests : (depth : Nat) → List Char → (depth' : Nat) → Prop
  | nil {depth : Nat} : Nests depth [] depth
  | plain {depth depth' : Nat} {c : Char} {cs : List Char} (hplain : c ∉ marked) (hrest : Nests depth cs depth') :
    Nests depth (c :: cs) depth'
  | opens {depth depth' : Nat} {cs : List Char} (hrest : Nests (depth + 1) cs depth') :
    Nests depth ('\x7b' :: cs) depth'
  | closes {depth depth' : Nat} {cs : List Char} (hrest : Nests depth cs depth') :
    Nests (depth + 1) ('\x7d' :: cs) depth'
  | quoted {depth depth' : Nat} {q : Char} {text cs : List Char} (hq : q ∈ quotes) (htext : Quoted q text)
      (hrest : Nests depth cs depth') : Nests depth (q :: (text ++ q :: cs)) depth'

/-- Every brace has its partner, and every quote. -/
def Balanced (cs : List Char) : Prop :=
  Nests 0 cs 0

variable {depth depth' depth'' n : Nat} {cs ds : List Char} {q : Char}

theorem Nests.append (h : Nests depth cs depth') (h' : Nests depth' ds depth'') : Nests depth (cs ++ ds) depth'' := by
  induction h with
  | nil => exact h'
  | plain hplain _ ih => exact .plain hplain (ih h')
  | opens _ ih => exact .opens (ih h')
  | closes _ ih => exact .closes (ih h')
  | quoted hq htext _ ih =>
      rw [List.cons_append, List.append_assoc]
      exact .quoted hq htext (ih h')

theorem nests_plain (h : ∀ c ∈ cs, c ∉ marked) (depth : Nat) : Nests depth cs depth := by
  induction cs with
  | nil => exact .nil
  | cons c cs ih =>
      obtain ⟨hc, hcs⟩ := List.forall_mem_cons.mp h
      exact .plain hc (ih hcs)

/-- Quotes with nothing that counts between them. -/
theorem nests_quoted (hq : q ∈ quotes) (h : Quoted q cs) (depth : Nat) : Nests depth (q :: (cs ++ [q])) depth :=
  .quoted hq h .nil

/-! ### The search -/

theorem holeLength?_of_plain {c : Char} (h : c ∉ marked) (n depth : Nat) (cs : List Char) :
    holeLength? n depth .code (c :: cs) = holeLength? (n + 1) depth .code cs := by
  simp only [marked, quotes, List.mem_cons, List.not_mem_nil, or_false, not_or] at h
  obtain ⟨hopen, hclose, hsingle, hdouble, hback⟩ := h
  simp only [holeLength?, if_neg hopen, if_neg hclose, hsingle, hdouble, hback, or_self, if_false]

theorem holeLength?_of_quote {c : Char} (h : c ∈ quotes) (n depth : Nat) (cs : List Char) :
    holeLength? n depth .code (c :: cs) = holeLength? (n + 1) depth (.quote c) cs := by
  simp only [quotes, List.mem_cons, List.not_mem_nil, or_false] at h
  rcases h with rfl | rfl | rfl <;> rfl

theorem holeLength?_of_quoted (hq : q ∈ quotes) (h : Quoted q cs) (n depth : Nat) (rest : List Char) :
    holeLength? n depth (.quote q) (cs ++ q :: rest) = holeLength? (n + cs.length + 1) depth .code rest := by
  induction h generalizing n with
  | nil =>
      have hplain : q ≠ '\\' := by
        rintro rfl
        exact absurd hq (by decide)
      rw [List.nil_append, holeLength?, if_neg hplain, if_pos rfl]
      rfl
  | plain hquote hescape _ ih =>
      rw [List.cons_append, holeLength?, if_neg hescape, if_neg hquote, ih, List.length_cons]
      congr 1
      omega
  | escaped _ ih =>
      rw [List.cons_append, List.cons_append, holeLength?, if_pos rfl, holeLength?, ih, List.length_cons,
        List.length_cons]
      congr 1
      omega

theorem Nests.holeLength? (h : Nests depth cs depth') (n : Nat) (rest : List Char) :
    holeLength? n depth .code (cs ++ rest) = Lexer.holeLength? (n + cs.length) depth' .code rest := by
  have hcons : ∀ n k : Nat, n + (k + 1) = n + 1 + k := fun n k => by omega
  induction h generalizing n with
  | nil => rfl
  | plain hplain _ ih =>
      rw [List.length_cons, hcons n, ← ih]
      exact holeLength?_of_plain hplain n _ _
  | opens _ ih =>
      rw [List.length_cons, hcons n, ← ih]
      simp [Lexer.holeLength?]
  | closes _ ih =>
      rw [List.length_cons, hcons n, ← ih]
      simp [Lexer.holeLength?]
  | quoted hq htext _ ih =>
      rw [List.cons_append, List.append_assoc, holeLength?_of_quote hq, List.cons_append,
        holeLength?_of_quoted hq htext, ih]
      congr 1
      simp only [List.length_cons, List.length_append]
      omega

/-- The text of so many characters up to the brace that closes the hole, where the search begins in code or in
quotes. -/
def Inside.Finds (depth length : Nat) (cs : List Char) : Inside → Prop
  | .code => ∃ inner rest, cs = inner ++ '\x7d' :: rest ∧ Nests depth inner 0 ∧ length = inner.length
  | .quote q => ∃ text inner rest, cs = text ++ q :: (inner ++ '\x7d' :: rest) ∧ Quoted q text ∧ Nests depth inner 0 ∧
      length = text.length + (inner.length + 1)
  | .escaped q => ∃ c text inner rest, cs = c :: (text ++ q :: (inner ++ '\x7d' :: rest)) ∧ Quoted q text ∧
      Nests depth inner 0 ∧ length = text.length + 1 + (inner.length + 1)

theorem exists_finds {inside : Inside} {m : Nat} (h : Lexer.holeLength? n depth inside cs = some m) :
    ∃ length, m = n + length ∧ inside.Finds depth length cs := by
  fun_induction Lexer.holeLength? n depth inside cs with
  | case1 => cases h
  | case2 n depth cs ih =>
      obtain ⟨length, rfl, inner, rest, rfl, hinner, rfl⟩ := ih h
      exact ⟨_, by rw [List.length_cons]; omega, '\x7b' :: inner, rest, rfl, .opens hinner, rfl⟩
  | case3 n cs hopen =>
      cases h
      exact ⟨0, rfl, [], cs, rfl, .nil, rfl⟩
  | case4 n cs depth hopen ih =>
      obtain ⟨length, rfl, inner, rest, rfl, hinner, rfl⟩ := ih h
      exact ⟨_, by rw [List.length_cons]; omega, '\x7d' :: inner, rest, rfl, .closes hinner, rfl⟩
  | case5 n depth c cs hopen hclose hquote ih =>
      obtain ⟨length, rfl, text, inner, rest, rfl, htext, hinner, rfl⟩ := ih h
      refine ⟨_, ?_, c :: (text ++ c :: inner), rest, by simp, .quoted ?_ htext hinner, rfl⟩
      · simp only [List.length_cons, List.length_append]
        omega
      · simpa [quotes] using hquote
  | case6 n depth c cs hopen hclose hquote ih =>
      obtain ⟨length, rfl, inner, rest, rfl, hinner, rfl⟩ := ih h
      refine ⟨_, by rw [List.length_cons]; omega, c :: inner, rest, rfl, .plain ?_ hinner, rfl⟩
      simpa [marked, quotes, not_or, hopen, hclose] using hquote
  | case7 n depth q c cs ih =>
      have hnext := ih h
      by_cases hescape : c = '\\'
      · rw [if_pos hescape] at hnext
        obtain ⟨length, rfl, d, text, inner, rest, rfl, htext, hinner, rfl⟩ := hnext
        refine ⟨_, ?_, c :: d :: text, inner, rest, rfl, ?_, hinner, rfl⟩
        · simp only [List.length_cons]
          omega
        · rw [hescape]
          exact .escaped htext
      by_cases hclose : c = q
      · rw [if_neg hescape, if_pos hclose] at hnext
        obtain ⟨length, rfl, inner, rest, rfl, hinner, rfl⟩ := hnext
        refine ⟨_, ?_, [], inner, rest, ?_, .nil, hinner, rfl⟩
        · rw [List.length_nil]
          omega
        · rw [hclose]
          rfl
      · rw [if_neg hescape, if_neg hclose] at hnext
        obtain ⟨length, rfl, text, inner, rest, rfl, htext, hinner, rfl⟩ := hnext
        refine ⟨_, ?_, c :: text, inner, rest, rfl, .plain hclose hescape htext, hinner, rfl⟩
        rw [List.length_cons]
        omega
  | case8 n depth q c cs ih =>
      obtain ⟨length, rfl, text, inner, rest, rfl, htext, hinner, rfl⟩ := ih h
      exact ⟨_, by omega, c, text, inner, rest, rfl, htext, hinner, rfl⟩

/-- A hole is the balanced text up to the first brace that closes none of its own. -/
theorem holeLength?_eq_some_iff {m : Nat} :
    Lexer.holeLength? 0 0 .code cs = some m ↔
      ∃ inner rest, cs = inner ++ '\x7d' :: rest ∧ Balanced inner ∧ m = inner.length := by
  constructor
  · intro h
    obtain ⟨length, rfl, inner, rest, hcs, hinner, rfl⟩ := exists_finds h
    exact ⟨inner, rest, hcs, hinner, Nat.zero_add _⟩
  · rintro ⟨inner, rest, rfl, hinner, rfl⟩
    rw [hinner.holeLength?, Nat.zero_add]
    rfl

/-! ### What tokens do to the depth -/

theorem Quoted.append (h : Quoted q cs) (hds : ∀ d ∈ ds, d ≠ q ∧ d ≠ '\\') : Quoted q (ds ++ cs) := by
  induction ds with
  | nil => exact h
  | cons d ds ih =>
      obtain ⟨hd, hds⟩ := List.forall_mem_cons.mp hds
      exact .plain hd.1 hd.2 (ih hds)

/-- What an escape takes besides its first character is neither a quote nor a backslash. -/
theorem exists_escaped {place : Cursor} (h : place.rest ≠ []) :
    ∃ c more, place.rest = c :: (more ++ (escape place).2.rest) ∧ ∀ d ∈ more, d ∉ quotes ∧ d ≠ '\\' := by
  obtain ⟨n, _ | ⟨c, cs⟩⟩ := place
  · exact absurd rfl h
  have hnone : ∃ d more, c :: cs = d :: (more ++ cs) ∧ ∀ d ∈ more, d ∉ quotes ∧ d ≠ '\\' := ⟨c, [], rfl, nofun⟩
  unfold escape
  dsimp only [Cursor.next?]
  split
  case h_8 =>
    split
    · rename_i d hd
      rw [Cursor.rest_skip]
      refine ⟨_, cs.take 4, by rw [List.take_append_drop], fun e he => ⟨fun hquote => ?_, ?_⟩⟩
      · rw [hexChar?_of_quote hquote he] at hd
        cases hd
      · rintro rfl
        rw [hexChar?_of_other (by decide) (by decide) he] at hd
        cases hd
    · exact hnone
  case h_9 =>
    split
    · rename_i hfeed
      cases cs with
      | nil => cases hfeed
      | cons d cs =>
          cases hfeed
          refine ⟨_, ['\n'], rfl, fun e he => ?_⟩
          rw [List.mem_singleton.mp he]
          decide
    · exact hnone
  case h_10 =>
    split
    · exact hnone
    · exact hnone
  all_goals exact hnone

/-- An escape in front of a text in quotes. -/
theorem exists_quoted_escape {place after : Cursor} {rest : List Char} (hq : q ∈ quotes)
    (hplace : place.rest = '\\' :: after.rest) (hcs : (escape after).2.rest = cs ++ q :: rest) (h : Quoted q cs) :
    ∃ cs, place.rest = cs ++ q :: rest ∧ Quoted q cs := by
  have hafter : after.rest ≠ [] := by
    intro hnil
    have hescape : (escape after).2 = after := by rw [escape, Cursor.next?_eq_none_iff.mpr hnil]
    rw [hescape, hnil] at hcs
    exact absurd hcs (by simp)
  obtain ⟨c, more, hescaped, hmore⟩ := exists_escaped hafter
  refine ⟨'\\' :: c :: (more ++ cs), ?_, .escaped (h.append fun d hd => ⟨?_, (hmore d hd).2⟩)⟩
  · rw [hplace, hescaped, hcs]
    simp
  · rintro rfl
    exact (hmore d hd).1 hq

theorem quoted_of_ok {place stop : Cursor} {text : List Char} (hq : q ∈ quotes)
    (h : quoted q place = .ok (text, stop)) : ∃ cs, place.rest = cs ++ q :: stop.rest ∧ Quoted q cs := by
  fun_induction quoted q place generalizing text stop with
  | case1 => cases h
  | case2 => cases h
  | case3 place after hn hline =>
      cases h
      exact ⟨[], (Cursor.passes_of_next? hn).rest, .nil⟩
  | case4 place after text' stop' hrest hn hline hquote ih =>
      cases h
      obtain ⟨cs, hcs, hquoted⟩ := ih hrest
      exact exists_quoted_escape hq (Cursor.passes_of_next? hn).rest hcs hquoted
  | case5 => cases h
  | case6 place c after hn hline hquote hescape text' stop' hrest ih =>
      cases h
      obtain ⟨cs, hcs, hquoted⟩ := ih hrest
      refine ⟨c :: cs, ?_, .plain hquote hescape hquoted⟩
      rw [(Cursor.passes_of_next? hn).rest, hcs]
      rfl
  | case7 => cases h

/-- A text without the quote and a brace behind it, whether or not a backslash takes the brace along. -/
theorem Quoted.hole (hq : q ≠ '\x7d') (h : Quoted q cs) (hds : q ∉ ds) : Quoted q (ds ++ '\x7d' :: cs) := by
  -- on the length, since a backslash takes a second character along
  induction hlength : ds.length using Nat.strongRecOn generalizing ds with
  | ind length ih =>
      match ds with
      | [] => exact .plain hq.symm (by decide) h
      | d :: ds =>
          rw [List.mem_cons, not_or] at hds
          by_cases hescape : d = '\\'
          · rw [hescape]
            match ds with
            | [] => exact .escaped h
            | e :: ds =>
                rw [List.mem_cons, not_or] at hds
                refine .escaped (ih ds.length ?_ hds.2.2 rfl)
                rw [← hlength, List.length_cons, List.length_cons]
                omega
          · refine .plain (Ne.symm hds.1) hescape (ih ds.length ?_ hds.2 rfl)
            rw [← hlength, List.length_cons]
            omega

/-- A template is a text in quotes if its holes have no backquotes. -/
theorem quoted_of_pieces? {place stop : Cursor} {p : Pieces} (h : pieces? place = some (p, stop))
    (hholes : ∀ part ∈ p.parts, '\x60' ∉ part.1.source.toList) :
    ∃ cs, place.rest = cs ++ '\x60' :: stop.rest ∧ Quoted '\x60' cs := by
  fun_induction pieces? place generalizing p stop with
  | case1 => cases h
  | case2 place after hn =>
      cases h
      exact ⟨[], (Cursor.passes_of_next? hn).rest, .nil⟩
  | case3 place after hn hquote ih =>
      obtain ⟨⟨p', stop'⟩, hp, heq⟩ := Option.map_eq_some_iff.mp h
      cases heq
      obtain ⟨cs, hcs, hquoted⟩ := ih hp hholes
      exact exists_quoted_escape (by decide) (Cursor.passes_of_next? hn).rest hcs hquoted
  | case4 => cases h
  | case5 place c after hn =>
      rename_i hquote hescape hhole inner n hlength hole ih
      obtain ⟨⟨p', stop'⟩, hp, heq⟩ := Option.map_eq_some_iff.mp h
      cases heq
      -- without a backquote the hole is plain text between the backquotes
      obtain ⟨source, rest, hinner, -, rfl⟩ := holeLength?_eq_some_iff.mp hlength
      obtain ⟨hfirst, hmore⟩ := List.forall_mem_cons.mp hholes
      obtain ⟨cs, hcs, hquoted⟩ := ih hp hmore
      have hafter : after.rest = '\x7b' :: inner.rest := by
        obtain ⟨offset, _ | ⟨d, ds⟩⟩ := after
        · cases hhole.2
        · cases hhole.2
          rfl
      have hsource : '\x60' ∉ source := by
        rw [String.toList_ofList, hinner, List.take_left] at hfirst
        exact hfirst
      have hrest : rest = cs ++ '\x60' :: stop.rest := by
        rw [← hcs, Cursor.rest_skip, hinner, ← List.drop_drop, List.drop_left]
        rfl
      refine ⟨'$' :: '\x7b' :: (source ++ '\x7d' :: cs), ?_, ?_⟩
      · rw [(Cursor.passes_of_next? hn).rest, hhole.1, hafter, hinner, hrest]
        simp
      · exact .plain (by decide) (by decide) (.plain (by decide) (by decide) (hquoted.hole (by decide) hsource))
  | case6 place c after hn hquote hescape hhole ih =>
      obtain ⟨⟨p', stop'⟩, hp, heq⟩ := Option.map_eq_some_iff.mp h
      cases heq
      obtain ⟨cs, hcs, hquoted⟩ := ih hp hholes
      refine ⟨c :: cs, ?_, .plain hquote hescape hquoted⟩
      rw [(Cursor.passes_of_next? hn).rest, hcs]
      rfl

/-! ### Tokens -/

theorem not_marked_of {p : Char → Bool} (hp : marked.all (fun c => !p c) = true) {c : Char} (h : p c = true) :
    c ∉ marked := by
  intro hc
  have hother := List.all_eq_true.mp hp c hc
  rw [h] at hother
  cases hother

/-- From one depth of braces to another over a token. -/
def nest (depth : Nat) : TokenKind → Option Nat
  | .punct .openBrace => some (depth + 1)
  | .punct .closeBrace =>
    match depth with
    | 0 => none
    | depth + 1 => some depth
  | _ => some depth

/-- A token whose characters nest as it does: no comment, and no template with a backquote in a hole. -/
def Nestable (kind : TokenKind) : Prop :=
  kind.isComment = false ∧ ∀ hole ∈ kind.holes, '\x60' ∉ hole.source.toList

theorem nests_punct {p : Punct} (h : nest depth (.punct p) = some depth') : Nests depth p.text.toList depth' := by
  have hplain : ∀ p : Punct, p ≠ .openBrace → p ≠ .closeBrace → p.text.toList.all (· ∉ marked) = true := by
    intro p
    cases p <;> decide
  by_cases hopen : p = .openBrace
  · subst hopen
    cases h
    exact .opens .nil
  by_cases hclose : p = .closeBrace
  · subst hclose
    cases depth with
    | zero => cases h
    | succ depth =>
        cases h
        exact .closes .nil
  · have hdepth : nest depth (.punct p) = some depth := by
      cases p <;> first
        | rfl
        | exact absurd rfl hopen
        | exact absurd rfl hclose
    rw [hdepth] at h
    cases h
    exact nests_plain (by simpa using hplain p hopen hclose) depth

/-- The characters of a token nest as the token does. -/
def Spans (depth : Nat) (c : Char) (after stop : Cursor) (depth' : Nat) : Prop :=
  ∃ word, c :: after.rest = word ++ stop.rest ∧ Nests depth word depth'

variable {after stop : Cursor} {c : Char} {kind : TokenKind}

theorem spans_text {text : List Char} (hq : q ∈ quotes) (h : quoted q after = .ok (text, stop)) (depth : Nat) :
    Spans depth q after stop depth := by
  obtain ⟨cs, hcs, htext⟩ := quoted_of_ok hq h
  exact ⟨q :: (cs ++ [q]), by rw [hcs]; simp, nests_quoted hq htext depth⟩

theorem spans_template {p : Pieces} (h : pieces? after = some (p, stop))
    (hholes : ∀ hole ∈ p.template.holes, '\x60' ∉ hole.source.toList) (depth : Nat) :
    Spans depth '\x60' after stop depth := by
  have hparts : ∀ part ∈ p.parts, '\x60' ∉ part.1.source.toList := by
    intro part hpart
    refine hholes part.1 ?_
    simp only [Template.holes, Pieces.template, List.map_map]
    exact List.mem_map_of_mem hpart
  obtain ⟨cs, hcs, htext⟩ := quoted_of_pieces? h hparts
  exact ⟨'\x60' :: (cs ++ ['\x60']), by rw [hcs]; simp, nests_quoted (by decide) htext depth⟩

theorem spans_number (hc : isNumeric c = true) (h : numberToken c after = .ok (kind, stop)) (depth : Nat) :
    Spans depth c after stop depth := by
  obtain ⟨word, hword, hall⟩ := characters_of_numberToken hc h
  have hplain : ∀ d ∈ c :: word, d ∉ marked := fun d hd => not_marked_of (p := isNumeric) (by decide) (hall d hd)
  exact ⟨c :: word, by rw [hword]; rfl, nests_plain hplain depth⟩

theorem spans_name (hc : isNameStart c = true) (depth : Nat) :
    Spans depth c after (after.skipWhile isNameChar) depth := by
  obtain ⟨word, hword, hall⟩ := characters_of_name hc after
  have hplain : ∀ d ∈ c :: word, d ∉ marked := fun d hd => not_marked_of (p := isNameChar) (by decide) (hall d hd)
  exact ⟨c :: word, by rw [hword]; rfl, nests_plain hplain depth⟩

theorem spans_punct {p : Punct} (h : punctToken c after = .ok (.punct p, stop))
    (hnest : nest depth (.punct p) = some depth') : Spans depth c after stop depth' :=
  ⟨p.text.toList, characters_of_punctToken h, nests_punct hnest⟩

theorem spans_lexeme (h : lexeme c after = .ok (kind, stop)) (hkind : Nestable kind)
    (hnest : nest depth kind = some depth') : Spans depth c after stop depth' := by
  cases yields_of_lexeme h with
  | line => cases hkind.1
  | block => cases hkind.1
  | text hfirst hquoted =>
      cases hnest
      exact spans_text (by rcases hfirst with rfl | rfl <;> decide) hquoted depth
  | template hfirst hpieces =>
      cases hnest
      rw [hfirst]
      exact spans_template hpieces hkind.2 depth
  | number hfirst hnumber =>
      cases hnest
      exact spans_number (isNumeric_first hfirst) hnumber depth
  | name hfirst =>
      cases hnest
      exact spans_name hfirst depth
  | keyword hfirst =>
      cases hnest
      exact spans_name hfirst depth
  | punct _ hpunct => exact spans_punct hpunct hnest

/-- From one depth of braces to another over tokens, if these close no more than are open. -/
def nestAll (depth : Nat) (ts : List Token) : Option Nat :=
  ts.foldlM (fun depth t => nest depth t.kind) depth

/-- A source nests as its tokens do. -/
theorem nests_scan {place : Cursor} {ts : List Token} {mark : EndMark} (h : scan place = ⟨ts, .ok mark⟩)
    (hkinds : ∀ t ∈ ts, Nestable t.kind) (hnest : nestAll depth ts = some depth') : Nests depth place.rest depth' := by
  have hblanks : ∀ cs : List Char, ∀ c ∈ cs.takeWhile isBlank, c ∉ marked := fun cs c hc =>
    not_marked_of (p := isBlank) (by decide) (List.mem_takeWhile_imp hc)
  fun_induction scan place generalizing ts depth mark with
  | case1 place newline =>
      rename_i hn
      cases h
      cases hnest
      have hall := Cursor.next?_skipWhile_eq_none.mp hn
      exact nests_plain (fun c hc => not_marked_of (p := isBlank) (by decide) (hall c hc)) _
  | case2 => cases h
  | case3 =>
      rename_i place newline start c after hn kind stop hl rest ih
      obtain ⟨rfl, hresult⟩ := (Lexed.mk.injEq ..).mp h
      obtain ⟨hkind, hkinds⟩ := List.forall_mem_cons.mp hkinds
      rw [nestAll, List.foldlM_cons] at hnest
      obtain ⟨depth₁, hfirst, hmore⟩ := Option.bind_eq_some_iff.mp hnest
      obtain ⟨word, hword, hnests⟩ := spans_lexeme hl hkind hfirst
      have hrest : Nests depth₁ stop.rest depth' := ih (by rw [← hresult]) hkinds hmore
      have hplace : place.rest = place.rest.takeWhile isBlank ++ (word ++ stop.rest) := by
        have hstart : start.rest = c :: after.rest := (Cursor.passes_of_next? hn).rest
        rw [← hword, ← hstart]
        exact (Cursor.passes_skipWhile isBlank place).rest
      rw [hplace]
      exact (nests_plain (hblanks _) _).append (hnests.append hrest)

end ScriptRepl.Syntax.Lexer
