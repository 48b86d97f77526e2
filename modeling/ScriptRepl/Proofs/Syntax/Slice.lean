import ScriptRepl.Proofs.Syntax.Clipped
import ScriptRepl.Proofs.Syntax.Joined

/-! A part of a source, from the beginning of one token to the end of another, is read as the tokens between. -/
namespace ScriptRepl.Syntax

open Text (Cursor isBlank isLineEnd size size_append IsSlice)

theorem Alike.symm {us us' : List Token} (h : Alike us us') : Alike us' us :=
  Eq.symm h

theorem Alike.significant {us us' : List Token} (h : Alike us us') : Alike (significant us) (significant us') := by
  induction us generalizing us' with
  | nil =>
      obtain rfl := h.of_nil
      rfl
  | cons t us ih =>
      obtain ⟨t', us', rfl, hkind, hus⟩ := h.of_cons
      have hcomment : t'.kind.isComment = t.kind.isComment := by
        rw [← isComment_bare, hkind, isComment_bare]
      have hmore : Alike (Syntax.significant us) (Syntax.significant us') := ih hus
      unfold Syntax.significant at hmore ⊢
      rw [List.filter_cons, List.filter_cons, hcomment]
      split
      · exact congrArg₂ List.cons hkind hmore
      · exact hmore

theorem eq_ok_of_behind {lexed : Lexed} {newline : Bool} {mark : EndMark}
    (h : (lexed.behind newline).result = .ok mark) : ∃ mark', lexed.result = .ok mark' := by
  obtain ⟨_ | ⟨t, ts⟩, _ | mark'⟩ := lexed
  · cases h
  · exact ⟨mark', rfl⟩
  · cases h
  · exact ⟨mark', rfl⟩

theorem eq_ok_of_moved {lexed : Lexed} {k : Nat} {mark : EndMark} (h : (lexed.moved k).result = .ok mark) :
    ∃ mark', lexed.result = .ok mark' := by
  obtain ⟨ts, _ | mark'⟩ := lexed
  · cases h
  · exact ⟨mark', rfl⟩

/-- A part of a source has the tokens of the source that it is made of, wherever they stand then. -/
theorem lex_slice {source : String} {before seg rest : List Token} {start last : Token}
    (h : (lex source).tokens = before ++ (seg ++ rest)) (hstart : seg.head? = some start)
    (hlast : seg.getLast? = some last) :
    ∃ text ts mark, IsSlice source.toList start.start last.stop text.toList ∧ lex text = ⟨ts, .ok mark⟩ ∧
      Alike ts seg := by
  obtain ⟨place, hreaches, hplace, -⟩ := @Lexer.scan_extended (Cursor.ofString source) _ _ h
  obtain ⟨first, more, mark, rfl, hend, hscan⟩ := Lexer.scan_clipped (congrArg Lexed.tokens hplace)
  rw [hlast, Option.map_some, Option.getD_some] at hend
  obtain ⟨passed, hpassed, hoffset⟩ := hreaches
  have hgap := Cursor.passes_skipWhile isBlank first
  have hbegin : start.start = (first.skipWhile isBlank).offset := by
    obtain ⟨_, seg, rfl⟩ := List.exists_cons_of_ne_nil (l := seg) (by rintro rfl; cases hstart)
    cases hstart
    obtain ⟨_, _, _, _, -, -, rfl, -⟩ := Lexer.exists_lexeme_of_tokens (congrArg Lexed.tokens hscan)
    rfl
  have hblanks : ∀ c ∈ first.rest.takeWhile isBlank, isBlank c = true := fun _ => List.mem_takeWhile_imp
  generalize first.rest.takeWhile isBlank = blanks at hgap hblanks
  have hslice : IsSlice source.toList start.start last.stop (String.ofList (first.skipWhile isBlank).rest).toList := by
    rw [String.toList_ofList]
    refine ⟨passed ++ blanks, more, ?_, ?_, ?_⟩
    · have hsource : source.toList = passed ++ (first.rest ++ more) := hpassed
      rw [hsource, hgap.rest]
      simp
    · have hplace : first.offset = 0 + size passed := hoffset
      rw [hbegin, hgap.offset, size_append, hplace, Nat.zero_add]
    · have hplace : first.offset = 0 + size passed := hoffset
      rw [← hend, hgap.rest, size_append, size_append, hplace, Nat.zero_add, Nat.add_assoc]
  have hchars : (String.ofList (first.skipWhile isBlank).rest).toList = (first.skipWhile isBlank).rest :=
    String.toList_ofList
  generalize String.ofList (first.skipWhile isBlank).rest = text at hslice hchars
  obtain ⟨offset, chars⟩ := first
  have hmoved : Lexer.scan ⟨offset, chars⟩ =
      ((lex text).moved (offset + size blanks)).behind (blanks.any isLineEnd) := by
    rw [show chars = blanks ++ text.toList by rw [hchars]; exact hgap.rest, Lexer.scan_blanks hblanks]
    exact congrArg _ (Lexer.scan_moved (offset + size blanks) (Cursor.ofString text))
  rw [hmoved] at hscan
  obtain ⟨_, hresult⟩ := eq_ok_of_behind (congrArg Lexed.result hscan)
  obtain ⟨mark', hmark⟩ := eq_ok_of_moved hresult
  have hrespaced := (respaced_moved (offset + size blanks) (lex text).tokens).trans
    (respaced_behind (blanks.any isLineEnd) ((lex text).moved (offset + size blanks)))
  rw [hscan] at hrespaced
  exact ⟨text, (lex text).tokens, mark', hslice, by rw [← hmark], hrespaced.alike⟩

/-- What a filter keeps is what it keeps of a part that begins and ends with something kept. -/
theorem exists_segment {α : Type} {p : α → Bool} {l us : List α} {a b : α} (h : l.filter p = us)
    (hfirst : us.head? = some a) (hlast : us.getLast? = some b) :
    ∃ before seg rest, l = before ++ (seg ++ rest) ∧ seg.head? = some a ∧ seg.getLast? = some b ∧
      seg.filter p = us := by
  obtain ⟨_, us', rfl⟩ := List.exists_cons_of_ne_nil (l := us) (by rintro rfl; cases hfirst)
  cases hfirst
  obtain ⟨before, tail, rfl, -, ha, htail⟩ := List.filter_eq_cons_iff.mp h
  have hkept : (a :: tail).filter p = a :: us' := by rw [List.filter_cons_of_pos ha, htail]
  have hreverse : (a :: tail).reverse.filter p = (a :: us').reverse := by rw [List.filter_reverse, hkept]
  rw [List.getLast?_eq_head?_reverse] at hlast
  obtain ⟨_, vs, hvs⟩ := List.exists_cons_of_ne_nil (l := (a :: us').reverse) (by simp)
  rw [hvs] at hlast hreverse
  cases hlast
  obtain ⟨rest, seg, hsplit, hrest, hb, hseg⟩ := List.filter_eq_cons_iff.mp hreverse
  have hall : a :: tail = (seg.reverse ++ [b]) ++ rest.reverse := by
    rw [← List.reverse_reverse (a :: tail), hsplit]
    simp
  refine ⟨before, seg.reverse ++ [b], rest.reverse, by rw [hall], ?_, by simp, ?_⟩
  · have hhead := congrArg List.head? hall
    rw [List.head?_append_of_ne_nil _ (by simp)] at hhead
    exact hhead.symm
  · have hnone : rest.reverse.filter p = [] := by
      rw [List.filter_reverse, List.reverse_eq_nil_iff, List.filter_eq_nil_iff]
      exact hrest
    have hfilter := congrArg (List.filter p) hall
    rw [hkept, List.filter_append, hnone, List.append_nil] at hfilter
    exact hfilter.symm

/-- An expression in the midst of a source. -/
theorem parseExpression_slice {source : String} {before us rest : List Token} {start last : Token}
    (h : significant (lex source).tokens = before ++ (us ++ rest)) (hstart : us.head? = some start)
    (hlast : us.getLast? = some last) :
    ∃ text, IsSlice source.toList start.start last.stop text.toList ∧
      ∀ e, parseExpression text = .ok e ↔ Grammar.Expression us e := by
  obtain ⟨tokens, more, hsplit, -, hmore⟩ := List.filter_eq_append_iff.mp h
  obtain ⟨middle, behind, rfl, hmiddle, -⟩ := List.filter_eq_append_iff.mp hmore
  obtain ⟨before', seg, rest', rfl, hfirst, hend, hseg⟩ := exists_segment hmiddle hstart hlast
  have htokens : (lex source).tokens = (tokens ++ before') ++ (seg ++ (rest' ++ behind)) := by
    rw [hsplit]
    simp
  obtain ⟨text, ts, mark, htext, hlex, halike⟩ := lex_slice htokens hfirst hend
  have hsame : Alike (significant ts) us := hseg ▸ halike.significant
  refine ⟨text, htext, fun e => ?_⟩
  rw [parseExpression_eq_ok_iff_derives.2.1]
  constructor
  · rintro ⟨ts', mark', hlex', hphrase⟩
    rw [hlex] at hlex'
    cases hlex'
    exact hphrase.alike hsame
  · exact fun hphrase => ⟨ts, mark, hlex, hphrase.alike hsame.symm⟩

end ScriptRepl.Syntax
