import ScriptRepl.Proofs.Syntax.Extended
import ScriptRepl.Proofs.Text.Name

/-! A source that ends with a word or a dot, and characters of a name after it: the word grows, or a word is added,
and the tokens before it stay. -/
namespace ScriptRepl

namespace Text

/-- A place at the end of a text. -/
theorem Cursor.Reaches.eq_atEnd {a b : Cursor} (h : a.Reaches b) (hb : b.rest = []) : b = a.atEnd := by
  obtain ⟨passed, hrest, hoffset⟩ := h
  rw [hb, List.append_nil] at hrest
  rw [atEnd, hrest, ← hoffset, ← hb]

end Text

namespace Syntax

open Text (Cursor isBlank isLineEnd isNameStart isNameChar isName size)

namespace Lexer

variable {place after stop : Cursor} {more : List Char} {c : Char}

theorem lexeme_of_nameStart (h : isNameStart c = true) (after : Cursor) :
    lexeme c after =
      .ok (nameKind (String.ofList (c :: after.rest.takeWhile isNameChar)), after.skipWhile isNameChar) := by
  have hne : ∀ d, isNameStart d = false → c ≠ d := by
    rintro d hd rfl
    rw [h] at hd
    cases hd
  have hslash := hne '/' (by decide)
  have hquote := hne '\'' (by decide)
  have hdouble := hne '"' (by decide)
  have hback := hne '\x60' (by decide)
  have hdot := hne '.' (by decide)
  unfold lexeme
  simp [hslash, hquote, hdouble, hback, hdot, Text.isDigit_of_isNameStart h, h]

theorem lexeme_name {word : String} (h : lexeme c after = .ok (.name word, stop)) : isNameStart c = true := by
  cases yields_of_lexeme h with
  | name hfirst => exact hfirst

theorem lexeme_punct {p : Punct} (h : lexeme c after = .ok (.punct p, stop)) :
    punctToken c after = .ok (.punct p, stop) := by
  cases yields_of_lexeme h with
  | punct _ h => exact h

theorem lexeme_dot (h : lexeme c after = .ok (.punct .dot, stop)) : c = '.' ∧ stop = after := by
  have htoken := lexeme_punct h
  unfold punctToken at htoken
  split at htoken
  · rename_i p hp
    cases htoken
    have hprefix := List.find?_some hp
    have hc := (List.cons_prefix_cons.mp (List.isPrefixOf_iff_prefix.mp hprefix)).1
    exact ⟨hc.symm, rfl⟩
  · cases htoken

/-- A name up to the end of the text. -/
theorem lexeme_nameChars (h : isNameStart c = true) (hrest : ∀ d ∈ after.rest, isNameChar d = true) :
    lexeme c after = .ok (nameKind (String.ofList (c :: after.rest)), after.atEnd) := by
  have hend : (after.skipWhile isNameChar).rest = [] := by
    rw [Cursor.rest_skipWhile, List.dropWhile_eq_nil_iff]
    exact hrest
  rw [lexeme_of_nameStart h, List.takeWhile_eq_self_iff.mpr hrest,
    (Cursor.reaches_skipWhile isNameChar after).eq_atEnd hend]

theorem scan_atEnd (place : Cursor) : scan place.atEnd = ⟨[], .ok ⟨place.atEnd.offset, false⟩⟩ :=
  scan_of_end rfl

theorem name_of_nameKind {s word : String} (h : nameKind s = .name word) : s = word := by
  unfold nameKind at h
  split at h
  · cases h
  · exact TokenKind.name.inj h

theorem scan_name {word : String} (h : isName word = true) (n : Nat) :
    scan ⟨n, word.toList⟩ =
      ⟨[⟨nameKind word, n, n + size word.toList, false⟩], .ok ⟨n + size word.toList, false⟩⟩ := by
  unfold isName at h
  split at h
  · cases h
  rename_i c cs hword
  rw [Bool.and_eq_true, List.all_eq_true] at h
  have hblank := Text.not_isBlank_of_isNameChar (Text.isNameChar_of_isNameStart h.1)
  have hskip : Cursor.skipWhile isBlank ⟨n, c :: cs⟩ = ⟨n, c :: cs⟩ := by
    simp [Cursor.skipWhile, Cursor.skipWhile.go, hblank]
  have hnext : (Cursor.skipWhile isBlank ⟨n, c :: cs⟩).next? = some (c, ⟨n + c.utf8Size, cs⟩) := by
    rw [hskip]
    rfl
  have hofList : String.ofList (c :: cs) = word := by
    rw [← hword, String.ofList_toList]
  rw [hword, scan_of_lexeme hnext (lexeme_nameChars h.1 h.2), scan_atEnd, hskip, hofList]
  simp [Cursor.atEnd, size, hblank, Nat.add_assoc]

/-- The last token of a source that does not end with a blank reaches to its end. When the source goes on, the token
is read again. -/
theorem scan_last {before : List Token} {t : Token} {mark : EndMark} (hsplit : (scan place).tokens = before ++ [t])
    (hok : (scan place).result = .ok mark) (hend : place.rest.getLast?.any isBlank = false) :
    ∃ (c : Char) (after stop : Cursor), lexeme c after = .ok (t.kind, stop) ∧ stop.rest = [] ∧ stop.offset = t.stop ∧
      ∀ {more : List Char} {kind : TokenKind} {stop' : Cursor}, Unpunctuated more →
        lexeme c (after.extended more) = .ok (kind, stop') →
        scan (place.extended more) =
          ⟨before ++ ⟨kind, t.start, stop'.offset, t.newlineBefore⟩ :: (scan stop').tokens, (scan stop').result⟩ := by
  obtain ⟨last, after, stop, c, hreaches, hn, hl, ht, hblank, hextended⟩ := exists_last_lexeme hsplit hok
  refine ⟨c, after, stop, hl, ?_, by rw [ht], ?_⟩
  · have hstop : place.Reaches stop :=
      ((hreaches.trans (Cursor.reaches_skipWhile isBlank last)).trans (Cursor.reaches_of_next? hn)).trans
        (reaches_lexeme hl)
    obtain ⟨passed, hrest, -⟩ := hstop
    by_contra hne
    have hmem := List.getLast_mem hne
    rw [hrest, List.getLast?_append, List.getLast?_eq_some_getLast hne] at hend
    have hlastBlank := hblank _ hmem
    simp [hlastBlank] at hend
  · intro more kind' stop' hpunct hl'
    rw [hextended more hpunct, scan_of_lexeme_extended hn hl', ht]

end Lexer

variable {source more : String} {before : List Token} {t : Token} {mark : EndMark}

theorem lex_append (source more : String) :
    lex (source ++ more) = Lexer.scan ((Cursor.ofString source).extended more.toList) := by
  unfold lex Cursor.ofString Cursor.extended
  rw [String.toList_append]

/-- The word that a source ends with grows. -/
theorem lex_append_of_name {word : String} (htokens : (lex source).tokens = before ++ [t])
    (hok : (lex source).result = .ok mark) (hend : source.toList.getLast?.any isBlank = false)
    (hkind : t.kind = .name word) (hmore : ∀ c ∈ more.toList, isNameChar c = true) :
    lex (source ++ more) =
      ⟨before ++ [⟨Lexer.nameKind (word ++ more), t.start, t.stop + size more.toList, t.newlineBefore⟩],
        .ok ⟨t.stop + size more.toList, false⟩⟩ := by
  obtain ⟨c, after, stop, hl, hrest, hstop, hscan⟩ := Lexer.scan_last htokens hok hend
  rw [hkind] at hl
  have hname := Lexer.lexeme_name hl
  rw [Lexer.lexeme_of_nameStart hname, Except.ok.injEq, Prod.mk.injEq] at hl
  obtain ⟨hword, rfl⟩ := hl
  have hall : ∀ d ∈ after.rest, isNameChar d = true := by
    rw [Cursor.rest_skipWhile, List.dropWhile_eq_nil_iff] at hrest
    exact hrest
  rw [List.takeWhile_eq_self_iff.mpr hall] at hword
  have hchars : c :: after.rest = word.toList := by
    rw [← Lexer.name_of_nameKind hword, String.toList_ofList]
  have hgrown : ∀ d ∈ (after.extended more.toList).rest, isNameChar d = true := by
    intro d hd
    rcases List.mem_append.mp hd with hd | hd
    · exact hall d hd
    · exact hmore d hd
  have hpunct : Lexer.Unpunctuated more.toList :=
    Lexer.unpunctuated_of_nameChar fun d hd => hmore d (List.mem_of_mem_head? hd)
  have hkind' : String.ofList (c :: (after.extended more.toList).rest) = word ++ more := by
    rw [← String.toList_inj, String.toList_ofList, String.toList_append, ← hchars]
    rfl
  have hoffset : (after.extended more.toList).atEnd.offset = t.stop + size more.toList := by
    rw [← hstop, (Cursor.reaches_skipWhile isNameChar after).eq_atEnd hrest]
    simp [Cursor.atEnd, Cursor.extended, Nat.add_assoc]
  rw [lex_append, hscan hpunct (Lexer.lexeme_nameChars hname hgrown), Lexer.scan_atEnd, hkind', hoffset]

/-- A word is added after the dot that a source ends with. -/
theorem lex_append_of_dot (htokens : (lex source).tokens = before ++ [t])
    (hok : (lex source).result = .ok mark) (hend : source.toList.getLast?.any isBlank = false)
    (hkind : t.kind = .punct .dot) (hmore : isName more = true) :
    lex (source ++ more) =
      ⟨before ++ [t, ⟨Lexer.nameKind more, t.stop, t.stop + size more.toList, false⟩],
        .ok ⟨t.stop + size more.toList, false⟩⟩ := by
  obtain ⟨c, after, stop, hl, hrest, hstop, hscan⟩ := Lexer.scan_last htokens hok hend
  rw [hkind] at hl
  obtain ⟨rfl, rfl⟩ := Lexer.lexeme_dot hl
  have hstart := Text.isNameStart_of_isName hmore
  have hends : (TokenKind.punct .dot).EndsBefore stop.rest more.toList :=
    ⟨Lexer.unpunctuated_of_nameChar fun d hd => Text.isNameChar_of_isNameStart (hstart d hd),
      fun _ d hd => Text.isDigit_of_isNameStart (hstart d hd)⟩
  have hplace : stop.extended more.toList = ⟨t.stop, more.toList⟩ := by
    rw [Cursor.extended, hrest, hstop, List.nil_append]
  rw [lex_append, hscan hends.1 (Lexer.lexeme_extended hl hends), hplace, Lexer.scan_name hmore, ← hkind]

end Syntax

end ScriptRepl
