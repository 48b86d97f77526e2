import ScriptRepl.Proofs.Syntax.Tiling
import ScriptRepl.Proofs.Text.Name

/-! The characters of a token: all of those of a number, a name or a punctuator, and the last one of every token but a
comment. The last character of a source that is no blank so tells whether its last token is a comma. -/
namespace ScriptRepl.Syntax

open Text (Cursor isBlank isNameStart isNameChar)

namespace Lexer

variable {place after stop : Cursor} {c : Char} {cs : List Char} {n : Nat}

/-! ### Numbers, names and punctuators -/

theorem isNumeric_digits (h : c ∈ cs.take (cs.takeWhile Number.isDigit).length) : isNumeric c = true := by
  rw [← List.prefix_iff_eq_take.mp (List.takeWhile_prefix _)] at h
  simp [isNumeric, List.mem_takeWhile_imp h]

theorem isNumeric_fraction (h : c ∈ cs.take (fractionLength cs)) : isNumeric c = true := by
  unfold fractionLength at h
  split at h
  · rw [Nat.add_comm, List.take_succ_cons] at h
    rcases List.mem_cons.mp h with rfl | h
    · decide
    · exact isNumeric_digits h
  · cases h

theorem isNumeric_sign (h : c ∈ cs.take (signLength cs)) : isNumeric c = true := by
  unfold signLength at h
  split at h
  · rename_i hsign
    cases cs with
    | nil => cases h
    | cons d cs =>
        rw [List.mem_singleton.mp h]
        rcases hsign with hplus | hminus
        · cases hplus
          decide
        · cases hminus
          decide
  · cases h

theorem isNumeric_exponent (hn : exponentLength? cs = some n) (h : c ∈ cs.take n) :
    isNumeric c = true := by
  unfold exponentLength? at hn
  split at hn
  · rename_i d r
    split at hn
    · rename_i hletter
      dsimp only at hn
      split at hn
      · cases hn
      cases hn
      rw [Nat.add_assoc, Nat.add_comm 1, List.take_succ_cons, List.take_add] at h
      rcases List.mem_cons.mp h with rfl | h
      · rcases hletter with rfl | rfl <;> decide
      · exact (List.mem_append.mp h).elim isNumeric_sign isNumeric_digits
    · cases hn
      cases h
  · cases hn
    cases h

theorem isNumeric_number (hn : numberLength? cs = some n) (h : c ∈ cs.take n) :
    isNumeric c = true := by
  obtain ⟨exponent, hexponent, rfl, -⟩ := numberLength?_eq_some_iff.mp hn
  rw [List.take_add, List.take_add, List.mem_append, List.mem_append] at h
  rcases h with (h | h) | h
  · exact isNumeric_digits h
  · exact isNumeric_fraction h
  · exact isNumeric_exponent hexponent h

theorem isNumeric_first (h : (Number.isDigit c || (c == '.' && after.peek?.any Number.isDigit)) = true) :
    isNumeric c = true := by
  simp only [Bool.or_eq_true, Bool.and_eq_true, beq_iff_eq] at h
  rcases h with hdigit | ⟨rfl, -⟩
  · simp [isNumeric, hdigit]
  · decide

theorem characters_of_numberToken {kind : TokenKind} (hc : isNumeric c = true)
    (h : numberToken c after = .ok (kind, stop)) :
    ∃ word, after.rest = word ++ stop.rest ∧ ∀ d ∈ c :: word, isNumeric d = true := by
  unfold numberToken at h
  split at h
  · rename_i n hn
    split at h
    · cases h
      refine ⟨after.rest.take (n - 1), by rw [Cursor.rest_skip, List.take_append_drop], fun d hd => ?_⟩
      rcases List.mem_cons.mp hd with rfl | hd
      · exact hc
      · cases n with
        | zero => cases hd
        | succ n => exact isNumeric_number hn (List.mem_cons_of_mem c hd)
    · cases h
  · cases h

theorem characters_of_name (hc : isNameStart c = true) (after : Cursor) :
    ∃ word, after.rest = word ++ (after.skipWhile isNameChar).rest ∧ ∀ d ∈ c :: word, isNameChar d = true := by
  refine ⟨after.rest.takeWhile isNameChar, ?_, fun d hd => ?_⟩
  · rw [Cursor.rest_skipWhile, List.takeWhile_append_dropWhile]
  · rcases List.mem_cons.mp hd with rfl | hd
    · exact Text.isNameChar_of_isNameStart hc
    · exact List.mem_takeWhile_imp hd

theorem characters_of_punctToken {p : Punct} (h : punctToken c after = .ok (.punct p, stop)) :
    c :: after.rest = p.text.toList ++ stop.rest := by
  unfold punctToken at h
  split at h
  · rename_i p hp
    cases h
    have hfound := List.find?_some (p := fun p : Punct => p.text.toList.isPrefixOf (c :: after.rest)) hp
    obtain ⟨rest, hrest⟩ := List.isPrefixOf_iff_prefix.mp hfound
    have hdrop : (c :: after.rest).drop p.text.length = (after.skip (p.text.length - 1)).rest := by
      rw [Cursor.rest_skip]
      cases p <;> rfl
    rw [← hdrop, ← hrest, ← String.length_toList, List.drop_left]
  · cases h

/-! ### The last character -/

/-- The character before a place, with something before it. -/
def EndsWith (cs : List Char) (stop : Cursor) (d : Char) : Prop :=
  ∃ word, cs = word ++ d :: stop.rest

theorem endsWith_of_all {p : Char → Prop} {word : List Char} (hword : after.rest = word ++ stop.rest)
    (hall : ∀ d ∈ c :: word, p d) : ∃ d, EndsWith (c :: after.rest) stop d ∧ p d := by
  have hne : c :: word ≠ [] := List.cons_ne_nil c word
  refine ⟨(c :: word).getLast hne, ⟨(c :: word).dropLast, ?_⟩, hall _ (List.getLast_mem hne)⟩
  calc c :: after.rest = (c :: word) ++ stop.rest := by rw [hword]; rfl
    _ = ((c :: word).dropLast ++ [(c :: word).getLast hne]) ++ stop.rest := by rw [List.dropLast_concat_getLast hne]
    _ = (c :: word).dropLast ++ (c :: word).getLast hne :: stop.rest := List.append_cons .. |>.symm

theorem isNameChar_plain {d : Char} (h : isNameChar d = true) : isBlank d = false ∧ d ≠ ',' := by
  refine ⟨Text.not_isBlank_of_isNameChar h, ?_⟩
  rintro rfl
  revert h
  decide

theorem isNumeric_plain {d : Char} (h : isNumeric d = true) : isBlank d = false ∧ d ≠ ',' := by
  simp only [isNumeric, Bool.or_eq_true, beq_iff_eq] at h
  rcases h with (((((hdigit | rfl) | rfl) | rfl) | rfl) | rfl) | hstart
  · refine isNameChar_plain ?_
    simp only [isNameChar, Char.isDigit, Bool.or_eq_true]
    simp only [Number.isDigit] at hdigit
    exact .inl (.inl (.inr hdigit))
  all_goals first
    | decide
    | exact isNameChar_plain (Text.isNameChar_of_isNameStart hstart)

theorem endsWith_name (hstart : isNameStart c = true) (after : Cursor) :
    ∃ d, EndsWith (c :: after.rest) (after.skipWhile isNameChar) d ∧ isBlank d = false ∧ d ≠ ',' := by
  obtain ⟨word, hword, hall⟩ := characters_of_name hstart after
  exact endsWith_of_all hword fun d hd => isNameChar_plain (hall d hd)

theorem endsWith_numberToken {kind : TokenKind} (hfirst : isNumeric c = true)
    (h : numberToken c after = .ok (kind, stop)) :
    ∃ d, EndsWith (c :: after.rest) stop d ∧ isBlank d = false ∧ d ≠ ',' := by
  obtain ⟨word, hword, hall⟩ := characters_of_numberToken hfirst h
  exact endsWith_of_all hword fun d hd => isNumeric_plain (hall d hd)

/-- The last character tells a comma from the other punctuators. -/
theorem exists_last_text (p : Punct) :
    ∃ front d, p.text.toList = front ++ [d] ∧ isBlank d = false ∧ (d = ',' ↔ p = .comma) := by
  have hlast : ∃ d ∈ p.text.toList.getLast?, isBlank d = false ∧ (d = ',' ↔ p = .comma) := by
    cases p <;> exact ⟨_, rfl, by decide, by decide⟩
  obtain ⟨d, hd, hplain⟩ := hlast
  obtain ⟨front, hfront⟩ := List.getLast?_eq_some_iff.mp hd
  exact ⟨front, d, hfront, hplain⟩

theorem endsWith_punctToken {p : Punct} (h : punctToken c after = .ok (.punct p, stop)) :
    ∃ d, EndsWith (c :: after.rest) stop d ∧ isBlank d = false ∧ (d = ',' ↔ p = .comma) := by
  obtain ⟨front, d, htext, hplain⟩ := exists_last_text p
  refine ⟨d, ⟨front, ?_⟩, hplain⟩
  rw [characters_of_punctToken h, htext, List.append_assoc]
  rfl

/-- The last character of a token is no blank, and it is a comma exactly for the comma. -/
theorem endsWith_lexeme {kind : TokenKind} (h : lexeme c after = .ok (kind, stop)) (hcomment : kind.isComment = false) :
    ∃ d, EndsWith (c :: after.rest) stop d ∧ isBlank d = false ∧ (d = ',' ↔ kind = .punct .comma) := by
  have hother {d : Char} {kind : TokenKind} (hplain : isBlank d = false ∧ d ≠ ',') (hkind : kind ≠ .punct .comma) :
      isBlank d = false ∧ (d = ',' ↔ kind = .punct .comma) :=
    ⟨hplain.1, iff_of_false hplain.2 hkind⟩
  cases yields_of_lexeme h with
  | line => cases hcomment
  | block => cases hcomment
  | text hfirst hquoted =>
      obtain ⟨word, hword⟩ := rest_of_quoted hquoted
      refine ⟨c, ⟨c :: word, by rw [hword]; rfl⟩, hother ?_ nofun⟩
      rcases hfirst with rfl | rfl <;> decide
  | template hfirst hpieces =>
      obtain ⟨word, hword⟩ := rest_of_pieces? hpieces
      exact ⟨_, ⟨c :: word, by rw [hword]; rfl⟩, hother (by decide) nofun⟩
  | number hfirst hnumber =>
      obtain ⟨d, hd, hplain⟩ := endsWith_numberToken (isNumeric_first hfirst) hnumber
      exact ⟨d, hd, hother hplain nofun⟩
  | name hfirst =>
      obtain ⟨d, hd, hplain⟩ := endsWith_name hfirst after
      exact ⟨d, hd, hother hplain nofun⟩
  | keyword hfirst =>
      obtain ⟨d, hd, hplain⟩ := endsWith_name hfirst after
      exact ⟨d, hd, hother hplain nofun⟩
  | punct _ hpunct =>
      obtain ⟨d, hd, hblank, hcomma⟩ := endsWith_punctToken hpunct
      exact ⟨d, hd, hblank, by rw [hcomma, TokenKind.punct.injEq]⟩

end Lexer

/-- The last character of a source that is no blank is that of its last token. -/
theorem exists_last_character {source : String} {before : List Token} {t : Token} {mark : EndMark}
    (htokens : (lex source).tokens = before ++ [t]) (hok : (lex source).result = .ok mark)
    (hcomment : t.kind.isComment = false) :
    ∃ front d blanks, source.toList = front ++ d :: blanks ∧ (∀ b ∈ blanks, isBlank b = true) ∧ isBlank d = false ∧
      (d = ',' ↔ t.kind = .punct .comma) := by
  obtain ⟨last, after, stop, c, hreaches, hn, hl, -, hblanks, -⟩ := Lexer.exists_last_lexeme htokens hok
  obtain ⟨d, ⟨word, hword⟩, hblank, hcomma⟩ := Lexer.endsWith_lexeme hl hcomment
  obtain ⟨passed, hpassed, -⟩ := hreaches.trans (Cursor.reaches_skipWhile isBlank last)
  have hnext := (Cursor.passes_of_next? hn).rest
  refine ⟨passed ++ word, d, stop.rest, ?_, hblanks, hblank, hcomma⟩
  calc source.toList = passed ++ (last.skipWhile isBlank).rest := hpassed
    _ = passed ++ c :: after.rest := by rw [hnext]; rfl
    _ = (passed ++ word) ++ d :: stop.rest := by rw [hword, List.append_assoc]

end ScriptRepl.Syntax
