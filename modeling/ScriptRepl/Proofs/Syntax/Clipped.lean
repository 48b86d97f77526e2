import ScriptRepl.Proofs.Syntax.Moved
import ScriptRepl.Proofs.Syntax.Shortened
import ScriptRepl.Proofs.Syntax.Tiling

/-! A text that is cut off where one of its tokens ends has its tokens up to there, and a text that also begins with a
token has those from there on: a slice of a source is read as the source is. -/
namespace ScriptRepl.Syntax

open Text (Cursor isBlank isLineEnd isNameStart isNameChar size size_append IsSlice)

namespace Lexer

variable {more cs : List Char} {place after stop : Cursor} {c : Char} {kind : TokenKind} {n : Nat}

/-! ### Numbers -/

theorem takeWhile_clipped {p : Char → Bool} (h : ((cs ++ more).takeWhile p).length ≤ cs.length) :
    (cs ++ more).takeWhile p = cs.takeWhile p := by
  rw [List.takeWhile_append] at h ⊢
  split at h
  · rename_i hall
    rw [List.length_append] at h
    have hnil : more.takeWhile p = [] := List.eq_nil_of_length_eq_zero (by omega)
    rw [if_pos hall, hnil, List.append_nil]
    exact ((List.takeWhile_prefix p).eq_of_length hall).symm
  · rename_i hall
    rw [if_neg hall]

theorem fractionLength_clipped (h : fractionLength (cs ++ more) ≤ cs.length) :
    fractionLength (cs ++ more) = fractionLength cs := by
  cases cs with
  | nil => exact Nat.le_zero.mp h
  | cons c r =>
      rw [List.cons_append] at h ⊢
      by_cases hpoint : c = '.'
      · subst hpoint
        have hdigits : ((r ++ more).takeWhile Number.isDigit).length ≤ r.length := by
          have hlength : 1 + ((r ++ more).takeWhile Number.isDigit).length ≤ r.length + 1 := h
          omega
        rw [fractionLength, fractionLength, takeWhile_clipped hdigits]
      · simp [fractionLength, hpoint]

theorem exponentLength?_clipped (h : exponentLength? (cs ++ more) = some n) (hn : n ≤ cs.length) :
    exponentLength? cs = some n := by
  cases cs with
  | nil =>
      obtain rfl : n = 0 := Nat.le_zero.mp hn
      rfl
  | cons c r =>
      rw [List.cons_append, exponentLength?] at h
      rw [exponentLength?]
      by_cases hc : c = 'e' ∨ c = 'E'
      · rw [if_pos hc] at h ⊢
        dsimp only at h ⊢
        split at h
        · cases h
        rename_i hdigits
        obtain rfl := Option.some.inj h
        rw [List.length_cons] at hn
        have hr : r ≠ [] := by
          rintro rfl
          rw [List.length_nil] at hn
          omega
        have hsign : signLength (r ++ more) = signLength r := by
          obtain ⟨d, r, rfl⟩ := List.exists_cons_of_ne_nil hr
          rfl
        rw [hsign] at hn hdigits ⊢
        have hle := signLength_le r
        rw [List.drop_append_of_le_length hle] at hn hdigits ⊢
        have hsame : ((r.drop (signLength r) ++ more).takeWhile Number.isDigit) =
            (r.drop (signLength r)).takeWhile Number.isDigit := by
          refine takeWhile_clipped ?_
          rw [List.length_drop]
          omega
        rw [hsame] at hdigits ⊢
        rw [if_neg hdigits]
      · rw [if_neg hc] at h ⊢
        exact h

theorem numberLength?_clipped (h : numberLength? (cs ++ more) = some n) (hn : n ≤ cs.length) :
    numberLength? cs = some n := by
  obtain ⟨exponent, hexponent, heq, hname⟩ := numberLength?_eq_some_iff.mp h
  have hwhole : (cs ++ more).takeWhile Number.isDigit = cs.takeWhile Number.isDigit := takeWhile_clipped (by omega)
  have hle := wholeLength_le cs
  rw [hwhole] at hexponent heq
  rw [List.drop_append_of_le_length hle] at hexponent heq
  have hfraction : fractionLength (cs.drop (cs.takeWhile Number.isDigit).length ++ more) =
      fractionLength (cs.drop (cs.takeWhile Number.isDigit).length) := by
    refine fractionLength_clipped ?_
    rw [List.length_drop]
    omega
  rw [hfraction] at hexponent heq
  rw [List.drop_append_of_le_length (by omega)] at hexponent
  refine numberLength?_eq_some_iff.mpr ⟨exponent, exponentLength?_clipped hexponent ?_, heq, ?_⟩
  · rw [List.length_drop]
    omega
  · rw [List.drop_append_of_le_length hn] at hname
    cases hrest : cs.drop n with
    | nil => rfl
    | cons d rest =>
        rw [hrest] at hname
        exact hname

/-! ### Tokens -/

theorem ends_of_clipped {p : Char → Bool} (h : more.length ≤ ((place.extended more).skipWhile p).rest.length)
    (hall : (place.skipWhile p).rest = []) : ∀ d ∈ more.head?, p d = false := by
  rintro d hd
  rw [Cursor.rest_skipWhile] at h hall
  cases more with
  | nil => cases hd
  | cons e more =>
      cases hd
      by_contra hp
      have hrest : (place.rest ++ d :: more).dropWhile p = more.dropWhile p := by
        rw [List.dropWhile_append, hall, List.isEmpty_nil, if_pos rfl, List.dropWhile_cons_of_pos]
        exact (Bool.not_eq_false _).mp hp
      have hle := (List.dropWhile_sublist (l := more) p).length_le
      rw [Cursor.extended, hrest, List.length_cons] at h
      omega

theorem skipWhile_clipped {p : Char → Bool} (h : more.length ≤ ((place.extended more).skipWhile p).rest.length) :
    (place.extended more).skipWhile p = (place.skipWhile p).extended more :=
  Cursor.skipWhile_extended (ends_of_clipped h)

theorem le_of_skip_extended {n : Nat} (hle : n ≤ (after.extended more).rest.length)
    (h : more.length ≤ ((after.extended more).skip n).rest.length) : n ≤ after.rest.length := by
  rw [Cursor.rest_skip, List.length_drop] at h
  rw [Cursor.extended, List.length_append] at h hle
  omega

theorem numberToken_clipped (h : numberToken c (after.extended more) = .ok (kind, stop))
    (hstop : more.length ≤ stop.rest.length) :
    ∃ first : Cursor, stop = first.extended more ∧ numberToken c after = .ok (kind, first) := by
  unfold numberToken at h
  split at h
  · rename_i n hn
    split at h
    · rename_i x hx
      cases h
      have hwhole := numberLength?_le hn
      rw [List.length_cons] at hwhole
      have hle : n - 1 ≤ after.rest.length := le_of_skip_extended (by omega) hstop
      have hlength : numberLength? (c :: after.rest) = some n := by
        have hwithin : n ≤ (c :: after.rest).length := by
          rw [List.length_cons]
          omega
        exact numberLength?_clipped hn hwithin
      have htake : (after.extended more).rest.take (n - 1) = after.rest.take (n - 1) :=
        List.take_append_of_le_length hle
      rw [htake] at hx
      exact ⟨after.skip (n - 1), Cursor.skip_extended hle, by rw [numberToken, hlength]; dsimp only; rw [hx]⟩
    · cases h
  · cases h

theorem punctToken_clipped (h : punctToken c (after.extended more) = .ok (kind, stop))
    (hstop : more.length ≤ stop.rest.length) :
    ∃ first : Cursor, stop = first.extended more ∧ punctToken c after = .ok (kind, first) := by
  unfold punctToken at h
  split at h
  · rename_i p hp
    cases h
    obtain ⟨hstarts, earlier, later, hall, hearlier⟩ := List.find?_eq_some_iff_append.mp hp
    rw [List.isPrefixOf_iff_prefix] at hstarts
    have hlength : p.text.length = p.text.toList.length := String.length_toList.symm
    have hwhole := hstarts.length_le
    rw [← hlength, List.length_cons] at hwhole
    have hle : p.text.length - 1 ≤ after.rest.length := le_of_skip_extended (by omega) hstop
    have hshort : p.text.toList <+: c :: after.rest := by
      refine List.prefix_of_prefix_length_le hstarts ?_ ?_
      · exact ⟨more, rfl⟩
      · rw [← hlength, List.length_cons]
        omega
    have hfind : (Punct.all.find? fun p => p.text.toList.isPrefixOf (c :: after.rest)) = some p := by
      refine List.find?_eq_some_iff_append.mpr ⟨List.isPrefixOf_iff_prefix.mpr hshort, earlier, later, hall, ?_⟩
      intro q hq
      have hother := hearlier q hq
      rw [Bool.not_eq_true', Bool.eq_false_iff] at hother ⊢
      intro hq'
      refine hother (List.isPrefixOf_iff_prefix.mpr ?_)
      exact (List.isPrefixOf_iff_prefix.mp hq').trans ⟨more, rfl⟩
    exact ⟨after.skip (p.text.length - 1), Cursor.skip_extended hle, by rw [punctToken, hfind]⟩
  · cases h

theorem quoted_clipped {quote : Char} {cs : List Char} (hquote : quote ∈ quotes)
    (h : quoted quote (after.extended more) = .ok (cs, stop)) (hstop : more.length ≤ stop.rest.length) :
    ∃ first : Cursor, stop = first.extended more ∧ quoted quote after = .ok (cs, first) := by
  cases hclosed : quoted quote after with
  | error end_ =>
      have hlt := length_lt_of_quoted_open hclosed h
      omega
  | ok pair =>
      obtain ⟨cs', first⟩ := pair
      rw [quoted_extended hquote hclosed] at h
      cases h
      exact ⟨first, rfl, rfl⟩

theorem pieces?_clipped {p : Pieces} (h : pieces? (after.extended more) = some (p, stop))
    (hstop : more.length ≤ stop.rest.length) :
    ∃ first : Cursor, stop = first.extended more ∧ pieces? after = some (p, first) := by
  cases hclosed : pieces? after with
  | none =>
      have hlt := length_lt_of_pieces?_open hclosed h
      omega
  | some pair =>
      obtain ⟨p', first⟩ := pair
      rw [pieces?_extended hclosed] at h
      cases h
      exact ⟨first, rfl, rfl⟩

theorem blockComment_clipped (hstar : after.peek? = some '*')
    (h : blockComment (after.extended more) = .ok (kind, stop)) (hstop : more.length ≤ stop.rest.length) :
    ∃ first : Cursor, stop = first.extended more ∧ blockComment after = .ok (kind, first) := by
  cases hclosed : blockComment after with
  | ok pair =>
      obtain ⟨kind', first⟩ := pair
      rw [blockComment_extended hstar hclosed] at h
      cases h
      exact ⟨first, rfl, rfl⟩
  | error cause =>
      obtain ⟨n, _ | ⟨d, cs⟩⟩ := after
      · cases hstar
      unfold blockComment at h hclosed
      dsimp only at h hclosed
      split at hclosed
      · cases hclosed
      rename_i hopen
      split at h
      · rename_i hend
        cases h
        have hlt := length_lt_of_blockEnd?_open hopen hend
        omega
      · cases h

/-- A token of one character is not the beginning of a comment. -/
theorem opensComment_clipped {d : Char} (hd : d = '/' ∨ d = '*') (h : lexeme c (after.extended more) = .ok (kind, stop))
    (hstop : more.length ≤ stop.rest.length) :
    (c = '/' ∧ (after.extended more).peek? = some d) ↔ (c = '/' ∧ after.peek? = some d) := by
  refine and_congr_right fun hc => ?_
  subst hc
  obtain ⟨n, _ | ⟨e, rest⟩⟩ := after
  · refine iff_of_false (fun hpeek => ?_) nofun
    cases more with
    | nil => cases hpeek
    | cons e more =>
        obtain rfl : e = d := Option.some.inj hpeek
        have hshort : stop.rest.length ≤ more.length := by
          rcases hd with rfl | rfl
          · rw [show lexeme '/' (Cursor.extended ('/' :: more) ⟨n, []⟩) =
              .ok (.comment, Cursor.skipWhile (· != '\n') ⟨n, '/' :: more⟩) from if_pos ⟨rfl, rfl⟩] at h
            cases h
            rw [Cursor.rest_skipWhile]
            exact (List.dropWhile_sublist (l := more) _).length_le
          · rw [show lexeme '/' (Cursor.extended ('*' :: more) ⟨n, []⟩) = blockComment ⟨n, '*' :: more⟩ from
              (if_neg nofun).trans (if_pos ⟨rfl, rfl⟩)] at h
            unfold blockComment at h
            dsimp only at h
            split at h
            · rename_i stop' hend
              cases h
              exact (reaches_blockEnd? hend).length_le
            · cases h
        rw [List.length_cons] at hstop
        omega
  · exact Iff.rfl

theorem opensNumber_clipped (h : lexeme c (after.extended more) = .ok (kind, stop))
    (hstop : more.length ≤ stop.rest.length) :
    (Number.isDigit c || (c == '.' && (after.extended more).peek?.any Number.isDigit)) =
      (Number.isDigit c || (c == '.' && after.peek?.any Number.isDigit)) := by
  obtain ⟨n, _ | ⟨e, rest⟩⟩ := after
  · by_cases hc : c = '.'
    · subst hc
      cases more with
      | nil => rfl
      | cons d more =>
          cases hd : Number.isDigit d with
          | false => simp [Cursor.extended, Cursor.peek?, hd]
          | true =>
              have htoken : lexeme '.' (Cursor.extended (d :: more) ⟨n, []⟩) =
                  numberToken '.' (Cursor.extended (d :: more) ⟨n, []⟩) := by
                simp [lexeme, Cursor.extended, Cursor.peek?, hd]
              rw [htoken] at h
              obtain ⟨first, -, hfirst⟩ := numberToken_clipped h hstop
              have hpoint : numberToken '.' ⟨n, []⟩ = .error .invalidNumber := rfl
              rw [hpoint] at hfirst
              cases hfirst
    · rw [beq_eq_false_iff_ne.mpr hc, Bool.false_and, Bool.false_and]
  · rfl

/-- A token that ends in a text is read so also if nothing follows the text. -/
theorem lexeme_clipped (h : lexeme c (after.extended more) = .ok (kind, stop))
    (hstop : more.length ≤ stop.rest.length) :
    ∃ first : Cursor, stop = first.extended more ∧ lexeme c after = .ok (kind, first) := by
  have hline := opensComment_clipped (.inl rfl) h hstop
  have hblock := opensComment_clipped (.inr rfl) h hstop
  have hnumber := opensNumber_clipped h hstop
  unfold lexeme at h ⊢
  simp only [hline, hblock, hnumber] at h
  split at h
  · rename_i hline
    cases h
    exact ⟨after.skipWhile (· != '\n'), skipWhile_clipped hstop, if_pos hline⟩
  rename_i hline
  rw [if_neg hline]
  split at h
  · rename_i hblock
    rw [if_pos hblock]
    exact blockComment_clipped hblock.2 h hstop
  rename_i hblock
  rw [if_neg hblock]
  split at h
  · rename_i hquote
    have hquotes : c ∈ quotes := by rcases hquote with rfl | rfl <;> decide
    unfold textToken at h
    split at h
    · rename_i cs stop' hquoted
      cases h
      obtain ⟨first, rfl, hclosed⟩ := quoted_clipped hquotes hquoted hstop
      exact ⟨first, rfl, by rw [if_pos hquote, textToken, hclosed]⟩
    · cases h
  rename_i hquote
  rw [if_neg hquote]
  split at h
  · rename_i hback
    unfold templateToken at h
    split at h
    · rename_i p stop' hpieces
      cases h
      obtain ⟨first, rfl, hclosed⟩ := pieces?_clipped hpieces hstop
      exact ⟨first, rfl, by rw [if_pos hback, templateToken, hclosed]⟩
    · cases h
  rename_i hback
  rw [if_neg hback]
  split at h
  · rename_i hnumber
    rw [if_pos hnumber]
    exact numberToken_clipped h hstop
  rename_i hnumber
  rw [if_neg hnumber]
  split at h
  · rename_i hname
    cases h
    rw [takeName_extended (ends_of_clipped hstop)]
    exact ⟨after.skipWhile isNameChar, skipWhile_clipped hstop, if_pos hname⟩
  · rename_i hname
    rw [if_neg hname]
    exact punctToken_clipped h hstop

/-! ### Texts -/

theorem exists_extended_of_reaches {a b : Cursor} (h : a.Reaches (b.extended more)) :
    ∃ first : Cursor, a = first.extended more ∧ first.offset + size first.rest = b.offset + size b.rest := by
  obtain ⟨passed, hrest, hoffset⟩ := h
  refine ⟨⟨a.offset, passed ++ b.rest⟩, ?_, ?_⟩
  · rw [Cursor.extended, List.append_assoc]
    exact congrArg (Cursor.mk a.offset) hrest
  · have hbegin : b.offset = a.offset + size passed := hoffset
    rw [size_append, hbegin, Nat.add_assoc]

theorem extended_injective {a b : Cursor} (h : a.extended more = b.extended more) : a = b := by
  obtain ⟨n, cs⟩ := a
  obtain ⟨m, ds⟩ := b
  obtain ⟨hoffset, hrest⟩ := Cursor.mk.inj h
  exact congrArg₂ Cursor.mk hoffset (List.append_cancel_right hrest)

/-- A token that does not begin behind a text begins in it. -/
theorem next?_clipped (h : ((place.extended more).skipWhile isBlank).next? = some (c, after))
    (hafter : more.length ≤ after.rest.length) :
    ∃ first : Cursor, (place.skipWhile isBlank).next? = some (c, first) ∧ after = first.extended more := by
  rw [skipWhile_clipped (Nat.le_trans hafter (Cursor.length_lt_of_next? h).le)] at h
  cases hfirst : (place.skipWhile isBlank).next? with
  | none =>
      have hnil := Cursor.next?_eq_none_iff.mp hfirst
      rw [Cursor.extended, hnil, List.nil_append] at h
      exact absurd hafter (Nat.not_le_of_lt (Cursor.length_lt_of_next? h))
  | some next =>
      obtain ⟨d, first⟩ := next
      rw [Cursor.next?_extended hfirst] at h
      cases h
      exact ⟨first, rfl, rfl⟩

theorem exists_lexeme_of_tokens {t : Token} {ts : List Token} (h : (scan place).tokens = t :: ts) :
    ∃ c after kind stop, (place.skipWhile isBlank).next? = some (c, after) ∧ lexeme c after = .ok (kind, stop) ∧
      t = ⟨kind, (place.skipWhile isBlank).offset, stop.offset, (place.rest.takeWhile isBlank).any isLineEnd⟩ ∧
      (scan stop).tokens = ts := by
  cases hn : (place.skipWhile isBlank).next? with
  | none =>
      rw [scan_of_end hn] at h
      cases h
  | some next =>
      obtain ⟨c, after⟩ := next
      cases hl : lexeme c after with
      | error cause =>
          rw [scan_of_error hn hl] at h
          cases h
      | ok pair =>
          rw [scan_of_lexeme hn hl] at h
          obtain ⟨rfl, hrest⟩ := List.cons.inj h
          exact ⟨c, after, pair.1, pair.2, rfl, hl, rfl, hrest⟩

/-- The first tokens of a text are all that it has if it ends where the last of them does. -/
theorem scan_clipped {seg rest : List Token} (h : (scan place).tokens = seg ++ rest) :
    ∃ (first : Cursor) (more : List Char) (mark : EndMark), place = first.extended more ∧
      first.offset + size first.rest = (seg.getLast?.map Token.stop).getD place.offset ∧
      scan first = ⟨seg, .ok mark⟩ := by
  induction seg generalizing place with
  | nil => exact ⟨⟨place.offset, []⟩, place.rest, _, rfl, rfl, scan_of_end rfl⟩
  | cons t seg ih =>
      obtain ⟨c, after, kind, stop, hn, hl, rfl, hrest⟩ := exists_lexeme_of_tokens h
      obtain ⟨last, more, mark, rfl, hend, hscan⟩ := ih hrest
      have hreaches := (Cursor.reaches_skipWhile isBlank place).trans (Cursor.reaches_of_next? hn)
      obtain ⟨first, rfl, hsize⟩ := exists_extended_of_reaches (hreaches.trans (reaches_lexeme hl))
      have hstop : more.length ≤ (last.extended more).rest.length := by
        rw [Cursor.extended, List.length_append]
        exact Nat.le_add_left _ _
      obtain ⟨after, hn', rfl⟩ := next?_clipped hn (Nat.le_trans hstop (reaches_lexeme hl).length_le)
      obtain ⟨last', hsame, hl'⟩ := lexeme_clipped hl hstop
      obtain rfl := extended_injective hsame
      refine ⟨first, more, mark, rfl, ?_, ?_⟩
      · rw [hsize, hend]
        cases seg <;> rfl
      · obtain ⟨hskip, htake⟩ := skipBlanks_extended hn' more
        rw [scan_of_lexeme hn' hl', hscan, htake, hskip]
        rfl

end Lexer

end ScriptRepl.Syntax
