import ScriptRepl.Proofs.Syntax.Extended
import ScriptRepl.Proofs.Syntax.Shortened
import ScriptRepl.Proofs.Syntax.Tiling

/-! Tokens that the source ends in the middle of, and what another line can do for them. A comment and a template can
always be closed; a string can if it waits for its line to go on, which it does right behind a backslash; nothing helps a
number or a character that begins no token. -/
namespace ScriptRepl.Syntax.Lexer

open Text (Cursor isBlank isLineEnd isNameStart isNameChar)

variable {place after stop : Cursor}

/-! ### Strings -/

/-- The string goes on up to the end of the source, which is a backslash that nothing was escaped by, and behind it a
part of a line end. -/
inductive Awaits (quote : Char) (tail : List Char) : Cursor → Prop where
  | backslash {place after : Cursor} (hnext : place.next? = some ('\\', after)) (hrest : after.rest = tail) :
      Awaits quote tail place
  | escaped {place after : Cursor} (hnext : place.next? = some ('\\', after))
      (h : Awaits quote tail (escape after).2) : Awaits quote tail place
  | plain {place after : Cursor} {c : Char} (hnext : place.next? = some (c, after)) (hline : ¬(c = '\n' ∨ c = '\r'))
      (hquote : c ≠ quote) (hescape : c ≠ '\\') (h : Awaits quote tail after) : Awaits quote tail place

/-- A line end takes part in an escape only if the source ends right behind the backslash, or in the middle of a line
end there. -/
theorem escape_followed (line : List Char) (hrest : place.rest ≠ []) (hreturn : place.rest ≠ ['\r']) :
    escape (place.followed line) = ((escape place).1, (escape place).2.followed line) := by
  obtain ⟨n, _ | ⟨c, cs⟩⟩ := place
  · exact absurd rfl hrest
  by_cases hu : c = 'u'
  · subst hu
    by_cases hlength : 4 ≤ cs.length
    · exact escape_u_extended hlength n ('\n' :: line)
    have hshort : (cs.take 4).length ≠ 4 := by
      rw [List.length_take]
      omega
    have hline : '\n' ∈ (cs ++ '\n' :: line).take 4 := by
      obtain ⟨k, hk⟩ := Nat.exists_eq_add_of_lt (Nat.lt_of_not_le hlength)
      rw [List.take_append, show 4 - cs.length = k + 1 by omega]
      exact List.mem_append_right _ List.mem_cons_self
    have hother : hexChar? ((cs ++ '\n' :: line).take 4) = none := hexChar?_of_other (by decide) (by decide) hline
    change escape ⟨n, 'u' :: (cs ++ '\n' :: line)⟩ = _
    rw [escape_noHex hother, escape_noHex (hexChar?_of_length hshort)]
    rfl
  by_cases hc : c = '\r'
  · subst hc
    exact escape_return_extended (fun hcs => hreturn (congrArg ('\r' :: ·) hcs)) n ('\n' :: line)
  · obtain ⟨shown, hshown⟩ := escape_other hu hc
    rw [hshown]
    exact hshown n (cs ++ '\n' :: line)

theorem quoted_escape {quote : Char} (hnext : place.next? = some ('\\', after)) (hquote : quote ≠ '\\') :
    quoted quote place =
      (quoted quote (escape after).2).map fun closed => ((escape after).1.toList ++ closed.1, closed.2) := by
  rw [quoted, hnext]
  simp only [show ¬('\\' = '\n' ∨ '\\' = '\r') by decide, if_neg hquote.symm, ↓reduceIte]
  cases quoted quote (escape after).2 with
  | ok closed => rfl
  | error end_ => rfl

theorem quoted_char {quote c : Char} (hnext : place.next? = some (c, after)) (hline : ¬(c = '\n' ∨ c = '\r'))
    (hquote : c ≠ quote) (hescape : c ≠ '\\') :
    quoted quote place = (quoted quote after).map fun closed => (c :: closed.1, closed.2) := by
  rw [quoted, hnext]
  simp only [if_neg hline, if_neg hquote, if_neg hescape]
  cases quoted quote after with
  | ok closed => rfl
  | error end_ => rfl

/-- Whether a string is closed, read character by character. -/
theorem isOk_quoted_escape {quote : Char} (hnext : place.next? = some ('\\', after)) (hquote : quote ≠ '\\') :
    (quoted quote place).isOk = (quoted quote (escape after).2).isOk := by
  rw [quoted_escape hnext hquote]
  cases quoted quote (escape after).2 with
  | ok closed => rfl
  | error end_ => rfl

theorem isOk_quoted_char {quote c : Char} (hnext : place.next? = some (c, after)) (hline : ¬(c = '\n' ∨ c = '\r'))
    (hquote : c ≠ quote) (hescape : c ≠ '\\') : (quoted quote place).isOk = (quoted quote after).isOk := by
  rw [quoted_char hnext hline hquote hescape]
  cases quoted quote after with
  | ok closed => rfl
  | error end_ => rfl

theorem isOk_quoted_line {quote c : Char} (hnext : place.next? = some (c, after)) (hline : c = '\n' ∨ c = '\r') :
    (quoted quote place).isOk = false := by
  rw [quoted, hnext]
  simp only [if_pos hline]
  rfl

theorem isOk_quoted_quote {quote : Char} (hquote : ¬(quote = '\n' ∨ quote = '\r')) (n : Nat) :
    (quoted quote ⟨n, [quote]⟩).isOk = true := by
  rw [quoted]
  simp only [Cursor.next?, if_neg hquote, ↓reduceIte]
  rfl

theorem awaits_escape_iff {quote : Char} {tail : List Char} (hnext : place.next? = some ('\\', after))
    (hrest : after.rest ≠ tail) : Awaits quote tail place ↔ Awaits quote tail (escape after).2 := by
  refine ⟨fun h => ?_, .escaped hnext⟩
  cases h with
  | backslash hnext' hrest' =>
      rw [hnext] at hnext'
      cases hnext'
      exact absurd hrest' hrest
  | escaped hnext' h =>
      rw [hnext] at hnext'
      cases hnext'
      exact h
  | plain hnext' _ _ hescape _ =>
      rw [hnext] at hnext'
      cases hnext'
      exact absurd rfl hescape

theorem awaits_char_iff {quote c : Char} {tail : List Char} (hnext : place.next? = some (c, after))
    (hline : ¬(c = '\n' ∨ c = '\r')) (hquote : c ≠ quote) (hescape : c ≠ '\\') :
    Awaits quote tail place ↔ Awaits quote tail after := by
  refine ⟨fun h => ?_, .plain hnext hline hquote hescape⟩
  cases h with
  | backslash hnext' _ =>
      rw [hnext] at hnext'
      cases hnext'
      exact absurd rfl hescape
  | escaped hnext' _ =>
      rw [hnext] at hnext'
      cases hnext'
      exact absurd rfl hescape
  | plain hnext' _ _ _ h =>
      rw [hnext] at hnext'
      cases hnext'
      exact h

theorem not_awaits_line {quote c : Char} {tail : List Char} (hnext : place.next? = some (c, after))
    (hline : c = '\n' ∨ c = '\r') : ¬Awaits quote tail place := by
  intro h
  cases h with
  | backslash hnext' _ =>
      rw [hnext] at hnext'
      cases hnext'
      revert hline
      decide
  | escaped hnext' _ =>
      rw [hnext] at hnext'
      cases hnext'
      revert hline
      decide
  | plain hnext' hline' _ _ _ =>
      rw [hnext] at hnext'
      cases hnext'
      exact hline' hline

theorem not_awaits_end {quote : Char} {tail : List Char} (hend : place.next? = none) : ¬Awaits quote tail place := by
  intro h
  cases h with
  | backslash hnext _ | escaped hnext _ | plain hnext _ _ _ _ =>
      rw [hend] at hnext
      cases hnext

/-- Another line closes a string exactly if the string awaits it. -/
theorem exists_quoted_followed_iff {quote : Char} {end_ : Cursor} (hquote : quote = '\'' ∨ quote = '"')
    (h : quoted quote place = .error end_) :
    (∃ line, (quoted quote (place.followed line)).isOk = true) ↔
      Awaits quote [] place ∨ Awaits quote ['\r'] place := by
  have hplain : ¬(quote = '\n' ∨ quote = '\r') ∧ quote ≠ '\\' := by
    rcases hquote with rfl | rfl <;> decide
  fun_induction quoted quote place with
  | case1 place hn =>
      refine iff_of_false ?_ (not_or.mpr ⟨not_awaits_end hn, not_awaits_end hn⟩)
      rintro ⟨line, hclosed⟩
      have hnext : (place.followed line).next? = some ('\n', ⟨place.offset + '\n'.utf8Size, line⟩) := by
        rw [Cursor.followed, Cursor.next?_eq_none_iff.mp hn]
        rfl
      rw [isOk_quoted_line hnext (.inl rfl)] at hclosed
      cases hclosed
  | case2 place c after hn hline =>
      refine iff_of_false ?_ (not_or.mpr ⟨not_awaits_line hn hline, not_awaits_line hn hline⟩)
      rintro ⟨line, hclosed⟩
      have hnext : (place.followed line).next? = some (c, after.followed line) := Cursor.next?_extended hn
      rw [isOk_quoted_line hnext hline] at hclosed
      cases hclosed
  | case3 => cases h
  | case4 => cases h
  | case5 place after end' hopen hn hline hother ih =>
      cases h
      have hescape : ∀ line, (quoted quote (place.followed line)).isOk =
          (quoted quote (escape (after.followed line)).2).isOk :=
        fun line => isOk_quoted_escape (Cursor.next?_extended hn) hplain.2
      -- in the first two cases the line end belongs to the escape, in the third it comes later
      obtain ⟨n, rest⟩ := after
      by_cases hrest : rest = []
      · subst hrest
        refine iff_of_true ⟨[quote], ?_⟩ (.inl (.backslash hn rfl))
        rw [hescape]
        exact isOk_quoted_quote hplain.1 _
      by_cases hreturn : rest = ['\r']
      · subst hreturn
        refine iff_of_true ⟨[quote], ?_⟩ (.inr (.backslash hn rfl))
        rw [hescape]
        exact isOk_quoted_quote hplain.1 _
      · have hinside : ∀ line, escape (Cursor.followed line ⟨n, rest⟩) =
            ((escape ⟨n, rest⟩).1, (escape ⟨n, rest⟩).2.followed line) :=
          fun line => escape_followed line hrest hreturn
        simp only [hescape, hinside]
        rw [awaits_escape_iff hn hrest, awaits_escape_iff hn hreturn]
        exact ih hopen
  | case6 => cases h
  | case7 place c after hn hline hother hescape end' hopen ih =>
      cases h
      have hchar : ∀ line, (quoted quote (place.followed line)).isOk = (quoted quote (after.followed line)).isOk :=
        fun line => isOk_quoted_char (Cursor.next?_extended hn) hline hother hescape
      simp only [hchar]
      rw [awaits_char_iff hn hline hother hescape, awaits_char_iff hn hline hother hescape]
      exact ih hopen

theorem quoted_end (quote : Char) (n : Nat) : quoted quote ⟨n, []⟩ = .error ⟨n, []⟩ := by
  rw [quoted]
  rfl

theorem Awaits.exists_rest {quote : Char} {tail : List Char} (h : Awaits quote tail place) :
    ∃ passed, place.rest = passed ++ '\\' :: tail := by
  induction h with
  | backslash hnext hafter => exact ⟨[], by rw [(Cursor.passes_of_next? hnext).rest, hafter]; rfl⟩
  | @escaped place after hnext _ ih =>
      obtain ⟨passed, hpassed⟩ := ih
      obtain ⟨taken, htaken, -⟩ := reaches_escape after
      refine ⟨'\\' :: taken ++ passed, ?_⟩
      rw [(Cursor.passes_of_next? hnext).rest, htaken, hpassed]
      simp
  | @plain place after c hnext _ _ _ _ ih =>
      obtain ⟨passed, hpassed⟩ := ih
      exact ⟨c :: passed, by rw [(Cursor.passes_of_next? hnext).rest, hpassed]; rfl⟩

/-- A string that awaits a line is open at the end of the source. -/
theorem Awaits.quoted_eq {quote : Char} {tail : List Char} (hquote : quote ≠ '\\') (htail : tail = [] ∨ tail = ['\r'])
    (h : Awaits quote tail place) : ∃ n, quoted quote place = .error ⟨n, []⟩ := by
  induction h with
  | @backslash place after hnext hafter =>
      obtain ⟨n, rest⟩ := after
      rw [quoted_escape hnext hquote]
      rcases htail with rfl | rfl
      · cases hafter
        refine ⟨n, ?_⟩
        rw [show escape ⟨n, []⟩ = (none, ⟨n, []⟩) from rfl, quoted_end]
        rfl
      · cases hafter
        refine ⟨n + '\r'.utf8Size, ?_⟩
        rw [show escape ⟨n, ['\r']⟩ = (none, ⟨n + '\r'.utf8Size, []⟩) from rfl, quoted_end]
        rfl
  | escaped hnext _ ih =>
      obtain ⟨n, hopen⟩ := ih
      refine ⟨n, ?_⟩
      rw [quoted_escape hnext hquote, hopen]
      rfl
  | plain hnext hline hother hescape _ ih =>
      obtain ⟨n, hopen⟩ := ih
      refine ⟨n, ?_⟩
      rw [quoted_char hnext hline hother hescape, hopen]
      rfl

theorem endsContinued_backslash (passed : List Char) : endsContinued (passed ++ ['\\']) = false := by
  unfold endsContinued
  rw [List.reverse_append]
  cases passed.reverse with
  | nil => rfl
  | cons c cs =>
      by_cases hc : c = '\\'
      · subst hc
        rfl
      · simp [hc]

theorem endsContinued_return (passed : List Char) : endsContinued (passed ++ ['\\', '\r']) = true := by
  unfold endsContinued
  rw [List.reverse_append]
  rfl

/-- What kind of a line end a string awaits shows in its error. -/
theorem awaits_iff {quote : Char} {end_ : Cursor} (hquote : quote ≠ '\\') (h : quoted quote place = .error end_) :
    (Awaits quote [] place ∨ Awaits quote ['\r'] place) ↔
      Awaits quote (if endsContinued (place.rest.take (place.rest.length - end_.rest.length)) then ['\r'] else [])
        place := by
  have hconsumed : ∀ tail, (tail = [] ∨ tail = ['\r']) → Awaits quote tail place →
      ∃ passed, place.rest.take (place.rest.length - end_.rest.length) = passed ++ '\\' :: tail := by
    intro tail htail hawaits
    obtain ⟨n, hopen⟩ := hawaits.quoted_eq hquote htail
    obtain ⟨passed, hpassed⟩ := hawaits.exists_rest
    rw [h] at hopen
    cases hopen
    exact ⟨passed, by rw [List.length_nil, Nat.sub_zero, List.take_length, hpassed]⟩
  constructor
  · rintro (hawaits | hawaits)
    · obtain ⟨passed, hpassed⟩ := hconsumed [] (.inl rfl) hawaits
      rw [hpassed, endsContinued_backslash]
      exact hawaits
    · obtain ⟨passed, hpassed⟩ := hconsumed ['\r'] (.inr rfl) hawaits
      rw [hpassed, endsContinued_return]
      exact hawaits
  · intro hawaits
    split at hawaits
    · exact .inr hawaits
    · exact .inl hawaits

/-! ### Templates -/

/-- In quotes that a quote can close. -/
def Inside.Quoted : Inside → Prop
  | .code => True
  | .quote q | .escaped q => q ∈ quotes

theorem mem_quotes_iff {c : Char} : c ∈ quotes ↔ c = '\'' ∨ c = '"' ∨ c = '\x60' := by
  simp [quotes]

theorem holeLength?_braces (n depth : Nat) (more : List Char) :
    holeLength? n depth .code (List.replicate (depth + 1) '\x7d' ++ more) = some (n + depth) := by
  induction depth generalizing n with
  | zero => rfl
  | succ depth ih =>
      have hrest := ih (n + 1)
      rw [List.replicate_succ, List.cons_append, holeLength?]
      simp only [show ¬('\x7d' = '\x7b') by decide, ↓reduceIte, hrest]
      congr 1
      omega

theorem holeLength?_quote {q : Char} (hq : q ∈ quotes) (n depth : Nat) (more : List Char) :
    holeLength? n depth (.quote q) (q :: List.replicate (depth + 1) '\x7d' ++ more) = some (n + 1 + depth) := by
  have hplain : q ≠ '\\' := by
    rintro rfl
    exact absurd hq (by decide)
  rw [List.cons_append, holeLength?]
  simp only [if_neg hplain, ↓reduceIte]
  exact holeLength?_braces (n + 1) depth more

/-- What closes a hole behind a character closes it with the character before. -/
theorem exists_followed_cons {n depth depth' : Nat} {inside inside' : Inside} {c : Char} {cs : List Char}
    (hstep : ∀ ds, holeLength? n depth inside (c :: ds) = holeLength? (n + 1) depth' inside' ds)
    (h : ∃ line, ∀ more, holeLength? (n + 1) depth' inside' (cs ++ '\n' :: line ++ more) =
      some (n + 1 + cs.length + line.length)) :
    ∃ line, ∀ more, holeLength? n depth inside (c :: cs ++ '\n' :: line ++ more) =
      some (n + (c :: cs).length + line.length) := by
  obtain ⟨line, hline⟩ := h
  refine ⟨line, fun more => ?_⟩
  rw [List.cons_append, List.cons_append, hstep, hline, List.length_cons]
  congr 1
  omega

/-- Some text closes the quotes and all braces that are open. -/
theorem exists_holeLength?_followed {n depth : Nat} {inside : Inside} {cs : List Char} (hinside : inside.Quoted)
    (h : holeLength? n depth inside cs = none) :
    ∃ line, ∀ more, holeLength? n depth inside (cs ++ '\n' :: line ++ more) = some (n + cs.length + line.length) := by
  fun_induction holeLength? n depth inside cs with
  | case1 n depth inside =>
      -- the line end comes before the line: it is one character in code, in quotes and behind a backslash
      cases inside with
      | code =>
          refine ⟨List.replicate (depth + 1) '\x7d', fun more => ?_⟩
          have hbraces := holeLength?_braces (n + 1) depth more
          have hline : holeLength? n depth .code ('\n' :: (List.replicate (depth + 1) '\x7d' ++ more)) =
              holeLength? (n + 1) depth .code (List.replicate (depth + 1) '\x7d' ++ more) := by
            simp [holeLength?]
          rw [List.nil_append, List.cons_append, hline, hbraces, List.length_nil, List.length_replicate]
          congr 1
          omega
      | quote q =>
          refine ⟨q :: List.replicate (depth + 1) '\x7d', fun more => ?_⟩
          have hquote := holeLength?_quote hinside (n + 1) depth more
          have hplain : '\n' ≠ q := by
            rintro rfl
            exact absurd hinside (by simp [Inside.Quoted, quotes])
          rw [List.nil_append, List.cons_append, holeLength?, if_neg (by decide), if_neg hplain, hquote, List.length_nil,
            List.length_cons, List.length_replicate]
          congr 1
          omega
      | escaped q =>
          refine ⟨q :: List.replicate (depth + 1) '\x7d', fun more => ?_⟩
          have hquote := holeLength?_quote hinside (n + 1) depth more
          rw [List.nil_append, List.cons_append, holeLength?, hquote, List.length_nil, List.length_cons,
            List.length_replicate]
          congr 1
          omega
  | case2 n depth cs ih =>
      refine exists_followed_cons (fun ds => ?_) (ih trivial h)
      simp only [holeLength?, ↓reduceIte]
  | case3 => cases h
  | case4 n cs depth hopen ih =>
      refine exists_followed_cons (fun ds => ?_) (ih trivial h)
      simp only [holeLength?, if_neg hopen, ↓reduceIte]
  | case5 n depth c cs hopen hclose hquote ih =>
      refine exists_followed_cons (fun ds => ?_) (ih (mem_quotes_iff.mpr hquote) h)
      simp only [holeLength?, if_neg hopen, if_neg hclose, if_pos hquote]
  | case6 n depth c cs hopen hclose hquote ih =>
      refine exists_followed_cons (fun ds => ?_) (ih trivial h)
      simp only [holeLength?, if_neg hopen, if_neg hclose, if_neg hquote]
  | case7 n depth q c cs ih =>
      have hnext : (if c = '\\' then Inside.escaped q else if c = q then .code else .quote q).Quoted := by
        split
        · exact hinside
        · split
          · trivial
          · exact hinside
      exact exists_followed_cons (fun ds => by simp only [holeLength?]) (ih hnext h)
  | case8 n depth q c cs ih =>
      exact exists_followed_cons (fun ds => by simp only [holeLength?]) (ih hinside h)

theorem pieces?_backquote (n : Nat) : pieces? ⟨n, ['\x60']⟩ = some (⟨[], []⟩, ⟨n + '\x60'.utf8Size, []⟩) := by
  rw [pieces?]
  rfl

/-- Some text closes a hole and the template behind it. -/
theorem exists_hole_followed {inner : Cursor} (h : holeLength? 0 0 .code inner.rest = none) :
    ∃ line k n, holeLength? 0 0 .code (inner.followed line).rest = some k ∧
      (inner.followed line).skip (k + 1) = ⟨n, ['\x60']⟩ := by
  obtain ⟨line, hline⟩ := exists_holeLength?_followed (show Inside.code.Quoted from trivial) h
  have hrest : (inner.followed (line ++ ['\x60'])).rest = inner.rest ++ '\n' :: line ++ ['\x60'] := by
    simp [Cursor.followed]
  have hlength : (inner.rest ++ '\n' :: line).length = 0 + inner.rest.length + line.length + 1 := by
    rw [List.length_append, List.length_cons]
    omega
  refine ⟨line ++ ['\x60'], 0 + inner.rest.length + line.length, _, ?_, congrArg (Cursor.mk _) ?_⟩
  · rw [hrest]
    exact hline ['\x60']
  · rw [Cursor.rest_skip, hrest, ← hlength, List.drop_left]

/-- Some text closes a template and the hole that is open in it. -/
theorem exists_pieces?_followed (h : pieces? place = none) :
    ∃ line p n, pieces? (place.followed line) = some (p, ⟨n, []⟩) := by
  fun_induction pieces? place with
  | case1 place hn =>
      refine ⟨['\x60'], ⟨['\n'], []⟩, place.offset + '\n'.utf8Size + '\x60'.utf8Size, ?_⟩
      have hnext : (place.followed ['\x60']).next? = some ('\n', ⟨place.offset + '\n'.utf8Size, ['\x60']⟩) := by
        rw [Cursor.followed, Cursor.next?_eq_none_iff.mp hn]
        rfl
      rw [pieces?, hnext]
      simp [pieces?_backquote, Pieces.push]
  | case2 => cases h
  | case3 place after hn hquote ih =>
      have hopen := Option.map_eq_none_iff.mp h
      have hescape : ∀ line, pieces? (place.followed line) =
          (pieces? (escape (after.followed line)).2).map fun closed =>
            (closed.1.push (escape (after.followed line)).1.toList, closed.2) := by
        intro line
        have hnext : (place.followed line).next? = some ('\\', after.followed line) := Cursor.next?_extended hn
        rw [pieces?, hnext]
        simp only [if_neg hquote, ↓reduceIte]
      obtain ⟨n, rest⟩ := after
      by_cases hrest : rest = []
      · subst hrest
        refine ⟨['\x60'], ⟨[], []⟩, n + '\n'.utf8Size + '\x60'.utf8Size, ?_⟩
        have hline : escape (Cursor.followed ['\x60'] ⟨n, []⟩) = (none, ⟨n + '\n'.utf8Size, ['\x60']⟩) := rfl
        rw [hescape, hline, pieces?_backquote]
        rfl
      by_cases hreturn : rest = ['\r']
      · subst hreturn
        refine ⟨['\x60'], ⟨[], []⟩, n + '\r'.utf8Size + '\n'.utf8Size + '\x60'.utf8Size, ?_⟩
        have hline : escape (Cursor.followed ['\x60'] ⟨n, ['\r']⟩) =
            (none, ⟨n + '\r'.utf8Size + '\n'.utf8Size, ['\x60']⟩) := rfl
        rw [hescape, hline, pieces?_backquote]
        rfl
      · obtain ⟨line, p, m, hp⟩ := ih hopen
        have hinside : escape (Cursor.followed line ⟨n, rest⟩) =
            ((escape ⟨n, rest⟩).1, (escape ⟨n, rest⟩).2.followed line) :=
          escape_followed line hrest hreturn
        exact ⟨line, p.push (escape ⟨n, rest⟩).1.toList, m, by rw [hescape, hinside, hp]; rfl⟩
  | case4 place c after hn =>
      rename_i hquote hescape hhole inner hlength
      obtain ⟨line, k, n, hclosed, hstop⟩ := exists_hole_followed hlength
      have hopen := (hole_extended hhole ('\n' :: line)).1
      have hinner : (after.extended ('\n' :: line)).skip 1 = inner.followed line :=
        (hole_extended hhole ('\n' :: line)).2
      have hnext : (place.followed line).next? = some (c, after.extended ('\n' :: line)) := Cursor.next?_extended hn
      refine ⟨line, ?_⟩
      rw [pieces?, hnext]
      simp only [if_neg hquote, if_neg hescape, if_pos hopen, hinner, hclosed, hstop]
      rw [pieces?_backquote]
      exact ⟨_, _, rfl⟩
  | case5 place c after hn =>
      rename_i hquote hescape hhole inner n hlength hole ih
      obtain ⟨line, p, m, hp⟩ := ih (Option.map_eq_none_iff.mp h)
      have hbound := (holeLength?_bounds hlength).2
      have hopen := (hole_extended hhole ('\n' :: line)).1
      have hinner : (after.extended ('\n' :: line)).skip 1 = inner.extended ('\n' :: line) :=
        (hole_extended hhole ('\n' :: line)).2
      have hsame : holeLength? 0 0 .code (inner.extended ('\n' :: line)).rest = some n := holeLength?_append hlength _
      have hskip : (inner.extended ('\n' :: line)).skip (n + 1) = (inner.skip (n + 1)).followed line :=
        Cursor.skip_extended (by omega)
      have hnext : (place.followed line).next? = some (c, after.extended ('\n' :: line)) := Cursor.next?_extended hn
      refine ⟨line, ?_⟩
      rw [pieces?, hnext]
      simp only [if_neg hquote, if_neg hescape, if_pos hopen, hinner, hsame, hskip]
      rw [hp]
      exact ⟨_, _, rfl⟩
  | case6 place c after hn hquote hescape hhole ih =>
      obtain ⟨line, p, n, hp⟩ := ih (Option.map_eq_none_iff.mp h)
      have hnext : (place.followed line).next? = some (c, after.followed line) := Cursor.next?_extended hn
      have hplain : ¬(c = '$' ∧ (after.followed line).peek? = some '\x7b') := by
        rintro ⟨rfl, hpeek⟩
        exact hhole ⟨rfl, (Cursor.peek?_eq_some_extended fun _ => by simp).mp hpeek⟩
      refine ⟨line, p.push [c], n, ?_⟩
      rw [pieces?, hnext]
      simp only [if_neg hquote, if_neg hescape, if_neg hplain, hp]
      rfl

/-! ### Comments and numbers -/

theorem exists_blockEnd?_followed {n : Nat} {cs : List Char} (h : blockEnd? n cs = none) :
    ∃ m, blockEnd? n (cs ++ '\n' :: ['*', '/']) = some ⟨m, []⟩ := by
  fun_induction blockEnd? n cs with
  | case1 => cases h
  | case2 n c cs hplain ih =>
      rw [List.cons_append, blockEnd?]
      · exact ih h
      · intro ds hc hcs
        cases cs with
        | nil => cases hcs
        | cons d cs =>
            cases hcs
            exact hplain cs hc rfl
  | case3 n => exact ⟨_, rfl⟩

theorem endsNumber_line (line : List Char) : EndsNumber ('\n' :: line) := by
  rintro d ⟨⟩
  decide

theorem signLength_ended {more : List Char} (h : EndsNumber more) (cs : List Char) :
    signLength (cs ++ more) = signLength cs := by
  cases cs with
  | nil =>
      cases more with
      | nil => rfl
      | cons d more =>
          have hnumeric := h d rfl
          have hd : ¬(d = '+' ∨ d = '-') := by
            rintro (rfl | rfl) <;> cases hnumeric
          simp [signLength, hd]
  | cons c cs => rfl

theorem exponentLength?_ended {more : List Char} (h : EndsNumber more) (cs : List Char) :
    exponentLength? (cs ++ more) = exponentLength? cs := by
  cases cs with
  | nil => exact exponentLength?_extended rfl fun _ => h
  | cons c r =>
      have hdigits : ((r ++ more).drop (signLength r)).takeWhile Number.isDigit =
          (r.drop (signLength r)).takeWhile Number.isDigit := by
        rw [List.drop_append_of_le_length (signLength_le r)]
        exact takeWhile_extended fun _ => h.isDigit
      simp only [List.cons_append, exponentLength?, signLength_ended h, hdigits]

/-- A number, and what is none, stays so when something follows that no number goes on with. -/
theorem numberLength?_ended {more : List Char} (h : EndsNumber more) (cs : List Char) :
    numberLength? (cs ++ more) = numberLength? cs := by
  have hwhole : (cs ++ more).takeWhile Number.isDigit = cs.takeWhile Number.isDigit :=
    takeWhile_extended fun _ => h.isDigit
  have hwholeLength := wholeLength_le cs
  have hfractionLength := fractionLength_le (cs.drop (cs.takeWhile Number.isDigit).length)
  rw [List.length_drop] at hfractionLength
  have hfraction : fractionLength ((cs ++ more).drop (cs.takeWhile Number.isDigit).length) =
      fractionLength (cs.drop (cs.takeWhile Number.isDigit).length) := by
    rw [List.drop_append_of_le_length hwholeLength]
    exact fractionLength_extended fun _ => h
  cases hshort : numberLength? cs with
  | some n => exact numberLength?_extended hshort fun _ => h
  | none =>
      rw [Option.eq_none_iff_forall_ne_some]
      intro n hn
      obtain ⟨exponent, hexponent, rfl, hname⟩ := numberLength?_eq_some_iff.mp hn
      rw [hwhole, hfraction, List.drop_append_of_le_length (by omega), exponentLength?_ended h] at hexponent
      have hle := exponentLength?_le hexponent
      rw [List.length_drop] at hle
      rw [hwhole, hfraction, List.drop_append_of_le_length (by omega), List.head?_append] at hname
      have hlonger := numberLength?_eq_some_iff.mpr ⟨exponent, hexponent, rfl, ?_⟩
      · rw [hshort] at hlonger
        cases hlonger
      · cases hhead : (cs.drop ((cs.takeWhile Number.isDigit).length +
            fractionLength (cs.drop (cs.takeWhile Number.isDigit).length) + exponent)).head? with
        | none => rfl
        | some c =>
            rw [hhead] at hname
            exact hname

/-! ### Tokens -/

/-- What begins a token is decided without a look at the next line. -/
theorem lexeme_followed (c : Char) (after : Cursor) (line : List Char) :
    lexeme c (after.followed line) =
      if c = '/' ∧ after.peek? = some '/' then .ok (.comment, (after.followed line).skipWhile (· != '\n'))
      else if c = '/' ∧ after.peek? = some '*' then blockComment (after.followed line)
      else if c = '\'' ∨ c = '"' then textToken c (after.followed line)
      else if c = '\x60' then templateToken (after.followed line)
      else if Number.isDigit c || (c == '.' && after.peek?.any Number.isDigit) then numberToken c (after.followed line)
      else if isNameStart c then
        .ok (nameKind (String.ofList (c :: (after.followed line).rest.takeWhile isNameChar)),
          (after.followed line).skipWhile isNameChar)
      else punctToken c (after.followed line) :=
  lexeme_decided (by rintro _ ⟨⟩; decide) c after

abbrev extendedLexeme (more : List Char) (lexeme : TokenKind × Cursor) : TokenKind × Cursor :=
  (lexeme.1, lexeme.2.extended more)

theorem numberToken_ended {more : List Char} (h : EndsNumber more) (c : Char) (after : Cursor) :
    numberToken c (after.extended more) = (numberToken c after).map (extendedLexeme more) := by
  have hlength : numberLength? (c :: (after.extended more).rest) = numberLength? (c :: after.rest) :=
    numberLength?_ended h (c :: after.rest)
  unfold numberToken
  rw [hlength]
  split
  · rename_i n hn
    have hle := numberLength?_le hn
    rw [List.length_cons] at hle
    have htake : (after.extended more).rest.take (n - 1) = after.rest.take (n - 1) :=
      List.take_append_of_le_length (by omega)
    rw [htake, Cursor.skip_extended (by omega)]
    split <;> rfl
  · rfl

theorem punctToken_ended {more : List Char} (h : Uncontinued more) (c : Char) (after : Cursor) :
    punctToken c (after.extended more) = (punctToken c after).map (extendedLexeme more) := by
  cases hpunct : punctToken c after with
  | ok pair => exact punctToken_extended hpunct h
  | error cause =>
      have hsame : (Punct.all.find? fun p => p.text.toList.isPrefixOf (c :: (after.extended more).rest)) =
          Punct.all.find? fun p => p.text.toList.isPrefixOf (c :: after.rest) :=
        punct_extended h c after.rest
      unfold punctToken at hpunct ⊢
      rw [hsame]
      split at hpunct
      · cases hpunct
      · cases hpunct
        rfl

theorem numberToken_followed {c : Char} {cause : LexCause} (h : numberToken c after = .error cause)
    (line : List Char) : cause = .invalidNumber ∧ numberToken c (after.followed line) = .error .invalidNumber := by
  have hcause : cause = .invalidNumber := by
    unfold numberToken at h
    split at h
    · split at h <;> cases h
      rfl
    · cases h
      rfl
  subst hcause
  have hfollowed := numberToken_ended (endsNumber_line line) c after
  rw [h] at hfollowed
  exact ⟨rfl, hfollowed⟩

theorem punctToken_followed {c : Char} {cause : LexCause} (h : punctToken c after = .error cause) (line : List Char) :
    cause = .unexpectedChar c ∧ punctToken c (after.followed line) = .error (.unexpectedChar c) := by
  have hcause : cause = .unexpectedChar c := by
    unfold punctToken at h
    split at h <;> cases h
    rfl
  subst hcause
  have hfollowed := punctToken_ended (unpunctuated_line line).uncontinued c after
  rw [h] at hfollowed
  exact ⟨rfl, hfollowed⟩

/-- What stands at a place where no token can be read, and what reads it if a line follows. -/
inductive Unclosed (c : Char) (after : Cursor) : LexCause → Prop where
  | comment (hstar : after.peek? = some '*') (h : blockEnd? (after.skip 1).offset (after.skip 1).rest = none)
      (hline : ∀ line, lexeme c (after.followed line) = blockComment (after.followed line)) :
      Unclosed c after .unterminatedComment
  | text {end_ : Cursor} (hquote : c = '\'' ∨ c = '"') (h : quoted c after = .error end_)
      (hline : ∀ line, lexeme c (after.followed line) = textToken c (after.followed line)) :
      Unclosed c after
        (.unterminatedText (endsContinued (after.rest.take (after.rest.length - end_.rest.length))))
  | template (h : pieces? after = none)
      (hline : ∀ line, lexeme c (after.followed line) = templateToken (after.followed line)) :
      Unclosed c after .unterminatedTemplate
  | number (hline : ∀ line, lexeme c (after.followed line) = .error .invalidNumber) :
      Unclosed c after .invalidNumber
  | other (hline : ∀ line, lexeme c (after.followed line) = .error (.unexpectedChar c)) :
      Unclosed c after (.unexpectedChar c)

theorem unclosed_of_error {c : Char} {cause : LexCause} (h : lexeme c after = .error cause) :
    Unclosed c after cause := by
  unfold lexeme at h
  split at h
  · cases h
  rename_i hslashes
  split at h
  · rename_i hcomment
    unfold blockComment at h
    dsimp only at h
    split at h
    · cases h
    · rename_i hopen
      cases h
      exact .comment hcomment.2 hopen fun line => by rw [lexeme_followed, if_neg hslashes, if_pos hcomment]
  rename_i hcomment
  split at h
  · rename_i hquote
    unfold textToken at h
    split at h
    · cases h
    · rename_i hopen
      cases h
      exact .text hquote hopen fun line => by
        rw [lexeme_followed, if_neg hslashes, if_neg hcomment, if_pos hquote]
  rename_i hquote
  split at h
  · rename_i htemplate
    unfold templateToken at h
    split at h
    · cases h
    · rename_i hopen
      cases h
      exact .template hopen fun line => by
        rw [lexeme_followed, if_neg hslashes, if_neg hcomment, if_neg hquote, if_pos htemplate]
  rename_i htemplate
  split at h
  · rename_i hnumber
    obtain ⟨rfl, -⟩ := numberToken_followed h []
    exact .number fun line => by
      rw [lexeme_followed, if_neg hslashes, if_neg hcomment, if_neg hquote, if_neg htemplate, if_pos hnumber]
      exact (numberToken_followed h line).2
  rename_i hnumber
  split at h
  · cases h
  rename_i hname
  obtain ⟨rfl, -⟩ := punctToken_followed h []
  exact .other fun line => by
    rw [lexeme_followed, if_neg hslashes, if_neg hcomment, if_neg hquote, if_neg htemplate, if_neg hnumber,
      if_neg hname]
    exact (punctToken_followed h line).2

/-- What another line needs to find at the end of the source to close a token that stands there. -/
def Closable (c : Char) (after : Cursor) : LexCause → Prop
  | .unterminatedComment | .unterminatedTemplate => True
  | .unterminatedText continued => Awaits c (if continued then ['\r'] else []) after
  | .invalidNumber | .unexpectedChar _ => False

/-! ### Closing a token -/

/-- The line that closes a token can end right behind it. -/
theorem exists_closing {line : List Char} (hreaches : (after.followed line).Reaches stop)
    (hlt : stop.rest.length < ('\n' :: line).length) :
    ∃ closing, line = closing ++ stop.rest ∧ after.followed line = (after.followed closing).extended stop.rest := by
  obtain ⟨passed, hpassed, -⟩ := hreaches
  have hsuffix : stop.rest <:+ after.rest ++ '\n' :: line := ⟨passed, hpassed.symm⟩
  have hline : line <:+ after.rest ++ '\n' :: line := ⟨after.rest ++ ['\n'], by simp⟩
  obtain ⟨closing, hclosing⟩ := List.suffix_of_suffix_length_le hsuffix hline (Nat.le_of_lt_succ hlt)
  refine ⟨closing, hclosing.symm, ?_⟩
  rw [← hclosing]
  simp [Cursor.followed, Cursor.extended]

theorem blockComment_followed (hstar : after.peek? = some '*') (line : List Char) :
    blockComment (after.followed line) =
      match blockEnd? (after.skip 1).offset ((after.skip 1).rest ++ '\n' :: line) with
      | some stop => .ok (.comment, stop)
      | none => .error .unterminatedComment := by
  obtain ⟨n, _ | ⟨d, cs⟩⟩ := after
  · cases hstar
  · rfl

namespace Unclosed

variable {c : Char} {cause : LexCause} {kind : TokenKind} {line : List Char}

/-- A token that another line closes is closed by the part of the line up to its end. -/
theorem shortened (h : Unclosed c after cause) (hclosed : lexeme c (after.followed line) = .ok (kind, stop)) :
    ∃ closing, line = closing ++ stop.rest ∧
      lexeme c (after.followed closing) = .ok (kind, ⟨stop.offset, []⟩) := by
  have hreaches := reaches_lexeme hclosed
  cases h with
  | comment hstar hopen hline =>
      rw [hline, blockComment_followed hstar] at hclosed
      split at hclosed
      · rename_i stop' hend
        cases hclosed
        obtain ⟨closing, hsplit, -⟩ := exists_closing hreaches (length_lt_of_blockEnd?_open hopen hend)
        have hlonger : blockEnd? (after.skip 1).offset ((after.skip 1).rest ++ '\n' :: closing ++ stop.rest) =
            some ⟨stop.offset, stop.rest⟩ := by
          rw [List.append_assoc, List.cons_append, ← hsplit]
          exact hend
        refine ⟨closing, hsplit, ?_⟩
        rw [hline, blockComment_followed hstar, blockEnd?_shortened hlonger]
      · cases hclosed
  | text hquote hopen hline =>
      rw [hline, textToken] at hclosed
      split at hclosed
      · rename_i cs stop' hquoted
        cases hclosed
        obtain ⟨closing, hsplit, hfollowed⟩ := exists_closing hreaches (length_lt_of_quoted_open hopen hquoted)
        have hmem : c ∈ quotes := mem_quotes_iff.mpr (by rcases hquote with h | h <;> simp [h])
        rw [hfollowed] at hquoted
        refine ⟨closing, hsplit, ?_⟩
        rw [hline, textToken, quoted_shortened hmem hquoted]
      · cases hclosed
  | template hopen hline =>
      rw [hline, templateToken] at hclosed
      split at hclosed
      · rename_i p stop' hpieces
        cases hclosed
        obtain ⟨closing, hsplit, hfollowed⟩ := exists_closing hreaches (length_lt_of_pieces?_open hopen hpieces)
        rw [hfollowed] at hpieces
        refine ⟨closing, hsplit, ?_⟩
        rw [hline, templateToken, pieces?_shortened hpieces]
      · cases hclosed
  | number hline | other hline =>
      rw [hline] at hclosed
      cases hclosed

/-- Comments and templates can always be closed. A string can if it awaits the line end that stands before the next
line: all of it, or after a carriage return the rest. -/
theorem exists_closed_iff (h : Unclosed c after cause) :
    (∃ line kind stop, lexeme c (after.followed line) = .ok (kind, stop)) ↔ Closable c after cause := by
  cases h with
  | comment hstar hopen hline =>
      obtain ⟨m, hend⟩ := exists_blockEnd?_followed hopen
      refine iff_of_true ⟨['*', '/'], .comment, ⟨m, []⟩, ?_⟩ trivial
      rw [hline, blockComment_followed hstar, hend]
  | template hopen hline =>
      obtain ⟨line, p, n, hpieces⟩ := exists_pieces?_followed hopen
      refine iff_of_true ⟨line, .template p.template, ⟨n, []⟩, ?_⟩ trivial
      rw [hline, templateToken, hpieces]
  | text hquote hopen hline =>
      have hplain : c ≠ '\\' := by rcases hquote with rfl | rfl <;> decide
      have hclosed : ∀ line, (∃ kind stop, lexeme c (after.followed line) = .ok (kind, stop)) ↔
          (quoted c (after.followed line)).isOk = true := by
        intro line
        rw [hline, textToken]
        cases quoted c (after.followed line) with
        | ok closed => exact iff_of_true ⟨_, _, rfl⟩ rfl
        | error end_ =>
            refine iff_of_false ?_ nofun
            rintro ⟨kind, stop, hclosed⟩
            cases hclosed
      simp only [hclosed]
      rw [exists_quoted_followed_iff hquote hopen, awaits_iff hplain hopen]
      rfl
  | number hline | other hline =>
      refine iff_of_false ?_ id
      rintro ⟨line, kind, stop, hclosed⟩
      rw [hline] at hclosed
      cases hclosed

end Unclosed

end ScriptRepl.Syntax.Lexer
