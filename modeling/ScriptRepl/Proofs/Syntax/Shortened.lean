import ScriptRepl.Proofs.Syntax.Extended

/-! A token that is closed is read alike without what stands behind it. A reader that finds no end in a text, and finds
one in a longer text, has read some of what follows; so the text can end right behind the token. -/
namespace ScriptRepl.Syntax.Lexer

open Text (Cursor isBlank isLineEnd)

variable {more : List Char} {place after stop : Cursor}

/-! ### Strings -/

theorem escape_other {c : Char} (hu : c ≠ 'u') (hreturn : c ≠ '\r') :
    ∃ shown, ∀ n cs, escape ⟨n, c :: cs⟩ = (shown, ⟨n + c.utf8Size, cs⟩) := by
  refine ⟨(escape ⟨0, [c]⟩).1, fun n cs => ?_⟩
  unfold escape
  dsimp only [Cursor.next?]
  split
  all_goals first | rfl | skip
  · exact absurd rfl hu
  · exact absurd rfl hreturn
  · split
    · rfl
    · rfl

theorem escape_hex {cs : List Char} {d : Char} (h : hexChar? (cs.take 4) = some d) (n : Nat) :
    escape ⟨n, 'u' :: cs⟩ = (some d, Cursor.skip 4 ⟨n + 'u'.utf8Size, cs⟩) := by
  unfold escape
  dsimp only [Cursor.next?]
  rw [h]
  rfl

theorem escape_noHex {cs : List Char} (h : hexChar? (cs.take 4) = none) (n : Nat) :
    escape ⟨n, 'u' :: cs⟩ = (some 'u', ⟨n + 'u'.utf8Size, cs⟩) := by
  unfold escape
  dsimp only [Cursor.next?]
  rw [h]
  rfl

theorem escape_return (n : Nat) (cs : List Char) (h : cs.head? ≠ some '\n') :
    escape ⟨n, '\r' :: cs⟩ = (none, ⟨n + '\r'.utf8Size, cs⟩) :=
  congrArg (none, ·) (if_neg h)

theorem escape_returnLine (n : Nat) (cs : List Char) :
    escape ⟨n, '\r' :: '\n' :: cs⟩ = (none, ⟨n + '\r'.utf8Size + '\n'.utf8Size, cs⟩) := by
  cases cs <;> rfl

/-- Behind a backslash at least one character is taken, if there is one. -/
theorem reaches_escape_of_next? {c : Char} (h : place.next? = some (c, after)) : after.Reaches (escape place).2 := by
  unfold escape
  rw [h]
  dsimp only
  split
  all_goals first
    | exact .refl _
    | (split <;> first | exact .refl _ | exact Cursor.reaches_skip ..)

theorem escape_u_extended {cs : List Char} (h : 4 ≤ cs.length) (n : Nat) (more : List Char) :
    escape ⟨n, 'u' :: (cs ++ more)⟩ = ((escape ⟨n, 'u' :: cs⟩).1, (escape ⟨n, 'u' :: cs⟩).2.extended more) := by
  have hwindow : (cs ++ more).take 4 = cs.take 4 := List.take_append_of_le_length h
  cases hhex : hexChar? (cs.take 4) with
  | none =>
      rw [escape_noHex (hwindow ▸ hhex), escape_noHex hhex]
      rfl
  | some d =>
      have hskip : Cursor.skip 4 (Cursor.extended more ⟨n + 'u'.utf8Size, cs⟩) = _ := Cursor.skip_extended h
      rw [escape_hex (hwindow ▸ hhex), escape_hex hhex]
      exact congrArg (some d, ·) hskip

theorem escape_return_extended {cs : List Char} (h : cs ≠ []) (n : Nat) (more : List Char) :
    escape ⟨n, '\r' :: (cs ++ more)⟩ = ((escape ⟨n, '\r' :: cs⟩).1, (escape ⟨n, '\r' :: cs⟩).2.extended more) := by
  obtain _ | ⟨d, cs⟩ := cs
  · exact absurd rfl h
  by_cases hline : d = '\n'
  · subst hline
    rw [List.cons_append, escape_returnLine, escape_returnLine]
    rfl
  · have hhead : ∀ ds : List Char, (d :: ds).head? ≠ some '\n' := fun _ h => hline (Option.some.inj h)
    rw [List.cons_append, escape_return n (d :: (cs ++ more)) (hhead _), escape_return n (d :: cs) (hhead _)]
    rfl

/-- An escape ends in the text, or it takes some of what follows. -/
theorem escape_extended_or (place : Cursor) (more : List Char) :
    escape (place.extended more) = ((escape place).1, (escape place).2.extended more) ∨
      (escape (place.extended more)).2.rest.length < more.length := by
  obtain ⟨n, _ | ⟨c, cs⟩⟩ := place
  · cases more with
    | nil => exact .inl rfl
    | cons d ds =>
        have hreaches : Cursor.Reaches ⟨n + d.utf8Size, ds⟩ (escape ⟨n, d :: ds⟩).2 := reaches_escape_of_next? rfl
        exact .inr (Nat.lt_succ_of_le hreaches.length_le)
  by_cases hu : c = 'u'
  · subst hu
    by_cases hlength : 4 ≤ cs.length
    · exact .inl (escape_u_extended hlength n more)
    change escape ⟨n, 'u' :: (cs ++ more)⟩ = _ ∨ (escape ⟨n, 'u' :: (cs ++ more)⟩).2.rest.length < more.length
    have hshort : (cs.take 4).length ≠ 4 := by
      rw [List.length_take]
      omega
    cases hhex : hexChar? ((cs ++ more).take 4) with
    | none =>
        left
        rw [escape_noHex hhex, escape_noHex (hexChar?_of_length hshort)]
        rfl
    | some d =>
        right
        have hle := length_of_hexChar? hhex
        rw [List.length_append] at hle
        rw [escape_hex hhex, Cursor.rest_skip, List.length_drop, List.length_append]
        omega
  by_cases hreturn : c = '\r'
  · subst hreturn
    by_cases hcs : cs = []
    · subst hcs
      change escape ⟨n, '\r' :: more⟩ = _ ∨ (escape ⟨n, '\r' :: more⟩).2.rest.length < more.length
      by_cases hline : more.head? = some '\n'
      · obtain ⟨ds, rfl⟩ := List.head?_eq_some_iff.mp hline
        rw [escape_returnLine]
        exact .inr (Nat.lt_succ_self ds.length)
      · rw [escape_return n more hline, escape_return n [] nofun]
        exact .inl rfl
    · exact .inl (escape_return_extended hcs n more)
  · obtain ⟨shown, hshown⟩ := escape_other hu hreturn
    rw [hshown]
    exact .inl (hshown n (cs ++ more))

/-- A closed string has at least its closing quote. -/
theorem length_lt_of_quoted {quote : Char} {cs : List Char} (h : quoted quote place = .ok (cs, stop)) :
    stop.rest.length < place.rest.length := by
  rw [quoted] at h
  split at h
  · cases h
  rename_i c after hn
  refine Nat.lt_of_le_of_lt ?_ (Cursor.length_lt_of_next? hn)
  split at h
  · cases h
  split at h
  · cases h
    exact Nat.le_refl _
  split at h
  · split at h
    · rename_i hquoted
      cases h
      exact ((reaches_escape after).trans (reaches_quoted hquoted)).length_le
    · cases h
  · split at h
    · rename_i hquoted
      cases h
      exact (reaches_quoted hquoted).length_le
    · cases h

/-- A string that is open at the end of the text closes behind the first character that follows, or later. -/
theorem length_lt_of_quoted_open {quote : Char} {end_ : Cursor} {cs : List Char} (h : quoted quote place = .error end_)
    (hmore : quoted quote (place.extended more) = .ok (cs, stop)) : stop.rest.length < more.length := by
  fun_induction quoted quote place generalizing cs stop with
  | case1 place hn =>
      have hclosed := length_lt_of_quoted hmore
      rw [Cursor.extended, Cursor.next?_eq_none_iff.mp hn, List.nil_append] at hclosed
      exact hclosed
  | case2 place c after hn hline =>
      rw [quoted, Cursor.next?_extended hn] at hmore
      simp only [if_pos hline] at hmore
      cases hmore
  | case3 => cases h
  | case4 => cases h
  | case5 place after end' hopen hn hline hquote ih =>
      cases h
      rw [quoted, Cursor.next?_extended hn] at hmore
      simp only [if_neg hline, if_neg hquote, ↓reduceIte] at hmore
      split at hmore
      · rename_i cs' stop' hquoted
        cases hmore
        rcases escape_extended_or after more with hsame | hbeyond
        · rw [hsame] at hquoted
          exact ih hopen hquoted
        · exact Nat.lt_of_le_of_lt (reaches_quoted hquoted).length_le hbeyond
      · cases hmore
  | case6 => cases h
  | case7 place c after hn hline hquote hescape end' hopen ih =>
      cases h
      rw [quoted, Cursor.next?_extended hn] at hmore
      simp only [if_neg hline, if_neg hquote, if_neg hescape] at hmore
      split at hmore
      · rename_i cs' stop' hquoted
        cases hmore
        exact ih hopen hquoted
      · cases hmore

/-- A reader that stops right before what follows stops at the end of the text. -/
theorem eq_atEnd_of_extended {n : Nat} (h : stop.extended more = ⟨n, more⟩) : stop = ⟨n, []⟩ := by
  obtain ⟨hoffset, hrest⟩ := Cursor.mk.inj h
  rw [List.append_left_eq_self] at hrest
  rw [← hoffset, ← hrest]

/-- The text of a closed string can end with its quote. -/
theorem quoted_shortened {quote : Char} {cs : List Char} {n : Nat} (hquote : quote ∈ quotes)
    (h : quoted quote (place.extended more) = .ok (cs, ⟨n, more⟩)) : quoted quote place = .ok (cs, ⟨n, []⟩) := by
  cases hshort : quoted quote place with
  | error end_ => exact absurd (length_lt_of_quoted_open hshort h) (Nat.lt_irrefl _)
  | ok closed =>
      rw [quoted_extended hquote hshort] at h
      obtain ⟨hcs, hstop⟩ := Prod.mk.inj (Except.ok.inj h)
      rw [← hcs, ← eq_atEnd_of_extended hstop]

/-! ### Templates -/

theorem le_of_holeLength?_open {n depth k : Nat} {inside : Inside} {cs : List Char}
    (h : holeLength? n depth inside cs = none) (hmore : holeLength? n depth inside (cs ++ more) = some k) :
    n + cs.length ≤ k := by
  fun_induction holeLength? n depth inside cs with
  | case1 => exact (holeLength?_bounds hmore).1
  | case2 n depth cs ih =>
      simp only [List.cons_append, holeLength?, ↓reduceIte] at hmore
      have hle := ih h hmore
      rw [List.length_cons]
      omega
  | case3 n cs hopen => cases h
  | case4 n cs depth hopen ih =>
      simp only [List.cons_append, holeLength?, if_neg hopen, ↓reduceIte] at hmore
      have hle := ih h hmore
      rw [List.length_cons]
      omega
  | case5 n depth c cs hopen hclose hquote ih =>
      simp only [List.cons_append, holeLength?, if_neg hopen, if_neg hclose, if_pos hquote] at hmore
      have hle := ih h hmore
      rw [List.length_cons]
      omega
  | case6 n depth c cs hopen hclose hquote ih =>
      simp only [List.cons_append, holeLength?, if_neg hopen, if_neg hclose, if_neg hquote] at hmore
      have hle := ih h hmore
      rw [List.length_cons]
      omega
  | case7 n depth q c cs ih =>
      simp only [List.cons_append, holeLength?] at hmore
      have hle := ih h hmore
      rw [List.length_cons]
      omega
  | case8 n depth q c cs ih =>
      simp only [List.cons_append, holeLength?] at hmore
      have hle := ih h hmore
      rw [List.length_cons]
      omega

theorem hole_extended {c : Char} (h : c = '$' ∧ place.peek? = some '\x7b') (more : List Char) :
    (c = '$' ∧ (place.extended more).peek? = some '\x7b') ∧
      (place.extended more).skip 1 = (place.skip 1).extended more := by
  obtain ⟨n, _ | ⟨d, cs⟩⟩ := place
  · cases h.2
  · exact ⟨h, rfl⟩

/-- A closed template has at least its closing backquote. -/
theorem length_lt_of_pieces? {p : Pieces} (h : pieces? place = some (p, stop)) :
    stop.rest.length < place.rest.length := by
  rw [pieces?] at h
  split at h
  · cases h
  rename_i c after hn
  refine Nat.lt_of_le_of_lt ?_ (Cursor.length_lt_of_next? hn)
  split at h
  · cases h
    exact Nat.le_refl _
  split at h
  · obtain ⟨⟨p', stop'⟩, hp, heq⟩ := Option.map_eq_some_iff.mp h
    cases heq
    exact ((reaches_escape after).trans (reaches_pieces? hp)).length_le
  split at h
  · dsimp only at h
    split at h
    · cases h
    · obtain ⟨⟨p', stop'⟩, hp, heq⟩ := Option.map_eq_some_iff.mp h
      cases heq
      exact (((Cursor.reaches_skip ..).trans (Cursor.reaches_skip ..)).trans (reaches_pieces? hp)).length_le
  · obtain ⟨⟨p', stop'⟩, hp, heq⟩ := Option.map_eq_some_iff.mp h
    cases heq
    exact (reaches_pieces? hp).length_le

/-- A template that is open at the end of the text closes behind the first character that follows, or later. -/
theorem length_lt_of_pieces?_open {p : Pieces} (h : pieces? place = none)
    (hmore : pieces? (place.extended more) = some (p, stop)) : stop.rest.length < more.length := by
  fun_induction pieces? place generalizing p stop with
  | case1 place hn =>
      have hclosed := length_lt_of_pieces? hmore
      rw [Cursor.extended, Cursor.next?_eq_none_iff.mp hn, List.nil_append] at hclosed
      exact hclosed
  | case2 => cases h
  | case3 place after hn hquote ih =>
      rw [pieces?, Cursor.next?_extended hn] at hmore
      simp only [if_neg hquote, ↓reduceIte] at hmore
      obtain ⟨⟨p', stop'⟩, hp, heq⟩ := Option.map_eq_some_iff.mp hmore
      cases heq
      rcases escape_extended_or after more with hsame | hbeyond
      · rw [hsame] at hp
        exact ih (Option.map_eq_none_iff.mp h) hp
      · exact Nat.lt_of_le_of_lt (reaches_pieces? hp).length_le hbeyond
  | case4 place c after hn =>
      rename_i hquote hescape hhole inner hlength
      have hopen := (hole_extended hhole more).1
      have hinner : (after.extended more).skip 1 = inner.extended more := (hole_extended hhole more).2
      rw [pieces?, Cursor.next?_extended hn] at hmore
      simp only [if_neg hquote, if_neg hescape, if_pos hopen, hinner] at hmore
      split at hmore
      · cases hmore
      rename_i k hk
      obtain ⟨⟨p', stop'⟩, hp, heq⟩ := Option.map_eq_some_iff.mp hmore
      cases heq
      have hrest : (inner.extended more).rest.length = inner.rest.length + more.length := List.length_append
      have hle : 0 + inner.rest.length ≤ k := le_of_holeLength?_open hlength hk
      have hlt : k < 0 + (inner.extended more).rest.length := (holeLength?_bounds hk).2
      have hstop := length_lt_of_pieces? hp
      rw [Cursor.rest_skip, List.length_drop] at hstop
      dsimp only
      omega
  | case5 place c after hn =>
      rename_i hquote hescape hhole inner n hlength hole ih
      have hbound := (holeLength?_bounds hlength).2
      have hopen := (hole_extended hhole more).1
      have hinner : (after.extended more).skip 1 = inner.extended more := (hole_extended hhole more).2
      have hsame : holeLength? 0 0 .code (inner.extended more).rest = some n := holeLength?_append hlength _
      have hskip : (inner.extended more).skip (n + 1) = (inner.skip (n + 1)).extended more :=
        Cursor.skip_extended (by omega)
      rw [pieces?, Cursor.next?_extended hn] at hmore
      simp only [if_neg hquote, if_neg hescape, if_pos hopen, hinner, hsame, hskip] at hmore
      obtain ⟨⟨p', stop'⟩, hp, heq⟩ := Option.map_eq_some_iff.mp hmore
      cases heq
      exact ih (Option.map_eq_none_iff.mp h) hp
  | case6 place c after hn hquote hescape hhole ih =>
      rw [pieces?, Cursor.next?_extended hn] at hmore
      simp only [if_neg hquote, if_neg hescape] at hmore
      -- a dollar sign at the end of the text may open a hole with what follows
      by_cases hafter : after.rest = []
      · have hrest : (after.extended more).rest = more := by rw [Cursor.extended, hafter, List.nil_append]
        rw [← hrest]
        split at hmore
        · split at hmore
          · cases hmore
          · obtain ⟨⟨p', stop'⟩, hp, heq⟩ := Option.map_eq_some_iff.mp hmore
            cases heq
            refine Nat.lt_of_lt_of_le (length_lt_of_pieces? hp) ?_
            exact ((Cursor.reaches_skip ..).trans (Cursor.reaches_skip ..)).length_le
        · obtain ⟨⟨p', stop'⟩, hp, heq⟩ := Option.map_eq_some_iff.mp hmore
          cases heq
          exact length_lt_of_pieces? hp
      · rw [if_neg (by rw [Cursor.peek?_extended hafter]; exact hhole)] at hmore
        obtain ⟨⟨p', stop'⟩, hp, heq⟩ := Option.map_eq_some_iff.mp hmore
        cases heq
        exact ih (Option.map_eq_none_iff.mp h) hp

/-- The text of a closed template can end with its backquote. -/
theorem pieces?_shortened {p : Pieces} {n : Nat} (h : pieces? (place.extended more) = some (p, ⟨n, more⟩)) :
    pieces? place = some (p, ⟨n, []⟩) := by
  cases hshort : pieces? place with
  | none => exact absurd (length_lt_of_pieces?_open hshort h) (Nat.lt_irrefl _)
  | some closed =>
      rw [pieces?_extended hshort] at h
      obtain ⟨hp, hstop⟩ := Prod.mk.inj (Option.some.inj h)
      rw [← hp, ← eq_atEnd_of_extended hstop]

/-! ### Comments -/

theorem length_lt_of_blockEnd? {n : Nat} {cs : List Char} (h : blockEnd? n cs = some stop) :
    stop.rest.length < cs.length := by
  fun_induction blockEnd? n cs with
  | case1 n cs =>
      cases h
      exact Nat.lt_succ_of_lt (Nat.lt_succ_self cs.length)
  | case2 n c cs hplain ih => exact Nat.lt_succ_of_lt (ih h)
  | case3 => cases h

/-- A comment that is open at the end of the text closes behind the first character that follows, or later. -/
theorem length_lt_of_blockEnd?_open {n : Nat} {cs : List Char} (h : blockEnd? n cs = none)
    (hmore : blockEnd? n (cs ++ more) = some stop) : stop.rest.length < more.length := by
  fun_induction blockEnd? n cs with
  | case1 => cases h
  | case2 n c cs hplain ih =>
      -- the star at the end of the text may close the comment with a slash that follows
      by_cases hend : ∃ ds, c = '*' ∧ cs ++ more = '/' :: ds
      · obtain ⟨ds, rfl, hslash⟩ := hend
        cases cs with
        | nil =>
            rw [List.nil_append] at hslash
            rw [hslash] at hmore ⊢
            cases hmore
            exact Nat.lt_succ_self ds.length
        | cons d cs =>
            obtain ⟨rfl, -⟩ := List.cons.inj hslash
            exact absurd rfl (hplain cs rfl)
      · rw [List.cons_append, blockEnd?] at hmore
        · exact ih h hmore
        · exact fun ds hc hcs => hend ⟨ds, hc, hcs⟩
  | case3 n => exact length_lt_of_blockEnd? hmore

theorem blockEnd?_shortened {n m : Nat} {cs : List Char} (h : blockEnd? n (cs ++ more) = some ⟨m, more⟩) :
    blockEnd? n cs = some ⟨m, []⟩ := by
  cases hshort : blockEnd? n cs with
  | none => exact absurd (length_lt_of_blockEnd?_open hshort h) (Nat.lt_irrefl _)
  | some closed =>
      rw [blockEnd?_extended hshort] at h
      rw [← eq_atEnd_of_extended (Option.some.inj h)]

end ScriptRepl.Syntax.Lexer
