import Mathlib.Data.List.TakeWhile
import ScriptRepl.Syntax.Lexer

/-! A source that goes on keeps the tokens that end before its end: no reader looks further than one character past
its token, and no punctuator begins with what follows. -/
namespace ScriptRepl

namespace Text.Cursor

/-- The place in a text that goes on. -/
def extended (more : List Char) (place : Cursor) : Cursor :=
  ⟨place.offset, place.rest ++ more⟩

/-- The place in the text that goes on with another line. -/
def followed (line : List Char) (place : Cursor) : Cursor :=
  ⟨place.offset, place.rest ++ '\n' :: line⟩

variable {more : List Char} {place after stop : Cursor}

theorem next?_extended {c : Char} (h : place.next? = some (c, after)) :
    (place.extended more).next? = some (c, after.extended more) := by
  obtain ⟨n, _ | ⟨d, cs⟩⟩ := place
  · cases h
  · cases h
    rfl

theorem next?_eq_none_iff : place.next? = none ↔ place.rest = [] := by
  obtain ⟨n, _ | ⟨d, cs⟩⟩ := place
  · exact iff_of_true rfl rfl
  · exact iff_of_false nofun nofun

theorem peek?_extended (h : place.rest ≠ []) : (place.extended more).peek? = place.peek? := by
  obtain ⟨n, _ | ⟨d, cs⟩⟩ := place
  · exact absurd rfl h
  · rfl

theorem peek?_eq_some_extended {c : Char} (h : place.rest = [] → more.head? ≠ some c) :
    (place.extended more).peek? = some c ↔ place.peek? = some c := by
  obtain ⟨n, _ | ⟨d, cs⟩⟩ := place
  · exact iff_of_false (h rfl) nofun
  · rfl

theorem skip_extended {n : Nat} (h : n ≤ place.rest.length) :
    (place.extended more).skip n = (place.skip n).extended more := by
  induction n generalizing place with
  | zero => rfl
  | succ n ih =>
      obtain ⟨offset, _ | ⟨c, cs⟩⟩ := place
      · simp at h
      · have hrest : (extended more ⟨offset + c.utf8Size, cs⟩).skip n =
            (skip n ⟨offset + c.utf8Size, cs⟩).extended more :=
          ih (Nat.le_of_succ_le_succ h)
        exact hrest

theorem rest_skip (n : Nat) (place : Cursor) : (place.skip n).rest = place.rest.drop n := by
  fun_induction skip n place with
  | case1 n offset c cs ih => exact ih
  | case2 n place h =>
      cases n with
      | zero => rfl
      | succ n =>
          obtain ⟨offset, _ | ⟨c, cs⟩⟩ := place
          · rfl
          · exact absurd rfl (h n offset c cs rfl)

theorem rest_skipWhile (p : Char → Bool) (place : Cursor) : (place.skipWhile p).rest = place.rest.dropWhile p := by
  obtain ⟨n, cs⟩ := place
  unfold skipWhile
  dsimp only
  induction cs generalizing n with
  | nil => rfl
  | cons c cs ih =>
      simp only [skipWhile.go, List.dropWhile_cons]
      split
      · exact ih _
      · rfl

theorem next?_skipWhile_eq_none {p : Char → Bool} :
    (place.skipWhile p).next? = none ↔ ∀ c ∈ place.rest, p c = true := by
  rw [next?_eq_none_iff, rest_skipWhile, List.dropWhile_eq_nil_iff]

/-- A span that ends in the text or at what follows it. -/
theorem skipWhile_extended {p : Char → Bool} (h : (place.skipWhile p).rest = [] → ∀ d ∈ more.head?, p d = false) :
    (place.extended more).skipWhile p = (place.skipWhile p).extended more := by
  obtain ⟨n, cs⟩ := place
  rw [rest_skipWhile] at h
  unfold skipWhile extended
  dsimp only at h ⊢
  induction cs generalizing n with
  | nil =>
      cases more with
      | nil => rfl
      | cons d more => simp [skipWhile.go, h rfl d rfl]
  | cons c cs ih =>
      simp only [List.cons_append, skipWhile.go]
      by_cases hpc : p c = true
      · rw [List.dropWhile_cons_of_pos hpc] at h
        rw [if_pos hpc, if_pos hpc]
        exact ih _ h
      · rw [if_neg hpc, if_neg hpc]
        rfl

/-- Characters of the class that come first are passed over. -/
theorem skipWhile_of_all {p : Char → Bool} {passed : List Char} (h : ∀ c ∈ passed, p c = true) (n : Nat)
    (cs : List Char) : skipWhile p ⟨n, passed ++ cs⟩ = skipWhile p ⟨n + size passed, cs⟩ := by
  unfold skipWhile
  dsimp only
  induction passed generalizing n with
  | nil => rfl
  | cons c passed ih =>
      rw [List.cons_append, skipWhile.go, if_pos (h c List.mem_cons_self),
        ih (fun c hc => h c (List.mem_cons_of_mem _ hc)), size, Nat.add_assoc]

end Text.Cursor

namespace Syntax

open Text (Cursor isBlank isLineEnd isNameStart isNameChar)

namespace Lexer

variable {more : List Char} {place after stop : Cursor}

theorem takeWhile_extended {p : Char → Bool} {cs : List Char}
    (h : (cs.takeWhile p).length = cs.length → ∀ d ∈ more.head?, p d = false) :
    (cs ++ more).takeWhile p = cs.takeWhile p := by
  rw [List.takeWhile_append]
  split
  · rename_i hall
    have hmore : more.takeWhile p = [] := by
      cases more with
      | nil => rfl
      | cons d more => simp [h hall d rfl]
    have hcs : cs.takeWhile p = cs := (List.takeWhile_prefix p).eq_of_length hall
    rw [hmore, hcs, List.append_nil]
  · rfl

/-! ### Strings -/

def quotes : List Char :=
  ['\'', '"', '\x60']

/-- What a further digit does to the number read so far. -/
theorem hexDigits_none (ds : List Char) :
    ds.foldl (fun n? c => n?.bind fun n => (Number.digitValue? 16 c).map (16 * n + ·)) (none : Option Nat) = none := by
  induction ds with
  | nil => rfl
  | cons d ds ih => exact ih

theorem hexDigits_of_other {ds : List Char} {q : Char} (hq : Number.digitValue? 16 q = none) (h : q ∈ ds)
    (n? : Option Nat) :
    ds.foldl (fun n? c => n?.bind fun n => (Number.digitValue? 16 c).map (16 * n + ·)) n? = none := by
  induction ds generalizing n? with
  | nil => cases h
  | cons d ds ih =>
      rw [List.foldl_cons]
      rcases List.mem_cons.mp h with hd | hds
      · have hstep : (n?.bind fun n => (Number.digitValue? 16 d).map (16 * n + ·)) = none := by
          rw [← hd, hq]
          cases n? <;> rfl
        rw [hstep]
        exact hexDigits_none ds
      · exact ih hds _

/-- A character that is no digit, nor a plus sign. -/
theorem hexChar?_of_other {cs : List Char} {q : Char} (hq : Number.digitValue? 16 q = none) (hplus : q ≠ '+')
    (h : q ∈ cs) : hexChar? cs = none := by
  unfold hexChar?
  dsimp only
  rw [hexDigits_of_other hq]
  split
  · rename_i ds
    exact (List.mem_cons.mp h).resolve_left hplus
  · exact h

theorem hexChar?_of_quote {cs : List Char} {q : Char} (hq : q ∈ quotes) (h : q ∈ cs) : hexChar? cs = none := by
  have hdigit : quotes.all (fun q => (Number.digitValue? 16 q).isNone) = true := by decide
  have hplus : '+' ∉ quotes := by decide
  exact hexChar?_of_other (Option.isNone_iff_eq_none.mp (List.all_eq_true.mp hdigit q hq)) (fun heq => hplus (heq ▸ hq))
    h

theorem hexChar?_of_length {cs : List Char} (h : cs.length ≠ 4) : hexChar? cs = none := by
  unfold hexChar?
  dsimp only
  split
  · rw [if_neg fun hfour => h hfour.1]
  · rfl

theorem hexChar?_extended {cs : List Char} {q : Char} (hq : q ∈ quotes) (h : q ∈ cs) :
    hexChar? ((cs ++ more).take 4) = hexChar? (cs.take 4) := by
  by_cases hlength : 4 ≤ cs.length
  · rw [List.take_append_of_le_length hlength]
  · have hshort : (cs.take 4).length ≠ 4 := by
      rw [List.length_take]
      omega
    have hquote : q ∈ (cs ++ more).take 4 := by
      rw [List.take_append, List.take_of_length_le (by omega)]
      exact List.mem_append_left _ h
    rw [hexChar?_of_quote hq hquote, hexChar?_of_length hshort]

theorem length_of_hexChar? {cs : List Char} {d : Char} (h : hexChar? (cs.take 4) = some d) : 4 ≤ cs.length := by
  cases Nat.lt_or_ge cs.length 4 with
  | inl hlt =>
      have hshort : (cs.take 4).length ≠ 4 := by
        rw [List.length_take]
        omega
      rw [hexChar?_of_length hshort] at h
      cases h
  | inr hle => exact hle

theorem mem_of_reaches {a b : Cursor} {c : Char} (h : a.Reaches b) (hc : c ∈ b.rest) : c ∈ a.rest := by
  obtain ⟨passed, hrest, -⟩ := h
  rw [hrest]
  exact List.mem_append_right _ hc

/-- An escape inside of quotes. -/
theorem escape_extended {q : Char} (hq : q ∈ quotes) (h : q ∈ (escape place).2.rest) :
    escape (place.extended more) = ((escape place).1, (escape place).2.extended more) := by
  cases hn : place.next? with
  | none =>
      unfold escape at h
      rw [hn] at h
      rw [Cursor.next?_eq_none_iff.mp hn] at h
      cases h
  | some parts =>
      obtain ⟨c, after⟩ := parts
      unfold escape at h ⊢
      rw [Cursor.next?_extended hn]
      rw [hn] at h ⊢
      dsimp only at h ⊢
      split at h
      · rfl
      · rfl
      · rfl
      · rfl
      · rfl
      · rfl
      · rfl
      · have hafter : q ∈ after.rest := by
          split at h
          · exact mem_of_reaches (Cursor.reaches_skip 4 after) h
          · exact h
        have hhex : hexChar? ((after.extended more).rest.take 4) = hexChar? (after.rest.take 4) :=
          hexChar?_extended hq hafter
        rw [hhex]
        cases hd : hexChar? (after.rest.take 4) with
        | none => rfl
        | some d => exact congrArg (some d, ·) (Cursor.skip_extended (length_of_hexChar? hd))
      · obtain ⟨n, _ | ⟨d, ds⟩⟩ := after
        · cases h
        · have hpeek : (Cursor.extended more ⟨n, d :: ds⟩).peek? = Cursor.peek? ⟨n, d :: ds⟩ := rfl
          rw [hpeek]
          split
          · rfl
          · rfl
      · split
        · rfl
        · rfl

theorem rest_of_reaches {a b : Cursor} {c : Char} {rest : List Char} (h : a.Reaches b)
    (hb : ∃ word, b.rest = word ++ c :: rest) : ∃ word, a.rest = word ++ c :: rest := by
  obtain ⟨passed, hrest, -⟩ := h
  obtain ⟨word, hword⟩ := hb
  exact ⟨passed ++ word, by rw [hrest, hword, List.append_assoc]⟩

/-- The closing quote is the last character of a string. -/
theorem rest_of_quoted {quote : Char} {cs : List Char} (h : quoted quote place = .ok (cs, stop)) :
    ∃ word, place.rest = word ++ quote :: stop.rest := by
  fun_induction quoted quote place generalizing cs stop with
  | case1 => cases h
  | case2 => cases h
  | case3 place after hn _ =>
      obtain ⟨n, _ | ⟨d, ds⟩⟩ := place
      · cases hn
      · cases hn
        cases h
        exact ⟨[], rfl⟩
  | case4 place after cs' stop' hq hn _ _ ih =>
      cases h
      exact rest_of_reaches ((Cursor.reaches_of_next? hn).trans (reaches_escape _)) (ih hq)
  | case5 => cases h
  | case6 place c after hn _ _ _ cs' stop' hq ih =>
      cases h
      exact rest_of_reaches (Cursor.reaches_of_next? hn) (ih hq)
  | case7 => cases h

theorem mem_of_quoted {quote : Char} {cs : List Char} (h : quoted quote place = .ok (cs, stop)) :
    quote ∈ place.rest := by
  obtain ⟨word, hword⟩ := rest_of_quoted h
  rw [hword]
  exact List.mem_append_right word List.mem_cons_self

/-- A string that is closed. -/
theorem quoted_extended {quote : Char} {cs : List Char} (hquotes : quote ∈ quotes)
    (h : quoted quote place = .ok (cs, stop)) :
    quoted quote (place.extended more) = .ok (cs, stop.extended more) := by
  fun_induction quoted quote place generalizing cs stop with
  | case1 => cases h
  | case2 => cases h
  | case3 place after hn hline =>
      cases h
      rw [quoted, Cursor.next?_extended hn]
      simp only [if_neg hline, ↓reduceIte]
  | case4 place after cs' stop' hq hn hline hquote ih =>
      cases h
      have hescape := @escape_extended more _ _ hquotes (mem_of_quoted hq)
      have hrest := ih hq
      rw [quoted, Cursor.next?_extended hn]
      simp only [if_neg hline, if_neg hquote, ↓reduceIte, hescape, hrest]
  | case5 => cases h
  | case6 place c after hn hline hquote hescape cs' stop' hq ih =>
      cases h
      have hrest := ih hq
      rw [quoted, Cursor.next?_extended hn]
      simp only [if_neg hline, if_neg hquote, if_neg hescape, hrest]
  | case7 => cases h

/-! ### Templates -/

theorem holeLength?_bounds {n depth k : Nat} {inside : Inside} {cs : List Char}
    (h : holeLength? n depth inside cs = some k) : n ≤ k ∧ k < n + cs.length := by
  fun_induction holeLength? n depth inside cs with
  | case1 => cases h
  | case3 =>
      cases h
      simp
  | _ =>
      rename_i ih
      have hbounds := ih h
      rw [List.length_cons]
      omega

theorem holeLength?_append {n depth k : Nat} {inside : Inside} {cs : List Char}
    (h : holeLength? n depth inside cs = some k) (more : List Char) :
    holeLength? n depth inside (cs ++ more) = some k := by
  fun_induction holeLength? n depth inside cs with
  | case1 => cases h
  | case2 n depth cs ih =>
      simp only [List.cons_append, holeLength?, ↓reduceIte]
      exact ih h
  | case3 n cs hopen =>
      simp only [List.cons_append, holeLength?, if_neg hopen, ↓reduceIte]
      exact h
  | case4 n cs depth hopen ih =>
      simp only [List.cons_append, holeLength?, if_neg hopen, ↓reduceIte]
      exact ih h
  | case5 n depth c cs hopen hclose hquote ih =>
      simp only [List.cons_append, holeLength?, if_neg hopen, if_neg hclose, if_pos hquote]
      exact ih h
  | case6 n depth c cs hopen hclose hquote ih =>
      simp only [List.cons_append, holeLength?, if_neg hopen, if_neg hclose, if_neg hquote]
      exact ih h
  | case7 n depth q c cs ih =>
      simp only [List.cons_append, holeLength?]
      exact ih h
  | case8 n depth q c cs ih =>
      simp only [List.cons_append, holeLength?]
      exact ih h

/-- The closing quote is the last character of a template. -/
theorem rest_of_pieces? {p : Pieces} (h : pieces? place = some (p, stop)) :
    ∃ word, place.rest = word ++ '\x60' :: stop.rest := by
  fun_induction pieces? place generalizing p stop with
  | case1 => cases h
  | case2 place after hn =>
      obtain ⟨n, _ | ⟨d, ds⟩⟩ := place
      · cases hn
      · cases hn
        cases h
        exact ⟨[], rfl⟩
  | case3 place after hn _ ih =>
      obtain ⟨⟨p', stop'⟩, hp, heq⟩ := Option.map_eq_some_iff.mp h
      cases heq
      exact rest_of_reaches ((Cursor.reaches_of_next? hn).trans (reaches_escape _)) (ih hp)
  | case4 => cases h
  | case5 place c after hn =>
      rename_i ih
      obtain ⟨⟨p', stop'⟩, hp, heq⟩ := Option.map_eq_some_iff.mp h
      cases heq
      exact rest_of_reaches (((Cursor.reaches_of_next? hn).trans (Cursor.reaches_skip ..)).trans
        (Cursor.reaches_skip ..)) (ih hp)
  | case6 place c after hn _ _ _ ih =>
      obtain ⟨⟨p', stop'⟩, hp, heq⟩ := Option.map_eq_some_iff.mp h
      cases heq
      exact rest_of_reaches (Cursor.reaches_of_next? hn) (ih hp)

theorem mem_of_pieces? {p : Pieces} (h : pieces? place = some (p, stop)) : '\x60' ∈ place.rest := by
  obtain ⟨word, hword⟩ := rest_of_pieces? h
  rw [hword]
  exact List.mem_append_right word List.mem_cons_self

/-- A template that is closed. -/
theorem pieces?_extended {p : Pieces} (h : pieces? place = some (p, stop)) :
    pieces? (place.extended more) = some (p, stop.extended more) := by
  fun_induction pieces? place generalizing p stop with
  | case1 => cases h
  | case2 place after hn =>
      cases h
      rw [pieces?, Cursor.next?_extended hn]
      simp only [↓reduceIte]
  | case3 place after hn hquote ih =>
      obtain ⟨⟨p', stop'⟩, hp, heq⟩ := Option.map_eq_some_iff.mp h
      cases heq
      have hescape := @escape_extended more _ _ (by decide) (mem_of_pieces? hp)
      have hrest := ih hp
      rw [pieces?, Cursor.next?_extended hn]
      simp only [if_neg hquote, ↓reduceIte, hescape, hrest, Option.map_some]
  | case4 => cases h
  | case5 place c after hn =>
      rename_i hquote hescape hhole inner n hlength hole ih
      obtain ⟨⟨p', stop'⟩, hp, heq⟩ := Option.map_eq_some_iff.mp h
      cases heq
      have hbound := (holeLength?_bounds hlength).2
      have hafter : after.rest ≠ [] := by
        obtain ⟨offset, _ | ⟨d, cs⟩⟩ := after
        · cases hhole.2
        · exact List.cons_ne_nil d cs
      have hinner : (after.extended more).skip 1 = inner.extended more :=
        Cursor.skip_extended (List.length_pos_iff.mpr hafter)
      have hopen : c = '$' ∧ (after.extended more).peek? = some '\x7b' := by
        rw [Cursor.peek?_extended hafter]
        exact hhole
      have hsame : holeLength? 0 0 .code (inner.extended more).rest = some n := holeLength?_append hlength _
      have hsource : (inner.extended more).rest.take n = inner.rest.take n :=
        List.take_append_of_le_length (by omega)
      have hskip : (inner.extended more).skip (n + 1) = (inner.skip (n + 1)).extended more :=
        Cursor.skip_extended (by omega)
      have hrest := ih hp
      rw [pieces?, Cursor.next?_extended hn]
      simp only [if_neg hquote, if_neg hescape, if_pos hopen, hinner, hsame, hsource, hskip]
      rw [hrest]
      rfl
  | case6 place c after hn hquote hescape hhole ih =>
      obtain ⟨⟨p', stop'⟩, hp, heq⟩ := Option.map_eq_some_iff.mp h
      cases heq
      have hrest := ih hp
      have hplain : ¬(c = '$' ∧ (after.extended more).peek? = some '\x7b') := by
        rw [Cursor.peek?_extended (List.ne_nil_of_mem (mem_of_pieces? hp))]
        exact hhole
      rw [pieces?, Cursor.next?_extended hn]
      simp only [if_neg hquote, if_neg hescape, if_neg hplain, hrest, Option.map_some]

/-! ### Comments and numbers -/

theorem blockEnd?_extended {n : Nat} {cs : List Char} (h : blockEnd? n cs = some stop) :
    blockEnd? n (cs ++ more) = some (stop.extended more) := by
  fun_induction blockEnd? n cs with
  | case1 n cs =>
      cases h
      rfl
  | case2 n c cs hplain ih =>
      rw [List.cons_append, blockEnd?]
      · exact ih h
      · intro ds hc hcs
        cases cs with
        | nil => cases h
        | cons d cs =>
            cases hcs
            exact hplain cs hc rfl
  | case3 => cases h

/-- Whether a number could go on with the character, or would be none if it followed. -/
def isNumeric (d : Char) : Bool :=
  Number.isDigit d || d == '.' || d == 'e' || d == 'E' || d == '+' || d == '-' || isNameStart d

/-- A number ends before the text. -/
def EndsNumber (more : List Char) : Prop :=
  ∀ d ∈ more.head?, isNumeric d = false

theorem EndsNumber.isDigit (h : EndsNumber more) : ∀ d ∈ more.head?, Number.isDigit d = false := by
  intro d hd
  have hnumeric := h d hd
  unfold isNumeric at hnumeric
  simp_all

theorem fractionLength_le (cs : List Char) : fractionLength cs ≤ cs.length := by
  unfold fractionLength
  split
  · rename_i r
    have htake := (List.takeWhile_sublist (l := r) Number.isDigit).length_le
    rw [List.length_cons]
    omega
  · exact Nat.zero_le _

theorem fractionLength_extended {cs : List Char} (h : fractionLength cs = cs.length → EndsNumber more) :
    fractionLength (cs ++ more) = fractionLength cs := by
  cases cs with
  | nil =>
      cases more with
      | nil => rfl
      | cons d more =>
          have hnumeric := h rfl d rfl
          have hd : d ≠ '.' := by
            rintro rfl
            cases hnumeric
          simp [fractionLength, hd]
  | cons c cs =>
      by_cases hc : c = '.'
      · subst hc
        simp only [List.cons_append, fractionLength] at h ⊢
        rw [takeWhile_extended fun hall => (h (by rw [List.length_cons]; omega)).isDigit]
      · simp [fractionLength, hc]

theorem signLength_le (cs : List Char) : signLength cs ≤ cs.length := by
  cases cs with
  | nil => exact Nat.le_refl 0
  | cons c cs =>
      unfold signLength
      rw [List.length_cons]
      split
      · omega
      · omega

theorem signLength_extended {cs : List Char} (h : cs ≠ []) : signLength (cs ++ more) = signLength cs := by
  cases cs with
  | nil => exact absurd rfl h
  | cons c cs => rfl

theorem exponentLength?_le {cs : List Char} {n : Nat} (h : exponentLength? cs = some n) : n ≤ cs.length := by
  unfold exponentLength? at h
  split at h
  · rename_i c r
    split at h
    · dsimp only at h
      split at h
      · cases h
      · cases h
        have hsign := signLength_le r
        have htake := (List.takeWhile_sublist (l := r.drop (signLength r)) Number.isDigit).length_le
        rw [List.length_drop] at htake
        rw [List.length_cons]
        omega
    · cases h
      exact Nat.zero_le _
  · cases h
    exact Nat.zero_le _

theorem exponentLength?_extended {cs : List Char} {n : Nat} (h : exponentLength? cs = some n)
    (hmore : n = cs.length → EndsNumber more) : exponentLength? (cs ++ more) = some n := by
  cases cs with
  | nil =>
      cases h
      cases more with
      | nil => rfl
      | cons d more =>
          have hnumeric := hmore rfl d rfl
          have hd : ¬(d = 'e' ∨ d = 'E') := by
            rintro (rfl | rfl) <;> cases hnumeric
          simp [exponentLength?, hd]
  | cons c r =>
      simp only [List.cons_append, exponentLength?] at h ⊢
      by_cases hc : c = 'e' ∨ c = 'E'
      · rw [if_pos hc] at h ⊢
        split at h
        · cases h
        rename_i hdigits
        cases h
        have hr : r ≠ [] := by
          rintro rfl
          exact hdigits (by simp)
        have hsign := signLength_le r
        rw [signLength_extended hr, List.drop_append_of_le_length hsign, takeWhile_extended, if_neg hdigits]
        intro hall
        refine (hmore ?_).isDigit
        rw [hall, List.length_drop, List.length_cons]
        omega
      · rw [if_neg hc] at h ⊢
        exact h

theorem wholeLength_le (cs : List Char) : (cs.takeWhile Number.isDigit).length ≤ cs.length :=
  (List.takeWhile_sublist Number.isDigit).length_le

/-- The three parts of a number follow each other, and no name begins behind them. -/
theorem numberLength?_eq_some_iff {cs : List Char} {n : Nat} :
    numberLength? cs = some n ↔ ∃ exponent,
      exponentLength? (cs.drop ((cs.takeWhile Number.isDigit).length +
        fractionLength (cs.drop (cs.takeWhile Number.isDigit).length))) = some exponent ∧
      n = (cs.takeWhile Number.isDigit).length + fractionLength (cs.drop (cs.takeWhile Number.isDigit).length) +
        exponent ∧
      (cs.drop n).head?.any isNameStart = false := by
  unfold numberLength?
  dsimp only
  constructor
  · intro h
    split at h
    · cases h
    · rename_i exponent hexponent
      split at h
      · cases h
      · rename_i hname
        cases h
        exact ⟨exponent, hexponent, rfl, Bool.not_eq_true _ ▸ hname⟩
  · rintro ⟨exponent, hexponent, rfl, hname⟩
    rw [hexponent]
    simp only [hname, Bool.false_eq_true, if_false]

theorem numberLength?_le {cs : List Char} {n : Nat} (h : numberLength? cs = some n) : n ≤ cs.length := by
  have hwhole := wholeLength_le cs
  have hfraction := fractionLength_le (cs.drop (cs.takeWhile Number.isDigit).length)
  obtain ⟨exponent, hexponent, rfl, -⟩ := numberLength?_eq_some_iff.mp h
  have hle := exponentLength?_le hexponent
  rw [List.length_drop] at hfraction hle
  omega

/-- A number ends where it did. -/
theorem numberLength?_extended {cs : List Char} {n : Nat} (h : numberLength? cs = some n)
    (hmore : n = cs.length → EndsNumber more) : numberLength? (cs ++ more) = some n := by
  have hwhole := wholeLength_le cs
  have hfraction := fractionLength_le (cs.drop (cs.takeWhile Number.isDigit).length)
  have hn := numberLength?_le h
  obtain ⟨exponent, hexponent, heq, hname⟩ := numberLength?_eq_some_iff.mp h
  have hle := exponentLength?_le hexponent
  rw [List.length_drop] at hfraction hle
  have hwhole' : (cs ++ more).takeWhile Number.isDigit = cs.takeWhile Number.isDigit :=
    takeWhile_extended fun hall => (hmore (by omega)).isDigit
  have hfraction' : fractionLength ((cs ++ more).drop (cs.takeWhile Number.isDigit).length) =
      fractionLength (cs.drop (cs.takeWhile Number.isDigit).length) := by
    rw [List.drop_append_of_le_length hwhole]
    refine fractionLength_extended fun hall => hmore ?_
    rw [List.length_drop] at hall
    omega
  refine numberLength?_eq_some_iff.mpr ⟨exponent, ?_, ?_, ?_⟩
  · rw [hwhole', hfraction', List.drop_append_of_le_length (by omega)]
    refine exponentLength?_extended hexponent fun hall => hmore ?_
    rw [List.length_drop] at hall
    omega
  · rw [hwhole', hfraction']
    exact heq
  · rw [List.drop_append_of_le_length hn]
    cases hrest : cs.drop n with
    | nil =>
        have hend : n = cs.length := by
          have hlength := congrArg List.length hrest
          rw [List.length_drop, List.length_nil] at hlength
          omega
        cases more with
        | nil => rfl
        | cons d more =>
            have hnumeric := hmore hend d rfl
            unfold isNumeric at hnumeric
            simp_all
    | cons c rest =>
        rw [hrest] at hname
        exact hname

/-! ### Tokens -/

/-- No punctuator has the first character of the text. -/
def Unpunctuated (more : List Char) : Prop :=
  ∀ d ∈ more.head?, ∀ p : Punct, d ∉ p.text.toList

end Lexer

open Lexer in
/-- A token with `rest` behind it stays what it is when the text goes on. -/
def TokenKind.EndsBefore (rest more : List Char) : TokenKind → Prop
  | .comment => rest = [] → ∀ d ∈ more.head?, d = '\n'
  | .number _ => rest = [] → EndsNumber more
  | .name _ => rest = [] → ∀ d ∈ more.head?, isNameChar d = false
  | .keyword _ => rest = [] → ∀ d ∈ more.head?, isNameChar d = false
  | .punct _ => Unpunctuated more ∧ (rest = [] → ∀ d ∈ more.head?, Number.isDigit d = false)
  | .text _ => True
  | .template _ => True

namespace Lexer

variable {more : List Char} {place after stop : Cursor}

theorem unpunctuated_of_nameChar (h : ∀ d ∈ more.head?, isNameChar d = true) : Unpunctuated more := by
  intro d hd p hp
  have hplain : ∀ p : Punct, p.text.toList.all (fun c => !isNameChar c) = true := by
    intro p
    cases p <;> decide
  have hother := List.all_eq_true.mp (hplain p) d hp
  rw [h d hd] at hother
  cases hother

theorem isPrefixOf_extended {text : List Char} (h : ∀ d ∈ more.head?, d ∉ text) (cs : List Char) :
    text.isPrefixOf (cs ++ more) = text.isPrefixOf cs := by
  induction text generalizing cs with
  | nil => simp
  | cons c text ih =>
      cases cs with
      | nil =>
          cases more with
          | nil => rfl
          | cons d more =>
              have hc : c ≠ d := fun heq => h d rfl (heq ▸ List.mem_cons_self)
              simp [List.isPrefixOf_cons_cons, hc]
      | cons e cs =>
          have hrest := ih (fun d hd hmem => h d hd (List.mem_cons_of_mem c hmem)) cs
          simp only [List.cons_append, List.isPrefixOf_cons_cons, hrest]

/-- No punctuator goes on with the first character of the text. -/
def Uncontinued (more : List Char) : Prop :=
  ∀ d ∈ more.head?, ∀ p : Punct, d ∉ p.text.toList.tail

theorem Unpunctuated.uncontinued (h : Unpunctuated more) : Uncontinued more :=
  fun d hd p hp => h d hd p (List.mem_of_mem_tail hp)

theorem punct_extended (hmore : Uncontinued more) (c : Char) (cs : List Char) :
    (Punct.all.find? fun p => p.text.toList.isPrefixOf (c :: (cs ++ more))) =
      Punct.all.find? fun p => p.text.toList.isPrefixOf (c :: cs) := by
  congr
  funext p
  have htail := fun d hd => hmore d hd p
  generalize p.text.toList = text at htail
  cases text with
  | nil => rfl
  | cons d text =>
      have hsame : text.isPrefixOf (cs ++ more) = text.isPrefixOf cs := isPrefixOf_extended htail cs
      rw [List.isPrefixOf_cons_cons, List.isPrefixOf_cons_cons, hsame]

theorem blockComment_extended {kind : TokenKind} (hstar : after.peek? = some '*')
    (h : blockComment after = .ok (kind, stop)) :
    blockComment (after.extended more) = .ok (kind, stop.extended more) := by
  have hinner : (after.extended more).skip 1 = (after.skip 1).extended more := by
    refine Cursor.skip_extended ?_
    obtain ⟨offset, _ | ⟨d, cs⟩⟩ := after
    · cases hstar
    · simp
  unfold blockComment at h ⊢
  dsimp only at h ⊢
  rw [hinner]
  split at h
  · rename_i stop' hend
    cases h
    have hsame : blockEnd? ((after.skip 1).extended more).offset ((after.skip 1).extended more).rest =
        some (stop.extended more) :=
      blockEnd?_extended hend
    rw [hsame]
  · cases h

theorem textToken_extended {quote : Char} {kind : TokenKind} (hquote : quote ∈ quotes)
    (h : textToken quote after = .ok (kind, stop)) :
    textToken quote (after.extended more) = .ok (kind, stop.extended more) := by
  unfold textToken at h ⊢
  split at h
  · rename_i cs stop' hquoted
    cases h
    rw [quoted_extended hquote hquoted]
  · cases h

theorem templateToken_extended {kind : TokenKind} (h : templateToken after = .ok (kind, stop)) :
    templateToken (after.extended more) = .ok (kind, stop.extended more) := by
  unfold templateToken at h ⊢
  split at h
  · rename_i p stop' hpieces
    cases h
    rw [pieces?_extended hpieces]
  · cases h

theorem numberToken_extended {c : Char} {kind : TokenKind} (h : numberToken c after = .ok (kind, stop))
    (hmore : kind.EndsBefore stop.rest more) :
    numberToken c (after.extended more) = .ok (kind, stop.extended more) := by
  unfold numberToken at h ⊢
  split at h
  · rename_i n hn
    have hle := numberLength?_le hn
    rw [List.length_cons] at hle
    split at h
    · rename_i x hx
      cases h
      have hlength : numberLength? (c :: (after.extended more).rest) = some n := by
        refine @numberLength?_extended _ (c :: after.rest) _ hn fun hall => hmore ?_
        rw [Cursor.rest_skip, List.drop_eq_nil_iff]
        rw [hall, List.length_cons]
        omega
      have htake : (after.extended more).rest.take (n - 1) = after.rest.take (n - 1) :=
        List.take_append_of_le_length (by omega)
      rw [hlength]
      dsimp only
      rw [htake, hx, Cursor.skip_extended (by omega)]
    · cases h
  · cases h

theorem punctToken_extended {c : Char} {kind : TokenKind} (h : punctToken c after = .ok (kind, stop))
    (hmore : Uncontinued more) : punctToken c (after.extended more) = .ok (kind, stop.extended more) := by
  unfold punctToken at h ⊢
  split at h
  · rename_i p hp
    cases h
    have hpunct : (Punct.all.find? fun p => p.text.toList.isPrefixOf (c :: (after.extended more).rest)) = some p :=
      (punct_extended hmore c after.rest).trans hp
    rw [hpunct]
    dsimp only
    have hprefix : p.text.toList.isPrefixOf (c :: after.rest) = true :=
      List.find?_some (p := fun p : Punct => p.text.toList.isPrefixOf (c :: after.rest)) hp
    have hle := (List.isPrefixOf_iff_prefix.mp hprefix).length_le
    rw [String.length_toList, List.length_cons] at hle
    rw [Cursor.skip_extended (by omega)]
  · cases h

theorem kind_of_punctToken {c : Char} {kind : TokenKind} (h : punctToken c after = .ok (kind, stop)) :
    ∃ p, kind = .punct p := by
  unfold punctToken at h
  split at h <;> cases h
  exact ⟨_, rfl⟩

/-- A mark of division at the end does not turn into a comment. -/
theorem opensComment_extended {c d : Char} {kind : TokenKind} (hd : d = '/' ∨ d = '*')
    (h : lexeme c after = .ok (kind, stop)) (hmore : kind.EndsBefore stop.rest more) :
    (c = '/' ∧ (after.extended more).peek? = some d) ↔ (c = '/' ∧ after.peek? = some d) := by
  refine and_congr_right fun hc => Cursor.peek?_eq_some_extended fun hrest => ?_
  obtain ⟨n, cs⟩ := after
  cases hrest
  cases hc
  cases h
  rintro hhead
  rcases hd with rfl | rfl
  · exact hmore.1 _ hhead .divide (by decide)
  · exact hmore.1 _ hhead .times (by decide)

/-- A dot at the end does not turn into a number. -/
theorem opensNumber_extended {c : Char} {kind : TokenKind} (h : lexeme c after = .ok (kind, stop))
    (hmore : kind.EndsBefore stop.rest more) :
    (Number.isDigit c || (c == '.' && (after.extended more).peek?.any Number.isDigit)) =
      (Number.isDigit c || (c == '.' && after.peek?.any Number.isDigit)) := by
  by_cases hrest : after.rest = []
  · by_cases hc : c = '.'
    · obtain ⟨n, cs⟩ := after
      cases hrest
      cases hc
      cases h
      have hdigit : more.head?.any Number.isDigit = false := by
        rw [Option.any_eq_false]
        exact hmore.2 rfl
      exact congrArg (fun b => Number.isDigit '.' || ('.' == '.' && b)) hdigit
    · rw [beq_eq_false_iff_ne.mpr hc, Bool.false_and, Bool.false_and]
  · rw [Cursor.peek?_extended hrest]

theorem takeName_extended (hmore : (after.skipWhile isNameChar).rest = [] → ∀ d ∈ more.head?, isNameChar d = false) :
    (after.extended more).rest.takeWhile isNameChar = after.rest.takeWhile isNameChar := by
  refine takeWhile_extended fun hall => hmore ?_
  have hself := (List.takeWhile_prefix isNameChar).eq_of_length hall
  rw [Cursor.rest_skipWhile, List.dropWhile_eq_nil_iff]
  exact List.takeWhile_eq_self_iff.mp hself

theorem lexeme_extended {c : Char} {kind : TokenKind} (h : lexeme c after = .ok (kind, stop))
    (hmore : kind.EndsBefore stop.rest more) : lexeme c (after.extended more) = .ok (kind, stop.extended more) := by
  rw [lexeme]
  simp only [opensComment_extended (.inl rfl) h hmore, opensComment_extended (.inr rfl) h hmore,
    opensNumber_extended h hmore]
  unfold lexeme at h
  split at h
  · rename_i hline
    cases h
    rw [if_pos hline, Cursor.skipWhile_extended]
    intro hrest d hd
    rw [hmore hrest d hd]
    rfl
  rename_i hline
  rw [if_neg hline]
  split at h
  · rename_i hblock
    rw [if_pos hblock]
    exact blockComment_extended hblock.2 h
  rename_i hblock
  rw [if_neg hblock]
  split at h
  · rename_i hquote
    rw [if_pos hquote]
    exact textToken_extended (by rcases hquote with rfl | rfl <;> decide) h
  rename_i hquote
  rw [if_neg hquote]
  split at h
  · rename_i htemplate
    rw [if_pos htemplate]
    exact templateToken_extended h
  rename_i htemplate
  rw [if_neg htemplate]
  split at h
  · rename_i hnumber
    rw [if_pos hnumber]
    exact numberToken_extended h hmore
  rename_i hnumber
  rw [if_neg hnumber]
  split at h
  · rename_i hname
    cases h
    have hend : (after.skipWhile isNameChar).rest = [] → ∀ d ∈ more.head?, isNameChar d = false := by
      unfold nameKind at hmore
      split at hmore <;> exact hmore
    rw [if_pos hname, takeName_extended hend, Cursor.skipWhile_extended hend]
  rename_i hname
  rw [if_neg hname]
  obtain ⟨p, rfl⟩ := kind_of_punctToken h
  exact punctToken_extended h hmore.1.uncontinued

/-! ### Which reader a token comes from -/

/-- No reader but that of the punctuators begins here. -/
def Punctuates (c : Char) (after : Cursor) : Prop :=
  ¬ (c = '/' ∧ after.peek? = some '/') ∧ ¬ (c = '/' ∧ after.peek? = some '*') ∧ ¬ (c = '\'' ∨ c = '"') ∧ c ≠ '\x60' ∧
    ¬ (Number.isDigit c || (c == '.' && after.peek?.any Number.isDigit)) = true ∧ ¬ isNameStart c = true

/-- A token, the place behind it and the reader that it comes from. -/
inductive Yields (c : Char) (after : Cursor) : TokenKind → Cursor → Prop
  | line (hfirst : c = '/' ∧ after.peek? = some '/') : Yields c after .comment (after.skipWhile (· != '\n'))
  | block {stop : Cursor} (hfirst : c = '/' ∧ after.peek? = some '*') (h : blockComment after = .ok (.comment, stop)) :
    Yields c after .comment stop
  | text {cs : List Char} {stop : Cursor} (hfirst : c = '\'' ∨ c = '"') (h : quoted c after = .ok (cs, stop)) :
    Yields c after (.text (String.ofList cs)) stop
  | template {p : Pieces} {stop : Cursor} (hfirst : c = '\x60') (h : pieces? after = some (p, stop)) :
    Yields c after (.template p.template) stop
  | number {x : Float} {stop : Cursor}
      (hfirst : (Number.isDigit c || (c == '.' && after.peek?.any Number.isDigit)) = true)
      (h : numberToken c after = .ok (.number x, stop)) : Yields c after (.number x) stop
  | name {s : String} (hfirst : isNameStart c = true)
      (h : nameKind (String.ofList (c :: after.rest.takeWhile isNameChar)) = .name s) :
    Yields c after (.name s) (after.skipWhile isNameChar)
  | keyword {k : Keyword} (hfirst : isNameStart c = true)
      (h : nameKind (String.ofList (c :: after.rest.takeWhile isNameChar)) = .keyword k) :
    Yields c after (.keyword k) (after.skipWhile isNameChar)
  | punct {p : Punct} {stop : Cursor} (hfirst : Punctuates c after) (h : punctToken c after = .ok (.punct p, stop)) :
    Yields c after (.punct p) stop

theorem kind_of_blockComment {kind : TokenKind} (h : blockComment after = .ok (kind, stop)) : kind = .comment := by
  unfold blockComment at h
  dsimp only at h
  split at h <;> cases h
  rfl

theorem kind_of_numberToken {c : Char} {kind : TokenKind} (h : numberToken c after = .ok (kind, stop)) :
    ∃ x, kind = .number x := by
  unfold numberToken at h
  split at h
  · split at h <;> cases h
    exact ⟨_, rfl⟩
  · cases h

theorem yields_of_lexeme {c : Char} {kind : TokenKind} (h : lexeme c after = .ok (kind, stop)) :
    Yields c after kind stop := by
  unfold lexeme at h
  split at h
  · rename_i hline
    cases h
    exact .line hline
  rename_i hline
  split at h
  · rename_i hblock
    obtain rfl := kind_of_blockComment h
    exact .block hblock h
  rename_i hblock
  split at h
  · rename_i hquote
    unfold textToken at h
    split at h <;> cases h
    exact .text hquote ‹_›
  rename_i hquote
  split at h
  · rename_i hback
    unfold templateToken at h
    split at h <;> cases h
    exact .template hback ‹_›
  rename_i hback
  split at h
  · rename_i hnumber
    obtain ⟨x, rfl⟩ := kind_of_numberToken h
    exact .number hnumber h
  rename_i hnumber
  split at h
  · rename_i hname
    cases hword : Keyword.ofText? (String.ofList (c :: after.rest.takeWhile isNameChar)) with
    | some k =>
        have hkind : nameKind (String.ofList (c :: after.rest.takeWhile isNameChar)) = .keyword k := by
          rw [nameKind, hword]
        rw [hkind] at h
        cases h
        exact .keyword hname hkind
    | none =>
        have hkind : nameKind (String.ofList (c :: after.rest.takeWhile isNameChar)) =
            .name (String.ofList (c :: after.rest.takeWhile isNameChar)) := by
          rw [nameKind, hword]
        rw [hkind] at h
        cases h
        exact .name hname hkind
  rename_i hname
  obtain ⟨p, rfl⟩ := kind_of_punctToken h
  exact .punct ⟨hline, hblock, hquote, hback, hnumber, hname⟩ h

/-- What begins a token is decided without a look at what follows the text, unless that could be the second character
of what begins a comment or a number. -/
theorem lexeme_decided (hmore : ∀ d ∈ more.head?, d ≠ '/' ∧ d ≠ '*' ∧ Number.isDigit d = false) (c : Char)
    (after : Cursor) :
    lexeme c (after.extended more) =
      if c = '/' ∧ after.peek? = some '/' then .ok (.comment, (after.extended more).skipWhile (· != '\n'))
      else if c = '/' ∧ after.peek? = some '*' then blockComment (after.extended more)
      else if c = '\'' ∨ c = '"' then textToken c (after.extended more)
      else if c = '\x60' then templateToken (after.extended more)
      else if Number.isDigit c || (c == '.' && after.peek?.any Number.isDigit) then numberToken c (after.extended more)
      else if isNameStart c then
        .ok (nameKind (String.ofList (c :: (after.extended more).rest.takeWhile isNameChar)),
          (after.extended more).skipWhile isNameChar)
      else punctToken c (after.extended more) := by
  have hslash : (after.extended more).peek? = some '/' ↔ after.peek? = some '/' :=
    Cursor.peek?_eq_some_extended fun _ hhead => (hmore '/' hhead).1 rfl
  have hstar : (after.extended more).peek? = some '*' ↔ after.peek? = some '*' :=
    Cursor.peek?_eq_some_extended fun _ hhead => (hmore '*' hhead).2.1 rfl
  have hdigit : (after.extended more).peek?.any Number.isDigit = after.peek?.any Number.isDigit := by
    obtain ⟨n, _ | ⟨d, cs⟩⟩ := after
    · change more.head?.any Number.isDigit = false
      rw [Option.any_eq_false]
      exact fun d hd => (hmore d hd).2.2
    · rfl
  unfold lexeme
  simp only [hslash, hstar, hdigit]

/-- Where no token is left there are only blanks. -/
theorem isBlank_of_scan_nil {mark : EndMark} (h : scan place = ⟨[], .ok mark⟩) :
    ∀ c ∈ place.rest, isBlank c = true := by
  rw [scan.eq_def] at h
  dsimp only at h
  split at h
  · rename_i hn
    exact Cursor.next?_skipWhile_eq_none.mp hn
  · split at h <;> cases h

theorem endsBefore_of_newline (hpunct : Unpunctuated more) {rest : List Char}
    (hend : rest = [] → more.head? = some '\n') (kind : TokenKind) : kind.EndsBefore rest more := by
  have hhead : ∀ p : Char → Prop, p '\n' → rest = [] → ∀ d ∈ more.head?, p d := by
    intro p hp hrest d hd
    rw [hend hrest] at hd
    cases hd
    exact hp
  cases kind with
  | comment => exact hhead (· = '\n') rfl
  | number x => exact hhead (isNumeric · = false) (by decide)
  | name s => exact hhead (isNameChar · = false) (by decide)
  | keyword k => exact hhead (isNameChar · = false) (by decide)
  | punct p => exact ⟨hpunct, hhead (Number.isDigit · = false) (by decide)⟩
  | text s => trivial
  | template t => trivial

/-- The blanks before a token end at it, whatever follows. -/
theorem skipBlanks_extended {c : Char} (hn : (place.skipWhile isBlank).next? = some (c, after)) (more : List Char) :
    (place.extended more).skipWhile isBlank = (place.skipWhile isBlank).extended more ∧
      (place.extended more).rest.takeWhile isBlank = place.rest.takeWhile isBlank := by
  have hrest : (place.skipWhile isBlank).rest ≠ [] := by
    intro hnil
    rw [Cursor.next?_eq_none_iff.mpr hnil] at hn
    cases hn
  refine ⟨Cursor.skipWhile_extended fun hnil => absurd hnil hrest, takeWhile_extended fun hall => absurd ?_ hrest⟩
  rw [Cursor.rest_skipWhile, List.dropWhile_eq_nil_iff]
  exact List.takeWhile_eq_self_iff.mp ((List.takeWhile_prefix isBlank).eq_of_length hall)

theorem scan_of_lexeme_extended {c : Char} {kind : TokenKind} (hn : (place.skipWhile isBlank).next? = some (c, after))
    (hl : lexeme c (after.extended more) = .ok (kind, stop)) :
    scan (place.extended more) =
      ⟨⟨kind, (place.skipWhile isBlank).offset, stop.offset, (place.rest.takeWhile isBlank).any isLineEnd⟩ ::
        (scan stop).tokens, (scan stop).result⟩ := by
  obtain ⟨hskip, htake⟩ := skipBlanks_extended hn more
  have hnext : ((place.extended more).skipWhile isBlank).next? = some (c, after.extended more) := by
    rw [hskip]
    exact Cursor.next?_extended hn
  rw [scan_of_lexeme hnext hl, htake, hskip]
  rfl

/-- The tokens of a source that come before some place in it stay when it goes on; at its end only a line end keeps
the last one. -/
theorem scan_extended {before rest : List Token} (hsplit : (scan place).tokens = before ++ rest) :
    ∃ last : Cursor, place.Reaches last ∧ scan last = ⟨rest, (scan place).result⟩ ∧
      ∀ more, Unpunctuated more → (rest = [] → more.head? = some '\n') →
        scan (place.extended more) =
          ⟨before ++ (scan (last.extended more)).tokens, (scan (last.extended more)).result⟩ := by
  induction before generalizing place with
  | nil => exact ⟨place, .refl place, by rw [← show (scan place).tokens = rest from hsplit], fun _ _ _ => rfl⟩
  | cons t before ih =>
      have hscan := hsplit
      rw [scan.eq_def] at hscan
      dsimp only at hscan
      split at hscan
      · cases hscan
      rename_i c after hn
      split at hscan
      · cases hscan
      rename_i kind stop hl
      obtain ⟨rfl, hrest⟩ := List.cons.inj hscan
      obtain ⟨last, hreaches, hlast, hextended⟩ := ih hrest
      have hstop : place.Reaches stop :=
        ((Cursor.reaches_skipWhile isBlank place).trans (Cursor.reaches_of_next? hn)).trans (reaches_lexeme hl)
      rw [scan_of_lexeme hn hl]
      refine ⟨last, hstop.trans hreaches, hlast, fun more hpunct hend => ?_⟩
      have hkind : kind.EndsBefore stop.rest more := by
        refine endsBefore_of_newline hpunct (fun hstop => hend ?_) kind
        have hnone : (stop.skipWhile isBlank).next? = none := by
          rw [Cursor.next?_skipWhile_eq_none, hstop]
          exact fun c hc => absurd hc List.not_mem_nil
        rw [scan_of_end hnone] at hrest
        exact (List.append_eq_nil_iff.mp hrest.symm).2
      rw [scan_of_lexeme_extended hn (lexeme_extended hl hkind), hextended more hpunct hend]
      rfl

/-- The last token of a source that can be read: only blanks stand behind it, and the source may go on from the place
before it. -/
theorem exists_last_lexeme {before : List Token} {t : Token} {mark : EndMark}
    (hsplit : (scan place).tokens = before ++ [t]) (hok : (scan place).result = .ok mark) :
    ∃ (last after stop : Cursor) (c : Char), place.Reaches last ∧
      (last.skipWhile isBlank).next? = some (c, after) ∧ lexeme c after = .ok (t.kind, stop) ∧
      t = ⟨t.kind, (last.skipWhile isBlank).offset, stop.offset, (last.rest.takeWhile isBlank).any isLineEnd⟩ ∧
      (∀ d ∈ stop.rest, isBlank d = true) ∧
      ∀ more, Unpunctuated more → scan (place.extended more) =
        ⟨before ++ (scan (last.extended more)).tokens, (scan (last.extended more)).result⟩ := by
  obtain ⟨last, hreaches, hlast, hextended⟩ := scan_extended hsplit
  rw [hok, scan.eq_def] at hlast
  dsimp only at hlast
  split at hlast
  · cases hlast
  rename_i c after hn
  split at hlast
  · cases hlast
  rename_i kind stop hl
  rw [Lexed.mk.injEq, List.cons.injEq] at hlast
  obtain ⟨⟨rfl, hnil⟩, hresult⟩ := hlast
  exact ⟨last, after, stop, c, hreaches, hn, hl, rfl, isBlank_of_scan_nil (by rw [← hnil, ← hresult]),
    fun more hpunct => hextended more hpunct fun hnil => absurd hnil (List.cons_ne_nil _ _)⟩

/-! ### Further lines -/

theorem unpunctuated_line (line : List Char) : Unpunctuated ('\n' :: line) := by
  rintro d ⟨⟩ p
  cases p <;> decide

/-- The tokens of a source that can be cut up whole come first in those of a longer one, as no reader looks past the
line end behind it. What is left at its end is nothing but blanks. -/
theorem scan_followed {mark : EndMark} (h : (scan place).result = .ok mark) :
    ∃ last : Cursor, (∀ c ∈ last.rest, isBlank c = true) ∧ ∀ line,
      scan (place.followed line) =
        ⟨(scan place).tokens ++ (scan (last.followed line)).tokens, (scan (last.followed line)).result⟩ := by
  obtain ⟨last, -, hlast, hextended⟩ := scan_extended (List.append_nil (scan place).tokens).symm
  refine ⟨last, ?_, fun line => hextended _ (unpunctuated_line line) fun _ => rfl⟩
  rw [h] at hlast
  exact isBlank_of_scan_nil hlast

end Lexer

end Syntax

end ScriptRepl
