import ScriptRepl.Json.Reader
import ScriptRepl.Json.Writer
import ScriptRepl.Proofs.Number.Digits
import ScriptRepl.Proofs.Syntax.Extended

/-! Readers that pass over exactly the characters they are meant for: literals, whole numbers and texts as they are
written. -/
namespace ScriptRepl.Json

open Text (Cursor)

namespace Reader

variable {α β : Type} {passed more rest : List Char}

/-- Wherever the characters stand before the rest, the reader passes over them, stops at the rest and gives the
value. -/
def Reads (reader : Reader α) (passed : List Char) (a : α) (rest : List Char) : Prop :=
  ∀ offset, reader.run ⟨offset, passed ++ rest⟩ = .ok (a, ⟨offset + Text.size passed, rest⟩)

theorem reads_pure (a : α) : Reads (pure a) [] a rest := by
  intro offset
  rfl

theorem Reads.bind {x : Reader α} {f : α → Reader β} {a : α} {b : β} (hx : Reads x passed a (more ++ rest))
    (hf : Reads (f a) more b rest) : Reads (x >>= f) (passed ++ more) b rest := by
  intro offset
  rw [StateT.run_bind, List.append_assoc, hx offset]
  change (f a).run _ = _
  rw [hf (offset + Text.size passed), Text.size_append, Nat.add_assoc]

/-- What looks ahead passes over nothing. -/
theorem Reads.look {x : Reader α} {f : α → Reader β} {a : α} {b : β} (hx : Reads x [] a (more ++ rest))
    (hf : Reads (f a) more b rest) : Reads (x >>= f) more b rest :=
  hx.bind hf

/-- What gives its result from there on passes over no more. -/
theorem Reads.finish {x : Reader α} {f : α → Reader β} {a : α} {b : β} (hx : Reads x passed a rest)
    (hf : Reads (f a) [] b rest) : Reads (x >>= f) passed b rest := by
  have hbind : Reads (x >>= f) (passed ++ []) b rest := hx.bind hf
  rwa [List.append_nil] at hbind

theorem Reads.map {x : Reader α} {a : α} (hx : Reads x passed a rest) (g : α → β) :
    Reads (x >>= fun a => pure (g a)) passed (g a) rest :=
  hx.finish (reads_pure (g a))

theorem Reads.cons {x : Reader α} {xs : Reader (List α)} {a : α} {as : List α}
    (hx : Reads x passed a (more ++ rest)) (hxs : Reads xs more as rest) :
    Reads (do return (← x) :: (← xs)) (passed ++ more) (a :: as) rest :=
  hx.bind (hxs.finish (reads_pure (a :: as)))

theorem reads_get {f : Cursor → Reader β} {b : β}
    (hf : ∀ offset, Reads (f ⟨offset, passed ++ rest⟩) passed b rest) : Reads (get >>= f) passed b rest := by
  intro offset
  exact hf offset offset

theorem reads_peek : Reads peek [] rest.head? rest := by
  intro offset
  rfl

theorem reads_advance (passed : List Char) : Reads (advance passed.length) passed () rest := by
  intro offset
  have hskip : Cursor.skip passed.length ⟨offset, passed ++ rest⟩ = ⟨offset + Text.size passed, rest⟩ := by
    induction passed generalizing offset with
    | nil => rfl
    | cons c passed ih =>
        rw [List.cons_append, List.length_cons, Cursor.skip, ih, Text.size, Nat.add_assoc]
  exact congrArg (fun place => Except.ok ((), place)) hskip

theorem Reads.next {f : Unit → Reader β} {b : β} (hf : Reads (f ()) passed b rest) (c : Char) :
    Reads (advance 1 >>= f) (c :: passed) b rest :=
  (reads_advance [c]).bind hf

/-- Nothing but blanks. -/
def Spaces (cs : List Char) : Prop :=
  ∀ c ∈ cs, isSpace c = true

instance (cs : List Char) : Decidable (Spaces cs) :=
  decidable_of_iff (cs.all isSpace = true) List.all_eq_true

theorem spaces_nil : Spaces [] := by
  decide

theorem reads_peekPastSpace (hpassed : Spaces passed) (hrest : ∀ c ∈ rest.head?, isSpace c = false) :
    Reads peekPastSpace passed rest.head? rest := by
  intro offset
  have hstop (n : Nat) : Cursor.skipWhile isSpace ⟨n, rest⟩ = ⟨n, rest⟩ := by
    cases rest with
    | nil => rfl
    | cons c rest =>
        have hc := hrest c rfl
        simp [Cursor.skipWhile, Cursor.skipWhile.go, hc]
  have hskip := Cursor.skipWhile_of_all hpassed offset rest
  rw [hstop] at hskip
  change Except.ok ((Cursor.skipWhile isSpace ⟨offset, passed ++ rest⟩).rest.head?,
    Cursor.skipWhile isSpace ⟨offset, passed ++ rest⟩) = _
  rw [hskip]

theorem reads_peekPastSpace_cons {c : Char} (hpassed : Spaces passed) (hc : isSpace c = false) :
    Reads peekPastSpace passed (some c) (c :: rest) := by
  apply reads_peekPastSpace hpassed
  intro d hd
  cases hd
  exact hc

theorem reads_expect (cs : List Char) : Reads (expect cs) cs () rest := by
  induction cs with
  | nil => exact reads_pure ()
  | cons c cs ih =>
      refine reads_peek.look ?_
      dsimp only [List.cons_append, List.head?_cons]
      rw [if_pos rfl]
      exact ih.next c

theorem reads_literal (value : α) (c : Char) (tail : String) :
    Reads (literal value tail) (c :: tail.toList) value rest :=
  Reads.next ((reads_expect tail.toList).finish (reads_pure value)) c

/-! ### Whole numbers -/

/-- What may follow a whole number: not more of a number. -/
def EndsNumber (rest : List Char) : Prop :=
  ∀ c ∈ rest.head?, Number.isDigit c = false ∧ c ≠ '.' ∧ c ≠ 'e' ∧ c ≠ 'E'

theorem endsNumber_cons {c : Char} (hc : Number.isDigit c = false ∧ c ≠ '.' ∧ c ≠ 'e' ∧ c ≠ 'E') :
    EndsNumber (c :: rest) := by
  intro d hd
  cases hd
  exact hc

theorem appendDigits_eq {n : Nat} {cs : List Char} (h : Nat.ofDigitChars 10 cs n ≤ maxWhole) :
    appendDigits n cs = (Nat.ofDigitChars 10 cs n, 0) := by
  induction cs generalizing n with
  | nil => rfl
  | cons c cs ih =>
      have hgrow (m : Nat) : m ≤ Nat.ofDigitChars 10 cs m := by
        rw [Nat.ofDigitChars_eq_ofDigitChars_zero]
        exact (Nat.le_mul_of_pos_left m (Nat.pow_pos (by decide))).trans (Nat.le_add_right _ _)
      have hnext : Nat.ofDigitChars 10 (c :: cs) n = Nat.ofDigitChars 10 cs (10 * n + (c.toNat - 48)) := rfl
      rw [hnext] at h ⊢
      rw [appendDigits, if_neg (Nat.not_lt.mpr ((hgrow _).trans h)), ih h]

theorem appendDigits_toDigits {n : Nat} (hn : n ≤ maxWhole) : appendDigits 0 (Nat.toDigits 10 n) = (n, 0) := by
  have hvalue : Nat.ofDigitChars 10 (Nat.toDigits 10 n) 0 = n :=
    Nat.ofDigitChars_toDigits (by decide) (Nat.le_refl 10)
  rw [appendDigits_eq (by rwa [hvalue]), hvalue]

/-- The digits of a whole number are kept exactly if its size and its sign fit into 64 bits. -/
theorem reads_numberTail {negative : Bool} {n : Nat} (hn : n ≤ maxWhole) (hrest : EndsNumber rest)
    (hnegative : negative = true → 0 < n ∧ n ≤ Number.twoTo 63) :
    Reads (numberTail negative (Nat.toDigits 10 n)) [] (.whole (if negative then -n else n)) rest := by
  unfold numberTail
  rw [appendDigits_toDigits hn]
  refine reads_peek.look ?_
  have htail : Reads
      (if 0 ≠ 0 then return .real (← scaled negative n 0)
      else if negative = false then return .whole n
      else if n = 0 ∨ Number.twoTo 63 < n then return .real (-(Number.ofNat n))
      else return .whole (-n) : Reader Num) [] (.whole (if negative then -n else n)) rest := by
    cases negative with
    | false => exact reads_pure _
    | true =>
        obtain ⟨hpos, hfits⟩ := hnegative rfl
        rw [if_neg (by decide), if_neg (by decide), if_neg (by omega)]
        exact reads_pure _
  cases rest with
  | nil => exact htail
  | cons c rest =>
      obtain ⟨-, hpoint, hlower, hupper⟩ := hrest c rfl
      dsimp only [List.nil_append, List.head?_cons]
      split
      · exact absurd (Option.some.inj ‹_›) hpoint
      · exact absurd (Option.some.inj ‹_›) hlower
      · exact absurd (Option.some.inj ‹_›) hupper
      · exact htail

theorem reads_takeDigits {digits : List Char} (hdigits : ∀ c ∈ digits, Number.isDigit c = true)
    (hrest : ∀ c ∈ rest.head?, Number.isDigit c = false) : Reads takeDigits digits digits rest := by
  have htake : (digits ++ rest).takeWhile Number.isDigit = digits := by
    rw [List.takeWhile_append_of_pos hdigits]
    cases rest with
    | nil => simp
    | cons c rest => simp [hrest c rfl]
  apply reads_get
  intro offset
  dsimp only
  rw [htake]
  exact (reads_advance digits).finish (reads_pure digits)

theorem toList_toString_ofNat (n : Nat) : (toString (Int.ofNat n)).toList = Nat.toDigits 10 n :=
  String.toList_ofList

theorem toList_toString_negSucc (n : Nat) : (toString (Int.negSucc n)).toList = '-' :: Nat.toDigits 10 (n + 1) := by
  change ("-" ++ Nat.repr (n + 1)).toList = _
  rw [String.toList_append]
  exact congrArg ('-' :: ·) String.toList_ofList

/-- How a number may start: with its sign or with a digit. -/
def StartsNumber (c : Char) : Prop :=
  c = '-' ∨ Number.isDigit c = true

instance (c : Char) : Decidable (StartsNumber c) :=
  inferInstanceAs (Decidable (_ ∨ _))

theorem StartsNumber.ne {c d : Char} (hc : StartsNumber c) (hd : ¬StartsNumber d) : c ≠ d := by
  rintro rfl
  exact hd hc

theorem StartsNumber.isSpace_eq_false {c : Char} (hc : StartsNumber c) : isSpace c = false := by
  have hother {d : Char} (hd : ¬StartsNumber d) : (c == d) = false := beq_eq_false_iff_ne.mpr (hc.ne hd)
  have hblank : ¬StartsNumber ' ' ∧ ¬StartsNumber '\n' ∧ ¬StartsNumber '\t' ∧ ¬StartsNumber '\r' := by decide
  obtain ⟨hspace, hline, htab, hreturn⟩ := hblank
  simp [isSpace, hother hspace, hother hline, hother htab, hother hreturn]

theorem exists_cons_toString (n : Int) : ∃ c cs, (toString n).toList = c :: cs ∧ StartsNumber c := by
  cases n with
  | ofNat n =>
      obtain ⟨c, cs, hdigits, hc, -⟩ := Number.exists_cons_toDigits n
      exact ⟨c, cs, (toList_toString_ofNat n).trans hdigits, .inr hc⟩
  | negSucc n => exact ⟨'-', _, toList_toString_negSucc n, .inl rfl⟩

/-- A numeral that stands alone is read to its end. -/
theorem reads_unsignedNumber {negative : Bool} {n : Nat} {x : Num} (hrest : EndsNumber rest)
    (htail : Reads (numberTail negative (Nat.toDigits 10 n)) [] x rest) :
    Reads (unsignedNumber negative) (Nat.toDigits 10 n) x rest := by
  have hstop (c : Char) (hc : c ∈ rest.head?) : Number.isDigit c = false := (hrest c hc).1
  have hall (c : Char) (hc : c ∈ Nat.toDigits 10 n) : Number.isDigit c = true := Number.isDigit_of_mem_toDigits hc
  have hdigits := reads_takeDigits hall hstop
  obtain ⟨c, cs, hnumeral, hc, hzero⟩ := Number.exists_cons_toDigits n
  rw [hnumeral] at hdigits htail ⊢
  refine reads_peek.look ?_
  dsimp only [List.cons_append, List.head?_cons]
  split
  · rename_i hnone
    cases hnone
  · rename_i hhead
    obtain rfl : n = 0 := hzero (Option.some.inj hhead)
    cases hnumeral
    refine Reads.next (reads_peek.look ?_) '0'
    cases rest with
    | nil => exact htail
    | cons d rest =>
        dsimp only [List.nil_append, List.head?_cons]
        rw [hstop d rfl, if_neg Bool.false_ne_true]
        exact htail
  · rename_i hhead
    cases hhead
    rw [if_pos hc]
    exact hdigits.finish htail

theorem reads_number {n : Int} (hlow : -(Number.twoTo 63 : Int) ≤ n) (hhigh : n ≤ maxWhole)
    (hrest : EndsNumber rest) : Reads number (toString n).toList (.whole n) rest := by
  cases n with
  | ofNat m =>
      have htail : Reads (numberTail false (Nat.toDigits 10 m)) [] (.whole m) rest :=
        reads_numberTail (Int.ofNat_le.mp hhigh) hrest nofun
      have hread := reads_unsignedNumber hrest htail
      rw [toList_toString_ofNat]
      obtain ⟨c, cs, hnumeral, hc, -⟩ := Number.exists_cons_toDigits m
      rw [hnumeral] at hread ⊢
      refine reads_peek.look ?_
      dsimp only [List.cons_append, List.head?_cons]
      split
      · rename_i hhead
        cases hhead
        cases hc
      · exact hread
  | negSucc m =>
      have hfits : m + 1 ≤ Number.twoTo 63 := by omega
      have hsize : Number.twoTo 63 ≤ maxWhole := by decide
      have htail : Reads (numberTail true (Nat.toDigits 10 (m + 1))) [] (.whole (Int.negSucc m)) rest :=
        reads_numberTail (hfits.trans hsize) hrest fun _ => ⟨Nat.succ_pos m, hfits⟩
      rw [toList_toString_negSucc]
      refine reads_peek.look ?_
      exact Reads.next (reads_unsignedNumber hrest htail) '-'

/-! ### Texts -/

theorem reads_hexUnit {a b c d : Char} {n : Nat} (h : hexValue? [a, b, c, d] = some n) :
    Reads hexUnit [a, b, c, d] n rest := by
  intro offset
  have hskip : Cursor.skip 4 ⟨offset, [a, b, c, d] ++ rest⟩ = ⟨offset + Text.size [a, b, c, d], rest⟩ := by
    simp [Cursor.skip, Text.size, Nat.add_assoc]
  rw [← hskip]
  unfold hexUnit StateT.run
  dsimp only [List.cons_append, List.nil_append, List.take_succ_cons, List.take_zero]
  rw [h]

/-- The escape of a control character that has none of its own. -/
theorem reads_unicodeEscape {c : Char} (hc : c.toNat < 0x20) :
    Reads unicodeEscape ['0', '0', hexDigit (c.toNat / 16), hexDigit c.toNat] c rest := by
  have hvalue : ∀ n < 0x20, hexValue? ['0', '0', hexDigit (n / 16), hexDigit n] = some n := by decide
  have hunit : Reads hexUnit ['0', '0', hexDigit (c.toNat / 16), hexDigit c.toNat] c.toNat rest :=
    reads_hexUnit (hvalue c.toNat hc)
  have hsurrogate : ∀ n < 0x20, (0xdc00 ≤ n && n ≤ 0xdfff) = false ∧ (0xd800 ≤ n && n ≤ 0xdbff) = false := by
    decide
  obtain ⟨hlow, hhigh⟩ := hsurrogate c.toNat hc
  intro offset
  change (hexUnit _ >>= _) = _
  rw [show hexUnit _ = _ from hunit offset]
  change (if (0xdc00 ≤ c.toNat && c.toNat ≤ 0xdfff) = true then _
    else if (0xd800 ≤ c.toNat && c.toNat ≤ 0xdbff) = true then _ else Except.ok (Char.ofNat c.toNat, _)) = _
  rw [hlow, hhigh, Char.ofNat_toNat]
  rfl

/-- A character is written as an escape that stands for it, or as itself if it can stand in a text. -/
theorem escapedChar_cases (c : Char) :
    (∃ tail, escapedChar c = '\\' :: tail ∧ ∀ rest, Reads escape tail c rest) ∨
    (escapedChar c = [c] ∧ c ≠ '"' ∧ c ≠ '\\' ∧ 0x20 ≤ c.toNat) := by
  unfold escapedChar
  split
  · exact .inl ⟨['"'], rfl, fun rest offset => rfl⟩
  · exact .inl ⟨['\\'], rfl, fun rest offset => rfl⟩
  · exact .inl ⟨['n'], rfl, fun rest offset => rfl⟩
  · exact .inl ⟨['r'], rfl, fun rest offset => rfl⟩
  · exact .inl ⟨['t'], rfl, fun rest offset => rfl⟩
  · exact .inl ⟨['b'], rfl, fun rest offset => rfl⟩
  · exact .inl ⟨['f'], rfl, fun rest offset => rfl⟩
  · rename_i hquote hbackslash _ _ _ _ _
    by_cases hcontrol : c.toNat < 0x20
    · rw [if_pos hcontrol]
      refine .inl ⟨_, rfl, fun rest offset => ?_⟩
      have hread : Reads unicodeEscape _ c rest := reads_unicodeEscape hcontrol
      have hread := hread (offset + 'u'.utf8Size)
      rw [Nat.add_assoc] at hread
      exact hread
    · rw [if_neg hcontrol]
      exact .inr ⟨rfl, hquote, hbackslash, Nat.le_of_not_lt hcontrol⟩

theorem reads_textTail_escape {fuel : Nat} {tail cs : List Char} {c : Char}
    (hescape : Reads escape tail c (more ++ rest)) (hmore : Reads (textTail fuel) more cs rest) :
    Reads (textTail (fuel + 1)) ('\\' :: tail ++ more) (c :: cs) rest := by
  intro offset
  have hread := hescape.cons hmore (offset + '\\'.utf8Size)
  rw [Nat.add_assoc] at hread
  exact hread

theorem reads_textTail_plain {fuel : Nat} {cs : List Char} {c : Char} (hquote : c ≠ '"') (hbackslash : c ≠ '\\')
    (hcontrol : 0x20 ≤ c.toNat) (hmore : Reads (textTail fuel) more cs rest) :
    Reads (textTail (fuel + 1)) (c :: more) (c :: cs) rest := by
  intro offset
  have hread := (reads_pure c).cons hmore (offset + c.utf8Size)
  rw [Nat.add_assoc] at hread
  change (if c = '"' then _ else if c = '\\' then _ else if c.toNat < 0x20 then _ else _) = _
  rw [if_neg hquote, if_neg hbackslash, if_neg (Nat.not_lt.mpr hcontrol)]
  exact hread

/-- A text is read to its closing quote, whatever the characters in it. -/
theorem reads_textTail {cs : List Char} {fuel : Nat} (hfuel : cs.length < fuel) :
    Reads (textTail fuel) (cs.flatMap escapedChar ++ ['"']) cs rest := by
  induction cs generalizing fuel with
  | nil =>
      cases fuel with
      | zero => exact absurd hfuel (Nat.not_lt_zero _)
      | succ fuel =>
          intro offset
          rfl
  | cons c cs ih =>
      cases fuel with
      | zero => exact absurd hfuel (Nat.not_lt_zero _)
      | succ fuel =>
          have ih := ih (Nat.lt_of_succ_lt_succ hfuel)
          rw [List.flatMap_cons, List.append_assoc]
          rcases escapedChar_cases c with ⟨tail, hescaped, hescape⟩ | ⟨hplain, hquote, hbackslash, hcontrol⟩
          · rw [hescaped]
            exact reads_textTail_escape (hescape _) ih
          · rw [hplain]
            exact reads_textTail_plain hquote hbackslash hcontrol ih

theorem length_le_flatMap_escapedChar (cs : List Char) : cs.length ≤ (cs.flatMap escapedChar).length := by
  induction cs with
  | nil => exact Nat.le_refl _
  | cons c cs ih =>
      have hc : 1 ≤ (escapedChar c).length := by
        rcases escapedChar_cases c with ⟨tail, hescaped, -⟩ | ⟨hplain, -⟩
        · rw [hescaped]
          exact Nat.succ_le_succ (Nat.zero_le _)
        · rw [hplain]
          exact Nat.le_refl 1
      rw [List.flatMap_cons, List.length_append, List.length_cons]
      omega

theorem toList_quote (s : String) : (quote s).toList = '"' :: (s.toList.flatMap escapedChar ++ ['"']) :=
  String.toList_ofList

theorem reads_text (s : String) : Reads text (quote s).toList s rest := by
  rw [toList_quote]
  apply Reads.next
  intro offset
  have hlength := length_le_flatMap_escapedChar s.toList
  have hfuel : s.toList.length < (s.toList.flatMap escapedChar ++ ['"'] ++ rest).length + 1 := by
    rw [List.length_append, List.length_append]
    omega
  have htail : textTail _ ⟨offset, s.toList.flatMap escapedChar ++ ['"'] ++ rest⟩ = _ := reads_textTail hfuel offset
  generalize s.toList.flatMap escapedChar ++ ['"'] ++ rest = cs at htail ⊢
  simp only [bind_pure_comp, StateT.run_bind, StateT.run_get, StateT.run_monadLift, monadLift_self, StateT.run_map,
    StateT.run_set, map_pure, Functor.map_map, pure_bind, htail, Except.map_ok, String.ofList_toList]

end Reader

end ScriptRepl.Json
