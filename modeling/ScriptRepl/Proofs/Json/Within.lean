import ScriptRepl.Json.Reader
import ScriptRepl.Proofs.Text.Size

/-! A JSON value that has been read has no text in it that takes more bytes than the source. -/
namespace ScriptRepl.Json

open Text (Cursor size)

mutual

/-- No text in the value takes more than so many bytes. Keys do not count. -/
def TextsWithin (n : Nat) : Json → Prop
  | .text s => s.utf8ByteSize ≤ n
  | .array items => ItemsWithin n items
  | .object fields => FieldsWithin n fields
  | .null | .bool _ | .number _ => True

def ItemsWithin (n : Nat) : List Json → Prop
  | [] => True
  | item :: items => item.TextsWithin n ∧ ItemsWithin n items

def FieldsWithin (n : Nat) : List (String × Json) → Prop
  | [] => True
  | (_, item) :: fields => item.TextsWithin n ∧ FieldsWithin n fields

end

variable {n : Nat}

theorem FieldsWithin.put {key : String} {item : Json} {fields : List (String × Json)} (hitem : item.TextsWithin n)
    (hfields : FieldsWithin n fields) : FieldsWithin n (Entries.put key item fields) := by
  induction fields with
  | nil => exact ⟨hitem, trivial⟩
  | cons field fields ih =>
      rw [Entries.put]
      split
      · exact ⟨hitem, hfields.2⟩
      · exact ⟨hfields.1, ih hfields.2⟩

namespace Reader

/-- From a place before no more than `n` bytes, the reader does not go back, and what it gives has the property. -/
def Gives (n : Nat) (P : α → Prop) (x : Reader α) : Prop :=
  ∀ place a after, size place.rest ≤ n → x.run place = .ok (a, after) → P a ∧ size after.rest ≤ n

/-- The reader does not go back. -/
abbrev Forward (n : Nat) (x : Reader α) : Prop :=
  Gives n (fun _ => True) x

section

variable {P : α → Prop} {Q : β → Prop} {x : Reader α}

theorem gives_pure {a : α} (h : P a) : Gives n P (pure a) := by
  rintro place _ _ hplace hrun
  cases hrun
  exact ⟨h, hplace⟩

theorem gives_failHere (cause : Cause) : Gives n P (failHere cause) := by
  rintro place a after - hrun
  cases hrun

theorem gives_failNext (cause : Cause) : Gives n P (failNext cause) := by
  rintro place a after - hrun
  cases hrun

theorem Gives.bind {f : α → Reader β} (hx : Gives n P x) (hf : ∀ a, P a → Gives n Q (f a)) :
    Gives n Q (x >>= f) := by
  intro place b last hplace hrun
  have hsplit : (x >>= f).run place = x.run place >>= fun r => (f r.1).run r.2 := rfl
  rw [hsplit] at hrun
  cases hfirst : x.run place with
  | error fault =>
      rw [hfirst] at hrun
      cases hrun
  | ok r =>
      rw [hfirst] at hrun
      obtain ⟨ha, hafter⟩ := hx place r.1 r.2 hplace hfirst
      exact hf r.1 ha r.2 b last hafter hrun

theorem Gives.andThen {f : α → Reader β} (hx : Forward n x) (hf : ∀ a, Gives n Q (f a)) : Gives n Q (x >>= f) :=
  hx.bind fun a _ => hf a

theorem Gives.get {f : Cursor → Reader β} (hf : ∀ place, size place.rest ≤ n → Gives n Q (f place)) :
    Gives n Q (get >>= f) :=
  fun place b last hplace => hf place hplace place b last hplace

theorem Gives.lift {e : Except Fault α} {f : α → Reader β} (hf : ∀ a, e = .ok a → Gives n Q (f a)) :
    Gives n Q (liftM e >>= f) := by
  rintro place b last hplace hrun
  cases e with
  | error fault => cases hrun
  | ok a => exact hf a rfl place b last hplace hrun

theorem gives_set {place : Cursor} (h : size place.rest ≤ n) : Forward n (set place) := by
  rintro _ _ _ - hrun
  cases hrun
  exact ⟨trivial, h⟩

theorem forward_modify {f : Cursor → Cursor} (hf : ∀ place : Cursor, place.Reaches (f place)) :
    Forward n (modify f) := by
  rintro place _ _ hplace hrun
  cases hrun
  exact ⟨trivial, Nat.le_trans (hf place).size_le hplace⟩

end

theorem forward_advance (k : Nat) : Forward n (advance k) :=
  forward_modify (Cursor.reaches_skip k)

theorem forward_peek : Forward n peek :=
  .get fun _ _ => gives_pure trivial

theorem forward_peekPastSpace : Forward n peekPastSpace :=
  .andThen (forward_modify (Cursor.reaches_skipWhile isSpace)) fun _ => forward_peek

theorem forward_expect (cs : List Char) : Forward n (expect cs) := by
  induction cs with
  | nil => exact gives_pure trivial
  | cons c cs ih =>
      refine .andThen forward_peek fun d => ?_
      split
      · exact gives_failHere _
      · split
        · exact .andThen (forward_advance 1) fun _ => ih
        · exact gives_failNext _

theorem gives_literal {P : α → Prop} {a : α} (h : P a) (tail : String) : Gives n P (literal a tail) :=
  .andThen (forward_advance 1) fun _ => .andThen (forward_expect _) fun _ => gives_pure h

/-! ### Texts -/

/-- An escape takes no fewer bytes than the character that it stands for. -/
theorem size_of_hexUnit {place after : Cursor} {k : Nat} (h : hexUnit place = .ok (k, after)) :
    4 + size after.rest ≤ size place.rest := by
  unfold hexUnit at h
  dsimp only at h
  split at h
  · rename_i a b c d _ hdigits _
    cases h
    obtain ⟨offset, rest⟩ := place
    have hsplit : rest = [a, b, c, d] ++ rest.drop 4 := by rw [← hdigits, List.take_append_drop]
    have hskip : (Cursor.skip 4 ⟨offset, rest⟩).rest = rest.drop 4 := by
      rw [hsplit]
      rfl
    have hfour : 4 ≤ size [a, b, c, d] := Text.length_le_size [a, b, c, d]
    rw [hskip]
    dsimp only
    rw [hsplit, Text.size_append]
    simp only [List.cons_append, List.nil_append, List.drop_succ_cons, List.drop_zero]
    omega
  · split at h <;> cases h

theorem size_of_lowSurrogate {high : Nat} {place after : Cursor} {c : Char}
    (h : lowSurrogate high place = .ok (c, after)) : 4 + size after.rest ≤ size place.rest := by
  unfold lowSurrogate at h
  split at h
  · cases h
  · cases h
  · rename_i rest hrest
    cases hlow : hexUnit (place.skip 2) with
    | error fault =>
        rw [hlow] at h
        cases h
    | ok r =>
        obtain ⟨low, behind⟩ := r
        have hsize := size_of_hexUnit hlow
        have hskip := Cursor.size_skip_le 2 place
        rw [hlow] at h
        change (if _ then _ else _) = _ at h
        split at h
        · obtain ⟨-, rfl⟩ := Prod.mk.inj (Except.ok.inj h)
          exact Nat.le_trans hsize hskip
        · cases h
  · cases h
  · cases h

theorem size_of_unicodeEscape {place after : Cursor} {c : Char} (h : unicodeEscape place = .ok (c, after)) :
    4 + size after.rest ≤ size place.rest := by
  unfold unicodeEscape at h
  cases hunit : hexUnit place with
  | error fault =>
      rw [hunit] at h
      cases h
  | ok r =>
      obtain ⟨k, behind⟩ := r
      have hsize := size_of_hexUnit hunit
      rw [hunit] at h
      change (if _ then _ else _) = _ at h
      split at h
      · cases h
      · split at h
        · have hlow := size_of_lowSurrogate h
          omega
        · cases h
          exact hsize

theorem size_of_simpleEscape {c d : Char} (h : simpleEscape? c = some d) : d.utf8Size ≤ c.utf8Size := by
  unfold simpleEscape? at h
  split at h <;> cases h <;> decide

theorem size_of_escape {place after : Cursor} {c : Char} (h : escape place = .ok (c, after)) :
    c.utf8Size + size after.rest ≤ size place.rest := by
  unfold escape at h
  split at h
  · cases h
  · rename_i d behind hnext
    rw [Cursor.size_of_next? hnext]
    split at h
    · have hsize := size_of_unicodeEscape h
      have hchar := c.utf8Size_le_four
      omega
    · split at h
      · rename_i hsimple
        cases h
        exact Nat.add_le_add_right (size_of_simpleEscape hsimple) _
      · cases h

theorem size_of_textTail {fuel : Nat} {place after : Cursor} {cs : List Char}
    (h : textTail fuel place = .ok (cs, after)) : size cs + size after.rest ≤ size place.rest := by
  induction fuel generalizing place after cs with
  | zero => cases h
  | succ fuel ih =>
      rw [textTail] at h
      split at h
      · cases h
      · rename_i c behind hnext
        rw [Cursor.size_of_next? hnext]
        have hmore : ∀ {d : Char} {next : Cursor}, d.utf8Size + size next.rest ≤ c.utf8Size + size behind.rest →
            (textTail fuel next >>= fun r => pure (d :: r.1, r.2)) = .ok (cs, after) →
            size cs + size after.rest ≤ c.utf8Size + size behind.rest := by
          intro d next hnext h
          cases htail : textTail fuel next with
          | error fault =>
              rw [htail] at h
              cases h
          | ok r =>
              obtain ⟨ds, last⟩ := r
              have hsize := ih htail
              rw [htail] at h
              cases h
              dsimp only
              rw [size]
              omega
        split at h
        · cases h
          exact Nat.add_le_add (Nat.zero_le _) (Nat.le_refl _)
        · split at h
          · cases hescape : escape behind with
            | error fault =>
                rw [hescape] at h
                cases h
            | ok r =>
                obtain ⟨d, next⟩ := r
                have hsize := size_of_escape hescape
                rw [hescape] at h
                exact hmore (Nat.le_trans hsize (Nat.le_add_left _ _)) h
          · split at h
            · cases h
            · exact hmore (Nat.le_refl _) h

theorem gives_text : Gives n (fun s => s.utf8ByteSize ≤ n) text := by
  refine .andThen (forward_advance 1) fun _ => .get fun place hplace => .lift fun r htail => ?_
  obtain ⟨cs, after⟩ := r
  have hsize := size_of_textTail htail
  refine .andThen (gives_set (by omega)) fun _ => gives_pure ?_
  rw [Text.utf8ByteSize_ofList]
  omega

/-! ### Numbers -/

theorem forward_takeDigits : Forward n takeDigits :=
  .get fun _ _ => .andThen (forward_advance _) fun _ => gives_pure trivial

theorem forward_scaled (negative : Bool) (significand : Nat) (exponent : Int) :
    Forward n (scaled negative significand exponent) := by
  unfold scaled
  extract_lets x jp
  have hjp : ∀ y, Forward n (pure y >>= jp) := fun _ => .andThen (gives_pure trivial) fun _ => gives_pure trivial
  have hfail : Forward n (failHere .numberOutOfRange >>= jp) := .andThen (gives_failHere _) fun _ => gives_pure trivial
  split
  · exact hjp _
  · split
    · split
      · exact hjp _
      · exact hfail
    · split
      · exact hjp _
      · exact hfail

theorem forward_exponentPart (negative : Bool) (significand : Nat) (exponent : Int) :
    Forward n (exponentPart negative significand exponent) := by
  unfold exponentPart
  refine .andThen (forward_advance 1) fun _ => .andThen forward_peek fun _ => ?_
  extract_lets jp
  have hjp : ∀ below, Forward n (jp below) := by
    refine fun below => .get fun place _ => ?_
    dsimp only
    split
    · refine .andThen forward_peek fun _ => ?_
      split
      · exact gives_failHere _
      · exact gives_failNext _
    · split
      · exact .andThen (forward_advance _) fun _ => forward_scaled _ _ _
      · split
        · exact .andThen (forward_advance _) fun _ => gives_failHere _
        · exact .andThen (forward_advance _) fun _ => gives_pure trivial
  have hsign : ∀ below, Forward n (pure below >>= jp) := fun _ => .andThen (gives_pure trivial) hjp
  split
  · exact .andThen (forward_advance 1) fun _ => hsign _
  · exact .andThen (forward_advance 1) fun _ => hsign _
  · exact hsign _

theorem forward_fractionPart (negative : Bool) (significand : Nat) (exponent : Int) :
    Forward n (fractionPart negative significand exponent) := by
  unfold fractionPart
  refine .andThen (forward_advance 1) fun _ => .andThen forward_takeDigits fun digits => ?_
  split
  · refine .andThen forward_peek fun _ => ?_
    split
    · exact gives_failNext _
    · exact gives_failNext _
  · refine .andThen forward_peek fun _ => ?_
    split
    · exact forward_exponentPart _ _ _
    · exact forward_exponentPart _ _ _
    · exact forward_scaled _ _ _

theorem forward_numberTail (negative : Bool) (digits : List Char) : Forward n (numberTail negative digits) := by
  have hnum : ∀ x : Num, Forward n (pure x : Reader Num) := fun _ => gives_pure trivial
  have hreal {x : Reader Float} (hx : Forward n x) : Forward n (x >>= fun y => pure (Num.real y)) :=
    .andThen hx fun y => hnum (.real y)
  unfold numberTail
  refine .andThen forward_peek fun _ => ?_
  split
  · exact hreal (forward_fractionPart _ _ _)
  · exact hreal (forward_exponentPart _ _ _)
  · exact hreal (forward_exponentPart _ _ _)
  · split
    · exact hreal (forward_scaled _ _ _)
    · split
      · exact hnum _
      · split
        · exact hnum _
        · exact hnum _

theorem forward_unsignedNumber (negative : Bool) : Forward n (unsignedNumber negative) := by
  unfold unsignedNumber
  refine .andThen forward_peek fun _ => ?_
  split
  · exact gives_failHere _
  · refine .andThen (forward_advance 1) fun _ => .andThen forward_peek fun _ => ?_
    split
    · split
      · exact gives_failNext _
      · exact forward_numberTail _ _
    · exact forward_numberTail _ _
  · split
    · exact .andThen forward_takeDigits fun _ => forward_numberTail _ _
    · exact gives_failNext _

theorem forward_number : Forward n number := by
  unfold number
  refine .andThen forward_peek fun _ => ?_
  split
  · exact .andThen (forward_advance 1) fun _ => forward_unsignedNumber _
  · exact forward_unsignedNumber _

/-! ### Lists and objects -/

theorem forward_nextItem (first : Bool) : Forward n (nextItem first) := by
  have hnext : ∀ more : Bool, Forward n (pure more : Reader Bool) := fun _ => gives_pure trivial
  unfold nextItem
  refine .andThen forward_peekPastSpace fun _ => ?_
  split
  · exact gives_failNext _
  · exact hnext _
  · split
    · exact hnext _
    · split
      · refine .andThen (forward_advance 1) fun _ => .andThen forward_peekPastSpace fun _ => ?_
        split
        · exact gives_failNext _
        · exact hnext _
        · exact gives_failNext _
      · exact gives_failNext _

theorem forward_nextKey (first : Bool) : Forward n (nextKey first) := by
  have hnext : ∀ more : Bool, Forward n (pure more : Reader Bool) := fun _ => gives_pure trivial
  unfold nextKey
  refine .andThen forward_peekPastSpace fun _ => ?_
  split
  · exact gives_failNext _
  · exact hnext _
  · split
    · split
      · exact hnext _
      · exact gives_failNext _
    · split
      · refine .andThen (forward_advance 1) fun _ => .andThen forward_peekPastSpace fun _ => ?_
        split
        · exact hnext _
        · exact gives_failNext _
        · exact gives_failNext _
        · exact gives_failNext _
      · exact gives_failNext _

theorem forward_colon : Forward n colon := by
  unfold colon
  refine .andThen forward_peekPastSpace fun _ => ?_
  split
  · exact forward_advance 1
  · exact gives_failNext _
  · exact gives_failNext _

theorem forward_endList : Forward n endList := by
  unfold endList
  refine .andThen forward_peekPastSpace fun _ => ?_
  split
  · exact forward_advance 1
  · refine .andThen (forward_advance 1) fun _ => .andThen forward_peekPastSpace fun _ => ?_
    split
    · exact gives_failNext _
    · exact gives_failNext _
  · exact gives_failNext _
  · exact gives_failNext _

theorem forward_endObject : Forward n endObject := by
  unfold endObject
  refine .andThen forward_peekPastSpace fun _ => ?_
  split
  · exact forward_advance 1
  · exact gives_failNext _
  · exact gives_failNext _
  · exact gives_failNext _

theorem forward_remaining : Forward n remaining :=
  .get fun _ _ => gives_pure trivial

theorem gives_items {item : Reader Json} (hitem : Gives n (TextsWithin n) item) (fuel : Nat) (first : Bool) :
    Gives n (ItemsWithin n) (items item fuel first) := by
  induction fuel generalizing first with
  | zero => exact gives_failNext _
  | succ fuel ih =>
      rw [items]
      refine .andThen (forward_nextItem first) fun more => ?_
      split
      · exact hitem.bind fun x hx => (ih false).bind fun xs hxs => gives_pure ⟨hx, hxs⟩
      · exact gives_pure trivial

theorem gives_fields {P : σ → Prop} {field : σ → String → Reader σ} (hfield : ∀ s key, P s → Gives n P (field s key))
    (fuel : Nat) (first : Bool) {s : σ} (hs : P s) : Gives n P (fields field fuel first s) := by
  induction fuel generalizing first s with
  | zero => exact gives_failNext _
  | succ fuel ih =>
      rw [fields]
      refine .andThen (forward_nextKey first) fun more => ?_
      split
      · exact gives_text.bind fun key _ => (hfield s key hs).bind fun s hs => ih false hs
      · exact gives_pure hs

theorem gives_list {item : Reader Json} (hitem : Gives n (TextsWithin n) item) :
    Gives n (TextsWithin n) (list item) := by
  refine .andThen (forward_advance 1) fun _ => .andThen forward_remaining fun fuel => ?_
  exact (gives_items hitem fuel true).bind fun xs hxs => .andThen forward_endList fun _ => gives_pure hxs

theorem gives_object {value : Reader Json} (hvalue : Gives n (TextsWithin n) value) :
    Gives n (TextsWithin n) (object value) := by
  refine .andThen (forward_advance 1) fun _ => .andThen forward_remaining fun fuel => ?_
  refine (gives_fields (P := FieldsWithin n) (fun es key hes => ?_) fuel true (s := []) trivial).bind fun es hes => ?_
  · exact .andThen forward_colon fun _ => hvalue.bind fun item hitem => gives_pure (hes.put hitem)
  · exact .andThen forward_endObject fun _ => gives_pure hes

theorem gives_valueWith {list object : Reader Json} (hlist : Gives n (TextsWithin n) list)
    (hobject : Gives n (TextsWithin n) object) : Gives n (TextsWithin n) (valueWith list object) := by
  unfold valueWith
  refine .andThen forward_peekPastSpace fun _ => ?_
  split
  · exact gives_failNext _
  · exact gives_literal trivial _
  · exact gives_literal trivial _
  · exact gives_literal trivial _
  · exact gives_text.bind fun s hs => gives_pure hs
  · exact hlist
  · exact hobject
  · split
    · exact .andThen forward_number fun _ => gives_pure trivial
    · exact gives_failNext _

theorem gives_value (room : Nat) : Gives n (TextsWithin n) (value room) := by
  induction room with
  | zero => exact gives_valueWith (gives_failNext _) (gives_failNext _)
  | succ room ih => exact gives_valueWith (gives_list ih) (gives_object ih)

end Reader

theorem textsWithin_of_read {source : String} {json : Json} (h : read source = .ok json) :
    json.TextsWithin source.utf8ByteSize := by
  unfold read Reader.whole at h
  extract_lets parse at h
  have hgives : Reader.Gives source.utf8ByteSize (TextsWithin source.utf8ByteSize) parse := by
    refine (Reader.gives_value Reader.maxNesting).bind fun x hx => .andThen Reader.forward_peekPastSpace fun _ => ?_
    split
    · exact Reader.gives_pure hx
    · exact Reader.gives_failNext _
  cases hrun : parse.run (Cursor.ofString source) with
  | error fault =>
      rw [hrun] at h
      cases h
  | ok r =>
      rw [hrun] at h
      cases h
      exact (hgives _ r.1 r.2 (Nat.le_of_eq (Text.size_toList source)) hrun).1

end ScriptRepl.Json
