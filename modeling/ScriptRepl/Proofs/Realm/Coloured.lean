import Mathlib.Data.List.Forall2
import ScriptRepl.Proofs.Number.Characters
import ScriptRepl.Proofs.Syntax.Highlighting
import ScriptRepl.Proofs.Syntax.Spelling

/-! Colours of an inspection. A coloured text is the plain one with rendition sequences in between, and the scanner that
measures entries passes over just those: so every object breaks into lines in colours where it does without. -/
namespace ScriptRepl

namespace Text

/-- No character comes before the space, so that none breaks the line or begins a sequence. -/
def Unbroken (cs : List Char) : Prop :=
  ∀ c ∈ cs, 0x20 ≤ c.toNat

instance (cs : List Char) : Decidable (Unbroken cs) :=
  List.decidableBAll (fun c : Char => 0x20 ≤ c.toNat) cs

theorem unbroken_append {cs ds : List Char} : Unbroken (cs ++ ds) ↔ Unbroken cs ∧ Unbroken ds :=
  List.forall_mem_append

theorem Unbroken.unescaped {cs : List Char} (h : Unbroken cs) : Unescaped cs := by
  rintro c hc rfl
  exact absurd (h _ hc) (by decide)

/-- The first text is the second one, which holds no escape character, with sequences that change the rendition. -/
inductive Coloured : List Char → List Char → Prop where
  | nil : Coloured [] []
  | shown {c : Char} {line text : List Char} (hc : c ≠ '\x1b') (hrest : Coloured line text) :
      Coloured (c :: line) (c :: text)
  | code {parameters line text : List Char} (hparameters : ∀ c ∈ parameters, isRendition c = true)
      (hrest : Coloured line text) : Coloured (renditionCode parameters ++ line) text

variable {line text line' text' : List Char}

theorem Styled.coloured (h : Styled line text) : Coloured line text := by
  induction h with
  | nil => exact .nil
  | shown hc _ ih => exact .shown hc.ne_escape ih
  | code hparameters _ ih => exact .code hparameters ih

theorem Unescaped.coloured (h : Unescaped text) : Coloured text text := by
  induction text with
  | nil => exact .nil
  | cons c text ih =>
      obtain ⟨hc, htext⟩ := List.forall_mem_cons.mp h
      exact .shown hc (ih htext)

namespace Coloured

theorem append (h : Coloured line text) (h' : Coloured line' text') : Coloured (line ++ line') (text ++ text') := by
  induction h with
  | nil => exact h'
  | shown hc _ ih => exact .shown hc ih
  | code hparameters _ ih =>
      rw [List.append_assoc]
      exact .code hparameters ih

theorem visible_eq (h : Coloured line text) : visible line = text := by
  induction h with
  | nil => simp [visible, pieces]
  | shown hc _ ih => rw [visible_cons_of_ne hc, ih]
  | code hparameters _ ih =>
      rw [visible, pieces_renditionCode hparameters, List.filterMap_cons_none rfl]
      exact ih

theorem unescaped (h : Coloured line text) : Unescaped text := by
  induction h with
  | nil => exact List.forall_mem_nil _
  | shown hc _ ih => exact List.forall_mem_cons.mpr ⟨hc, ih⟩
  | code _ _ ih => exact ih

theorem mem_iff (h : Coloured line text) {c : Char} (hescape : c ≠ '\x1b') (hbracket : c ≠ '[') (hfinal : c ≠ 'm')
    (hparameter : isRendition c = false) : c ∈ line ↔ c ∈ text := by
  induction h with
  | nil => exact Iff.rfl
  | shown _ _ ih => rw [List.mem_cons, List.mem_cons, ih]
  | code hparameters _ ih =>
      rw [List.mem_append, ih, or_iff_right]
      intro hcode
      simp only [renditionCode, List.cons_append, List.mem_cons, List.mem_append, List.not_mem_nil, or_false] at hcode
      rcases hcode with rfl | rfl | hc | rfl
      · exact hescape rfl
      · exact hbracket rfl
      · rw [hparameters c hc] at hparameter
        cases hparameter
      · exact hfinal rfl

end Coloured

end Text

namespace Inspection

open Text (Coloured Unbroken Unescaped isRendition renditionCode)

/-! ### What is measured -/

theorem not_isAlpha_of_isRendition {c : Char} (h : isRendition c = true) : c.isAlpha = false := by
  simp only [isRendition, Char.isDigit, Bool.or_eq_true, Bool.and_eq_true, decide_eq_true_eq, beq_iff_eq,
    UInt32.le_iff_toNat_le] at h
  have hall : ∀ n < 60, (Char.ofNat n).isAlpha = false := by decide
  apply Text.char_of_lt (fun c => c.isAlpha = false) hall
  rcases h with ⟨_, hdigit⟩ | rfl
  · exact Nat.lt_of_le_of_lt hdigit (by decide)
  · decide

theorem visibleLength_renditionCode {parameters : List Char} (h : ∀ c ∈ parameters, isRendition c = true)
    (rest : List Char) : visibleLength false (renditionCode parameters ++ rest) = visibleLength false rest := by
  have hinside : visibleLength true (parameters ++ 'm' :: rest) = visibleLength false rest := by
    induction parameters with
    | nil => rfl
    | cons c parameters ih =>
        obtain ⟨hc, hparameters⟩ := List.forall_mem_cons.mp h
        rw [List.cons_append, visibleLength, not_isAlpha_of_isRendition hc]
        exact ih hparameters
  have hcode : renditionCode parameters ++ rest = '\x1b' :: '[' :: (parameters ++ 'm' :: rest) := by
    simp [renditionCode]
  rw [hcode, visibleLength, if_pos rfl, visibleLength]
  exact hinside

theorem visibleLength_eq {line text : List Char} (h : Coloured line text) :
    visibleLength false line = text.length := by
  induction h with
  | nil => rfl
  | shown hc _ ih => rw [visibleLength, if_neg hc, ih, List.length_cons]
  | code hparameters _ ih => rw [visibleLength_renditionCode hparameters, ih]

/-! ### Painted texts -/

/-- The same text in colours and without, as they are laid out. -/
def SameText (coloured plain : String) : Prop :=
  Coloured coloured.toList plain.toList

namespace SameText

variable {coloured plain coloured' plain' : String}

theorem refl {s : String} (h : Unescaped s.toList) : SameText s s :=
  Unescaped.coloured h

theorem append (h : SameText coloured plain) (h' : SameText coloured' plain') :
    SameText (coloured ++ coloured') (plain ++ plain') := by
  unfold SameText
  rw [String.toList_append, String.toList_append]
  exact Coloured.append h h'

theorem intercalate (separator : String) (hseparator : Unescaped separator.toList) {colours plains : List String}
    (h : List.Forall₂ SameText colours plains) :
    SameText (String.intercalate separator colours) (String.intercalate separator plains) := by
  induction h with
  | nil => exact .nil
  | @cons c p colours plains hfirst hrest ih =>
      cases hrest with
      | nil => simpa using hfirst
      | cons hsecond hrest =>
          rw [String.intercalate_cons_cons, String.intercalate_cons_cons]
          exact (hfirst.append (refl hseparator)).append ih

theorem stripEscapes_eq (h : SameText coloured plain) : Text.stripEscapes coloured = plain := by
  rw [Text.stripEscapes, Coloured.visible_eq h, String.ofList_toList]

theorem unescaped (h : SameText coloured plain) : Unescaped plain.toList :=
  Coloured.unescaped h

/-- Both are on one line or neither is, and they are measured alike. -/
theorem measured (h : SameText coloured plain) :
    coloured.toList.contains '\n' = plain.toList.contains '\n' ∧
      visibleLength false coloured.toList = visibleLength false plain.toList := by
  constructor
  · rw [Bool.eq_iff_iff, List.contains_iff_mem, List.contains_iff_mem]
    exact Coloured.mem_iff h (by decide) (by decide) (by decide) (by decide)
  · rw [visibleLength_eq h, visibleLength_eq h.unescaped.coloured]

end SameText

/-- The styles of one inspection in colours and without. -/
abbrev coloured (compact : Bool) : InspectStyle :=
  ⟨true, compact⟩

abbrev uncoloured (compact : Bool) : InspectStyle :=
  ⟨false, compact⟩

variable {compact : Bool} {text : String}

theorem sameText_tinted (compact : Bool) (tint : Tint) (h : Unescaped text.toList) :
    SameText (tinted (coloured compact) tint text) (tinted (uncoloured compact) tint text) := by
  have hpaint (c : Text.Color) : SameText (Text.Style.paint c text) text := by
    have hpainted := ((Text.Styled.foreground c).coloured.append h.coloured).append
      Text.Styled.resetForeground.coloured
    simpa [SameText, Text.Style.paint] using hpainted
  cases tint with
  | null =>
      have hbold : (Text.Style.bold text).toList =
          renditionCode ['1'] ++ (text.toList ++ (renditionCode ['0'] ++ [])) := by
        simp [Text.Style.bold, renditionCode]
      have hend : Coloured (renditionCode ['0'] ++ []) [] :=
        .code (List.forall_mem_singleton.mpr (by decide)) .nil
      have hbolded :
          Coloured (renditionCode ['1'] ++ (text.toList ++ (renditionCode ['0'] ++ []))) (text.toList ++ []) :=
        .code (List.forall_mem_singleton.mpr (by decide)) (h.coloured.append hend)
      simpa [SameText, tinted, Tint.paint, hbold] using hbolded
  | _ => exact hpaint _

/-- What decides how entries are laid out is the same for both. -/
theorem measured_entries {colours plains : List String} (h : List.Forall₂ SameText colours plains) :
    (colours.any fun e => e.toList.contains '\n') = (plains.any fun e => e.toList.contains '\n') ∧
      ∀ n, colours.foldl (fun n e => n + visibleLength false e.toList + 2) n =
        plains.foldl (fun n e => n + visibleLength false e.toList + 2) n := by
  induction h with
  | nil => exact ⟨rfl, fun _ => rfl⟩
  | cons hentry _ ih =>
      obtain ⟨hbroken, hlength⟩ := hentry.measured
      constructor
      · rw [List.any_cons, List.any_cons, hbroken, ih.1]
      · intro n
        rw [List.foldl_cons, List.foldl_cons, hlength, ih.2]

theorem unescaped_indentation (n : Nat) : Unescaped (indentation n).toList := by
  have hall : ∀ s ∈ List.replicate n "  ", Unescaped s.toList := by
    intro s hs
    rw [List.eq_of_mem_replicate hs]
    decide
  unfold indentation
  rw [String.toList_join]
  intro c hc
  obtain ⟨s, hs, hc⟩ := List.mem_flatMap.mp hc
  exact hall s hs c hc

theorem sameText_layout (compact : Bool) {opening closing : String} (hopening : Unescaped opening.toList)
    (hclosing : Unescaped closing.toList) {colours plains : List String}
    (h : List.Forall₂ SameText colours plains) (depth : Nat) :
    SameText (layout (coloured compact) opening closing colours depth)
      (layout (uncoloured compact) opening closing plains depth) := by
  obtain ⟨hbroken, htotal⟩ := measured_entries h
  have hlines : List.Forall₂ SameText (colours.map fun e => indentation (depth + 1) ++ e)
      (plains.map fun e => indentation (depth + 1) ++ e) := by
    rw [List.forall₂_map_left_iff, List.forall₂_map_right_iff]
    exact h.imp fun _ _ he => (SameText.refl (unescaped_indentation _)).append he
  have hplain {s : String} (hs : Unescaped s.toList) : SameText s s := .refl hs
  unfold layout
  dsimp only
  rw [hbroken, htotal]
  split
  · have hbody := SameText.intercalate ", " (by decide) h
    exact ((((hplain hopening).append (hplain (by decide))).append hbody).append (hplain (by decide))).append
      (hplain hclosing)
  · have hbody := SameText.intercalate ",\n" (by decide) hlines
    exact (((((hplain hopening).append (hplain (by decide))).append hbody).append (hplain (by decide))).append
      (hplain (unescaped_indentation depth))).append (hplain hclosing)

/-! ### Texts without control characters -/

theorem unbroken_hexPadded {n : Nat} (h : n < 0x20) : Unbroken (hexPadded n) := by
  have hdigits : ∀ n < 0x20, Unbroken ['0', '0', Number.digitChar (n / 16), Number.digitChar (n % 16)] := by decide
  rw [Syntax.hexPadded_of_lt h]
  exact hdigits n h

theorem unbroken_quotedChar (c : Char) : Unbroken (quotedChar c) := by
  unfold quotedChar
  split
  case h_8 =>
    split
    · rename_i hcontrol
      intro d hd
      rw [List.mem_cons, List.mem_cons] at hd
      rcases hd with rfl | rfl | hd
      · decide
      · decide
      · exact unbroken_hexPadded hcontrol d hd
    · rename_i hplain
      exact List.forall_mem_singleton.mpr (Nat.not_lt.mp hplain)
  all_goals decide

theorem unbroken_quote (s : String) : Unbroken (quote s).toList := by
  have hbody : Unbroken (s.toList.flatMap quotedChar) := by
    intro c hc
    obtain ⟨d, _, hc⟩ := List.mem_flatMap.mp hc
    exact unbroken_quotedChar d c hc
  unfold quote
  rw [String.toList_ofList, Text.unbroken_append]
  refine ⟨?_, by decide⟩
  exact List.forall_mem_cons.mpr ⟨by decide, hbody⟩

theorem unbroken_key {k : String} (h : Text.isName k = true) : Unbroken k.toList := by
  have hcontrols : ∀ n < 0x20, Text.isNameChar (Char.ofNat n) = false := by decide
  intro c hc
  by_contra hlow
  have hnone := Text.char_of_lt (fun c => Text.isNameChar c = false) hcontrols (Nat.not_le.mp hlow)
  exact absurd ((Text.isNameChar_of_isName h c hc).symm.trans hnone) (by decide)

theorem unbroken_of_spelling {cs : List Char} (h : ∀ c ∈ cs, c ∈ Number.spelling) : Unbroken cs :=
  fun c hc => (by decide : Unbroken Number.spelling) c (h c hc)

theorem unbroken_spell (x : Float) : Unbroken (Number.spell x).toList :=
  unbroken_of_spelling fun _ hc => Number.mem_spelling_of_mem_spell hc

theorem unbroken_moreItems {n : Nat} {s : String} (h : s ∈ moreItems n) : Unbroken s.toList := by
  have hnumber : Unbroken (toString n).toList :=
    unbroken_of_spelling fun _ hc => Number.mem_spelling_of_mem_toString hc
  unfold moreItems at h
  split at h
  · cases h
  · rw [List.mem_singleton.mp h]
    simp only [String.toList_append, Text.unbroken_append]
    refine ⟨⟨⟨by decide, hnumber⟩, by decide⟩, ?_⟩
    split <;> decide

theorem unbroken_function (f : Builtin) : Unbroken ("[Function: " ++ f.name ++ "]").toList := by
  have hname : Unbroken f.name.toList := by
    cases f <;> first | decide | (rename_i op; cases op <;> decide)
  simp only [String.toList_append, Text.unbroken_append]
  exact ⟨⟨by decide, hname⟩, by decide⟩

end Inspection

namespace Heap

open Text (Unescaped)

/-- No error of the heap has an escape character in its name or its message. -/
def ErrorsUnescaped (h : Heap) : Prop :=
  ∀ r name message, h.get? r = some (.error name message) → Unescaped name.toList ∧ Unescaped message.toList

theorem ErrorsUnescaped.errorText {h : Heap} (herrors : h.ErrorsUnescaped) {r : Ref} {name message : String}
    (hr : h.get? r = some (.error name message)) : Unescaped (errorText name message).toList := by
  obtain ⟨hname, hmessage⟩ := herrors r name message hr
  unfold ScriptRepl.errorText
  split
  · exact hname
  · simp only [String.toList_append, Text.unescaped_append]
    exact ⟨⟨hname, by decide⟩, hmessage⟩

end Heap

namespace Inspection

open Text (Unescaped)

variable {h : Heap}

theorem sameText_key (compact : Bool) (k : String) :
    SameText (key (coloured compact) k) (key (uncoloured compact) k) := by
  unfold key
  split
  · rename_i hname
    exact .refl (unbroken_key hname).unescaped
  · exact sameText_tinted compact .text (unbroken_quote k).unescaped

/-- At every place inside a value: the contents are the same text in colours and without, so the object around them is
laid out alike. -/
theorem sameText_valueAt (herrors : h.ErrorsUnescaped) (compact : Bool) (room depth : Nat) (path : List Ref)
    (v : Value) :
    SameText (valueAt h (coloured compact) room depth path v) (valueAt h (uncoloured compact) room depth path v) := by
  induction room using Nat.strongRecOn generalizing depth path v with
  | ind room ih =>
      unfold valueAt
      cases v with
      | undefined => exact sameText_tinted compact .undefined (by decide)
      | null => exact sameText_tinted compact .null (by decide)
      | bool b =>
          apply sameText_tinted compact .boolean
          cases b <;> decide
      | number x => exact sameText_tinted compact .number (unbroken_spell x).unescaped
      | text s => exact sameText_tinted compact .text (unbroken_quote s).unescaped
      | object r =>
          dsimp only
          split
          · exact sameText_tinted compact .special (by decide)
          · cases hr : h.get? r with
            | none => exact SameText.refl (s := "") (by decide)
            | some o =>
                cases o with
                | function f self => exact sameText_tinted compact .special (unbroken_function f).unescaped
                | error name message =>
                    have htext : SameText (errorText name message) (errorText name message) :=
                      .refl (herrors.errorText hr)
                    dsimp only
                    split
                    · exact htext
                    · exact (SameText.append (.refl (by decide)) htext).append (.refl (by decide))
                | list items =>
                    dsimp only
                    split
                    · exact .refl (by decide)
                    · cases room with
                      | zero => exact sameText_tinted compact .special (by decide)
                      | succ room =>
                          apply sameText_layout compact (by decide) (by decide)
                          apply List.rel_append
                          · rw [List.forall₂_map_left_iff, List.forall₂_map_right_iff, List.forall₂_same]
                            intro item _
                            exact ih room (Nat.lt_succ_self room) (depth + 1) (r :: path) item
                          · rw [List.forall₂_same]
                            intro note hnote
                            exact .refl (unbroken_moreItems hnote).unescaped
                | plain fields =>
                    dsimp only
                    split
                    · exact .refl (by decide)
                    · cases room with
                      | zero => exact sameText_tinted compact .special (by decide)
                      | succ room =>
                          apply sameText_layout compact (by decide) (by decide)
                          rw [List.forall₂_map_left_iff, List.forall₂_map_right_iff, List.forall₂_same]
                          intro field _
                          have hvalue := ih room (Nat.lt_succ_self room) (depth + 1) (r :: path) field.2
                          exact ((sameText_key compact field.1).append (.refl (by decide))).append hvalue

end Inspection

open Inspection

/-- Whatever the heap holds, errors with escape characters aside: without its escape sequences the coloured inspection
of a value is the plain one, on several lines or compact. -/
theorem stripEscapes_inspect {h : Heap} (herrors : h.ErrorsUnescaped) (v : Value) (compact : Bool) :
    Text.stripEscapes (h.inspect ⟨true, compact⟩ v) = h.inspect ⟨false, compact⟩ v :=
  (sameText_valueAt herrors compact (maxDepth + 1) 0 [] v).stripEscapes_eq

/-- A list that holds an error, a text that is itself an escape sequence, and the list. -/
theorem stripEscapes_inspect_circular :
    let h : Heap := ⟨#[.error "TypeError" "null is not an object",
      .list #[.object ⟨0⟩, .text "\x1b[31m", .null, .object ⟨1⟩]]⟩
    h.ErrorsUnescaped ∧
      Text.stripEscapes (h.inspect ⟨true, false⟩ (.object ⟨1⟩)) = h.inspect ⟨false, false⟩ (.object ⟨1⟩) := by
  intro h
  have herrors : h.ErrorsUnescaped := by
    intro r name message hr
    obtain ⟨hindex, hobject⟩ := Array.getElem?_eq_some_iff.mp hr
    rcases r with ⟨_ | _ | n⟩
    · cases hobject
      decide
    · cases hobject
    · exact absurd hindex (by simp [h])
  exact ⟨herrors, stripEscapes_inspect herrors _ _⟩

end ScriptRepl
