import ScriptRepl.Proofs.Console.Styled
import ScriptRepl.Proofs.Syntax.Tiling
import ScriptRepl.Syntax.Highlight

/-! What a terminal shows of a highlighted source is the source. The tokens tile it, so no character is lost between
the painted slices, and a rendition sequence is a piece of its own whatever text stands beside it. -/
namespace ScriptRepl

namespace Text

/-- No character of the text can begin an escape sequence. -/
def Unescaped (cs : List Char) : Prop :=
  ∀ c ∈ cs, c ≠ '\x1b'

instance (cs : List Char) : Decidable (Unescaped cs) :=
  List.decidableBAll (· ≠ '\x1b') cs

variable {line text word : List Char}

theorem unescaped_append {cs ds : List Char} : Unescaped (cs ++ ds) ↔ Unescaped cs ∧ Unescaped ds :=
  List.forall_mem_append

theorem visible_cons_of_ne {c : Char} (h : c ≠ '\x1b') (cs : List Char) : visible (c :: cs) = c :: visible cs := by
  unfold visible
  rw [pieces_cons_of_ne h]
  rfl

theorem Unescaped.visible_append (h : Unescaped word) (rest : List Char) :
    visible (word ++ rest) = word ++ visible rest := by
  induction word with
  | nil => rfl
  | cons c word ih =>
      obtain ⟨hc, hword⟩ := List.forall_mem_cons.mp h
      rw [List.cons_append, visible_cons_of_ne hc, ih hword, List.cons_append]

theorem Unescaped.visible_eq (h : Unescaped word) : visible word = word := by
  have happend := h.visible_append []
  rwa [List.append_nil, show visible [] = [] by simp [visible, pieces], List.append_nil] at happend

theorem Styled.visible_append (h : Styled line text) (rest : List Char) :
    visible (line ++ rest) = text ++ visible rest := by
  induction h with
  | nil => rfl
  | shown hc _ ih => rw [List.cons_append, visible_cons_of_ne hc.ne_escape, ih, List.cons_append]
  | code hparameters _ ih =>
      rw [List.append_assoc, visible, pieces_renditionCode hparameters, List.filterMap_cons_none rfl]
      exact ih

theorem Unescaped.visible_paint {word : String} (h : Unescaped word.toList) (c : Color) (rest : List Char) :
    visible ((Style.paint c word).toList ++ rest) = word.toList ++ visible rest := by
  have hpaint : (Style.paint c word).toList ++ rest =
      (Style.foreground c).toList ++ (word.toList ++ (Style.resetForeground.toList ++ rest)) := by
    simp only [Style.paint, String.toList_append, List.append_assoc]
  rw [hpaint, (Styled.foreground c).visible_append, h.visible_append, Styled.resetForeground.visible_append]
  rfl

/-- Two places in a text cut out what lies between them. -/
theorem Cursor.Passes.splitNear_eq {a b : Cursor} {passed : List Char} (h : a.Passes passed b) :
    splitNear (b.offset - a.offset) a.rest = (passed, b.rest) := by
  rw [h.offset, Nat.add_sub_cancel_left, h.rest, splitNear_size]

end Text

namespace Syntax

open Text (Cursor Unescaped visible)

theorem visible_paint (kind : TokenKind) {word : String} (h : Unescaped word.toList) (rest : List Char) :
    visible ((kind.paint word).toList ++ rest) = word.toList ++ visible rest := by
  unfold TokenKind.paint
  split
  · exact h.visible_paint _ rest
  · exact h.visible_append rest

/-- Painting from a place on adds nothing that shows. -/
theorem visible_highlightFrom {place : Cursor} {lexed : Lexed} (h : Lexer.Tiling place lexed)
    (hplain : Unescaped place.rest) :
    visible (highlightFrom place.offset place.rest lexed.tokens).toList = place.rest := by
  induction h with
  | finish =>
      rw [highlightFrom, String.toList_ofList]
      exact hplain.visible_eq
  | stuck =>
      rw [highlightFrom, String.toList_ofList]
      exact hplain.visible_eq
  | @token place start stop gap word kind rest hgap hblank hword hne hholes hrest ih =>
      have hplain' := hplain
      rw [hgap.rest, hword.rest, Text.unescaped_append, Text.unescaped_append] at hplain'
      obtain ⟨hgapPlain, hwordPlain, hrestPlain⟩ := hplain'
      have hpainted : highlightFrom place.offset place.rest
          (⟨kind, start.offset, stop.offset, gap.any Text.isLineEnd⟩ :: rest.tokens) =
            String.ofList gap ++ kind.paint (String.ofList word) ++
              highlightFrom stop.offset stop.rest rest.tokens := by
        rw [highlightFrom]
        simp only [hgap.splitNear_eq, hword.splitNear_eq]
      rw [hpainted, String.toList_append, String.toList_append, String.toList_ofList, List.append_assoc,
        hgapPlain.visible_append, visible_paint kind (by rwa [String.toList_ofList]), String.toList_ofList,
        ih hrestPlain, hgap.rest, hword.rest]

/-- Without the escape sequences a highlighted source is the source itself, also where it cannot be read to its end,
and it takes the same columns. -/
theorem stripEscapes_highlight {source : String} (h : Unescaped source.toList) :
    Text.stripEscapes (highlight source) = source ∧
      Text.displayWidth (highlight source) = Text.displayWidth source := by
  have hvisible : visible (highlight source).toList = source.toList :=
    visible_highlightFrom (Lexer.tiling_scan (Cursor.ofString source)) h
  refine ⟨?_, ?_⟩
  · rw [Text.stripEscapes, hvisible, String.ofList_toList]
  · rw [Text.displayWidth, Text.displayWidth, hvisible, h.visible_eq]

/-- A keyword is painted, the string behind it is not closed. -/
theorem stripEscapes_highlight_unclosed :
    Unescaped "let s = 'm[38;5;2m".toList ∧
      Text.stripEscapes (highlight "let s = 'm[38;5;2m") = "let s = 'm[38;5;2m" ∧
      Text.displayWidth (highlight "let s = 'm[38;5;2m") = Text.displayWidth "let s = 'm[38;5;2m" :=
  have h : Unescaped "let s = 'm[38;5;2m".toList := by decide
  ⟨h, stripEscapes_highlight h⟩

end Syntax

end ScriptRepl
