import ScriptRepl.Proofs.Number.Characters
import ScriptRepl.Proofs.Realm.Outline

/-! Values that contain themselves, as texts. Every walk comes to its end; where JSON fails, the outline of a value
has a mark, and no other part of what is shown reads like it. -/
namespace ScriptRepl

/-! ### The mark -/

namespace Inspection

/-- The mark in place of a value that lies inside itself. -/
def mark (style : InspectStyle) : String :=
  tinted style .special "[Circular]"

theorem mark_toList (style : InspectStyle) :
    ∃ rest, (mark style).toList = '[' :: 'C' :: rest ∨ (mark style).toList = '\x1b' :: rest := by
  unfold mark tinted
  split
  · exact ⟨_, .inr rfl⟩
  · exact ⟨_, .inl rfl⟩

/-- The colour of the mark is its own. -/
theorem eq_of_tinted_eq_mark {style : InspectStyle} {tint : Tint} {text : String}
    (h : tinted style tint text = mark style) : text = "[Circular]" := by
  unfold mark tinted at h
  split at h
  · have hother {c : Text.Color} {digit : Char} (hdigit : digit ≠ '6')
        (hc : (Text.Style.foreground c).toList = "\x1b[38;5;".toList ++ [digit, 'm']) :
        Text.Style.paint c text ≠ Text.Style.paint .darkCyan "[Circular]" := by
      intro h
      have hcyan : (Text.Style.foreground .darkCyan).toList = "\x1b[38;5;".toList ++ ['6', 'm'] := by decide
      have hlists := congrArg String.toList h
      simp only [Text.Style.paint, String.toList_append, hc, hcyan] at hlists
      simp at hlists
      exact hdigit hlists.1
    cases tint with
    | number => exact absurd h (hother (show '4' ≠ '6' by decide) (by decide))
    | text => exact absurd h (hother (show '2' ≠ '6' by decide) (by decide))
    | boolean => exact absurd h (hother (show '3' ≠ '6' by decide) (by decide))
    | undefined => exact absurd h (hother (show '8' ≠ '6' by decide) (by decide))
    | null =>
        have hlists := congrArg String.toList h
        simp only [Tint.paint, Text.Style.bold, String.toList_append] at hlists
        cases hlists
    | special => simpa [Tint.paint, Text.Style.paint] using h
  · exact h

theorem layout_toList (style : InspectStyle) (opening closing : String) (entries : List String) (depth : Nat) :
    ∃ c rest, (c = ' ' ∨ c = '\n') ∧
      (layout style opening closing entries depth).toList = opening.toList ++ c :: rest := by
  unfold layout
  dsimp only
  split
  · exact ⟨' ', _, .inl rfl, by simp only [String.toList_append, List.append_assoc]; rfl⟩
  · exact ⟨'\n', _, .inr rfl, by simp only [String.toList_append, List.append_assoc]; rfl⟩

theorem errorText_eq_circular {name message : String} (h : errorText name message = "Circular") :
    name = "Circular" ∧ message = "" := by
  unfold errorText at h
  split at h
  · rename_i hempty
    exact ⟨h, String.isEmpty_iff.mp hempty⟩
  · have hcolon : ':' ∈ (name ++ ": " ++ message).toList := by simp
    rw [h] at hcolon
    exact absurd hcolon (by decide)

theorem layout_ne_mark (style : InspectStyle) {opening : String} (hopening : opening = "[" ∨ opening = "\x7b")
    (closing : String) (entries : List String) (depth : Nat) :
    layout style opening closing entries depth ≠ mark style := by
  intro h
  obtain ⟨c, rest, hc, hlayout⟩ := layout_toList style opening closing entries depth
  obtain ⟨rest', hmark | hmark⟩ := mark_toList style
  · rw [h, hmark] at hlayout
    rcases hopening with rfl | rfl
    · cases hlayout
      simp at hc
    · cases hlayout
  · rw [h, hmark] at hlayout
    rcases hopening with rfl | rfl <;> cases hlayout

theorem error_eq_mark {style : InspectStyle} {name message : String}
    (h : "[" ++ errorText name message ++ "]" = mark style) : name = "Circular" ∧ message = "" := by
  unfold mark tinted at h
  split at h
  · have hlists := congrArg String.toList h
    simp only [String.toList_append] at hlists
    cases hlists
  · have hlists : "[".toList ++ (errorText name message).toList ++ "]".toList =
        "[".toList ++ "Circular".toList ++ "]".toList := by
      rw [← String.toList_append, ← String.toList_append, h]
      rfl
    exact errorText_eq_circular (String.toList_inj.mp (List.append_cancel_left (List.append_cancel_right hlists)))

theorem ne_mark_of_short (style : InspectStyle) {s : String} (hs : s = "" ∨ s = "[]" ∨ s = "\x7b\x7d") :
    s ≠ mark style := by
  intro h
  obtain ⟨rest, hmark⟩ := mark_toList style
  rw [← h] at hmark
  rcases hs with rfl | rfl | rfl <;> rcases hmark with hmark | hmark <;> cases hmark

theorem quote_ne_circular (s : String) : quote s ≠ "[Circular]" := by
  intro h
  have hlists := congrArg String.toList h
  simp [quote] at hlists

/-- What is shown of an object is no mark, unless the object is an error of that name. -/
theorem eq_error_of_objectOutline {style : InspectStyle} {depth : Nat} (hdepth : depth ≠ 0)
    {inner? : Option (Value → Outline)} {o : Obj} (h : (objectOutline inner? o).render style depth = mark style) :
    o = .error "Circular" "" := by
  cases o with
  | function f self =>
      rw [objectOutline, Outline.render] at h
      have hlists := congrArg String.toList (eq_of_tinted_eq_mark h)
      simp only [String.toList_append] at hlists
      cases hlists
  | error name message =>
      rw [objectOutline, Outline.render, if_neg hdepth] at h
      obtain ⟨rfl, rfl⟩ := error_eq_mark h
      rfl
  | list items =>
      dsimp only [objectOutline] at h
      split at h
      · rw [Outline.render] at h
        exact absurd h (ne_mark_of_short style (.inr (.inl rfl)))
      · cases inner? with
        | none =>
            rw [Outline.render] at h
            exact absurd (eq_of_tinted_eq_mark h) (by decide)
        | some inner =>
            rw [Outline.render] at h
            exact absurd h (layout_ne_mark style (.inl rfl) _ _ _)
  | plain fields =>
      dsimp only [objectOutline] at h
      split at h
      · rw [Outline.render] at h
        exact absurd h (ne_mark_of_short style (.inr (.inr rfl)))
      · cases inner? with
        | none =>
            rw [Outline.render] at h
            exact absurd (eq_of_tinted_eq_mark h) (by decide)
        | some inner =>
            rw [Outline.render] at h
            exact absurd h (layout_ne_mark style (.inr rfl) _ _ _)

theorem eq_circular_of_render {h : Heap} {style : InspectStyle} {room depth : Nat} {path : List Ref} {v : Value}
    (hdepth : depth ≠ 0) (hmark : (outlineAt h room path v).render style depth = mark style) :
    outlineAt h room path v = .circular ∨ h.object? v = some (.error "Circular" "") := by
  have hword {tint : Tint} {text : String} (h : outlineAt h room path v = .word (some tint) text) :
      text = "[Circular]" := by
    rw [h, Outline.render] at hmark
    exact eq_of_tinted_eq_mark hmark
  cases v with
  | undefined => exact absurd (hword (outlineAt.eq_def ..)) (by decide)
  | null => exact absurd (hword (outlineAt.eq_def ..)) (by decide)
  | bool b => exact absurd (hword (outlineAt.eq_def ..)) (by cases b <;> decide)
  | number x =>
      have hbracket : '[' ∈ (Number.spell x).toList := by
        rw [hword (outlineAt.eq_def ..)]
        decide
      exact absurd (Number.mem_spelling_of_mem_spell hbracket) (by decide)
  | text s => exact absurd (hword (outlineAt.eq_def ..)) (quote_ne_circular s)
  | object r =>
      unfold outlineAt at hmark ⊢
      split
      · exact .inl rfl
      · rename_i hnew
        rw [if_neg hnew] at hmark
        cases hr : h.get? r with
        | none =>
            rw [hr] at hmark
            exact absurd hmark (ne_mark_of_short style (.inl rfl))
        | some o =>
            rw [hr] at hmark
            exact .inr (hr.trans (congrArg some (eq_error_of_objectOutline hdepth hmark)))

end Inspection

open Eval Inspection

/-- On any heap, whatever refers to whatever, every value has its texts: apart from the call that a walk starts with, no
more calls are nested than there are objects, and what is shown ends with the third level. JSON is refused to the values
from which a cycle can be reached and to no others, however much they share. In what is shown, a value is marked exactly
where it is one of those that it lies inside; and its text is that of the mark just then, an error named like the mark
aside. -/
theorem cycles_handled (h : Heap) (v : Value) :
    h.displayWithin (h.size + 1) [] v = some (h.display v) ∧
      h.jsonWithin (h.size + 1) [] v = Heap.ended (h.jsonAt [] v) ∧
      (∀ (run : Run) (self : Value) (args : List Value), run.realm.heap = h → argument args 0 = v →
        (h.ReachesCycle v ∧ ∃ e after, (callBuiltin .jsonStringify self args).outcome run = (.error (.throw e), after) ∧
          after.realm.heap.object? e = some (.error "TypeError" "Converting circular structure to JSON")) ∨
        (¬ h.ReachesCycle v ∧ ∃ w, (callBuiltin .jsonStringify self args).outcome run = (.ok w, run) ∧
          (w = .undefined ∨ ∃ s, w = .text s))) ∧
      (∀ style, h.inspect style v = (h.outline v).render style 0) ∧
      ∀ place o, (h.outline v).at? place = some o →
        place.length ≤ Inspection.maxDepth + 1 ∧ ∃ ancestors w, h.Leads v place ancestors w ∧
          (o = .circular ↔ w ∈ ancestors) ∧
          (place ≠ [] → h.object? w ≠ some (.error "Circular" "") →
            ∀ style, o.render style place.length = tinted style .special "[Circular]" ↔ w ∈ ancestors) := by
  have hroom : h.unseen [] < h.size + 1 := by rw [h.unseen_nil]; exact Nat.lt_succ_self _
  refine ⟨h.displayWithin_eq_some hroom v, h.jsonWithin_eq_ended hroom v, ?_, ?_, ?_⟩
  · rintro run self args rfl rfl
    exact stringify_cases self args run
  · exact fun style => valueAt_eq_render h style (Inspection.maxDepth + 1) 0 [] v
  · intro place o ho
    obtain ⟨hlength, ancestors, w, hleads, ⟨room, path, houtline⟩, hiff⟩ := at?_outlineAt ho
    have hcircular : o = .circular ↔ w ∈ ancestors := hiff.trans (by simp)
    refine ⟨hlength, ancestors, w, hleads, hcircular, fun hplace herror style => ?_⟩
    rw [← hcircular]
    constructor
    · intro hmark
      have hdepth : place.length ≠ 0 := fun h => hplace (List.length_eq_zero_iff.mp h)
      rw [houtline] at hmark ⊢
      exact (eq_circular_of_render hdepth hmark).resolve_right herror
    · rintro rfl
      rw [Outline.render]

end ScriptRepl
