import ScriptRepl.Proofs.Realm.Coloured
import ScriptRepl.Proofs.Realm.Holding
import ScriptRepl.Proofs.Realm.Literal
import ScriptRepl.Proofs.Realm.Outline

/-! Compact inspections. All that is written between the contents of a value is on one line, and texts, keys and numbers
are spelled without control characters. Only errors are shown as they are: a line breaks where the name or the message
of one of them does. -/
namespace ScriptRepl

namespace Text

variable {c : Char} {cs : List Char}

theorem Unbroken.not_mem (h : Unbroken cs) (hc : c.toNat < 0x20) : c ∉ cs :=
  fun hmem => absurd (h c hmem) (Nat.not_le.mpr hc)

/-- Sequences that change the rendition have no control characters but the escape character. -/
theorem Coloured.not_mem_of_nil (h : Coloured cs []) (hc : c.toNat < 0x20) (hescape : c ≠ '\x1b') : c ∉ cs := by
  have hne : ∀ d : Char, 0x20 ≤ d.toNat → c ≠ d := by
    rintro d hd rfl
    omega
  have hrendition : isRendition c = false := by
    have hcontrols : ∀ n < 0x20, isRendition (Char.ofNat n) = false := by decide
    exact char_of_lt (fun c => isRendition c = false) hcontrols hc
  rw [h.mem_iff hescape (hne '[' (by decide)) (hne 'm' (by decide)) hrendition]
  exact List.not_mem_nil

end Text

namespace Inspection

open Text (Coloured Unbroken isRendition renditionCode)

variable {c : Char}

theorem mem_tinted (hc : c.toNat < 0x20) (hescape : c ≠ '\x1b') (style : InspectStyle) (tint : Tint) (text : String) :
    c ∈ (tinted style tint text).toList ↔ c ∈ text.toList := by
  have hpaint (colour : Text.Color) : c ∈ (Text.Style.paint colour text).toList ↔ c ∈ text.toList := by
    have hbefore := (Text.Styled.foreground colour).coloured.not_mem_of_nil hc hescape
    have hbehind := Text.Styled.resetForeground.coloured.not_mem_of_nil hc hescape
    simp [Text.Style.paint, hbefore, hbehind]
  have hbold : c ∈ (Text.Style.bold text).toList ↔ c ∈ text.toList := by
    have hcode {parameter : Char} (hparameter : isRendition parameter = true) : c ∉ renditionCode [parameter] := by
      rw [← List.append_nil (renditionCode _)]
      exact (Coloured.code (List.forall_mem_singleton.mpr hparameter) .nil).not_mem_of_nil hc hescape
    have hbefore : c ∉ "\x1b[1m".toList := hcode (show isRendition '1' = true by decide)
    have hbehind : c ∉ "\x1b[0m".toList := hcode (show isRendition '0' = true by decide)
    simp only [Text.Style.bold, String.toList_append, List.mem_append, hbefore, hbehind, false_or, or_false]
  unfold tinted
  split
  · cases tint with
    | null => exact hbold
    | _ => exact hpaint _
  · exact Iff.rfl

theorem mem_intercalate {separator : String} (hseparator : c ∉ separator.toList) (entries : List String) :
    c ∈ (String.intercalate separator entries).toList ↔ ∃ e ∈ entries, c ∈ e.toList := by
  induction entries with
  | nil => simp
  | cons e entries ih =>
      cases entries with
      | nil => simp
      | cons e' entries =>
          rw [String.intercalate_cons_cons, String.toList_append, String.toList_append, List.mem_append, List.mem_append,
            ih, or_iff_left hseparator]
          simp only [List.mem_cons, exists_eq_or_imp]

/-- Between brackets on one line, all that comes before a space is in the entries. -/
theorem mem_layout (hc : c.toNat < 0x20) (colors : Bool) {opening closing : String} (hopening : Unbroken opening.toList)
    (hclosing : Unbroken closing.toList) (entries : List String) (depth : Nat) :
    c ∈ (layout ⟨colors, true⟩ opening closing entries depth).toList ↔ ∃ e ∈ entries, c ∈ e.toList := by
  have hspace : c ∉ " ".toList := Unbroken.not_mem (by decide) hc
  have hcomma : c ∉ ", ".toList := Unbroken.not_mem (by decide) hc
  unfold layout
  dsimp only
  rw [Bool.true_or, if_pos rfl]
  simp only [String.toList_append, List.mem_append, hopening.not_mem hc, hclosing.not_mem hc, hspace,
    mem_intercalate hcomma, false_or, or_false]

theorem mem_errorText (hc : c.toNat < 0x20) (name message : String) :
    c ∈ (errorText name message).toList ↔ c ∈ name.toList ∨ c ∈ message.toList := by
  have hcolon : c ∉ ": ".toList := Unbroken.not_mem (by decide) hc
  unfold errorText
  split
  · rename_i hempty
    simp [String.isEmpty_iff.mp hempty]
  · simp only [String.toList_append, List.mem_append, hcolon, or_false]

namespace Outline

/-- An error with that character in its name or its message is shown at some place. -/
def Tells (c : Char) (o : Outline) : Prop :=
  ∃ place name message, o.at? place = some (.error name message) ∧ (c ∈ name.toList ∨ c ∈ message.toList)

theorem tells_iff {o : Outline} :
    o.Tells c ↔ (∃ name message, o = .error name message ∧ (c ∈ name.toList ∨ c ∈ message.toList)) ∨
      ∃ part ∈ o.parts, part.Tells c := by
  constructor
  · rintro ⟨place, name, message, hplace, hc⟩
    cases place with
    | nil => exact .inl ⟨name, message, Option.some.inj hplace, hc⟩
    | cons n place =>
        obtain ⟨part, hpart, hplace⟩ := Option.bind_eq_some_iff.mp hplace
        exact .inr ⟨part, List.mem_of_getElem? hpart, place, name, message, hplace, hc⟩
  · rintro (⟨name, message, rfl, hc⟩ | ⟨part, hpart, place, name, message, hplace, hc⟩)
    · exact ⟨[], name, message, rfl, hc⟩
    · obtain ⟨n, hn⟩ := List.getElem?_of_mem hpart
      exact ⟨n :: place, name, message, Option.bind_eq_some_iff.mpr ⟨part, hn, hplace⟩, hc⟩

theorem not_tells_word (tint : Option Tint) (text : String) : ¬ (word tint text).Tells c := by
  rw [tells_iff]
  simp [parts]

theorem not_tells_circular : ¬ circular.Tells c := by
  rw [tells_iff]
  simp [parts]

theorem tells_error {name message : String} :
    (error name message).Tells c ↔ c ∈ name.toList ∨ c ∈ message.toList := by
  rw [tells_iff]
  simp [parts]

theorem tells_list {items : List Outline} {more : Nat} :
    (list items more).Tells c ↔ ∃ item ∈ items, item.Tells c := by
  rw [tells_iff]
  simp [parts]

theorem tells_record {fields : List (String × Outline)} :
    (record fields).Tells c ↔ ∃ field ∈ fields, field.2.Tells c := by
  rw [tells_iff]
  simp only [parts, reduceCtorEq, false_and, exists_false, false_or, List.mem_map, exists_exists_and_eq_and]

end Outline

variable {h : Heap}

theorem not_mem_key (hc : c.toNat < 0x20) (hescape : c ≠ '\x1b') (style : InspectStyle) (k : String) :
    c ∉ (key style k).toList := by
  unfold key
  split
  · rename_i hname
    exact (unbroken_key hname).not_mem hc
  · rw [mem_tinted hc hescape]
    exact (unbroken_quote k).not_mem hc

theorem mem_layout_items (hc : c.toNat < 0x20) (colors : Bool) {shown : Value → String} {inner : Value → Outline}
    (hinner : ∀ v, c ∈ (shown v).toList ↔ (inner v).Tells c) (items : List Value) (more depth : Nat) :
    c ∈ (layout ⟨colors, true⟩ "[" "]" (items.map shown ++ moreItems more) depth).toList ↔
      (Outline.list (items.map inner) more).Tells c := by
  rw [mem_layout hc colors (by decide) (by decide), Outline.tells_list]
  constructor
  · rintro ⟨e, he, hmem⟩
    rcases List.mem_append.mp he with he | he
    · obtain ⟨item, hitem, rfl⟩ := List.mem_map.mp he
      exact ⟨inner item, List.mem_map_of_mem hitem, (hinner item).mp hmem⟩
    · exact absurd hmem ((unbroken_moreItems he).not_mem hc)
  · rintro ⟨o, ho, htells⟩
    obtain ⟨item, hitem, rfl⟩ := List.mem_map.mp ho
    exact ⟨shown item, List.mem_append_left _ (List.mem_map_of_mem hitem), (hinner item).mpr htells⟩

theorem mem_layout_fields (hc : c.toNat < 0x20) (hescape : c ≠ '\x1b') (colors : Bool) {shown : Value → String}
    {inner : Value → Outline} (hinner : ∀ v, c ∈ (shown v).toList ↔ (inner v).Tells c)
    (fields : List (String × Value)) (depth : Nat) :
    c ∈ (layout ⟨colors, true⟩ "\x7b" "\x7d"
        (fields.map fun field => key ⟨colors, true⟩ field.1 ++ ": " ++ shown field.2) depth).toList ↔
      (Outline.record (fields.map fun field => (field.1, inner field.2))).Tells c := by
  have hcolon : c ∉ ": ".toList := Unbroken.not_mem (by decide) hc
  rw [mem_layout hc colors (by decide) (by decide), Outline.tells_record]
  simp only [List.mem_map, exists_exists_and_eq_and, String.toList_append, List.mem_append, not_mem_key hc hescape,
    hcolon, false_or, hinner]

/-- At every place inside a value: the control characters of its text are those of the errors in it. -/
theorem mem_valueAt (hc : c.toNat < 0x20) (hescape : c ≠ '\x1b') (colors : Bool) (room depth : Nat) (path : List Ref)
    (v : Value) :
    c ∈ (valueAt h ⟨colors, true⟩ room depth path v).toList ↔ (outlineAt h room path v).Tells c := by
  have hword {text : String} (htext : Unbroken text.toList) (tint : Tint) {o : Outline} (ho : ¬ o.Tells c) :
      c ∈ (tinted ⟨colors, true⟩ tint text).toList ↔ o.Tells c := by
    rw [mem_tinted hc hescape]
    exact iff_of_false (htext.not_mem hc) ho
  have hnone (text : String) (htext : Unbroken text.toList) : c ∈ text.toList ↔ (Outline.word none text).Tells c :=
    iff_of_false (htext.not_mem hc) (Outline.not_tells_word _ _)
  induction room using Nat.strongRecOn generalizing depth path v with
  | ind room ih =>
      unfold valueAt outlineAt
      cases v with
      | undefined => exact hword (by decide) _ (Outline.not_tells_word _ _)
      | null => exact hword (by decide) _ (Outline.not_tells_word _ _)
      | bool b => exact hword (by cases b <;> decide) _ (Outline.not_tells_word _ _)
      | number x => exact hword (unbroken_spell x) _ (Outline.not_tells_word _ _)
      | text s => exact hword (unbroken_quote s) _ (Outline.not_tells_word _ _)
      | object r =>
          dsimp only
          split
          · exact hword (by decide) _ Outline.not_tells_circular
          · cases hr : h.get? r with
            | none => exact hnone "" (by decide)
            | some o =>
                cases o with
                | function f self => exact hword (unbroken_function f) _ (Outline.not_tells_word _ _)
                | error name message =>
                    have hopening : c ∉ "[".toList := Unbroken.not_mem (by decide) hc
                    have hclosing : c ∉ "]".toList := Unbroken.not_mem (by decide) hc
                    dsimp only [objectOutline]
                    rw [Outline.tells_error, ← mem_errorText hc]
                    split
                    · exact Iff.rfl
                    · simp only [String.toList_append, List.mem_append, hopening, hclosing, false_or, or_false]
                | list items =>
                    dsimp only [objectOutline]
                    split
                    · exact hnone _ (by decide)
                    · cases room with
                      | zero => exact hword (by decide) _ (Outline.not_tells_word _ _)
                      | succ room =>
                          exact mem_layout_items hc colors (ih room (Nat.lt_succ_self room) (depth + 1) (r :: path)) _ _ _
                | plain fields =>
                    dsimp only [objectOutline]
                    split
                    · exact hnone _ (by decide)
                    · cases room with
                      | zero => exact hword (by decide) _ (Outline.not_tells_word _ _)
                      | succ room =>
                          exact mem_layout_fields hc hescape colors
                            (ih room (Nat.lt_succ_self room) (depth + 1) (r :: path)) _ _

theorem objectOutline_eq_error {inner? : Option (Value → Outline)} {o : Obj} {name message : String}
    (ho : objectOutline inner? o = .error name message) : o = .error name message := by
  cases o with
  | function f self => cases ho
  | error name' message' =>
      cases ho
      rfl
  | list items =>
      dsimp only [objectOutline] at ho
      split at ho
      · cases ho
      · cases inner? <;> cases ho
  | plain fields =>
      dsimp only [objectOutline] at ho
      split at ho
      · cases ho
      · cases inner? <;> cases ho

theorem outlineAt_eq_error {room : Nat} {path : List Ref} {v : Value} {name message : String}
    (hv : outlineAt h room path v = .error name message) :
    ∃ r, v = .object r ∧ h.get? r = some (.error name message) := by
  cases v with
  | object r =>
      unfold outlineAt at hv
      split at hv
      · cases hv
      · split at hv
        · cases hv
        · rename_i o hr
          exact ⟨r, rfl, hr.trans (congrArg some (objectOutline_eq_error hv))⟩
  | _ => simp [outlineAt] at hv

end Inspection

open Inspection

namespace Heap

/-- Whatever the heap holds: the line of a compact inspection, in colours or without, is broken exactly where the name
or the message of an error is that the value shows, and so it is with all control characters but the escape character of
the colours. -/
theorem mem_inspect_compact (h : Heap) (v : Value) (colors : Bool) {c : Char} (hc : c.toNat < 0x20)
    (hescape : c ≠ '\x1b') :
    c ∈ (h.inspect ⟨colors, true⟩ v).toList ↔
      ∃ place ancestors r name message, h.Leads v place ancestors (.object r) ∧
        h.get? r = some (.error name message) ∧ (h.outline v).at? place = some (.error name message) ∧
        (c ∈ name.toList ∨ c ∈ message.toList) := by
  rw [Heap.inspect, mem_valueAt hc hescape]
  constructor
  · rintro ⟨place, name, message, hplace, hmem⟩
    obtain ⟨-, ancestors, w, hleads, ⟨room, path, hw⟩, -⟩ := at?_outlineAt hplace
    obtain ⟨r, rfl, hr⟩ := outlineAt_eq_error hw.symm
    exact ⟨place, ancestors, r, name, message, hleads, hr, hplace, hmem⟩
  · rintro ⟨place, ancestors, r, name, message, -, -, hplace, hmem⟩
    exact ⟨place, name, message, hplace, hmem⟩

/-- A list with an error whose message is on two lines. -/
theorem mem_inspect_compact_listed :
    let h : Heap := ⟨#[.error "Error" "a\nb", .list #[.object ⟨0⟩]]⟩
    '\n'.toNat < 0x20 ∧ '\n' ≠ '\x1b' ∧ '\n' ∈ (h.inspect ⟨true, true⟩ (.object ⟨1⟩)).toList := by
  intro h
  have hline : '\n'.toNat < 0x20 := by decide
  have hescape : '\n' ≠ '\x1b' := by decide
  refine ⟨hline, hescape, (mem_inspect_compact h (.object ⟨1⟩) true hline hescape).mpr ?_⟩
  exact ⟨[0], [.object ⟨1⟩], ⟨0⟩, "Error", "a\nb", .step rfl (.here _), rfl, rfl, .inr (by decide)⟩

theorem inspect_error {h : Heap} {v : Value} {name message : String} (hv : h.object? v = some (.error name message))
    (style : InspectStyle) : h.inspect style v = errorText name message := by
  cases v with
  | object r =>
      have hr : h.get? r = some (.error name message) := hv
      unfold inspect valueAt
      simp [hr]
  | _ => cases hv

end Heap

/-! ### A line that breaks -/

open Eval

/-- A text key of `undefined` stands in the message of the error as it is. -/
theorem Evaluation.outcome_index_undefined (key : String) (realm : Realm) :
    (eval false 0 (.index (.literal .undefined) (.text key))).outcome ⟨realm, none⟩ =
      (raise "TypeError" ("Cannot read properties of undefined (reading '" ++ key ++ "')") : Eval Value).outcome
        ⟨realm, none⟩ := by
  have htick : tick.outcome ⟨realm, none⟩ = (.ok (), ⟨realm, none⟩) := rfl
  have hguard : (guardDepth 0).outcome ⟨realm, none⟩ = (.ok (), ⟨realm, none⟩) := rfl
  have hobject :
      (eval false (0 + 1) (.literal .undefined)).outcome ⟨realm, none⟩ = (.ok .undefined, ⟨realm, none⟩) := by
    rw [eval]
    rfl
  have hkey : (eval false (0 + 1) (.text key)).outcome ⟨realm, none⟩ = (.ok (.text key), ⟨realm, none⟩) := by
    rw [eval]
    rfl
  have hshown : (display .undefined).outcome ⟨realm, none⟩ = (.ok "undefined", ⟨realm, none⟩) := by
    change (Except.ok (realm.heap.display .undefined), _) = _
    rw [Heap.display, Heap.displayAt]
  rw [eval, outcome_bind, htick]
  dsimp only
  rw [outcome_bind, hguard]
  dsimp only
  rw [outcome_bind, hobject]
  dsimp only
  rw [outcome_bind, hkey]
  dsimp only
  rw [outcome_bind, outcome_display_text]
  dsimp only
  rw [getProperty, outcome_bind, outcome_heap]
  dsimp only [Heap.property?]
  rw [outcome_bind, hshown]
  rfl

namespace Syntax

/-- The key, if all that the program does is to read a property of `undefined` by a text. -/
def undefinedKey? : Except SyntaxError Program → Option String
  | .ok [.expr (.index (.literal .undefined) (.text key))] => some key
  | _ => none

theorem eq_of_undefinedKey? {parsed : Except SyntaxError Program} {key : String} (h : undefinedKey? parsed = some key) :
    parsed = .ok [.expr (.index (.literal .undefined) (.text key))] := by
  unfold undefinedKey? at h
  split at h
  · rw [Option.some.inj h]
  · cases h

end Syntax

namespace Host

/-- A program of one expression that is not evaluated to the end. -/
theorem outcome_programOf {source : String} {e : Syntax.Expr} {start after : Run} {interrupt : Interrupt}
    (hparse : Syntax.parseProgram source = .ok [.expr e])
    (he : (Evaluation.eval false 0 e).outcome start = (.error interrupt, after)) :
    (programOf source {}).outcome start = (.error interrupt, after) := by
  rw [programOf, hparse]
  change (Evaluation.eval false 0 e >>= fun _ => _ : Eval Value).outcome start = _
  rw [outcome_bind, he]

/-- The handle of what a program throws: what is inspected through it is that value. -/
theorem evaluate_of_throw {host : Host} {source : String} {run : Run} {v : Value} (hordered : host.Ordered)
    (options : EvalOptions)
    (h : (programOf source options).outcome ⟨host.realm, options.ticks⟩ = (.error (.throw v), run)) :
    ∃ thrown after, host.evaluate source options = (.ok (.exception thrown), after) ∧
      ∀ style, after.inspect thrown.id style = .ok (run.realm.heap.inspect style v) := by
  have hafter : Ordered { host with realm := run.realm } := ⟨hordered.nodup, hordered.lt⟩
  unfold outcome at h
  unfold evaluate perform
  rw [h]
  exact ⟨_, _, rfl, inspect_of_value? (hafter.value?_register v options.group)⟩

/-- What is thrown when a property is read of `undefined` whose key is on two lines. -/
theorem thrown_key_breaks_line :
    ∃ thrown after, (fresh 1).evaluate "undefined['a\\nb']" {} = (.ok (.exception thrown), after) ∧
      ∃ text, after.inspect thrown.id { compact := true } = .ok text ∧ '\n' ∈ text.toList := by
  let message := "Cannot read properties of undefined (reading '" ++ "a\nb" ++ "')"
  have hordered : (fresh 1).Ordered := ⟨.nil, nofun⟩
  have hparse : Syntax.parseProgram "undefined['a\\nb']" =
      .ok [.expr (.index (.literal .undefined) (.text "a\nb"))] :=
    Syntax.eq_of_undefinedKey? (by decide +kernel)
  obtain ⟨v, run, hraise, -, hv⟩ :=
    outcome_raise (α := Value) "TypeError" message ⟨(fresh 1).realm, none⟩
  have hrun : (programOf "undefined['a\\nb']" {}).outcome ⟨(fresh 1).realm, none⟩ = (.error (.throw v), run) :=
    outcome_programOf hparse ((Evaluation.outcome_index_undefined _ _).trans hraise)
  obtain ⟨thrown, after, hevaluate, hinspect⟩ := evaluate_of_throw hordered {} hrun
  refine ⟨thrown, after, hevaluate, errorText "TypeError" message, ?_, by decide⟩
  rw [hinspect, Heap.inspect_error hv]

end Host

end ScriptRepl
