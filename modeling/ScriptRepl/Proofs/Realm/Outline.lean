import ScriptRepl.Proofs.Realm.Cycle
import ScriptRepl.Realm.Inspection

/-! What is shown of a value, before it is laid out as text: lists and objects with what they hold, to the depth that
is shown, and a mark wherever a value lies inside itself. -/
namespace ScriptRepl

namespace Inspection

inductive Outline where
  | word (tint : Option Tint) (text : String)
  | error (name message : String)
  | circular
  | list (items : List Outline) (more : Nat)
  | record (fields : List (String × Outline))

namespace Outline

section

variable (style : InspectStyle)

mutual

def render (depth : Nat) : Outline → String
  | word none text => text
  | word (some tint) text => tinted style tint text
  | error name message => if depth = 0 then errorText name message else "[" ++ errorText name message ++ "]"
  | circular => tinted style .special "[Circular]"
  | list items more => layout style "[" "]" (renderItems (depth + 1) items ++ moreItems more) depth
  | record fields => layout style "\x7b" "\x7d" (renderFields (depth + 1) fields) depth

def renderItems (depth : Nat) : List Outline → List String
  | [] => []
  | item :: items => item.render depth :: renderItems depth items

def renderFields (depth : Nat) : List (String × Outline) → List String
  | [] => []
  | (k, item) :: fields => (key style k ++ ": " ++ item.render depth) :: renderFields depth fields

end

end

theorem renderItems_eq_map (style : InspectStyle) (depth : Nat) (items : List Outline) :
    renderItems style depth items = items.map (render style depth) := by
  induction items with
  | nil => rfl
  | cons item items ih => rw [renderItems, ih, List.map_cons]

theorem renderFields_eq_map (style : InspectStyle) (depth : Nat) (fields : List (String × Outline)) :
    renderFields style depth fields =
      fields.map fun field => key style field.1 ++ ": " ++ render style depth field.2 := by
  induction fields with
  | nil => rfl
  | cons field fields ih => rw [renderFields, ih, List.map_cons]

/-- What is shown directly inside. -/
def parts : Outline → List Outline
  | list items _ => items
  | record fields => fields.map Prod.snd
  | _ => []

/-- What is shown at a place: the first number counts the parts of the whole, the next one those of that part. -/
def at? : Outline → List Nat → Option Outline
  | o, [] => some o
  | o, n :: place => o.parts[n]?.bind (at? · place)

end Outline

/-- The outline of an object; `inner?` gives that of its contents if it is still opened. -/
def objectOutline (inner? : Option (Value → Outline)) : Obj → Outline
  | .function f _ => .word (some .special) ("[Function: " ++ f.name ++ "]")
  | .error name message => .error name message
  | .list items =>
    if items.isEmpty then .word none "[]"
    else
      match inner? with
      | none => .word (some .special) "[Array]"
      | some inner => .list ((items.toList.take maxItems).map inner) (items.size - maxItems)
  | .plain fields =>
    if fields.isEmpty then .word none "\x7b\x7d"
    else
      match inner? with
      | none => .word (some .special) "[Object]"
      | some inner => .record (fields.entries.map fun field => (field.1, inner field.2))

/-- The outline of a value that lies inside the objects of `path`; `room` is the number of levels that are still
opened. -/
def outlineAt (h : Heap) (room : Nat) (path : List Ref) : Value → Outline
  | .undefined => .word (some .undefined) "undefined"
  | .null => .word (some .null) "null"
  | .bool b => .word (some .boolean) (if b then "true" else "false")
  | .number x => .word (some .number) (Number.spell x)
  | .text s => .word (some .text) (quote s)
  | .object r =>
    if path.contains r then .circular
    else
      match h.get? r with
      | none => .word none ""
      | some o =>
        objectOutline (match room with
          | 0 => none
          | room + 1 => some (outlineAt h room (r :: path))) o

theorem valueAt_eq_render (h : Heap) (style : InspectStyle) (room depth : Nat) (path : List Ref) (v : Value) :
    valueAt h style room depth path v = (outlineAt h room path v).render style depth := by
  induction room using Nat.strongRecOn generalizing depth path v with
  | ind room ih =>
      cases v with
      | object r =>
          unfold valueAt outlineAt
          dsimp only
          split
          · rfl
          · cases h.get? r with
            | none => rfl
            | some o =>
                cases o with
                | function f self => rfl
                | error name message => rfl
                | list items =>
                    dsimp only [objectOutline]
                    split
                    · rfl
                    · cases room with
                      | zero => rfl
                      | succ room =>
                          have hitems := funext (ih room (Nat.lt_succ_self room) (depth + 1) (r :: path))
                          dsimp only
                          rw [hitems, Outline.render, Outline.renderItems_eq_map, List.map_map]
                          rfl
                | plain fields =>
                    dsimp only [objectOutline]
                    split
                    · rfl
                    · cases room with
                      | zero => rfl
                      | succ room =>
                          have hfields := ih room (Nat.lt_succ_self room) (depth + 1) (r :: path)
                          dsimp only
                          rw [Outline.render, Outline.renderFields_eq_map, List.map_map]
                          simp only [hfields]
                          rfl
      | _ =>
          unfold valueAt outlineAt
          rfl

/-! ### Places -/

end Inspection

open Inspection

namespace Heap

def outline (h : Heap) (v : Value) : Outline :=
  outlineAt h (maxDepth + 1) [] v

/-- From a value along the numbers of contents, through the values `ancestors`, to the value at the end. -/
inductive Leads (h : Heap) : Value → List Nat → List Value → Value → Prop where
  | here (v : Value) : Leads h v [] [] v
  | step {v c w : Value} {n : Nat} {place : List Nat} {ancestors : List Value} (hc : (h.contents v)[n]? = some c)
      (rest : Leads h c place ancestors w) : Leads h v (n :: place) (v :: ancestors) w

end Heap

namespace Inspection

variable {h : Heap}

theorem objectOutline_ne_circular (inner? : Option (Value → Outline)) (o : Obj) :
    objectOutline inner? o ≠ .circular := by
  cases o with
  | function f self => exact nofun
  | error name message => exact nofun
  | list items =>
      dsimp only [objectOutline]
      split
      · exact nofun
      · cases inner? <;> exact nofun
  | plain fields =>
      dsimp only [objectOutline]
      split
      · exact nofun
      · cases inner? <;> exact nofun

theorem parts_objectOutline {inner? : Option (Value → Outline)} {o : Obj} {n : Nat} {part : Outline}
    (hpart : (objectOutline inner? o).parts[n]? = some part) :
    ∃ inner c, inner? = some inner ∧ o.contents[n]? = some c ∧ part = inner c := by
  cases o with
  | function f self => cases hpart
  | error name message => cases hpart
  | list items =>
      dsimp only [objectOutline] at hpart
      split at hpart
      · cases hpart
      · cases inner? with
        | none => cases hpart
        | some inner =>
            obtain ⟨c, hc, rfl⟩ : ∃ c, (items.toList.take maxItems)[n]? = some c ∧ inner c = part := by
              simpa only [Outline.parts, List.getElem?_map, Option.map_eq_some_iff] using hpart
            rw [List.getElem?_take] at hc
            split at hc
            · exact ⟨inner, c, rfl, hc, rfl⟩
            · cases hc
  | plain fields =>
      dsimp only [objectOutline] at hpart
      split at hpart
      · cases hpart
      · cases inner? with
        | none => cases hpart
        | some inner =>
            obtain ⟨field, hfield, rfl⟩ : ∃ field, fields.entries[n]? = some field ∧ inner field.2 = part := by
              simpa [Outline.parts] using hpart
            exact ⟨inner, field.2, rfl, by simp [Obj.contents, Dict.values, hfield], rfl⟩

theorem outlineAt_eq_circular_iff {room : Nat} {path : List Ref} {v : Value} :
    outlineAt h room path v = .circular ↔ ∃ r ∈ path, v = .object r := by
  cases v with
  | object r =>
      unfold outlineAt
      split
      · rename_i hseen
        exact iff_of_true rfl ⟨r, by simpa using hseen, rfl⟩
      · rename_i hnew
        refine iff_of_false ?_ (by simpa using hnew)
        split
        · exact nofun
        · exact objectOutline_ne_circular _ _
  | _ => simp [outlineAt]

/-- What stands directly inside what is shown of a value is what is shown of its contents, one level further in. -/
theorem parts_outlineAt {room : Nat} {path : List Ref} {v : Value} {n : Nat} {part : Outline}
    (hpart : (outlineAt h room path v).parts[n]? = some part) :
    ∃ r c room', v = .object r ∧ room = room' + 1 ∧ (h.contents v)[n]? = some c ∧
      part = outlineAt h room' (r :: path) c := by
  cases v with
  | object r =>
      unfold outlineAt at hpart
      split at hpart
      · cases hpart
      · cases hr : h.get? r with
        | none =>
            rw [hr] at hpart
            cases hpart
        | some o =>
            rw [hr] at hpart
            obtain ⟨inner, c, hinner, hc, rfl⟩ := parts_objectOutline hpart
            cases room with
            | zero => cases hinner
            | succ room =>
                cases hinner
                exact ⟨r, c, room, rfl, rfl, by rwa [Heap.contents_object hr], rfl⟩
  | _ => simp [outlineAt, Outline.parts] at hpart

/-- What is shown at a place is the outline of the value that the place leads to, and it is the mark if that value is
one of those on the way or in the path. -/
theorem at?_outlineAt {room : Nat} {path : List Ref} {v : Value} {place : List Nat} {o : Outline}
    (ho : (outlineAt h room path v).at? place = some o) :
    place.length ≤ room ∧ ∃ ancestors w, h.Leads v place ancestors w ∧
      (∃ room' path', o = outlineAt h room' path' w) ∧
      (o = .circular ↔ w ∈ ancestors ∨ ∃ r ∈ path, w = .object r) := by
  induction place generalizing room path v with
  | nil =>
      cases ho
      exact ⟨Nat.zero_le _, [], v, .here v, ⟨room, path, rfl⟩, by simp [outlineAt_eq_circular_iff]⟩
  | cons n place ih =>
      obtain ⟨part, hpart, ho⟩ := Option.bind_eq_some_iff.mp ho
      obtain ⟨r, c, room, rfl, rfl, hc, rfl⟩ := parts_outlineAt hpart
      obtain ⟨hlength, ancestors, w, hleads, houtline, hiff⟩ := ih ho
      refine ⟨Nat.succ_le_succ hlength, .object r :: ancestors, w, .step hc hleads, houtline, hiff.trans ?_⟩
      simp only [List.mem_cons, exists_eq_or_imp]
      rw [← or_assoc, or_comm (a := w ∈ ancestors)]

end Inspection

end ScriptRepl
