import ScriptRepl.Realm.JsonValue

/-! The walks that turn values into texts, with a bound on how deep their calls may be nested. A walk without the
bound is the bounded one with room for a call per object on the heap and one more, so it comes to its end on any heap.
-/
namespace ScriptRepl.Heap

/-- The text of a value, if no call is nested deeper than there is room. -/
def displayWithin (h : Heap) : (room : Nat) → List Ref → Value → Option String
  | 0, _, _ => none
  | _ + 1, _, .undefined => some "undefined"
  | _ + 1, _, .null => some "null"
  | _ + 1, _, .bool b => some (if b then "true" else "false")
  | _ + 1, _, .number x => some (Number.spell x)
  | _ + 1, _, .text s => some s
  | room + 1, path, .object r =>
    if path.contains r then some ""
    else
      match h.get? r with
      | some (.plain _) => some "[object Object]"
      | some (.function f _) => some ("function " ++ f.name ++ "() \x7b [native code] \x7d")
      | some (.error name message) => some (errorText name message)
      | some (.list items) => do
        let shown ← items.toList.mapM fun v =>
          if v.isNullish then some "" else displayWithin h room (r :: path) v
        return String.intercalate "," shown
      | none => some ""

/-- The JSON of a value, if no call is nested deeper than there is room. -/
def jsonWithin (h : Heap) : (room : Nat) → List Ref → Value → ExceptT Circular Option (Option Json)
  | 0, _, _ => ExceptT.mk none
  | _ + 1, _, .undefined => return none
  | _ + 1, _, .null => return some .null
  | _ + 1, _, .bool b => return some (.bool b)
  | _ + 1, _, .number x => return some (jsonNumber x)
  | _ + 1, _, .text s => return some (.text s)
  | room + 1, path, .object r =>
    if path.contains r then throw .circular
    else
      match h.get? r with
      | some (.function ..) => return none
      | some (.list items) => do
        let written ← items.toList.mapM (jsonWithin h room (r :: path))
        return some (.array (written.map (·.getD .null)))
      | some (.plain fields) => do
        let written ← fields.entries.mapM fun field =>
          (·.map (field.1, ·)) <$> jsonWithin h room (r :: path) field.2
        return some (.object (written.filterMap id))
      | some (.error ..) => return some (.object [])
      | none => return none

variable {h : Heap} {path : List Ref}

theorem unseen_nil (h : Heap) : h.unseen [] = h.size := by
  simp [unseen]

theorem displayItems_eq_map (vs : List Value) :
    h.displayItems path vs = vs.map fun v => if v.isNullish then "" else h.displayAt path v := by
  induction vs with
  | nil => rw [displayItems, List.map_nil]
  | cons v vs ih => rw [displayItems, ih, List.map_cons]

theorem mapM_eq_some_map {α β : Type} {f : α → Option β} {g : α → β} {as : List α} (hf : ∀ a ∈ as, f a = some (g a)) :
    as.mapM f = some (as.map g) := by
  induction as with
  | nil => rfl
  | cons a as ih =>
      rw [List.mapM_cons, hf a List.mem_cons_self, ih fun a ha => hf a (List.mem_cons_of_mem _ ha)]
      rfl

/-- Each object that the walk opens takes one of those that are left, and so a call of the room. -/
theorem unseen_lt_room {room : Nat} (hroom : h.unseen path < room + 1) {r : Ref} {o : Obj} (hr : h.get? r = some o)
    (hnew : ¬ path.contains r = true) : h.unseen (r :: path) < room :=
  Nat.lt_of_lt_of_le (unseen_cons_lt (lt_size_of_get? hr) (by simpa using hnew)) (Nat.le_of_lt_succ hroom)

theorem displayAt_object (r : Ref) :
    h.displayAt path (.object r) =
      if path.contains r then ""
      else
        match h.get? r with
        | some (.plain _) => "[object Object]"
        | some (.function f _) => "function " ++ f.name ++ "() \x7b [native code] \x7d"
        | some (.error name message) => errorText name message
        | some (.list items) => String.intercalate "," (h.displayItems (r :: path) items.toList)
        | none => "" := by
  rw [displayAt]
  split
  · rfl
  · split <;> simp [*]

theorem displayWithin_eq_some (h : Heap) {room : Nat} {path : List Ref} (hroom : h.unseen path < room) (v : Value) :
    h.displayWithin room path v = some (h.displayAt path v) := by
  induction room generalizing path v with
  | zero => exact absurd hroom (Nat.not_lt_zero _)
  | succ room ih =>
      cases v with
      | object r =>
          rw [displayWithin, displayAt_object]
          split
          · rfl
          · rename_i hnew
            cases hr : h.get? r with
            | none => rfl
            | some o =>
                cases o with
                | list items =>
                    have hitem : ∀ v ∈ items.toList,
                        (if v.isNullish then some "" else h.displayWithin room (r :: path) v) =
                          some (if v.isNullish then "" else h.displayAt (r :: path) v) := by
                      intro v _
                      split
                      · rfl
                      · exact ih (unseen_lt_room hroom hr hnew) v
                    dsimp only
                    rw [mapM_eq_some_map hitem, displayItems_eq_map]
                    rfl
                | _ => rfl
      | _ => rw [displayWithin, displayAt]

/-! ### JSON -/

theorem jsonItems_eq_mapM (vs : List Value) :
    h.jsonItems path vs = (·.map (·.getD .null)) <$> vs.mapM (h.jsonAt path) := by
  induction vs with
  | nil => rw [jsonItems]; rfl
  | cons v vs ih =>
      rw [jsonItems, ih, List.mapM_cons]
      cases h.jsonAt path v with
      | error e => rfl
      | ok item => cases vs.mapM (h.jsonAt path) <;> rfl

theorem jsonFields_eq_mapM (fields : List (String × Value)) :
    h.jsonFields path fields =
      (·.filterMap id) <$> fields.mapM fun field => (·.map (field.1, ·)) <$> h.jsonAt path field.2 := by
  induction fields with
  | nil => rw [jsonFields]; rfl
  | cons field fields ih =>
      obtain ⟨key, v⟩ := field
      rw [jsonFields, ih, List.mapM_cons]
      dsimp only
      cases h.jsonAt path v with
      | error e => rfl
      | ok item =>
          cases fields.mapM fun field => (·.map (field.1, ·)) <$> h.jsonAt path field.2 with
          | error e => rfl
          | ok rest => cases item <;> rfl

theorem jsonAt_object (r : Ref) :
    h.jsonAt path (.object r) =
      if path.contains r then .error .circular
      else
        match h.get? r with
        | some (.function ..) => .ok none
        | some (.list items) => do return some (.array (← h.jsonItems (r :: path) items.toList))
        | some (.plain fields) => do return some (.object (← h.jsonFields (r :: path) fields.entries))
        | some (.error ..) => .ok (some (.object []))
        | none => .ok none := by
  rw [jsonAt]
  split
  · rfl
  · split <;> simp [*]

/-- A computation that ends, with a result or not. -/
def ended {ε α : Type} (x : Except ε α) : ExceptT ε Option α :=
  ExceptT.mk (some x)

theorem mapM_eq_ended {ε α β : Type} {f : α → ExceptT ε Option β} {g : α → Except ε β} {as : List α}
    (hf : ∀ a ∈ as, f a = ended (g a)) : as.mapM f = ended (as.mapM g) := by
  induction as with
  | nil => rfl
  | cons a as ih =>
      rw [List.mapM_cons, List.mapM_cons, hf a List.mem_cons_self, ih fun a ha => hf a (List.mem_cons_of_mem _ ha)]
      cases g a with
      | error e => rfl
      | ok b => cases as.mapM g <;> rfl

theorem map_ended {ε α β : Type} (f : α → β) (x : Except ε α) : f <$> ended x = ended (f <$> x) := by
  cases x <;> rfl

theorem jsonWithin_eq_ended (h : Heap) {room : Nat} {path : List Ref} (hroom : h.unseen path < room) (v : Value) :
    h.jsonWithin room path v = ended (h.jsonAt path v) := by
  induction room generalizing path v with
  | zero => exact absurd hroom (Nat.not_lt_zero _)
  | succ room ih =>
      cases v with
      | object r =>
          rw [jsonWithin, jsonAt_object]
          split
          · rfl
          · rename_i hnew
            cases hr : h.get? r with
            | none => rfl
            | some o =>
                have ih := ih (unseen_lt_room hroom hr hnew)
                cases o with
                | list items =>
                    dsimp only
                    rw [mapM_eq_ended fun v _ => ih v, jsonItems_eq_mapM]
                    cases items.toList.mapM (h.jsonAt (r :: path)) <;> rfl
                | plain fields =>
                    have hfield : ∀ field ∈ fields.entries,
                        (·.map (field.1, ·)) <$> h.jsonWithin room (r :: path) field.2 =
                          ended ((·.map (field.1, ·)) <$> h.jsonAt (r :: path) field.2) :=
                      fun field _ => by rw [ih field.2, map_ended]
                    dsimp only
                    rw [mapM_eq_ended hfield, jsonFields_eq_mapM]
                    cases fields.entries.mapM fun field => (·.map (field.1, ·)) <$> h.jsonAt (r :: path) field.2 <;> rfl
                | _ => rfl
      | _ =>
          rw [jsonWithin, jsonAt]
          rfl

end ScriptRepl.Heap
