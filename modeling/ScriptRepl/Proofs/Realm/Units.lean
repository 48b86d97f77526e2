import ScriptRepl.Proofs.Number.Whole
import ScriptRepl.Proofs.Realm.Aliasing
import ScriptRepl.Proofs.Realm.Listed

/-! What texts and lists have under their indices, by four ways that count it: reading an index, listing the keys,
`charAt` and the length. All count the items, but the length of a text counts the units of UTF-16. -/
namespace ScriptRepl

open Eval

/-- The characters of a text, each as a text, or the values of a list. -/
def Heap.items? (h : Heap) : Value → Option (List Value)
  | .text s => some (s.toList.map fun c => .text c.toString)
  | .object r =>
    match h.get? r with
    | some (.list items) => some items.toList
    | _ => none
  | _ => none

/-- The characters of a text that take two units each. -/
def Value.pairs : Value → Nat
  | .text s => s.toList.countP fun c => 0x10000 ≤ c.toNat
  | _ => 0

theorem unitsOf_eq (cs : List Char) : unitsOf cs = cs.length + cs.countP fun c => 0x10000 ≤ c.toNat := by
  induction cs with
  | nil => rfl
  | cons c cs ih =>
      rw [unitsOf, ih, List.countP_cons, List.length_cons]
      by_cases hc : c.toNat < 0x10000
      · rw [if_pos hc, if_neg (by simpa using hc)]
        omega
      · rw [if_neg hc, if_pos (by simpa using hc)]
        omega

theorem Heap.items?_cases {h : Heap} {x : Value} {vs : List Value} (hx : h.items? x = some vs) :
    (∃ s, x = .text s ∧ vs = s.toList.map fun c => .text c.toString) ∨
      ∃ r items, x = .object r ∧ h.get? r = some (.list items) ∧ vs = items.toList := by
  cases x with
  | text s => exact .inl ⟨s, rfl, (Option.some.inj hx).symm⟩
  | object r =>
      rw [items?] at hx
      split at hx
      · rename_i items hr
        exact .inr ⟨r, items, rfl, hr, (Option.some.inj hx).symm⟩
      · cases hx
  | _ => cases hx

/-- No method is called by a number. -/
theorem lookup_toString {table : List (String × Builtin)} (hnames : ∀ m ∈ table, Text.isName m.1 = true) (n : Nat) :
    table.lookup (toString n) = none := by
  rw [List.lookup_eq_none_iff]
  intro m hm
  rw [bne_iff_ne]
  intro heq
  have hname := hnames m hm
  rw [← heq, not_isName_toString] at hname
  cases hname

theorem isName_of_mem_textMethods : ∀ m ∈ Builtin.textMethods, Text.isName m.1 = true := by
  decide

theorem isName_of_mem_listMethods : ∀ m ∈ Builtin.listMethods, Text.isName m.1 = true := by
  decide

theorem toString_ne_length (n : Nat) : toString n ≠ "length" := by
  intro heq
  have hname := not_isName_toString n
  rw [heq] at hname
  revert hname
  decide

section

variable {h : Heap} {x : Value} {vs : List Value}

/-- An index gives the item there, and nothing outside. -/
theorem property?_index (hx : h.items? x = some vs) (i : Nat) :
    h.property? x (toString i) =
      some (if i < 2 ^ 64 then .stored (vs[i]?.getD .undefined) else .method none) := by
  rcases Heap.items?_cases hx with ⟨s, rfl, rfl⟩ | ⟨r, items, rfl, hr, rfl⟩
  · rw [Heap.property?, textProperty, if_neg (toString_ne_length i), lookup_toString isName_of_mem_textMethods,
      index?_toString, List.getElem?_map]
    by_cases hi : i < 2 ^ 64
    · simp only [if_pos hi]
      cases s.toList[i]? <;> rfl
    · simp only [if_neg hi]
  · rw [property?_object hr, objectProperty, if_neg (toString_ne_length i),
      lookup_toString isName_of_mem_listMethods, index?_toString, Array.getElem?_toList]
    by_cases hi : i < 2 ^ 64
    · simp only [if_pos hi]
    · simp only [if_neg hi]

theorem property?_length (hx : h.items? x = some vs) :
    h.property? x "length" = some (.stored (natValue (vs.length + x.pairs))) := by
  rcases Heap.items?_cases hx with ⟨s, rfl, rfl⟩ | ⟨r, items, rfl, hr, rfl⟩
  · rw [Heap.property?, textProperty, if_pos rfl, units, unitsOf_eq, List.length_map]
    rfl
  · rw [property?_object hr]
    rfl

end

variable {run : Run} {x : Value} {vs : List Value}

theorem outcome_fieldItems_keys (fields : List (String × Value)) (run : Run) :
    (Native.fieldItems .keys fields).outcome run = (.ok (fields.map fun field => .text field.1), run) := by
  induction fields with
  | nil => rfl
  | cons field fields ih =>
      have hitem : (pure (Value.text field.1) : Eval Value).outcome run = (.ok (.text field.1), run) := rfl
      simp only [Native.fieldItems, outcome_bind, hitem, ih]
      rfl

/-- The fields that a text or a list has of its own are its items under their indices. -/
theorem outcome_ownFields (hx : run.realm.heap.items? x = some vs) :
    (Native.ownFields x).outcome run = (.ok (vs.zipIdx.map fun (v, n) => (toString n, v)), run) := by
  rcases Heap.items?_cases hx with ⟨s, rfl, rfl⟩ | ⟨r, items, rfl, hr, rfl⟩
  · rfl
  · simp only [Native.ownFields, outcome_bind, outcome_heap, hr]
    rfl

theorem outcome_keys (hx : run.realm.heap.items? x = some vs) (self : Value) :
    ∃ r after, (callBuiltin (.fields .keys) self [x]).outcome run = (.ok (.object r), after) ∧
      after.realm.heap.get? r = some (.list ((List.range vs.length).map fun i => .text (toString i)).toArray) := by
  have hkeys : (vs.zipIdx.map fun (v, n) => (toString n, v)).map (fun field => Value.text field.1) =
      (List.range vs.length).map fun i => .text (toString i) := by
    rw [List.map_map, List.range_eq_range', ← List.zipIdx_map_snd 0 vs, List.map_map]
    rfl
  have hfirst : argument [x] 0 = x := rfl
  simp only [callBuiltin, hfirst, outcome_bind, outcome_ownFields hx, outcome_fieldItems_keys, hkeys]
  refine ⟨_, _, rfl, ?_⟩
  exact (Heap.get?_alloc _ _ _).trans (if_pos rfl)

theorem outcome_charAt {s : String} {z : Float} {i : Nat} (hz : Number.Denotes z i) (hroom : s.toList.length < 2 ^ 64) :
    (callBuiltin (.text .charAt) (.text s) [.number z]).outcome run =
      (.ok (.text (String.ofList s.toList[i]?.toList)), run) := by
  have hplace : s.toList[Number.toNatUpTo (Number.twoTo 64 - 1) z]? = s.toList[i]? := by
    have htwo : Number.twoTo 64 - 1 = 2 ^ 64 - 1 := rfl
    rw [hz.toNatUpTo, htwo]
    rcases Nat.lt_or_ge i (2 ^ 64) with hlt | hge
    · rw [Nat.min_eq_left (by omega)]
    · rw [List.getElem?_eq_none (by omega), List.getElem?_eq_none (by omega)]
  have hnumber : run.realm.heap.toNumber (argument [.number z] 0) = z := rfl
  simp only [callBuiltin, callTextMethod, outcome_bind, outcome_heap, outcome_display_text, hnumber,
    if_neg hz.not_lt_zero, hplace]
  rfl

/-- Indices, keys and `charAt` agree on the items of a text or list, as many as there are; the length agrees as well,
unless the text has characters that take two units of UTF-16: each of them counts twice. -/
theorem items_counted (hx : run.realm.heap.items? x = some vs) (hroom : vs.length < 2 ^ 64) :
    (∃ z, (getProperty x "length").outcome run = (.ok (.number z), run) ∧
        (vs.length + x.pairs ≤ 2 ^ 53 → Number.Denotes z (vs.length + x.pairs))) ∧
      (∀ i : Nat, (getProperty x (toString i)).outcome run = (.ok (vs[i]?.getD .undefined), run)) ∧
      (∀ self, ∃ r after, (callBuiltin (.fields .keys) self [x]).outcome run = (.ok (.object r), after) ∧
        after.realm.heap.get? r = some (.list ((List.range vs.length).map fun i => .text (toString i)).toArray)) ∧
      ∀ s, x = .text s → (∀ v ∈ vs, ∃ c : Char, v = .text c.toString) ∧
        ∀ z i, Number.Denotes z i →
          (callBuiltin (.text .charAt) x [.number z]).outcome run = (.ok (vs[i]?.getD (.text "")), run) := by
  refine ⟨⟨_, outcome_getProperty (property?_length hx), Number.denotes_ofNat⟩, fun i => ?_, outcome_keys hx, ?_⟩
  · rw [outcome_getProperty (property?_index hx i)]
    split
    · rfl
    · rw [List.getElem?_eq_none (by omega)]
      rfl
  · rintro s rfl
    obtain rfl := Option.some.inj hx
    rw [List.length_map] at hroom
    refine ⟨fun v hv => ?_, fun z i hz => ?_⟩
    · obtain ⟨c, -, rfl⟩ := List.mem_map.mp hv
      exact ⟨c, rfl⟩
    · rw [outcome_charAt hz hroom, List.getElem?_map]
      cases s.toList[i]? <;> rfl

theorem items_counted_letters :
    ∃ z, (getProperty (.text "ab") "length").outcome (.oneItem .null) = (.ok (.number z), .oneItem .null) ∧
      Number.Denotes z 2 := by
  have hx : (Run.oneItem .null).realm.heap.items? (.text "ab") = some [.text "a", .text "b"] := rfl
  obtain ⟨⟨z, hz, hexact⟩, -⟩ := items_counted hx (by decide)
  exact ⟨z, hz, hexact (by decide)⟩

/-- A text of one character outside of the first plane has the length 2, but nothing under its second index. -/
theorem length_beyond_items :
    let wide := Value.text (Char.ofNat 0x1f600).toString
    let run := Run.oneItem wide
    (∃ z, (getProperty wide "length").outcome run = (.ok (.number z), run) ∧ Number.Denotes z 2) ∧
      (getProperty wide "1").outcome run = (.ok .undefined, run) :=
  ⟨⟨_, rfl, Number.denotes_ofNat (by decide)⟩, rfl⟩

end ScriptRepl
