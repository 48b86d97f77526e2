import Mathlib.Logic.Relation
import ScriptRepl.Proofs.Realm.Room
import ScriptRepl.Proofs.Realm.Undisturbed

/-! Cycles on the heap. Writing a value as JSON follows its contents down every path, and comes to an end since no
path leads through more objects than there are; it fails exactly where it could go round. -/
namespace ScriptRepl

open Relation (ReflTransGen TransGen)

/-- What an object is made of as data: the items of a list, the values of a plain object. -/
def Obj.contents : Obj → List Value
  | .list items => items.toList
  | .plain fields => fields.values
  | .function .. => []
  | .error .. => []

namespace Heap

def contents (h : Heap) (v : Value) : List Value :=
  ((h.object? v).map Obj.contents).getD []

theorem contents_object {h : Heap} {r : Ref} {o : Obj} (hr : h.get? r = some o) :
    h.contents (.object r) = o.contents := by
  simp [contents, object?, hr]

def Holds (h : Heap) (v w : Value) : Prop :=
  w ∈ h.contents v

/-- The value, or one that it holds directly or through others, leads back to itself. -/
def ReachesCycle (h : Heap) (v : Value) : Prop :=
  ∃ w, ReflTransGen h.Holds v w ∧ TransGen h.Holds w w

variable {h : Heap} {path : List Ref}

/-- Only an object holds anything; where the path has not been through it, it is one fewer of those left. -/
theorem Holds.object {v w : Value} (hw : h.Holds v w) :
    ∃ r, v = .object r ∧ ∀ path, r ∉ path → h.unseen (r :: path) < h.unseen path := by
  unfold Holds contents at hw
  cases v with
  | object r =>
      cases hr : h.get? r with
      | none =>
          rw [object?, hr] at hw
          cases hw
      | some o =>
          exact ⟨r, rfl, fun path hnew => unseen_cons_lt (lt_size_of_get? hr) (by simpa using hnew)⟩
  | _ => cases hw

theorem map_error_iff {α β : Type} {f : α → β} {x : Except Circular α} :
    f <$> x = .error .circular ↔ x = .error .circular := by
  cases x <;> simp [Functor.map, Except.map]

theorem mapM_error_iff {α β : Type} {f : α → Except Circular β} {as : List α} :
    as.mapM f = .error .circular ↔ ∃ a ∈ as, f a = .error .circular := by
  induction as with
  | nil => simp [pure, Except.pure]
  | cons a as ih =>
      simp only [List.mapM_cons, List.mem_cons, exists_eq_or_imp, ← ih]
      cases f a with
      | error e => simp [bind, Except.bind]
      | ok b => cases as.mapM f <;> simp [bind, Except.bind, pure, Except.pure]

theorem jsonItems_error_iff {vs : List Value} :
    h.jsonItems path vs = .error .circular ↔ ∃ v ∈ vs, h.jsonAt path v = .error .circular := by
  rw [jsonItems_eq_mapM, map_error_iff, mapM_error_iff]

theorem jsonFields_error_iff {fields : Dict Value} :
    h.jsonFields path fields.entries = .error .circular ↔
      ∃ v ∈ fields.values, h.jsonAt path v = .error .circular := by
  rw [jsonFields_eq_mapM, map_error_iff, mapM_error_iff]
  constructor
  · rintro ⟨field, hfield, herror⟩
    exact ⟨field.2, List.mem_map_of_mem hfield, map_error_iff.mp herror⟩
  · rintro ⟨v, hv, herror⟩
    obtain ⟨field, hfield, rfl⟩ := List.mem_map.mp hv
    exact ⟨field, hfield, map_error_iff.mpr herror⟩

/-- Apart from the objects of the path, a value fails if one of its contents does. -/
theorem jsonAt_error_iff_of_not_mem {v : Value} (hv : ∀ r ∈ path, v ≠ .object r) :
    h.jsonAt path v = .error .circular ↔
      ∃ r w, v = .object r ∧ h.Holds v w ∧ h.jsonAt (r :: path) w = .error .circular := by
  cases v with
  | object r =>
      have hr : r ∉ path := fun hr => hv r hr rfl
      simp only [Value.object.injEq, exists_and_left, exists_eq_left', Holds, contents, object?]
      rw [jsonAt_object, if_neg (by simpa using hr)]
      cases h.get? r with
      | none => simp
      | some o =>
          cases o with
          | list items =>
              simp only [bind_pure_comp, map_error_iff, jsonItems_error_iff, Option.map_some, Option.getD_some,
                Obj.contents]
          | plain fields =>
              simp only [bind_pure_comp, map_error_iff, jsonFields_error_iff, Option.map_some, Option.getD_some,
                Obj.contents]
          | _ => simp [Obj.contents]
  | _ => simp [jsonAt]

/-- Writing a value fails if it leads back to an object of the path or goes round by itself. -/
theorem jsonAt_error_iff (h : Heap) (path : List Ref) (v : Value) :
    h.jsonAt path v = .error .circular ↔
      ∃ w, ReflTransGen h.Holds v w ∧ ((∃ r ∈ path, w = .object r) ∨ TransGen h.Holds w w) := by
  induction hn : h.unseen path using Nat.strongRecOn generalizing path v with
  | ind n ih =>
      subst hn
      by_cases hseen : ∃ r ∈ path, v = .object r
      · obtain ⟨r, hr, rfl⟩ := hseen
        rw [jsonAt, dif_pos (by simpa using hr)]
        exact iff_of_true rfl ⟨_, .refl, .inl ⟨r, hr, rfl⟩⟩
      · have hnew (r : Ref) (hr : r ∈ path) : v ≠ .object r := fun h => hseen ⟨r, hr, h⟩
        rw [jsonAt_error_iff_of_not_mem hnew]
        constructor
        · rintro ⟨r, c, rfl, hc, herror⟩
          obtain ⟨r', hr', hless⟩ := hc.object
          cases hr'
          obtain ⟨w, hw, hends⟩ := (ih _ (hless path fun hr => hnew r hr rfl) (r :: path) c rfl).mp herror
          rcases hends with ⟨r', hr', rfl⟩ | hcycle
          · rcases List.mem_cons.mp hr' with rfl | hr'
            · exact ⟨_, .refl, .inr (.head' hc hw)⟩
            · exact ⟨_, .head hc hw, .inl ⟨r', hr', rfl⟩⟩
          · exact ⟨w, .head hc hw, .inr hcycle⟩
        · rintro ⟨w, hw, hends⟩
          -- The first step leads to a value that, with this one on the path, has the same end or this one as its end.
          have hfirst : ∃ c, h.Holds v c ∧ ∃ w, ReflTransGen h.Holds c w ∧
              (w = v ∨ (∃ r ∈ path, w = .object r) ∨ TransGen h.Holds w w) := by
            rcases hw.cases_head with rfl | ⟨c, hc, hrest⟩
            · have hcycle := hends.resolve_left hseen
              obtain ⟨c, hc, hback⟩ := TransGen.head'_iff.mp hcycle
              exact ⟨c, hc, v, hback, .inl rfl⟩
            · exact ⟨c, hc, w, hrest, .inr hends⟩
          obtain ⟨c, hc, w, hrest, hends⟩ := hfirst
          obtain ⟨r, rfl, hless⟩ := hc.object
          refine ⟨r, c, rfl, hc, (ih _ (hless path fun hr => hnew r hr rfl) (r :: path) c rfl).mpr ⟨w, hrest, ?_⟩⟩
          rcases hends with rfl | ⟨r', hr', rfl⟩ | hcycle
          · exact .inl ⟨r, List.mem_cons_self, rfl⟩
          · exact .inl ⟨r', List.mem_cons_of_mem r hr', rfl⟩
          · exact .inr hcycle

theorem jsonAt_nil_error_iff (h : Heap) (v : Value) : h.jsonAt [] v = .error .circular ↔ h.ReachesCycle v := by
  simp [jsonAt_error_iff, ReachesCycle]

end Heap

open Eval

theorem outcome_stringify (self : Value) (args : List Value) (run : Run) :
    (callBuiltin .jsonStringify self args).outcome run =
      match run.realm.heap.jsonAt [] (argument args 0) with
      | .error _ => (raise "TypeError" "Converting circular structure to JSON" : Eval Value).outcome run
      | .ok none => (.ok .undefined, run)
      | .ok (some json) => (.ok (.text (json.render (Native.indent (argument args 2)))), run) := by
  change (match run.realm.heap.jsonAt [] (argument args 0) with
    | .error _ => raise "TypeError" "Converting circular structure to JSON"
    | .ok none => return .undefined
    | .ok (some json) => return .text (json.render (Native.indent (argument args 2))) : Eval Value).outcome run = _
  split <;> rfl

/-- The call throws if a cycle can be reached from the value. If none can, it changes nothing and gives a text or, where
there is none, `undefined`. -/
theorem stringify_cases (self : Value) (args : List Value) (run : Run) :
    (run.realm.heap.ReachesCycle (argument args 0) ∧
      ∃ e after, (callBuiltin .jsonStringify self args).outcome run = (.error (.throw e), after) ∧
        after.realm.heap.object? e = some (.error "TypeError" "Converting circular structure to JSON")) ∨
    (¬ run.realm.heap.ReachesCycle (argument args 0) ∧
      ∃ v, (callBuiltin .jsonStringify self args).outcome run = (.ok v, run) ∧
        (v = .undefined ∨ ∃ s, v = .text s)) := by
  rw [outcome_stringify, ← Heap.jsonAt_nil_error_iff]
  cases hjson : run.realm.heap.jsonAt [] (argument args 0) with
  | error e =>
      obtain ⟨v, after, hout, -, hv⟩ := @outcome_raise Value "TypeError" _ run
      exact .inl ⟨rfl, v, after, hout, hv⟩
  | ok json? =>
      refine .inr ⟨nofun, ?_⟩
      cases json? with
      | none => exact ⟨.undefined, rfl, .inl rfl⟩
      | some json => exact ⟨.text _, rfl, .inr ⟨_, rfl⟩⟩

end ScriptRepl
