import ScriptRepl.Proofs.Realm.Fault
import ScriptRepl.Proofs.Realm.Indices
import ScriptRepl.Proofs.Realm.Literal

/-! Writing to one key of an object, and reading another: which reads see the write, and that everything else is as
it was. -/
namespace ScriptRepl

open Eval

/-- Keys that mean the same field, or the same place in a list. -/
def Obj.SamePlace (o : Obj) (key other : String) : Prop :=
  match o with
  | .list _ => ∃ n < 2 ^ 64, Spells key n ∧ Spells other n
  | _ => key = other

/-- A write to the key would make the list longer than can be addressed. -/
def Obj.Overgrows (o : Obj) (key : String) : Prop :=
  ∃ items n, o = .list items ∧ n < 2 ^ 64 ∧ Spells key n ∧ items.size ≤ n ∧ maxListLength ≤ n

/-- Objects with keys that a program may choose. -/
inductive Obj.IsOpen : Obj → Prop where
  | plain (fields : Dict Value) : IsOpen (.plain fields)
  | list (items : Array Value) : IsOpen (.list items)

theorem write?_eq_none_iff_overgrows {o : Obj} {key : String} (hkey : key ≠ "length") (v : Value) :
    o.write? key v = none ↔ o.Overgrows key := by
  have hasked : lengthAsked? key v = (index? key).map (· + 1) := if_neg hkey
  simp only [Obj.write?_eq_none_iff, hasked, Option.map_eq_some_iff, index?_eq_some_iff, Obj.Overgrows]
  constructor
  · rintro ⟨items, _, rfl, ⟨n, ⟨hspells, hlt⟩, rfl⟩, hsize, hmax⟩
    exact ⟨items, n, rfl, hlt, hspells, Nat.le_of_lt_succ hsize, Nat.le_of_lt_succ hmax⟩
  · rintro ⟨items, n, rfl, hlt, hspells, hsize, hmax⟩
    exact ⟨items, n + 1, rfl, ⟨n, ⟨hspells, hlt⟩, rfl⟩, Nat.lt_succ_of_le hsize, Nat.lt_succ_of_le hmax⟩

theorem getD_setIfInBounds {items : Array Value} {n : Nat} (hn : n < items.size) (v : Value) (m : Nat) :
    (items.setIfInBounds n v)[m]?.getD .undefined = if n = m then v else items[m]?.getD .undefined := by
  rw [Array.getElem?_setIfInBounds]
  split <;> rfl

/-- What lies between the end of the list and the new item is `undefined`, as it was when it was not there. -/
theorem getD_push_resize {items : Array Value} {n : Nat} (hn : items.size ≤ n) (v : Value) (m : Nat) :
    ((resize items n).push v)[m]?.getD .undefined = if n = m then v else items[m]?.getD .undefined := by
  have hresize : resize items n = items ++ Array.replicate (n - items.size) .undefined := by
    rw [resize]
    split
    · obtain rfl : n = items.size := by omega
      simp
    · rfl
  have hsize : (resize items n).size = n := by
    rw [hresize, Array.size_append, Array.size_replicate]
    omega
  rw [Array.getElem?_push, hsize, hresize]
  by_cases hm : m = n
  · simp [hm]
  · rw [if_neg hm, if_neg (Ne.symm hm), Array.getElem?_append]
    split
    · rfl
    · rw [Array.getElem?_eq_none (show items.size ≤ m by omega), Array.getElem?_replicate]
      split <;> rfl

/-- Reading after a write: the new value at the same place, and what was there anywhere else. -/
theorem objectProperty_write? {o o' : Obj} (ho : o.IsOpen) {key other : String} (hkey : key ≠ "length")
    (hother : other ≠ "length") {v : Value} (h : o.write? key v = some o') :
    (o.SamePlace key other → objectProperty o' other = .stored v) ∧
      (¬ o.SamePlace key other → objectProperty o' other = objectProperty o other) := by
  cases ho with
  | plain fields =>
      obtain rfl := Option.some.inj h
      constructor
      · rintro (rfl : key = other)
        simp only [objectProperty, Dict.get?_insert_self]
      · intro (hne : key ≠ other)
        simp only [objectProperty, Dict.get?_insert_of_ne fields (Ne.symm hne)]
  | list items =>
      have hsame : (Obj.list items).SamePlace key other ↔ ∃ n, index? key = some n ∧ index? other = some n := by
        simp only [index?_eq_some_iff]
        constructor
        · rintro ⟨n, hlt, hkey, hother⟩
          exact ⟨n, ⟨hkey, hlt⟩, hother, hlt⟩
        · rintro ⟨n, ⟨hkey, hlt⟩, hother, -⟩
          exact ⟨n, hlt, hkey, hother⟩
      rw [hsame]
      rw [Obj.write?, if_neg hkey] at h
      cases hn : index? key with
      | none =>
          rw [hn] at h
          obtain rfl := Option.some.inj h
          simp
      | some n =>
          have hread : ∃ items', o' = .list items' ∧
              ∀ m : Nat, items'[m]?.getD .undefined = if n = m then v else items[m]?.getD .undefined := by
            simp only [hn] at h
            split at h
            · rename_i hlt
              exact ⟨_, (Option.some.inj h).symm, getD_setIfInBounds hlt v⟩
            · rename_i hnot
              split at h
              · cases h
              · exact ⟨_, (Option.some.inj h).symm, getD_push_resize (Nat.le_of_not_lt hnot) v⟩
          obtain ⟨items', rfl, hread⟩ := hread
          simp only [objectProperty, if_neg hother, Option.some.injEq, exists_eq_left']
          cases hm : index? other with
          | none => simp
          | some m =>
              simp only [hread, Option.some.injEq]
              exact ⟨fun heq => by rw [if_pos heq.symm], fun hne => by rw [if_neg (Ne.symm hne)]⟩

/-! ### Runs that differ in one object -/

/-- Nothing is different but the object at one place. -/
structure Run.DiffersAt (r : Ref) (a b : Run) : Prop where
  size : b.realm.heap.size = a.realm.heap.size
  get? : ∀ r' ≠ r, b.realm.heap.get? r' = a.realm.heap.get? r'
  globals : b.realm.globals = a.realm.globals
  random : b.realm.random = a.realm.random
  printed : b.realm.printed = a.realm.printed
  ticks : b.ticks = a.ticks

theorem Heap.get?_set_self {h : Heap} {r : Ref} (hr : r.index < h.size) (o : Obj) : (h.set r o).get? r = some o :=
  Array.getElem?_setIfInBounds_self_of_lt hr

theorem Heap.get?_set_of_ne (h : Heap) {r r' : Ref} (hne : r' ≠ r) (o : Obj) : (h.set r o).get? r' = h.get? r' := by
  have hindex : r.index ≠ r'.index := fun heq => hne (congrArg Ref.mk heq.symm)
  exact Array.getElem?_setIfInBounds_ne hindex

theorem Heap.get?_alloc (h : Heap) (o : Obj) (r : Ref) :
    (h.alloc o).2.get? r = if r.index = h.size then some o else h.get? r :=
  Array.getElem?_push

namespace Run.DiffersAt

variable {r : Ref} {a b : Run}

theorem refl (r : Ref) (run : Run) : run.DiffersAt r run :=
  ⟨rfl, fun _ _ => rfl, rfl, rfl, rfl, rfl⟩

theorem set (r : Ref) (run : Run) (o : Obj) :
    run.DiffersAt r { run with realm := { run.realm with heap := run.realm.heap.set r o } } :=
  ⟨Heap.size_set _ r o, fun _ hne => Heap.get?_set_of_ne _ hne o, rfl, rfl, rfl, rfl⟩

/-- A new object comes to the same place in both. -/
theorem method (h : a.DiffersAt r b) (self : Value) (f : Option Builtin) :
    ((method self f).outcome b).1 = ((method self f).outcome a).1 ∧
      Run.DiffersAt r ((method self f).outcome a).2 ((method self f).outcome b).2 := by
  cases f with
  | none => exact ⟨rfl, h⟩
  | some f =>
      refine ⟨congrArg (fun n => Except.ok (Value.object ⟨n⟩)) h.size, ?_, fun r' hne => ?_, h.globals, h.random,
        h.printed, h.ticks⟩
      · exact (Heap.size_alloc _ _).trans ((congrArg (· + 1) h.size).trans (Heap.size_alloc _ _).symm)
      · refine (Heap.get?_alloc _ _ r').trans (Eq.trans ?_ (Heap.get?_alloc _ _ r').symm)
        rw [h.size, h.get? r' hne]

end Run.DiffersAt

theorem outcome_setProperty {run : Run} {r : Ref} {o : Obj} (hr : run.realm.heap.get? r = some o) (key : String)
    (v : Value) :
    (setProperty (.object r) key v).outcome run =
      match o.write? key v with
      | some o' => (.ok (), { run with realm := { run.realm with heap := run.realm.heap.set r o' } })
      | none => (.error .fault, run) := by
  simp only [setProperty, outcome_bind, outcome_heap, hr]
  cases o.write? key v <;> rfl

/-- What a read gives that finds something. -/
def readFound (target : Value) : Found → Eval Value
  | .stored v => return v
  | .method f => method target f

theorem outcome_getProperty {run : Run} {target : Value} {key : String} {found : Found}
    (h : run.realm.heap.property? target key = some found) :
    (getProperty target key).outcome run = (readFound target found).outcome run := by
  simp only [getProperty, outcome_bind, outcome_heap, h]
  cases found <;> rfl

theorem property?_object {h : Heap} {r : Ref} {o : Obj} (hr : h.get? r = some o) (key : String) :
    h.property? (.object r) key = some (objectProperty o key) := by
  rw [Heap.property?, hr]
  rfl

/-- A write is read back under every key that means the same place, and every other read gives what it gave before
it: the same value, or the same method as a new function. All other objects, the names and what was printed stay. -/
theorem getProperty_after_setProperty {run : Run} {r : Ref} {o : Obj} (hr : run.realm.heap.get? r = some o)
    (ho : o.IsOpen) {key other : String} (hkey : key ≠ "length") (hother : other ≠ "length") (v : Value) :
    let (result, after) := (setProperty (.object r) key v).outcome run
    let was := (getProperty (.object r) other).outcome run
    let is := (getProperty (.object r) other).outcome after
    (result = .error .fault ∧ o.Overgrows key ∧ after = run ∨ result = .ok () ∧ ¬ o.Overgrows key) ∧
      run.DiffersAt r after ∧
      (result = .ok () → o.SamePlace key other → is = (.ok v, after)) ∧
      (¬ o.SamePlace key other → is.1 = was.1 ∧ was.2.DiffersAt r is.2) := by
  rw [outcome_setProperty hr, outcome_getProperty (property?_object hr other)]
  cases hwrite : o.write? key v with
  | none =>
      have hgrows := (write?_eq_none_iff_overgrows hkey v).mp hwrite
      dsimp only
      rw [outcome_getProperty (property?_object hr other)]
      exact ⟨.inl ⟨rfl, hgrows, rfl⟩, .refl r run, nofun, fun _ => ⟨rfl, .refl r _⟩⟩
  | some o' =>
      have hgrows : ¬ o.Overgrows key := by
        rw [← write?_eq_none_iff_overgrows hkey v, hwrite]
        nofun
      obtain ⟨hsame, hdifferent⟩ := objectProperty_write? ho hkey hother hwrite
      have hafter := Run.DiffersAt.set r run o'
      have hr' := Heap.get?_set_self (Heap.lt_size_of_get? hr) o'
      dsimp only
      rw [outcome_getProperty (property?_object hr' other)]
      refine ⟨.inr ⟨rfl, hgrows⟩, hafter, fun _ hplace => ?_, fun hplace => ?_⟩
      · rw [hsame hplace]
        rfl
      · rw [hdifferent hplace]
        cases objectProperty o other with
        | stored w => exact ⟨rfl, hafter⟩
        | method f => exact hafter.method _ f

/-- A list with one item, on a heap of its own. -/
def Run.oneItem (v : Value) : Run :=
  ⟨{ heap := ⟨#[.list #[v]]⟩, globals := .ofList [] }, none⟩

theorem getProperty_after_setProperty_oneItem :
    let after := ((setProperty (.object ⟨0⟩) "0" (.text "y")).outcome (.oneItem (.text "x"))).2
    (getProperty (.object ⟨0⟩) "+00").outcome after = (.ok (.text "y"), after) := by
  have hr : (Run.oneItem (.text "x")).realm.heap.get? ⟨0⟩ = some (.list #[.text "x"]) := rfl
  have hreads := getProperty_after_setProperty hr (.list _) (by decide : "0" ≠ "length")
    (by decide : "+00" ≠ "length") (.text "y")
  exact hreads.2.2.1 rfl ⟨0, by decide, ⟨0, .inl rfl⟩, ⟨1, .inr rfl⟩⟩

/-- The item is written under one spelling of its place and comes back under another. -/
theorem write_seen_under_other_spelling :
    let run := Run.oneItem (.text "x")
    let after := ((setProperty (.object ⟨0⟩) "00" (.text "y")).outcome run).2
    "00" ≠ "0" ∧ ((getProperty (.object ⟨0⟩) "0").outcome run).1 = .ok (.text "x") ∧
      ((getProperty (.object ⟨0⟩) "0").outcome after).1 = .ok (.text "y") :=
  ⟨by decide, rfl, rfl⟩

end ScriptRepl
