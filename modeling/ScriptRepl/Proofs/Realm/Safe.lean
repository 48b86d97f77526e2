import ScriptRepl.Proofs.Realm.Closed
import ScriptRepl.Realm.Evaluation

/-! Computations that follow no reference out of the heap. Such a computation starts from a realm without dangling
references and leaves one, whichever way it ends, and all that it gives refers to what is there. -/
namespace ScriptRepl

open Syntax (Expr Program)

namespace Eval

/-- How a computation may end that starts from `before`: with a good value, by throwing a value, out of ticks if
these are bounded, and by a fault only if there may be one. -/
def Ends (mayFault : Prop) (Good : Heap → α → Prop) (before : Run) (h : Heap) : Except Interrupt α → Prop
  | .ok a => Good h a
  | .error (.throw v) => v.InHeap h
  | .error .timeout => before.ticks ≠ none
  | .error .fault => mayFault

/-- What a computation does that starts from `before`. -/
structure Keeps (mayFault : Prop) (Good : Heap → α → Prop) (before : Run) (out : Except Interrupt α × Run) :
    Prop where
  closed : out.2.realm.Closed
  develops : before.realm.heap.Develops out.2.realm.heap
  ticks : before.ticks = none → out.2.ticks = none
  ends : Ends mayFault Good before out.2.realm.heap out.1

/-- From every realm on this heap that has no dangling reference. -/
def Safe (h : Heap) (mayFault : Prop) (Good : Heap → α → Prop) (x : Eval α) : Prop :=
  ∀ run : Run, run.realm.heap = h → run.realm.Closed → Keeps mayFault Good run (x.outcome run)

/-- Of a result that holds no reference. -/
def Plain (_ : Heap) (_ : α) : Prop :=
  True

namespace Safe

variable {h : Heap} {mayFault : Prop} {α β : Type} {Good : Heap → α → Prop}

theorem pure {a : α} (ha : Good h a) : Safe h mayFault Good (Pure.pure a) := by
  rintro run rfl hclosed
  exact ⟨hclosed, .refl _, id, ha⟩

theorem bind {x : Eval α} {f : α → Eval β} {Good' : Heap → β → Prop} (hx : Safe h mayFault Good x)
    (hf : ∀ h' a, h.size ≤ h'.size → Good h' a → Safe h' mayFault Good' (f a)) :
    Safe h mayFault Good' (x >>= f) := by
  rintro run rfl hclosed
  have first := hx run rfl hclosed
  rw [outcome_bind]
  cases hr : x.outcome run with
  | mk result after =>
      rw [hr] at first
      cases result with
      | error e => exact ⟨first.closed, first.develops, first.ticks, by cases e <;> exact first.ends⟩
      | ok a =>
          have rest := hf _ a first.develops.size_le first.ends after rfl first.closed
          refine ⟨rest.closed, first.develops.trans rest.develops, fun hnone => rest.ticks (first.ticks hnone), ?_⟩
          have hends := rest.ends
          revert hends
          cases ((f a).outcome after).1 with
          | ok b => exact id
          | error e =>
              cases e with
              | throw v => exact id
              | timeout => exact fun hsome hnone => hsome (first.ticks hnone)
              | fault => exact id

/-- What only reads the heap. -/
theorem read {x : Eval α} {f : Heap → α} (hx : ∀ run, x.outcome run = (.ok (f run.realm.heap), run))
    {Good' : Heap → β → Prop} {k : α → Eval β} (hk : h.Closed → Safe h mayFault Good' (k (f h))) :
    Safe h mayFault Good' (x >>= k) := by
  rintro run rfl hclosed
  rw [outcome_bind, hx]
  exact hk hclosed.heap run rfl hclosed

theorem heap {k : Heap → Eval α} (hk : h.Closed → Safe h mayFault Good (k h)) :
    Safe h mayFault Good (heap >>= k) :=
  read (f := id) (fun _ => rfl) hk

theorem display {v : Value} {k : String → Eval α} (hk : Safe h mayFault Good (k (h.display v))) :
    Safe h mayFault Good (display v >>= k) :=
  read (f := (·.display v)) (fun _ => rfl) fun _ => hk

theorem toNumber {v : Value} {k : Float → Eval α} (hk : Safe h mayFault Good (k (h.toNumber v))) :
    Safe h mayFault Good (toNumber v >>= k) :=
  read (f := (·.toNumber v)) (fun _ => rfl) fun _ => hk

theorem globals {k : Dict Binding → Eval α}
    (hk : ∀ d : Dict Binding, (∀ b ∈ d.values, b.value.InHeap h) → Safe h mayFault Good (k d)) :
    Safe h mayFault Good (globals >>= k) := by
  rintro run rfl hclosed
  exact hk _ hclosed.globals run rfl hclosed

theorem setGlobal {name : String} {b : Binding} (hb : b.value.InHeap h) :
    Safe h mayFault Plain (setGlobal name b) := by
  rintro run rfl hclosed
  exact ⟨hclosed.bind hb, .refl _, id, trivial⟩

theorem print (line : String) : Safe h mayFault Plain (print line) := by
  rintro run rfl hclosed
  exact ⟨⟨hclosed.heap, hclosed.globals⟩, .refl _, id, trivial⟩

theorem alloc {o : Obj} (ho : Value.AllInHeap h o.parts) : Safe h mayFault Value.InHeap (alloc o) := by
  rintro run rfl hclosed
  exact ⟨hclosed.alloc ho, .of_extends (.alloc _ _), id, Heap.inHeap_alloc _ _⟩

/-- Puts another object of its kind in the place of one. -/
theorem setHeap {r : Ref} {o o' : Obj} (hr : h.get? r = some o) (ho : o.Becomes o')
    (hparts : Value.AllInHeap h o'.parts) : Safe h mayFault Plain (setHeap (h.set r o')) := by
  rintro run rfl hclosed
  have hdevelops := Heap.Develops.set hr ho
  exact ⟨hclosed.develop hdevelops (hclosed.heap.set r hparts), hdevelops, id, trivial⟩

theorem raise (name message : String) : Safe h mayFault Good (raise name message) := by
  refine bind (alloc (Value.AllInHeap.nil h)) fun h' v _ hv => ?_
  rintro run rfl hclosed
  exact ⟨hclosed, .refl _, id, hv⟩

theorem tick : Safe h mayFault Plain tick := by
  rintro ⟨realm, ticks⟩ rfl hclosed
  cases ticks with
  | none => exact ⟨hclosed, .refl _, id, trivial⟩
  | some n =>
      cases n with
      | zero => exact ⟨hclosed, .refl _, id, nofun⟩
      | succ n => exact ⟨hclosed, .refl _, nofun, trivial⟩

theorem ite {c : Prop} [Decidable c] {x y : Eval α} (hx : c → Safe h mayFault Good x)
    (hy : ¬ c → Safe h mayFault Good y) : Safe h mayFault Good (if c then x else y) := by
  split
  · exact hx ‹_›
  · exact hy ‹_›

theorem guardDepth (depth : Nat) : Safe h mayFault Plain (guardDepth depth) :=
  ite (fun _ => raise _ _) fun _ => pure trivial

theorem guardEffect (speculative : Bool) :
    Safe h mayFault (fun _ _ => speculative = false) (guardEffect speculative) := by
  cases speculative with
  | true => exact raise _ _
  | false => exact pure rfl

end Safe

end Eval

open Eval

/-! ### Properties -/

variable {h : Heap} {mayFault : Prop}

theorem safe_method {self : Value} (hself : self.InHeap h) (f : Option Builtin) :
    Safe h mayFault Value.InHeap (method self f) := by
  cases f with
  | none => exact .pure trivial
  | some f => exact .alloc (.cons hself (.nil h))

theorem inHeap_of_objectProperty {o : Obj} (ho : Value.AllInHeap h o.parts) {key : String} {v : Value}
    (hv : objectProperty o key = .stored v) : v.InHeap h := by
  cases o with
  | plain fields =>
      rw [objectProperty] at hv
      split at hv
      · rename_i hget
        cases hv
        exact ho _ (Dict.mem_of_get? hget)
      · cases hv
  | list items =>
      rw [objectProperty] at hv
      split at hv
      · cases hv
        trivial
      · split at hv
        · cases hv
          rw [← Array.getElem?_toList]
          exact ho.getD _
        · cases hv
  | function f self =>
      rw [objectProperty] at hv
      repeat' split at hv
      all_goals cases hv <;> trivial
  | error name message =>
      rw [objectProperty] at hv
      repeat' split at hv
      all_goals cases hv <;> trivial

theorem inHeap_of_textProperty {s key : String} {v : Value} (hv : textProperty s key = .stored v) : v.InHeap h := by
  rw [textProperty] at hv
  repeat' split at hv
  all_goals cases hv <;> trivial

theorem Heap.Closed.stored (hh : h.Closed) {target v : Value} {key : String}
    (hv : h.property? target key = some (.stored v)) : v.InHeap h := by
  cases target with
  | text s => exact inHeap_of_textProperty (Option.some.inj hv)
  | object r =>
      have hv := Option.some.inj hv
      cases hr : h.get? r with
      | none =>
          rw [hr] at hv
          cases hv
      | some o =>
          rw [hr] at hv
          exact inHeap_of_objectProperty (hh r o hr) hv
  | _ => cases hv

theorem safe_getProperty {target : Value} (htarget : target.InHeap h) (key : String) :
    Safe h mayFault Value.InHeap (getProperty target key) := by
  refine .heap fun hh => ?_
  split
  · rename_i hv
    exact .pure (hh.stored hv)
  · exact safe_method htarget _
  · exact .display (.raise _ _)

/-! ### Native functions -/

theorem safe_callTextMethod (op : TextOp) (s : String) (args : List Value) :
    Safe h mayFault Value.InHeap (callTextMethod op s args) := by
  refine .heap fun hh => ?_
  cases op with
  | indexOf =>
      dsimp only
      split <;> exact .pure trivial
  | repeated =>
      dsimp only
      split
      · exact .pure trivial
      · exact .raise _ _
      · exact .raise _ _
  | split =>
      refine .alloc fun v hv => ?_
      obtain ⟨piece, _, rfl⟩ := List.mem_map.mp (by simpa only [Obj.parts, List.toList_toArray] using hv)
      trivial
  | _ => exact .pure trivial

/-- A list in place of another, made of items that are there. -/
theorem Eval.Safe.setList {r : Ref} {items items' : Array Value} (hr : h.get? r = some (.list items))
    (hitems : Value.AllInHeap h items'.toList) : Safe h mayFault Plain (Eval.setHeap (h.set r (.list items'))) :=
  .setHeap hr (.list _ _) hitems

theorem ListMethod.inHeap_spread (hh : h.Closed) {v : Value} (hv : v.InHeap h) :
    Value.AllInHeap h (spread h v) := by
  unfold spread
  split
  · split
    · rename_i items hr
      exact hh _ _ hr
    · exact .cons hv (.nil h)
  · exact .cons hv (.nil h)

theorem safe_callListMethod (op : ListOp) {r : Ref} {items : Array Value} {args : List Value}
    (hr : h.get? r = some (.list items)) (hargs : Value.AllInHeap h args) :
    Safe h mayFault Value.InHeap (callListMethod op r items args) := by
  refine .heap fun hh => ?_
  have hitems : Value.AllInHeap h items.toList := hh r _ hr
  cases op with
  | join => exact .pure trivial
  | includes => exact .pure trivial
  | indexOf =>
      dsimp only
      split <;> exact .pure trivial
  | slice =>
      refine .alloc (hitems.subset fun v hv => ?_)
      rw [Obj.parts, Array.toList_extract, List.extract] at hv
      exact List.mem_of_mem_drop (List.mem_of_mem_take hv)
  | concat =>
      have hspread : Value.AllInHeap h (args.flatMap (ListMethod.spread h)) := by
        intro v hv
        obtain ⟨arg, harg, hv⟩ := List.mem_flatMap.mp hv
        exact ListMethod.inHeap_spread hh (hargs arg harg) v hv
      exact .alloc (by simpa only [Obj.parts, Array.toList_append] using hitems.append hspread)
  | reverse =>
      have hreversed : Value.AllInHeap h items.reverse.toList :=
        hitems.subset fun v hv => by simpa using hv
      have hself : (Value.object r).InHeap h := Heap.lt_size_of_get? hr
      exact (Safe.setList hr hreversed).bind fun h' _ hsize _ => .pure (hself.mono hsize)
  | push =>
      refine (Safe.setList hr ?_).bind fun _ _ _ _ => .pure trivial
      simpa only [Array.toList_append] using hitems.append hargs
  | pop =>
      refine (Safe.setList hr (hitems.subset fun v hv => ?_)).bind fun h' _ hsize _ => .pure ?_
      · exact List.dropLast_subset _ (by simpa only [Array.toList_pop] using hv)
      · cases hback : items.back? with
        | none => trivial
        | some v => exact (hitems v (Array.mem_toList_iff.mpr (Array.mem_of_back? hback))).mono hsize

namespace Native

theorem safe_random : Safe h mayFault Value.InHeap random := by
  rintro run rfl hclosed
  exact ⟨⟨hclosed.heap, hclosed.globals⟩, .refl _, id, trivial⟩

theorem safe_stringify (v space : Value) : Safe h mayFault Value.InHeap (stringify v space) := by
  refine .heap fun hh => ?_
  split
  · exact .raise _ _
  · exact .pure trivial
  · exact .pure trivial

theorem safe_parseJson (source : String) : Safe h mayFault Value.InHeap (parseJson source) := by
  unfold parseJson
  split
  · exact .raise _ _
  · rename_i json _
    rintro run rfl hclosed
    obtain ⟨hheap, hv⟩ := Heap.closed_ofJson hclosed.heap json
    have hdevelops := Heap.Develops.of_extends (Heap.extends_ofJson run.realm.heap json)
    exact ⟨hclosed.develop hdevelops hheap, hdevelops, id, hv⟩

/-- Of the values of fields. -/
def FieldsInHeap (h : Heap) (fields : List (String × Value)) : Prop :=
  Value.AllInHeap h (fields.map Prod.snd)

theorem FieldsInHeap.indexed {vs : List Value} (hvs : Value.AllInHeap h vs) :
    FieldsInHeap h (vs.zipIdx.map fun (v, n) => (toString n, v)) := by
  have hsame : (vs.zipIdx.map fun (v, n) => (toString n, v)).map Prod.snd = vs := by
    rw [List.map_map]
    exact List.zipIdx_map_fst 0 vs
  rw [FieldsInHeap, hsame]
  exact hvs

theorem safe_ownFields {v : Value} : Safe h mayFault FieldsInHeap (ownFields v) := by
  cases v with
  | undefined => exact .raise _ _
  | null => exact .raise _ _
  | text s =>
      refine .pure (.indexed fun v hv => ?_)
      obtain ⟨c, _, rfl⟩ := List.mem_map.mp hv
      trivial
  | object r =>
      refine .heap fun hh => ?_
      split
      · rename_i hr
        exact .pure (hh r _ hr)
      · rename_i hr
        exact .pure (.indexed (hh r _ hr))
      · exact .pure (.nil h)
  | _ => exact .pure (.nil h)

theorem safe_fieldItems (part : FieldPart) {fields : List (String × Value)} (hfields : FieldsInHeap h fields) :
    Safe h mayFault Value.AllInHeap (fieldItems part fields) := by
  induction fields generalizing h with
  | nil => exact .pure (.nil h)
  | cons field fields ih =>
      obtain ⟨hv, hrest⟩ := List.forall_mem_cons.mp hfields
      have hitem : ∀ h' (item : Value), h.size ≤ h'.size → item.InHeap h' →
          Safe h' mayFault Value.AllInHeap (return item :: (← fieldItems part fields)) := by
        intro h' item hsize hitem
        refine (ih (Value.AllInHeap.mono hrest hsize)).bind fun h'' items hsize' hitems => ?_
        exact .pure (.cons (hitem.mono hsize') hitems)
      cases part with
      | keys => exact hitem h _ (Nat.le_refl _) trivial
      | values => exact hitem h _ (Nat.le_refl _) hv
      | entries => exact (Safe.alloc (.cons (v := .text _) trivial (.cons hv (.nil h)))).bind hitem

theorem safe_textOf (self radix : Value) : Safe h mayFault Value.InHeap (textOf self radix) := by
  cases self with
  | number x =>
      refine .ite (fun _ => .pure trivial) fun _ => .toNumber ?_
      exact .ite (fun _ => .raise _ _) fun _ => .pure trivial
  | _ => exact .display (.pure trivial)

theorem safe_fixedText (self digits : Value) : Safe h mayFault Value.InHeap (fixedText self digits) := by
  refine .toNumber ?_
  exact .ite (fun _ => .raise _ _) fun _ => .toNumber (.pure trivial)

end Native

open Native in
theorem safe_callBuiltin (f : Builtin) {self : Value} {args : List Value} (hself : self.InHeap h)
    (hargs : Value.AllInHeap h args) : Safe h mayFault Value.InHeap (callBuiltin f self args) := by
  unfold callBuiltin
  cases f with
  | math op => exact .toNumber (.pure trivial)
  | mathMax => exact .heap fun _ => .pure trivial
  | mathMin => exact .heap fun _ => .pure trivial
  | mathPow => exact .toNumber (.toNumber (.pure trivial))
  | mathRandom => exact safe_random
  | jsonStringify => exact safe_stringify _ _
  | jsonParse => exact .display (safe_parseJson _)
  | fields part =>
      refine safe_ownFields.bind fun h' fields hsize hfields => ?_
      exact (safe_fieldItems part hfields).bind fun _ items _ hitems => .alloc hitems
  | isArray => exact .heap fun _ => .pure trivial
  | toText =>
      cases args with
      | nil => exact .pure trivial
      | cons v args => exact .display (.pure trivial)
  | toNumber =>
      cases args with
      | nil => exact .pure trivial
      | cons v args => exact .toNumber (.pure trivial)
  | toBoolean => exact .pure trivial
  | consoleLog => exact .heap fun _ => (Safe.print _).bind fun _ _ _ _ => .pure trivial
  | consoleError => exact .heap fun _ => (Safe.print _).bind fun _ _ _ _ => .pure trivial
  | parseInt => exact .display (.toNumber (.pure trivial))
  | parseFloat => exact .display (.pure trivial)
  | isNaN => exact .toNumber (.pure trivial)
  | isFinite => exact .toNumber (.pure trivial)
  | toString => exact safe_textOf self _
  | toFixed => exact safe_fixedText self _
  | text op => exact .display (safe_callTextMethod op _ args)
  | list op =>
      dsimp only
      split
      · refine .heap fun hh => ?_
        split
        · rename_i hr
          exact safe_callListMethod op hr hargs
        · exact .raise _ _
      · exact .raise _ _

theorem safe_callValue (speculative : Bool) (depth : Nat) {function : Value} {args : List Value}
    (hargs : Value.AllInHeap h args) (shown : String) :
    Safe h mayFault Value.InHeap (callValue speculative depth function args shown) := by
  refine .heap fun hh => ?_
  split
  · rename_i f self hf
    have hself : (self.getD .undefined).InHeap h := by
      cases self with
      | none => trivial
      | some v => exact hh.parts hf v (List.mem_singleton.mpr rfl)
    refine (Safe.guardEffect _).bind fun h' _ hsize _ => (Safe.guardDepth depth).bind fun h'' _ hsize' _ => ?_
    have hsize := Nat.le_trans hsize hsize'
    exact safe_callBuiltin f (hself.mono hsize) (hargs.mono hsize)
  · exact .raise _ _

end ScriptRepl
