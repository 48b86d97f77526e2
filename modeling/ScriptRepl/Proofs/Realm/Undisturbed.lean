import ScriptRepl.Realm.Evaluation

/-! Computations that nothing on a realm shows afterwards, but for new objects on the heap. Every native function
without a side effect is one, however its call ends. -/
namespace ScriptRepl

/-- Every object of the one heap is in the other, unchanged. -/
def Heap.Extends (before after : Heap) : Prop :=
  ∀ r o, before.get? r = some o → after.get? r = some o

namespace Heap.Extends

theorem refl (h : Heap) : h.Extends h := fun _ _ hr => hr

theorem trans {a b c : Heap} (h : a.Extends b) (g : b.Extends c) : a.Extends c :=
  fun r o hr => g r o (h r o hr)

theorem alloc (h : Heap) (o : Obj) : h.Extends (h.alloc o).2 := by
  intro r o' hr
  rw [get?_alloc_of_lt o (lt_size_of_get? hr)]
  exact hr

end Heap.Extends

mutual

theorem Heap.extends_ofJson (h : Heap) (json : Json) : h.Extends (h.ofJson json).2 := by
  cases json with
  | null => exact .refl h
  | bool b => exact .refl h
  | number n => exact .refl h
  | text s => exact .refl h
  | array items =>
      rw [Heap.ofJson]
      exact (extends_ofJsonItems h items).trans (.alloc _ _)
  | object fields =>
      rw [Heap.ofJson]
      exact (extends_ofJsonFields h fields).trans (.alloc _ _)

theorem Heap.extends_ofJsonItems (h : Heap) (items : List Json) : h.Extends (h.ofJsonItems items).2 := by
  cases items with
  | nil => exact .refl h
  | cons item items =>
      rw [Heap.ofJsonItems]
      exact (extends_ofJson h item).trans (extends_ofJsonItems _ items)

theorem Heap.extends_ofJsonFields (h : Heap) (fields : List (String × Json)) :
    h.Extends (h.ofJsonFields fields).2 := by
  cases fields with
  | nil => exact .refl h
  | cons field fields =>
      rw [Heap.ofJsonFields]
      exact (extends_ofJson h field.2).trans (extends_ofJsonFields _ fields)

end

/-- What a program can see of a realm is the same before and after. -/
structure Realm.Undisturbed (before after : Realm) : Prop where
  heap : before.heap.Extends after.heap
  globals : after.globals = before.globals
  random : after.random = before.random
  printed : after.printed = before.printed

namespace Realm.Undisturbed

theorem refl (realm : Realm) : realm.Undisturbed realm :=
  ⟨.refl _, rfl, rfl, rfl⟩

theorem trans {a b c : Realm} (h : a.Undisturbed b) (g : b.Undisturbed c) : a.Undisturbed c :=
  ⟨h.heap.trans g.heap, g.globals.trans h.globals, g.random.trans h.random, g.printed.trans h.printed⟩

end Realm.Undisturbed

namespace Eval

/-- What a computation gives from a state, and the state that it leaves. -/
def outcome (x : Eval α) (run : Run) : Except Interrupt α × Run :=
  x.run.run run

theorem outcome_bind (x : Eval α) (f : α → Eval β) (run : Run) :
    (x >>= f).outcome run =
      match x.outcome run with
      | (.ok a, after) => (f a).outcome after
      | (.error e, after) => (.error e, after) := by
  simp only [outcome, bind, ExceptT.bind, ExceptT.mk, ExceptT.run, StateT.bind, StateT.run, ExceptT.bindCont]
  cases h : x run with
  | mk result after => cases result <;> rfl

theorem outcome_raise (name message : String) (run : Run) :
    ∃ v after, (raise name message : Eval α).outcome run = (.error (.throw v), after) ∧
      after.realm.globals = run.realm.globals ∧ after.realm.heap.object? v = some (.error name message) := by
  refine ⟨.object ⟨run.realm.heap.size⟩, _, rfl, rfl, ?_⟩
  change (run.realm.heap.alloc _).2.get? ⟨run.realm.heap.size⟩ = _
  simp [Heap.alloc, Heap.get?, Heap.size]

/-- The computation leaves every realm undisturbed, whether it comes to its end or not. -/
def Harmless (x : Eval α) : Prop :=
  ∀ run : Run, run.realm.Undisturbed (x.outcome run).2.realm

namespace Harmless

theorem pure (a : α) : Harmless (Pure.pure a : Eval α) := fun _ => .refl _

theorem throw (e : Interrupt) : Harmless (throw e : Eval α) := fun _ => .refl _

theorem bind {x : Eval α} {f : α → Eval β} (hx : Harmless x) (hf : ∀ a, Harmless (f a)) :
    Harmless (x >>= f) := by
  intro run
  have first := hx run
  rw [outcome_bind]
  cases hr : x.outcome run with
  | mk result after =>
      rw [hr] at first
      cases result with
      | ok a => exact first.trans (hf a after)
      | error e => exact first

theorem ite {c : Prop} [Decidable c] {x y : Eval α} (hx : Harmless x) (hy : Harmless y) :
    Harmless (if c then x else y) := by
  split
  · exact hx
  · exact hy

theorem heap : Harmless heap := fun _ => .refl _

theorem globals : Harmless globals := fun _ => .refl _

theorem display (v : Value) : Harmless (display v) := fun _ => .refl _

theorem toNumber (v : Value) : Harmless (toNumber v) := fun _ => .refl _

theorem alloc (o : Obj) : Harmless (alloc o) := fun run =>
  ⟨.alloc run.realm.heap o, rfl, rfl, rfl⟩

theorem raise (name message : String) : Harmless (raise name message : Eval α) :=
  (alloc _).bind fun _ => throw _

theorem tick : Harmless tick := by
  rintro ⟨realm, ticks⟩
  cases ticks with
  | none => exact .refl _
  | some n => cases n <;> exact .refl _

theorem guardDepth (depth : Nat) : Harmless (guardDepth depth) :=
  ite (raise _ _) (pure _)

/-- Whatever stands behind a guard is out of reach of a speculative run. -/
theorem guarded (f : Unit → Eval α) : Harmless (guardEffect true >>= f) := fun run =>
  ⟨.alloc run.realm.heap _, rfl, rfl, rfl⟩

end Harmless

end Eval

open Eval

/-! ### Reading properties -/

theorem harmless_method (self : Value) (f : Option Builtin) : Harmless (method self f) := by
  cases f with
  | none => exact .pure _
  | some f => exact .alloc _

theorem harmless_getProperty (target : Value) (key : String) : Harmless (getProperty target key) := by
  refine Harmless.heap.bind fun h => ?_
  split
  · exact .pure _
  · exact harmless_method target _
  · exact (Harmless.display target).bind fun _ => .raise _ _

/-! ### Native functions -/

theorem harmless_callTextMethod (op : TextOp) (s : String) (args : List Value) :
    Harmless (callTextMethod op s args) := by
  refine Harmless.heap.bind fun h => ?_
  cases op with
  | indexOf =>
      dsimp only
      split <;> exact .pure _
  | repeated =>
      dsimp only
      split
      · exact .pure _
      · exact .raise _ _
      · exact .raise _ _
  | split => exact .alloc _
  | _ => exact .pure _

theorem harmless_callListMethod {op : ListOp} (hop : (Builtin.list op).hasSideEffect = false) (r : Ref)
    (items : Array Value) (args : List Value) : Harmless (callListMethod op r items args) := by
  refine Harmless.heap.bind fun h => ?_
  cases op with
  | join => exact .pure _
  | includes => exact .pure _
  | indexOf =>
      dsimp only
      split <;> exact .pure _
  | slice => exact .alloc _
  | concat => exact .alloc _
  | reverse => cases hop
  | push => cases hop
  | pop => cases hop

namespace Native

theorem harmless_stringify (v space : Value) : Harmless (stringify v space) := by
  refine Harmless.heap.bind fun h => ?_
  split
  · exact .raise _ _
  · exact .pure _
  · exact .pure _

theorem harmless_parseJson (source : String) : Harmless (parseJson source) := by
  unfold parseJson
  split
  · exact .raise _ _
  · exact fun run => ⟨Heap.extends_ofJson run.realm.heap _, rfl, rfl, rfl⟩

theorem harmless_ownFields (v : Value) : Harmless (ownFields v) := by
  cases v with
  | undefined => exact .raise _ _
  | null => exact .raise _ _
  | object r =>
      refine Harmless.heap.bind fun h => ?_
      split <;> exact .pure _
  | _ => exact .pure _

theorem harmless_fieldItems (part : FieldPart) (fields : List (String × Value)) :
    Harmless (fieldItems part fields) := by
  induction fields with
  | nil => exact .pure _
  | cons field fields ih =>
      have hitem : ∀ item : Value, Harmless (return item :: (← fieldItems part fields)) :=
        fun item => ih.bind fun _ => .pure _
      cases part with
      | keys => exact hitem _
      | values => exact hitem _
      | entries => exact (Harmless.alloc _).bind hitem

theorem harmless_textOf (self radix : Value) : Harmless (textOf self radix) := by
  cases self with
  | number x =>
      refine .ite (.pure _) ((Harmless.toNumber radix).bind fun n => ?_)
      exact .ite (.raise _ _) (.pure _)
  | _ => exact (Harmless.display _).bind fun _ => .pure _

theorem harmless_fixedText (self digits : Value) : Harmless (fixedText self digits) := by
  refine (Harmless.toNumber digits).bind fun x => ?_
  exact .ite (.raise _ _) ((Harmless.toNumber self).bind fun _ => .pure _)

end Native

open Native in
theorem harmless_callBuiltin {f : Builtin} (hf : f.hasSideEffect = false) (self : Value) (args : List Value) :
    Harmless (callBuiltin f self args) := by
  unfold callBuiltin
  cases f with
  | math op => exact (Harmless.toNumber _).bind fun _ => .pure _
  | mathMax => exact Harmless.heap.bind fun _ => .pure _
  | mathMin => exact Harmless.heap.bind fun _ => .pure _
  | mathPow => exact (Harmless.toNumber _).bind fun _ => (Harmless.toNumber _).bind fun _ => .pure _
  | mathRandom => cases hf
  | jsonStringify => exact harmless_stringify _ _
  | jsonParse => exact (Harmless.display _).bind fun _ => harmless_parseJson _
  | fields part =>
      refine (harmless_ownFields _).bind fun fields => ?_
      exact (harmless_fieldItems part fields).bind fun _ => .alloc _
  | isArray => exact Harmless.heap.bind fun _ => .pure _
  | toText =>
      cases args with
      | nil => exact .pure _
      | cons v args => exact (Harmless.display v).bind fun _ => .pure _
  | toNumber =>
      cases args with
      | nil => exact .pure _
      | cons v args => exact (Harmless.toNumber v).bind fun _ => .pure _
  | toBoolean => exact .pure _
  | consoleLog => cases hf
  | consoleError => cases hf
  | parseInt => exact (Harmless.display _).bind fun _ => (Harmless.toNumber _).bind fun _ => .pure _
  | parseFloat => exact (Harmless.display _).bind fun _ => .pure _
  | isNaN => exact (Harmless.toNumber _).bind fun _ => .pure _
  | isFinite => exact (Harmless.toNumber _).bind fun _ => .pure _
  | toString => exact harmless_textOf self _
  | toFixed => exact harmless_fixedText self _
  | text op => exact (Harmless.display self).bind fun s => harmless_callTextMethod op s args
  | list op =>
      dsimp only
      split
      · refine Harmless.heap.bind fun h => ?_
        split
        · exact harmless_callListMethod hf _ _ _
        · exact .raise _ _
      · exact .raise _ _

theorem harmless_callValue (depth : Nat) (function : Value) (args : List Value) (shown : String) :
    Harmless (callValue true depth function args shown) := by
  refine Harmless.heap.bind fun h => ?_
  split
  · rename_i f self _
    cases hf : f.hasSideEffect with
    | true => exact .guarded _
    | false => exact (Harmless.guardDepth depth).bind fun _ => harmless_callBuiltin hf _ args
  · exact .raise _ _

end ScriptRepl
